import Reticulum.Gornsh.Session

/-! The bytes of a remote shell: the initiator's stdin on its way to the command (cmd/gornsh/initiator-session.go), and
what the command writes on its way to the initiator (cmd/gornsh/session-runtime.go). -/

namespace Reticulum.Gornsh

open Text (ascii)

/-- The text of an error of a library. -/
abbrev ErrorText := { text : Bytes // text.length < 2 ^ 15 }

inductive ReadError where
  | eof
  | closed
  | other (text : ErrorText)
deriving DecidableEq, Repr

/-- The text of an error that is not `io.EOF`. -/
def ReadError.text : ReadError → Bytes
  | eof => ascii "EOF"
  | closed => ascii "file already closed"
  | other text => text.val

/-- What a `Read` returns. -/
structure ReadResult where
  data : Bytes := []
  err : Option ReadError := none
deriving DecidableEq, Repr

def sendProtocolErrorToSender (sender : Outbox) (message : Bytes) (fatal : Bool) (attempts : List Verdict) : Outbox :=
  (sendMessageWithRetry sender (.error { message, fatal }) attempts).1

/-- `compressAdaptiveStreamData`; none is the error of the compressor. -/
def compressAdaptiveStreamData (z : Bzip2) (data : Bytes) (maxSize : Nat) : Option (Bytes × Bool) :=
  if data = [] then some (data, false)
  else
    (z.compress defaultCompression data).map fun compressed =>
      if compressed.length < data.length ∧ (maxSize = 0 ∨ compressed.length ≤ maxSize) then (compressed, true)
      else (data, false)

/-- `messageSenderMDU` of a channel, which has no method of that name. -/
def messageSenderMDU : Nat := 0

structure TTYInputState where
  preEscape : Bool := false
  escape : Bool := false
  lineMode : Bool := false
deriving DecidableEq, Repr

structure TTYInputAction where
  stop : Bool := false
  help : Bool := false
  toggleLine : Bool := false
deriving DecidableEq, Repr

/-- `processInitiatorTTYInputChunk`: the output, the state and the action. -/
def processInitiatorTTYInputChunk :
    Bytes → TTYInputState → Bytes → TTYInputAction → Bytes × TTYInputState × TTYInputAction
  | [], state, output, action => (output, state, action)
  | b :: data, state, output, action =>
    if state.escape then
      let state := { state with escape := false }
      -- ~ . L ?
      if b = 0x7e then processInitiatorTTYInputChunk data state (output ++ [b]) action
      else if b = 0x2e then (output, state, { action with stop := true })
      else if b = 0x4c then
        processInitiatorTTYInputChunk data { state with lineMode := !state.lineMode } output
          { action with toggleLine := true }
      else if b = 0x3f then processInitiatorTTYInputChunk data state output { action with help := true }
      else processInitiatorTTYInputChunk data state (output ++ [0x7e, b]) action
    else if state.preEscape ∧ b = 0x7e then
      processInitiatorTTYInputChunk data { state with preEscape := false, escape := true } output action
    else if b = 0x0a ∨ b = 0x0d then
      processInitiatorTTYInputChunk data { state with preEscape := true } (output ++ [b]) action
    else processInitiatorTTYInputChunk data { state with preEscape := false } (output ++ [b]) action

/-- The compressor with the text of its error, and what the attempts of each send meet until its deadline. -/
structure PumpEnv where
  z : Bzip2
  compressError : ErrorText
  attempts : Nat → List Verdict

namespace PumpEnv

/-- The `i`th send of the pump. -/
def send (env : PumpEnv) (i : Nat) (sender : Outbox) (m : StreamDataMessage) : Outbox × Option SendError :=
  sendMessageWithRetry sender (.streamData m) (env.attempts i)

/-- The end of `pumpInitiatorStdin` after an error of the read. -/
def finish (env : PumpEnv) (i : Nat) (sender : Outbox) (e : ReadError) : Outbox :=
  if e = .eof then (env.send i sender { streamID := streamIDStdin, eof := true }).1
  else
    let sender := sendProtocolErrorToSender sender e.text true (env.attempts i)
    (env.send (i + 1) sender { streamID := streamIDStdin, eof := true }).1

/-- `pumpInitiatorStdin`, from the send with the number `i` on; the list is what the reads return. -/
def pumpInitiatorStdin (env : PumpEnv) (useTTY : Bool) (i : Nat) (state : TTYInputState) (sender : Outbox) :
    List ReadResult → Outbox
  | [] => sender
  | r :: reads =>
    let next (i : Nat) (state : TTYInputState) (sender : Outbox) : Outbox :=
      match r.err with
      | none => pumpInitiatorStdin env useTTY i state sender reads
      | some e => env.finish i sender e
    if r.data = [] then next i state sender
    else if useTTY then
      let (payload, state, action) := processInitiatorTTYInputChunk r.data state [] {}
      -- An error of a read that returned data is not looked at.
      if payload = [] then
        if action.stop then sender else pumpInitiatorStdin env useTTY i state sender reads
      else
        match env.send i sender { streamID := streamIDStdin, data := payload } with
        | (sender, some _) => sender
        | (sender, none) =>
          if action.stop then sender else pumpInitiatorStdin env useTTY (i + 1) state sender reads
    else
      match compressAdaptiveStreamData env.z r.data messageSenderMDU with
      | none => sendProtocolErrorToSender sender env.compressError.val true (env.attempts i)
      | some (payload, compressed) =>
        match env.send i sender { streamID := streamIDStdin, data := payload, compressed } with
        | (sender, some _) => sender
        | (sender, none) => next (i + 1) state sender

/-- The start of the pump in `runInitiatorProtocolFlow`. -/
def pumpInput (env : PumpEnv) (noTTY useTTY : Bool) (sender : Outbox) (reads : List ReadResult) : Outbox :=
  if noTTY then sender else env.pumpInitiatorStdin useTTY 0 {} sender reads

end PumpEnv

/-- The handler of the listener's channel: the sections of a message follow each other, and its pipe does not fail. -/
def Listener.receive (cfg : ListenerConfig) (l : Listener) (m : Message) : Listener :=
  let run (r : Listener × List Point) : Listener × List Point :=
    match r.2 with
    | [] => r
    | t :: rest =>
      let r' := Listener.exec cfg r.1 t {}
      (r'.1, r'.2 ++ rest)
  (run (run (run (run (l, [.message m]))))).1

/-- A call of `streamPipe`: what the reads will return, and whether it has returned. -/
structure Pump where
  streamID : UInt16
  reads : List ReadResult
  done : Bool := false
deriving DecidableEq, Repr

/-- What the attempts of the sends of a round meet, and an error of closing the pipe that is reported. -/
structure Round where
  attempts : List Verdict
  errorAttempts : List Verdict := []
  closeError : Option ErrorText := none
deriving DecidableEq, Repr

namespace Pump

def close (p : Pump) (sender : Outbox) (r : Round) : Outbox × Pump :=
  (match r.closeError with
    | none => sender
    | some text => sendProtocolErrorToSender sender (ascii "stream close failed: " ++ text.val) false r.errorAttempts,
    { p with done := true })

/-- One round of `streamPipe`; none while the read waits and after the end. A repeated send counts where accepted. -/
def round (p : Pump) (sender : Outbox) (r : Round) : Option (Outbox × Pump) :=
  if p.done then none
  else
    match p.reads with
    | [] => none
    | read :: reads =>
      let p := { p with reads }
      let (sender, failed) :=
        if read.data = [] then (sender, none)
        else sendMessageWithRetry sender (.streamData { streamID := p.streamID, data := read.data }) r.attempts
      match failed, read.err with
      | some _, _ => some (p.close sender r)
      | none, none => some (sender, p)
      | none, some .eof | none, some .closed => some (p.close sender r)
      | none, some (.other text) => some (p.close (sendProtocolErrorToSender sender text.val true r.errorAttempts) r)

end Pump

/-- What `cmd.Wait` returns. -/
inductive WaitResult where
  | success
  | exitError (code : Int64)
  | failed (text : ErrorText)
deriving DecidableEq, Repr

/-- The goroutines of `startSessionCommand`: the two pumps, and the one that sends the exit message. -/
structure CommandOutput where
  sender : Outbox
  stdout : Pump
  stderr : Pump
  exited : Bool := false
deriving DecidableEq, Repr

namespace CommandOutput

inductive Action where
  | stdout (r : Round)
  | stderr (r : Round)
  | exit (wait : WaitResult) (r : Round)
deriving DecidableEq, Repr

def exit (w : CommandOutput) (wait : WaitResult) (r : Round) : CommandOutput :=
  let (exitCode, sender) : Int64 × Outbox :=
    match wait with
    | .success => (0, w.sender)
    | .exitError code => (code, w.sender)
    | .failed text => (127, sendProtocolErrorToSender w.sender text.val true r.errorAttempts)
  { w with sender := (sendMessageWithRetry sender (.commandExited exitCode) r.attempts).1, exited := true }

def step (w : CommandOutput) : Action → Option CommandOutput
  | .stdout r => (w.stdout.round w.sender r).map fun (sender, stdout) => { w with sender, stdout }
  | .stderr r => (w.stderr.round w.sender r).map fun (sender, stderr) => { w with sender, stderr }
  | .exit wait r => if w.stdout.done && w.stderr.done && !w.exited then some (w.exit wait r) else none

end CommandOutput

inductive InitiatorState where
  | waitVersion
  | waitExit
  | done
deriving DecidableEq, Repr

/-- `initiatorChannelSession`, with what was written to stdout and stderr. The channels hold one value at most. -/
structure InitiatorSession where
  state : InitiatorState := .waitVersion
  versionAckCh : Bool := false
  doneCh : Option Int64 := none
  errCh : Option Bytes := none
  stdout : Bytes := []
  stderr : Bytes := []
  stdoutWriter : Bytes := []
  stderrWriter : Bytes := []
  terminated : Bool := false
  lastExit : Option Int64 := none
  lastErr : Option Bytes := none
  sawStdout : Bool := false
  sawStderr : Bool := false
  stdoutEOF : Bool := false
  stderrEOF : Bool := false
deriving DecidableEq, Repr

namespace InitiatorSession

def emitErrLocked (s : InitiatorSession) (e : Bytes) : InitiatorSession := { s with errCh := s.errCh.or (some e) }

def appendStreamLocked (s : InitiatorSession) (msg : StreamDataMessage) : InitiatorSession :=
  if msg.streamID = streamIDStdout then
    { s with
      sawStdout := true
      stdoutEOF := s.stdoutEOF || msg.eof
      stdoutWriter := s.stdoutWriter ++ msg.data
      stdout := s.stdout ++ msg.data }
  else if msg.streamID = streamIDStderr then
    { s with
      sawStderr := true
      stderrEOF := s.stderrEOF || msg.eof
      stderrWriter := s.stderrWriter ++ msg.data
      stderr := s.stderr ++ msg.data }
  else s

/-- `handleMessage`, given `decodeCompressedStreamData` with the text of its error. -/
def handleMessage (decode : Bytes → Except Bytes Bytes) (s : InitiatorSession) : Message → InitiatorSession
  | .versionInfo msg =>
    if s.state ≠ .waitVersion then s
    else if msg.protocolVersion ≠ protocolVersion then s.emitErrLocked (ascii "incompatible protocol")
    else { s with state := .waitExit, versionAckCh := true }
  | .streamData msg =>
    if s.state = .waitVersion then s
    else if msg.compressed then
      match decode msg.data with
      | .error e => s.emitErrLocked e
      | .ok data => s.appendStreamLocked { msg with data, compressed := false }
    else s.appendStreamLocked msg
  | .error msg =>
    if msg.fatal then
      let err := ascii "remote error: " ++ msg.message
      { { s with lastErr := some err, state := .done }.emitErrLocked err with terminated := true }
    else if msg.message ≠ [] then
      { s with stderr := s.stderr ++ ascii "remote warning: " ++ msg.message ++ ascii "\n" }
    else s
  | .commandExited returnCode =>
    if s.state ≠ .waitExit then s
    else
      { s with
        state := .done
        terminated := true
        lastExit := some returnCode
        doneCh := s.doneCh.or (some returnCode) }
  | .noop | .windowSize _ | .execute _ => s

end InitiatorSession

end Reticulum.Gornsh
