import Reticulum.Gornsh.Protocol
import Reticulum.Text
import Reticulum.Threads

/-! The listener's side of a remote shell session (cmd/gornsh/session.go, cmd/gornsh/session-runtime.go). A section is
what a callback of the link or the handler of the channel does under one lock. -/

namespace Reticulum.Gornsh

open Text (ascii)

inductive LsState where
  | waitIdent
  | waitVers
  | waitCmd
  | running
  | error
  | teardown
deriving DecidableEq, Repr

namespace LsState

/-- `stateNameLocked`. -/
def name : LsState → Bytes
  | waitIdent => ascii "LSSTATE_WAIT_IDENT"
  | waitVers => ascii "LSSTATE_WAIT_VERS"
  | waitCmd => ascii "LSSTATE_WAIT_CMD"
  | running => ascii "LSSTATE_RUNNING"
  | error => ascii "LSSTATE_ERROR"
  | teardown => ascii "LSSTATE_TEARDOWN"

def protocolError (s : LsState) : Bytes := ascii "protocol error (" ++ s.name ++ ascii ")"

end LsState

structure ListenerConfig where
  noAuth : Bool
  allowedList : List Bytes
  noRemoteCmd : Bool
  remoteAsArgs : Bool
  commandLine : List Bytes
  softwareVersion : Bytes
  loginShell : Bytes

/-- `identityAllowed`, or no authentication. -/
def ListenerConfig.allowed (cfg : ListenerConfig) (hash : Bytes) : Bool := cfg.noAuth || hash ∈ cfg.allowedList

structure ListenerSession where
  state : LsState
  allowAll : Bool
  allowRemoteCommand : Bool
  remoteCmdAsArgs : Bool
  defaultCommand : List Bytes
  softwareVersion : Bytes
  loginShell : Bytes
  remoteIdentity : Bytes := []
  cmdline : List Bytes := []
  stdinIsPipe : Bool := false
  stdoutIsPipe : Bool := false
  stderrIsPipe : Bool := false
  term : Option Bytes := none
  rows : Option Int64 := none
  cols : Option Int64 := none
  hpix : Option Int64 := none
  vpix : Option Int64 := none

namespace ListenerSession

/-- `newListenerSession`. -/
def new (cfg : ListenerConfig) : ListenerSession where
  state := if cfg.noAuth then .waitVers else .waitIdent
  allowAll := cfg.noAuth
  allowRemoteCommand := !cfg.noRemoteCmd
  remoteCmdAsArgs := cfg.remoteAsArgs
  defaultCommand := cfg.commandLine
  softwareVersion := if cfg.softwareVersion = [] then ascii "gornsh" else cfg.softwareVersion
  loginShell := cfg.loginShell

variable (s : ListenerSession)

/-- The session stops with an error. -/
def fail : ListenerSession := { s with state := .error }

def markTeardown : ListenerSession := { s with state := .teardown }

def onInitiatorIdentified (identityHash : Bytes) (isAllowed : Bool) :
    ListenerSession × Except Bytes Unit :=
  if s.state ≠ .waitIdent ∧ s.state ≠ .waitVers then (s, .error s.state.protocolError)
  else if s.allowAll = false ∧ isAllowed = false then (s.fail, .error (ascii "identity is not allowed"))
  else if s.remoteIdentity ≠ [] ∧ s.remoteIdentity ≠ identityHash then
    (s.fail, .error (ascii "remote identity changed during setup"))
  else ({ s with remoteIdentity := identityHash, state := .waitVers }, .ok ())

def handleVersion (msg : VersionInfoMessage) :
    ListenerSession × Except Bytes (Option VersionInfoMessage) :=
  if s.state = .waitIdent then (s, .ok none)
  -- The text names the state after the change.
  else if s.state ≠ .waitVers then (s.fail, .error LsState.error.protocolError)
  else if msg.protocolVersion ≠ protocolVersion then (s.fail, .error (ascii "incompatible protocol"))
  else ({ s with state := .waitCmd }, .ok (some ⟨s.softwareVersion, protocolVersion⟩))

def baseCommand : List Bytes := if s.defaultCommand = [] then [s.loginShell] else s.defaultCommand

def resolveCommand (remoteCommand : List Bytes) : Except Bytes (List Bytes) :=
  if remoteCommand ≠ [] ∧ s.allowRemoteCommand = false then
    .error (ascii "remote command line not allowed by listener")
  else if remoteCommand = [] then .ok s.baseCommand
  else if s.remoteCmdAsArgs then .ok (s.baseCommand ++ remoteCommand)
  else .ok remoteCommand

def handleExecute (msg : ExecuteCommandMessage) : ListenerSession × Except Bytes (List Bytes) :=
  if s.state ≠ .waitCmd then (s.fail, .error LsState.error.protocolError)
  else
    match s.resolveCommand msg.commandLine with
    | .error e => (s.fail, .error e)
    | .ok cmdline =>
      ({ s with
          cmdline
          stdinIsPipe := msg.pipeStdin
          stdoutIsPipe := msg.pipeStdout
          stderrIsPipe := msg.pipeStderr
          term := msg.term
          rows := msg.rows
          cols := msg.cols
          hpix := msg.hpix
          vpix := msg.vpix
          state := .running }, .ok cmdline)

def handleWindowSize (msg : WindowSizeMessage) : ListenerSession × Except Bytes Unit :=
  if s.state ≠ .running then (s, .error s.state.protocolError)
  else
    ({ s with
        rows := (msg.rows.filter (0 < ·)).or s.rows
        cols := (msg.cols.filter (0 < ·)).or s.cols
        hpix := msg.hpix
        vpix := msg.vpix }, .ok ())

def handleStreamData (msg : StreamDataMessage) : ListenerSession × Except Bytes Unit :=
  if s.state ≠ .running then (s, .error s.state.protocolError)
  else if msg.streamID ≠ streamIDStdin then (s.fail, .error LsState.error.protocolError)
  else (s, .ok ())

end ListenerSession

inductive PipeError where
  | closedPipe
  | alreadyClosed
  | other (text : Bytes)
deriving DecidableEq, Repr

structure ActiveCommand where
  written : Bytes := []
  closed : Bool := false
deriving DecidableEq, Repr

namespace ActiveCommand

/-- `writeStdin`, given the errors of the pipe; the result is the text that the handler reports. -/
def writeStdin (ac : ActiveCommand) (data : Bytes) (eof : Bool) (writeError closeError : Option PipeError) :
    ActiveCommand × Option Bytes :=
  if ac.closed then (ac, none)
  else
    match if data = [] then none else writeError with
    | some (.other text) => (ac, some text)
    | some .alreadyClosed => (ac, some (ascii "file already closed"))
    | some .closedPipe => (ac, none)
    | none =>
      let ac := { ac with written := ac.written ++ data }
      if eof then
        ({ ac with closed := true },
          match closeError with
          | some (.other text) => some text
          | _ => none)
      else (ac, none)

def close (ac : ActiveCommand) : ActiveCommand := { ac with closed := true }

end ActiveCommand

/-- A call of `startSessionCommand`. -/
structure Start where
  commandLine : List Bytes
  remoteIdentity : Option Bytes
  execute : ExecuteCommandMessage

/-- What the closures of `wireListenerChannelSession` share, with the commands that were started. The rest records the
    calls of `startSessionCommand`, the verified identities, those verified before the version was accepted, and what
    was sent. -/
structure Listener where
  session : ListenerSession
  remoteIdentity : Option Bytes := none
  commands : List ActiveCommand := []
  command : Option Nat := none
  starts : List Start := []
  verified : List Bytes := []
  acceptedAfter : Option (List Bytes) := none
  replies : List Message := []

inductive Point where
  | identified (hash : Bytes)
  | linkClosed
  | message (m : Message)
  | onIdentified (hash : Bytes)
  | closeCommand
  | dispatch (m : Message)
  | start (commandLine : List Bytes) (m : ExecuteCommandMessage)
  | findCommand (m : StreamDataMessage)
  | write (command : Nat) (m : StreamDataMessage)
deriving DecidableEq

def Point.isEntry : Point → Bool
  | identified _ | linkClosed | message _ => true
  | _ => false

/-- What the environment decides in a section: the error of starting a command, and the errors of its stdin. -/
structure Outcome where
  startError : Option Bytes := none
  writeError : Option PipeError := none
  closeError : Option PipeError := none

namespace Listener

def new (cfg : ListenerConfig) : Listener := { session := .new cfg }

variable (l : Listener)

def reply (m : Message) : Listener := { l with replies := l.replies ++ [m] }

/-- `sendProtocolError` with a fatal error. -/
def report (text : Bytes) : Listener := l.reply (.error { message := text, fatal := true })

/-- The result of a session call that goes on with the value, or is reported. -/
def proceed {α : Type} (r : ListenerSession × Except Bytes α) (next : Listener → α → Listener × List Point) :
    Listener × List Point :=
  let l := { l with session := r.1 }
  match r.2 with
  | .error e => (l.report e, [])
  | .ok a => next l a

/-- `command.close()` and `command = nil`. -/
def dropCommand : Listener :=
  match l.command with
  | none => l
  | some i => { l with commands := l.commands.modify i ActiveCommand.close, command := none }

def dispatched : Message → Listener × List Point
  | .versionInfo m =>
    l.proceed (l.session.handleVersion m) fun l response =>
      match response with
      | none => (l, [])
      | some response => ({ l with acceptedAfter := some l.verified }.reply (.versionInfo response), [])
  | .execute m => l.proceed (l.session.handleExecute m) fun l commandLine => (l, [.start commandLine m])
  | .windowSize m => l.proceed (l.session.handleWindowSize m) fun l _ => (l, [])
  | .streamData m => l.proceed (l.session.handleStreamData m) fun l _ => (l, [.findCommand m])
  | .noop => (if l.session.state = .running then l.reply .noop else l, [])
  | .error _ | .commandExited _ => (l, [])

def exec (cfg : ListenerConfig) (l : Listener) (t : Point) (out : Outcome) : Listener × List Point :=
  match t with
  -- The link stores a verified identity before it calls back.
  | .identified hash => ({ l with remoteIdentity := some hash, verified := hash :: l.verified }, [.onIdentified hash])
  | .onIdentified hash =>
    l.proceed (l.session.onInitiatorIdentified hash (cfg.allowed hash)) fun l _ => (l, [])
  | .linkClosed => ({ l with session := l.session.markTeardown }, [.closeCommand])
  | .closeCommand => (l.dropCommand, [])
  | .message m => (l, if l.session.state = .teardown then [] else [.dispatch m])
  | .dispatch m => l.dispatched m
  | .start commandLine m =>
    let l := l.dropCommand
    let l := { l with starts := l.starts ++ [Start.mk commandLine l.remoteIdentity m] }
    match out.startError with
    | some e => (l.report (ascii "command start failed: " ++ e), [])
    | none => ({ l with commands := l.commands ++ [({} : ActiveCommand)], command := some l.commands.length }, [])
  | .findCommand m =>
    match l.command with
    | none => (l.report (ascii "no active command for stdin stream"), [])
    | some i => (l, [.write i m])
  | .write i m =>
    match l.commands[i]? with
    | none => (l, [])
    | some ac =>
      let r := ac.writeStdin m.data m.eof out.writeError out.closeError
      let l := { l with commands := l.commands.set i r.1 }
      (match r.2 with
        | none => l
        | some text => l.report text, [])

end Listener

def listenerSystem (cfg : ListenerConfig) : Threads.System Listener Point Outcome where
  entry := Point.isEntry
  exec l t out := some (Listener.exec cfg l t out)

end Reticulum.Gornsh
