import Reticulum.Binary64
import Reticulum.Buffer

/-! The messages of the remote shell (cmd/gornsh/protocol.go), and how they are sent (cmd/gornsh/initiator-session.go). -/

namespace Reticulum.Gornsh

open Msgpack (Value)

def msgMagic : UInt16 := 0xac

def protocolVersion : Int64 := 1

def makeMsgType (value : UInt16) : UInt16 := msgMagic <<< 8 &&& 0xff00 ||| value &&& 0x00ff

def streamIDStdin : UInt16 := 0
def streamIDStdout : UInt16 := 1
def streamIDStderr : UInt16 := 2

structure WindowSizeMessage where
  rows : Option Int64
  cols : Option Int64
  hpix : Option Int64
  vpix : Option Int64
deriving DecidableEq

structure ExecuteCommandMessage where
  commandLine : List Bytes
  pipeStdin : Bool
  pipeStdout : Bool
  pipeStderr : Bool
  tcFlags : Value
  term : Option Bytes
  rows : Option Int64
  cols : Option Int64
  hpix : Option Int64
  vpix : Option Int64
deriving DecidableEq

structure VersionInfoMessage where
  softwareVersion : Bytes
  protocolVersion : Int64
deriving DecidableEq

structure ErrorMessage where
  message : Bytes
  fatal : Bool
  data : Value := .nil
deriving DecidableEq

/-- The message types. The stream data have the wire format of the streams over a channel. -/
inductive Message where
  | noop
  | windowSize (m : WindowSizeMessage)
  | execute (m : ExecuteCommandMessage)
  | streamData (m : StreamDataMessage)
  | versionInfo (m : VersionInfoMessage)
  | error (m : ErrorMessage)
  | commandExited (returnCode : Int64)
deriving DecidableEq

/-- A pointer that may be nil. -/
def optionalInt (i : Option Int64) : Value := (i.map .int).getD .nil

def optionalString (s : Option Bytes) : Value := (s.map .str).getD .nil

namespace Message

/-- `GetMsgType`. -/
def msgType : Message → UInt16
  | noop => makeMsgType 0
  | windowSize _ => makeMsgType 2
  | execute _ => makeMsgType 3
  | streamData _ => makeMsgType 4
  | versionInfo _ => makeMsgType 5
  | error _ => makeMsgType 6
  | commandExited _ => makeMsgType 7

/-- `Pack`; none is the error. -/
def pack : Message → Option Bytes
  | noop => some []
  | windowSize m => some (Msgpack.pack false (.array ([m.rows, m.cols, m.hpix, m.vpix].map optionalInt)))
  | execute m =>
    some (Msgpack.pack false (.array ([.array (m.commandLine.map .str), .bool m.pipeStdin, .bool m.pipeStdout,
      .bool m.pipeStderr, m.tcFlags, optionalString m.term] ++ [m.rows, m.cols, m.hpix, m.vpix].map optionalInt)))
  | streamData m => m.pack
  | versionInfo m =>
    let version := if m.protocolVersion = 0 then protocolVersion else m.protocolVersion
    some (Msgpack.pack false (.array [.str m.softwareVersion, .int version]))
  | error m => some (Msgpack.pack false (.array [.str m.message, .bool m.fatal, m.data]))
  | commandExited returnCode => some (Msgpack.pack false (.int returnCode))

/-- What `Send` gets of the message. -/
def toMessage (m : Message) : Reticulum.Message := { msgType := m.msgType, data := m.pack }

end Message

/-- The conversion of a float64 to an int, as amd64 has it for numbers that an int cannot hold. -/
def floatToInt (bits : UInt64) : Int64 :=
  match Binary64.ofBits bits with
  | .finite q =>
    let i := Int.tdiv q.num q.den
    if Int64.minValue.toInt ≤ i ∧ i ≤ Int64.maxValue.toInt then Int64.ofInt i else Int64.minValue
  | _ => Int64.minValue

def toInt : Value → Option Int64
  | .int i => some i
  | .uint n => some n.toInt64
  | .float32 bits => some (floatToInt (Binary64.widen bits))
  | .float64 bits => some (floatToInt bits)
  | _ => none

def toOptionalStringPtr : Value → Option Bytes
  | .str s => some s
  | _ => none

def toStringSlice : Value → List Bytes
  | .array items => items.filterMap toOptionalStringPtr
  | _ => []

def toBool : Value → Bool
  | .bool b => b
  | _ => false

def unpackParts (raw : Bytes) : List Value :=
  match Msgpack.unpack raw with
  | .ok (.array parts) => parts
  | _ => []

def unpackWindowSize (raw : Bytes) : Option Message :=
  match unpackParts raw with
  | [rows, cols, hpix, vpix] =>
    some (.windowSize { rows := toInt rows, cols := toInt cols, hpix := toInt hpix, vpix := toInt vpix })
  | _ => none

def unpackExecute (raw : Bytes) : Option Message :=
  match unpackParts raw with
  | [commandLine, pipeStdin, pipeStdout, pipeStderr, tcFlags, term, rows, cols, hpix, vpix] =>
    some (.execute {
      commandLine := toStringSlice commandLine
      pipeStdin := toBool pipeStdin
      pipeStdout := toBool pipeStdout
      pipeStderr := toBool pipeStderr
      tcFlags
      term := toOptionalStringPtr term
      rows := toInt rows
      cols := toInt cols
      hpix := toInt hpix
      vpix := toInt vpix })
  | _ => none

def unpackVersionInfo (raw : Bytes) : Option Message :=
  match unpackParts raw with
  | [softwareVersion, version] =>
    some (.versionInfo {
      softwareVersion := (toOptionalStringPtr softwareVersion).getD []
      protocolVersion := (toInt version).getD 0 })
  | _ => none

def unpackError (raw : Bytes) : Option Message :=
  match unpackParts raw with
  | [message, fatal, data] =>
    some (.error { message := (toOptionalStringPtr message).getD [], fatal := toBool fatal, data })
  | _ => none

def unpackCommandExited (raw : Bytes) : Option Message :=
  match Msgpack.unpack raw with
  | .ok value => (toInt value).map .commandExited
  | .error _ => none

/-- `registerProtocolMessageTypes`. -/
def factories (msgType : UInt16) : Option (MessageFactory Message) :=
  if msgType = makeMsgType 0 then some fun _ => some .noop
  else if msgType = makeMsgType 2 then some unpackWindowSize
  else if msgType = makeMsgType 3 then some unpackExecute
  else if msgType = makeMsgType 4 then some fun raw => (StreamDataMessage.parse raw).map .streamData
  else if msgType = makeMsgType 5 then some unpackVersionInfo
  else if msgType = makeMsgType 6 then some unpackError
  else if msgType = makeMsgType 7 then some unpackCommandExited
  else none

/-- `sendMessageWithRetry`, given what the attempts until the deadline meet. -/
def sendMessageWithRetry (sender : Outbox) (msg : Message) : List Verdict → Outbox × Option SendError
  | [] => (sender, some .notReady)
  | verdict :: attempts =>
    match { sender with verdicts := [verdict] }.send msg.toMessage with
    | (sender, none) => (sender, none)
    | (sender, some e) => if attempts = [] then (sender, some e) else sendMessageWithRetry sender msg attempts

end Reticulum.Gornsh
