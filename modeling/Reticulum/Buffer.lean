import Reticulum.Outbox
import Reticulum.Resource.Basic

/-! Byte streams over a channel (rns/buffer.go): the writer cuts what is written into messages, and the reader puts the
data of the messages of its stream together again. -/

namespace Reticulum

def smtStreamData : UInt16 := 0xff00

def streamIDMax : UInt16 := 0x3fff

def bufferMaxChunkLen : Nat := 16 * 1024

def bufferCompressionTries : Nat := 4

def defaultCompression : Int := 6

structure StreamDataMessage where
  streamID : UInt16
  data : Bytes := []
  eof : Bool := false
  compressed : Bool := false
deriving DecidableEq, Repr

namespace StreamDataMessage

def headerVal (m : StreamDataMessage) : UInt16 :=
  let headerVal := m.streamID &&& 0x3fff
  let headerVal := if m.eof then headerVal ||| 0x8000 else headerVal
  if m.compressed then headerVal ||| 0x4000 else headerVal

/-- `Pack`; none is the error. -/
def pack (m : StreamDataMessage) : Option Bytes :=
  if m.streamID > streamIDMax then none else some (putUint16 m.headerVal ++ m.data)

def parse : Bytes → Option StreamDataMessage
  | hi :: lo :: data =>
    let headerVal := beUint16 hi lo
    some {
      streamID := headerVal &&& 0x3fff
      data
      eof := headerVal &&& 0x8000 ≠ 0
      compressed := headerVal &&& 0x4000 ≠ 0 }
  | _ => none

/-- `Unpack`, which also decompresses. -/
def unpack (z : Bzip2) (data : Bytes) : Option StreamDataMessage :=
  match parse data with
  | none => none
  | some m =>
    if m.compressed then
      match z.decompress m.data bufferMaxChunkLen with
      | .error _ => none
      | .ok decompressed => some { m with data := decompressed }
    else some m

/-- What `Send` gets of the message. -/
def toMessage (m : StreamDataMessage) : Message := { msgType := smtStreamData, data := m.pack }

end StreamDataMessage

/-- `NewChannelReader` registers the type of the stream messages. -/
def streamFactories (z : Bzip2) (msgType : UInt16) : Option (MessageFactory StreamDataMessage) :=
  if msgType = smtStreamData then some (StreamDataMessage.unpack z) else none

structure ChannelReader where
  streamID : UInt16
  buffer : Bytes := []
  eof : Bool := false
deriving DecidableEq, Repr

inductive ReadResult where
  | data (bytes : Bytes)
  | eof
deriving DecidableEq, Repr

def ReadResult.bytes : ReadResult → Bytes
  | .data bytes => bytes
  | .eof => []

namespace ChannelReader

/-- `handleMessage`; true when the message is one of the stream. -/
def handleMessage (cr : ChannelReader) (sm : StreamDataMessage) : ChannelReader × Bool :=
  if sm.streamID ≠ cr.streamID then (cr, false)
  else ({ cr with buffer := cr.buffer ++ sm.data, eof := cr.eof || sm.eof }, true)

/-- `Read` into a slice of the given length; none when it waits. -/
def read (cr : ChannelReader) (length : Nat) : Option (ChannelReader × ReadResult) :=
  if cr.buffer = [] then
    if cr.eof then some (cr, .eof) else none
  else some ({ cr with buffer := cr.buffer.drop length }, .data (cr.buffer.take length))

end ChannelReader

/-- A reader, and what its `Read` calls have returned. -/
structure Reading where
  reader : ChannelReader
  returned : List ReadResult := []
deriving DecidableEq, Repr

namespace Reading

/-- The channel hands over a message, or a `Read` is called. Both run under the lock of the reader. -/
inductive Action where
  | message (sm : StreamDataMessage)
  | read (length : Nat)
deriving DecidableEq, Repr

def step (s : Reading) : Action → Option Reading
  | .message sm => some { s with reader := (s.reader.handleMessage sm).1 }
  | .read length => (s.reader.read length).map fun (reader, result) => ⟨reader, s.returned ++ [result]⟩

def bytes (s : Reading) : Bytes := s.returned.flatMap (·.bytes)

end Reading

structure ChannelWriter where
  streamID : UInt16
  enableCompression : Bool := true
deriving DecidableEq, Repr

inductive WriteError where
  | mdu
  | compress
  | send (e : SendError)
deriving DecidableEq, Repr

/-- What goes into one message: its data, how many written bytes they stand for, and whether compressed. -/
structure Chunk where
  data : Bytes
  processedLen : Nat
  compressed : Bool
deriving DecidableEq, Repr

namespace ChannelWriter

/-- The search over the parts of a candidate that may be compressed. An error of the compressor ends it. -/
def compressTries (z : Bzip2) (mdu : Nat) (remaining : Bytes) (candidateLen : Nat) :
    List Nat → Except WriteError (Option Chunk)
  | [] => .ok none
  | compTry :: tries =>
    let segmentLen := candidateLen / compTry
    if segmentLen = 0 then compressTries z mdu remaining candidateLen tries
    else
      match z.compress defaultCompression (remaining.take segmentLen) with
      | none => .error .compress
      | some compressedChunk =>
        if compressedChunk.length < mdu ∧ compressedChunk.length < segmentLen then
          .ok (some { data := compressedChunk, processedLen := segmentLen, compressed := true })
        else compressTries z mdu remaining candidateLen tries

/-- The chunk that one round of the loop in `Write` takes from the front of the bytes that remain. -/
def nextChunk (cw : ChannelWriter) (z : Bzip2) (mdu : Nat) (remaining : Bytes) : Except WriteError Chunk :=
  let candidateLen := min remaining.length bufferMaxChunkLen
  let tries := if cw.enableCompression && candidateLen > 32 then List.range' 1 (bufferCompressionTries - 1) else []
  match compressTries z mdu remaining candidateLen tries with
  | .error e => .error e
  | .ok (some chunk) => .ok chunk
  | .ok none =>
    let processedLen := min candidateLen mdu
    .ok { data := remaining.take processedLen, processedLen, compressed := false }

/-- The loop of `Write`. A round takes at least one byte. -/
def writeLoop (cw : ChannelWriter) (z : Bzip2) : Nat → Outbox → Bytes → Nat → Outbox × Nat × Option WriteError
  | 0, o, _, sent => (o, sent, none)
  | rounds + 1, o, remaining, sent =>
    if remaining = [] then (o, sent, none)
    else
      match cw.nextChunk z (o.mdu - 8) remaining with
      | .error e => (o, sent, some e)
      | .ok chunk =>
        let msg : StreamDataMessage :=
          { streamID := cw.streamID, data := chunk.data, compressed := chunk.compressed }
        match o.send msg.toMessage with
        | (o, some e) => (o, sent, some (.send e))
        | (o, none) =>
          writeLoop cw z rounds o (remaining.drop chunk.processedLen) (sent + chunk.processedLen)

/-- `Write`: the channel, the number of bytes and the error. Envelope and message take eight bytes. -/
def write (cw : ChannelWriter) (z : Bzip2) (o : Outbox) (p : Bytes) : Outbox × Nat × Option WriteError :=
  if o.mdu ≤ 8 then (o, 0, some .mdu) else cw.writeLoop z p.length o p 0

def close (cw : ChannelWriter) (o : Outbox) : Outbox × Option SendError :=
  o.send { streamID := cw.streamID, eof := true : StreamDataMessage }.toMessage

def writeAll (cw : ChannelWriter) (z : Bzip2) (o : Outbox) : List Bytes → Outbox × List (Nat × Option WriteError)
  | [] => (o, [])
  | p :: ps =>
    let r := cw.write z o p
    let rest := cw.writeAll z r.1 ps
    (rest.1, r.2 :: rest.2)

end ChannelWriter

end Reticulum
