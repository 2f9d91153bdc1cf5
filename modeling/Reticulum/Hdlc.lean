import Reticulum.Bytes

/-! HDLC framing (rns/interfaces/hdlc.go) and how the TCP interface uses it (rns/interfaces/tcp.go): `Send` writes a
frame, and the read loop cuts the bytes of each read, after those that are left from before, into frames. -/

namespace Reticulum

def hdlcFlag : UInt8 := 0x7e
def hdlcEsc : UInt8 := 0x7d
def hdlcEscMask : UInt8 := 0x20

def hdlcHeaderMinSize : Int := 19

def checkFrameLen (frameLen hwmtu ifacSize : Int) : Bool :=
  if frameLen ≤ hdlcHeaderMinSize then false else if frameLen > hwmtu + ifacSize then false else true

def hdlcEscapeByte (b : UInt8) : Bytes :=
  if b = hdlcEsc then [hdlcEsc, hdlcEsc ^^^ hdlcEscMask]
  else if b = hdlcFlag then [hdlcEsc, hdlcFlag ^^^ hdlcEscMask]
  else [b]

def hdlcEscape (data : Bytes) : Bytes := data.flatMap hdlcEscapeByte

/-- `HDLCUnescape`: an escape that introduces none of the two sequences is kept. -/
def hdlcUnescape : Bytes → Bytes
  | [] => []
  | [b] => [b]
  | b :: c :: data =>
    if b = hdlcEsc ∧ c = hdlcEsc ^^^ hdlcEscMask then hdlcEsc :: hdlcUnescape data
    else if b = hdlcEsc ∧ c = hdlcFlag ^^^ hdlcEscMask then hdlcFlag :: hdlcUnescape data
    else b :: hdlcUnescape (c :: data)

/-- Replacing a sequence of two bytes by one byte throughout, from the left, as `bytes.replace` of the reference. -/
def replacePair (first second value : UInt8) : Bytes → Bytes
  | [] => []
  | [b] => [b]
  | b :: c :: data =>
    if b = first ∧ c = second then value :: replacePair first second value data
    else b :: replacePair first second value (c :: data)

/-- The unescaping of the reference: one replacement, and then the other. -/
def replaceUnescape (data : Bytes) : Bytes :=
  replacePair hdlcEsc (hdlcEsc ^^^ hdlcEscMask) hdlcEsc (replacePair hdlcEsc (hdlcFlag ^^^ hdlcEscMask) hdlcFlag data)

/-- The loop of `hdlcReassemble`: what is left of the buffer, and the frames. A round takes at least one byte. -/
def hdlcReassembleLoop (hwmtu : Int) : Nat → Bytes → List Bytes → Bytes × List Bytes
  | 0, frameBuffer, frames => (frameBuffer, frames)
  | rounds + 1, frameBuffer, frames =>
    match frameBuffer.idxOf? hdlcFlag with
    | none => ([], frames)
    | some start =>
      match (frameBuffer.drop (start + 1)).idxOf? hdlcFlag with
      | none => if hwmtu * 2 < frameBuffer.length then ([], frames) else (frameBuffer.drop start, frames)
      | some length =>
        let unescaped := hdlcUnescape ((frameBuffer.drop (start + 1)).take length)
        hdlcReassembleLoop hwmtu rounds (frameBuffer.drop (length + (start + 1)))
          (if unescaped = [] then frames else frames ++ [unescaped])

def hdlcReassemble (frameBuffer : Bytes) (hwmtu : Int) : Bytes × List Bytes :=
  hdlcReassembleLoop hwmtu (frameBuffer.length + 1) frameBuffer []

/-- What `Send` writes. -/
def hdlcFrame (data : Bytes) : Bytes := hdlcFlag :: hdlcEscape data ++ [hdlcFlag]

def hdlcReadLoop (hwmtu ifacSize : Int) (frameBuffer : Bytes) : List Bytes → List Bytes
  | [] => []
  | chunk :: chunks =>
    let (frameBuffer, reassembled) := hdlcReassemble (frameBuffer ++ chunk) hwmtu
    reassembled.filter (fun unescaped => checkFrameLen unescaped.length hwmtu ifacSize) ++
      hdlcReadLoop hwmtu ifacSize frameBuffer chunks

/-- What a line (a serial port or a pipe) has: how much of a frame it keeps, and whether a pause ends a frame. -/
structure Line where
  hwMTU : Nat
  resets : Bool
  pos : 0 < hwMTU

/-- What a read finds: a byte, or nothing for longer than `SerialFrameTimeout`. -/
inductive LineInput
  | byte (b : UInt8)
  | pause
deriving DecidableEq

/-- The read loops of a serial port (rns/interfaces/serial_linux.go) and of a pipe (rns/interfaces/pipe-subprocess.go):
    whether a frame is open, whether the byte before was an escape, and the frame so far. -/
structure LineReader where
  inFrame : Bool := false
  escape : Bool := false
  dataBuffer : Bytes := []
deriving DecidableEq

namespace LineReader

/-- The frame that a flag closes, unless it is empty. -/
def close (l : LineReader) : List Bytes := if l.dataBuffer = [] then [] else [l.dataBuffer]

def readByte (hwMTU : Nat) (l : LineReader) (b : UInt8) : LineReader × List Bytes :=
  if l.inFrame = true ∧ b = hdlcFlag then ({ l with inFrame := false, dataBuffer := [] }, l.close)
  else if b = hdlcFlag then ({ inFrame := true }, [])
  else if ¬l.inFrame ∨ hwMTU ≤ l.dataBuffer.length then (l, [])
  else if b = hdlcEsc then ({ l with escape := true }, [])
  else ({ l with escape := false, dataBuffer := l.dataBuffer ++ [if l.escape then b ^^^ hdlcEscMask else b] }, [])

def readInput (line : Line) (l : LineReader) : LineInput → LineReader × List Bytes
  | .byte b => l.readByte line.hwMTU b
  | .pause => (if line.resets ∧ l.dataBuffer ≠ [] then {} else l, [])

def read (line : Line) (l : LineReader) : List LineInput → LineReader × List Bytes
  | [] => (l, [])
  | i :: inputs =>
    let next := l.readInput line i
    let rest := next.1.read line inputs
    (rest.1, next.2 ++ rest.2)

end LineReader

end Reticulum
