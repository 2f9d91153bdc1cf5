import Reticulum.Bytes

/-! KISS framing (rns/interfaces/kiss.go) and the KISS branches of the TCP interface (rns/interfaces/tcp.go): what `Send`
writes, and how the read loop cuts the bytes of each read, after those that are left from before, into frames. -/

namespace Reticulum

def kissFend : UInt8 := 0xc0
def kissFesc : UInt8 := 0xdb
def kissTfend : UInt8 := 0xdc
def kissTfesc : UInt8 := 0xdd
def kissCmdData : UInt8 := 0x00

def kissEscapeByte (b : UInt8) : Bytes :=
  if b = kissFesc then [kissFesc, kissTfesc] else if b = kissFend then [kissFesc, kissTfend] else [b]

def kissEscape (data : Bytes) : Bytes := data.flatMap kissEscapeByte

/-- `KISSUnescape`, given whether the byte before was an escape. An escape of another byte is dropped with it. -/
def kissUnescapeFrom (escape : Bool) : Bytes → Bytes
  | [] => []
  | b :: data =>
    if escape then
      (if b = kissTfend then [kissFend] else if b = kissTfesc then [kissFesc] else []) ++ kissUnescapeFrom false data
    else if b = kissFesc then kissUnescapeFrom true data
    else b :: kissUnescapeFrom false data

def kissUnescape (data : Bytes) : Bytes := kissUnescapeFrom false data

def kissDeliver : Bytes → List Bytes
  | [] => []
  | command :: data =>
    if command &&& 0x0f = kissCmdData then
      let unescaped := kissUnescape data
      if unescaped = [] then [] else [unescaped]
    else []

/-- The loop over the frame buffer: what is left of it, and what is passed on. A round takes at least one byte. -/
def kissReassembleLoop : Nat → Bytes → List Bytes → Bytes × List Bytes
  | 0, frameBuffer, delivered => (frameBuffer, delivered)
  | rounds + 1, frameBuffer, delivered =>
    match frameBuffer.idxOf? kissFend with
    | none => ([], delivered)
    | some start =>
      match (frameBuffer.drop (start + 1)).idxOf? kissFend with
      | none => (frameBuffer.drop start, delivered)
      | some length =>
        let frame := (frameBuffer.drop (start + 1)).take length
        kissReassembleLoop rounds (frameBuffer.drop (length + (start + 1))) (delivered ++ kissDeliver frame)

/-- What `Send` writes. -/
def kissFrame (data : Bytes) : Bytes := kissFend :: kissCmdData :: kissEscape data ++ [kissFend]

def kissReadLoop (frameBuffer : Bytes) : List Bytes → List Bytes
  | [] => []
  | chunk :: chunks =>
    let buffered := frameBuffer ++ chunk
    let (frameBuffer, delivered) := kissReassembleLoop (buffered.length + 1) buffered []
    delivered ++ kissReadLoop frameBuffer chunks

end Reticulum
