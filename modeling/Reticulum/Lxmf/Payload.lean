import Reticulum.Lxmf.Message
import Reticulum.Msgpack.Ordered

/-! # The payload of a message as it arrives (lxmf/message.go)

The payload is a list of timestamp, title, content, fields and perhaps a stamp. It is unpacked, and packed again without
the stamp to be hashed. -/

namespace Reticulum.Lxmf

open Msgpack (Value)

mutual

def innerPayload : Value → Option (List Value)
  | .array items => if items.length < 4 then none else some (normalizePayload items)
  | _ => none

/-- `normalizePayload`. A byte string or a map in place of the timestamp is refused later in any case. -/
def normalizePayload : List Value → List Value
  | [] => []
  | first :: rest => (innerPayload first).getD (first :: rest)

end

/-- The values that `payloadTimestamp` takes. -/
def isPayloadTimestamp : Value → Bool
  | .int _ | .uint _ | .float32 _ | .float64 _ => true
  | _ => false

def payloadBytes : Value → Option Bytes
  | .bin b => some b
  | .str s => some s
  | _ => none

/-- The values that `payloadMap` takes. -/
def isPayloadMap : Value → Bool
  | .map _ => true
  | _ => false

/-- `extractStamp`, from what follows the fields. -/
def extractStamp : List Value → Bytes
  | .bin stamp :: _ => stamp
  | _ => []

/-- The fields are an ordered map; the Go map is made of them. -/
structure UnpackedPayload where
  timestamp : Value
  title : Bytes
  content : Bytes
  fields : Value
  stamp : Bytes
  repacked : Bytes
deriving DecidableEq

/-- The part of `UnpackMessageFromBytes` that is about the payload. -/
def unpackPayload (packedPayload : Bytes) : Option UnpackedPayload :=
  match Msgpack.unpackOrdered packedPayload with
  | .ok (.array items) =>
    match normalizePayload items with
    | timestamp :: title :: content :: fields :: rest => do
      if !isPayloadTimestamp timestamp then none
      let titleBytes ← payloadBytes title
      let contentBytes ← payloadBytes content
      if !isPayloadMap fields then none
      some {
        timestamp, fields
        title := titleBytes
        content := contentBytes
        stamp := extractStamp rest
        repacked := Msgpack.repack (.array [timestamp, title, content, fields]) }
    | _ => none
  | _ => none

/-- What `UnpackMessageFromBytes` asks of MessagePack, with the answers of the other packages as parameters. -/
def payloadTransport (verify : (sourceHash signature signedPart : Bytes) → Bool) (isBlackholed : (sourceHash : Bytes) → Bool)
    (ticketField : Value → Option (Float × Bytes)) : Transport where
  unpackPayload packed := (unpackPayload packed).map fun p =>
    { stamp := p.stamp, repacked := p.repacked, ticketField := ticketField p.fields }
  verify := verify
  isBlackholed := isBlackholed

end Reticulum.Lxmf
