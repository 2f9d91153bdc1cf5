import Reticulum.Lxmf.Stamper
import Reticulum.Lxmf.Tickets

/-! Messages as they arrive (lxmf/message.go). -/

namespace Reticulum.Lxmf

def destinationLength : Nat := 16

def signatureLength : Nat := 64

def ticketLength : Nat := 16

def ticketCostValue : Int := 0x100

inductive Method where
  | opportunistic
  | direct
  | propagated
  | paper
deriving DecidableEq, Repr

/-- The payload of a message: its stamp (empty if there is none), the payload without the stamp packed again, and the
    ticket field, as far as it is a list of a number, some bytes and perhaps more. -/
structure Payload where
  stamp : Bytes := []
  repacked : Bytes
  ticketField : Option (Float × Bytes) := none
deriving DecidableEq

/-- What unpacking asks of the packages below: MessagePack, and the identities the transport knows. -/
structure Transport where
  /-- `UnpackPreserveBinMapKeyOrder`, `normalizePayload`, `extractStamp`, `PackSorted` and the checks of the parts. -/
  unpackPayload : Bytes → Option Payload
  /-- Whether the source is recalled and the signature is its signature of the data. -/
  verify : (sourceHash signature signedPart : Bytes) → Bool
  /-- Whether the source is recalled and its identity is on the blackhole list. -/
  isBlackholed : (sourceHash : Bytes) → Bool

structure Message where
  destinationHash : Bytes
  sourceHash : Bytes
  hash : Bytes
  messageID : Bytes
  stamp : Bytes
  ticketField : Option (Float × Bytes)
  signatureValidated : Bool
  sourceBlackholed : Bool
  method : Method
deriving DecidableEq

def unpackMessageFromBytes (ts : Transport) (data : Bytes) (originalMethod : Method) : Option Message :=
  if data.length < 2 * destinationLength + signatureLength then none
  else do
    let destinationHash := data.take destinationLength
    let sourceHash := (data.drop destinationLength).take destinationLength
    let signature := (data.drop (2 * destinationLength)).take signatureLength
    let packedPayload := data.drop (2 * destinationLength + signatureLength)
    let payload ← ts.unpackPayload packedPayload
    let hashedPart := destinationHash ++ sourceHash ++ payload.repacked
    let messageHash := fullHash hashedPart
    return {
      destinationHash, sourceHash
      hash := messageHash
      messageID := messageHash
      stamp := payload.stamp
      ticketField := payload.ticketField
      signatureValidated := ts.verify sourceHash signature (hashedPart ++ messageHash)
      sourceBlackholed := ts.isBlackholed sourceHash
      method := originalMethod }

namespace Message

/-- The loop of `ValidateStamp` over the tickets. -/
def matchesTicket (m : Message) (tickets : List Bytes) : Bool :=
  tickets.any fun ticket =>
    ticket ≠ [] && m.messageID ≠ [] && m.stamp = truncatedHash (ticket ++ m.messageID)

/-- `ValidateStamp`: the stamp value it records, if the stamp is valid. -/
def validateStamp (m : Message) (targetCost : Int) (tickets : List Bytes) : Option Int :=
  if m.matchesTicket tickets then some ticketCostValue
  else if m.stamp = [] then none
  else do
    let workblock ← stampWorkblock m.messageID workblockExpandRounds
    if stampValid m.stamp targetCost workblock then some (stampValue workblock m.stamp) else none

def outboundTicketFieldEntry (m : Message) (now : Time) : Option TicketEntry := do
  let (expires, ticket) ← m.ticketField
  if expires ≤ peerTime now then none
  else if ticket.length ≠ ticketLength then none
  else some { expires, ticket }

end Message

/-- What `writePropagationMessageFile` writes: data and stamp, or without one the destination hash and data. -/
def storeFileData (destinationHash payload stampData : Bytes) : Bytes :=
  if stampData ≠ [] then payload ++ stampData else destinationHash ++ payload

end Reticulum.Lxmf
