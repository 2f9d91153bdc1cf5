import Reticulum.Packet
import Reticulum.Transitions

/-! Receipts of packets (rns/packet.go) and the table of those that are outstanding (rns/transport.go). `Outbound` hands
a packet to its interfaces before it enters the receipt into the table. A receipt is known by the number of its packet.
-/

namespace Reticulum

inductive ReceiptStatus where
  | failed
  | sent
  | delivered
  | culled
deriving DecidableEq, Repr

/-- The callbacks are here only for whether they are set. -/
structure PacketReceipt where
  status : ReceiptStatus := .sent
  proved : Bool := false
  deliveryCallback : Bool := false
  timeoutCallback : Bool := false
deriving DecidableEq, Repr

def PacketReceipt.markSent (r : PacketReceipt) : PacketReceipt := { r with status := .sent }

inductive ProofKey where
  /-- The key with which the peer of a link signs. -/
  | link (key : Bytes)
  /-- The key of the identity of a destination, if it has one. -/
  | destination (key : Option Bytes)
deriving DecidableEq, Repr

/-- A receipt with what it takes to verify a proof and to see that it has expired. -/
structure OutstandingReceipt extends PacketReceipt where
  hash : Bytes
  truncatedHash : Bytes
  key : ProofKey
  sentAt : Int := 0
  timeout : Int := 0
deriving DecidableEq, Repr

/-- `ExplLength`: a hash and a signature. -/
def explLength : Nat := 96

/-- `ImplLength`: a signature. -/
def implLength : Nat := 64

def receiptTimeoutCulled : Int := -1

def maxReceipts : Nat := 1024

def contextResource : UInt8 := 0x01
def contextResourceRcl : UInt8 := 0x07
def contextKeepalive : UInt8 := 0xfa
def contextLinkProof : UInt8 := 0xfd

namespace OutstandingReceipt

section

variable (verify : Bytes → Bytes → Bytes → Bool)

/-- `ValidateLinkProof`: always explicit. Cutting the hash off panics if there is not that much. -/
def validateLinkProof (r : OutstandingReceipt) (key proof : Bytes) :
    Option Bool :=
  if proof.length < 32 then none
  else if proof.length < explLength then some false
  else some (proof.take 32 = r.hash && verify key ((proof.drop 32).take 64) r.hash)

/-- `ValidateProof` for a packet to a destination. -/
def validateProof (r : OutstandingReceipt) (key : Option Bytes) (proof : Bytes) :
    Bool :=
  if explLength ≤ proof.length then
    proof.take 32 = r.hash && key.any fun key => verify key ((proof.drop 32).take 64) r.hash
  else if proof.length = implLength then key.any fun key => verify key proof r.hash
  else false

/-- `ValidateProofPacket`, without what it does to the receipt. -/
def validates (r : OutstandingReceipt) (proof : Bytes) : Option Bool :=
  match r.key with
  | .link key => r.validateLinkProof verify key proof
  | .destination key => some (r.validateProof verify key proof)

end

section

variable (r : OutstandingReceipt)

def deliver : OutstandingReceipt := { r with status := .delivered, proved := true }

def markSentAt (sentAt : Int) : OutstandingReceipt :=
  { r with sentAt, toPacketReceipt := r.markSent }

def setTimeout (timeout : Int) : OutstandingReceipt := { r with timeout }

def checkTimeout (now : Int) : OutstandingReceipt :=
  if r.status ≠ .sent ∨ now ≤ r.sentAt + r.timeout then r
  else { r with status := if r.timeout = receiptTimeoutCulled then .culled else .failed }

end

end OutstandingReceipt

/-- `receiptEligible` of a packet that has a receipt. -/
def receiptEligible (p : Packet) : Bool :=
  p.packetType = .data && p.destinationType ≠ .plain && !(contextKeepalive ≤ p.context && p.context ≤ contextLrproof) &&
    !(contextResource ≤ p.context && p.context ≤ contextResourceRcl)

/-- Where a call of `Outbound` is. -/
inductive OutboundPhase where
  | packed
  /-- The packet has been handed to an interface. -/
  | transmitted
  | done
deriving DecidableEq, Repr

structure ReceiptTable where
  /-- The outstanding receipts, the oldest first. -/
  receipts : List Nat := []
  receipt : Nat → OutstandingReceipt
  phase : Nat → OutboundPhase := fun _ => .packed
  /-- The receipts that are to be marked as culled. -/
  evicted : List Nat := []
  /-- How often the delivery callbacks have been called. -/
  delivered : Nat → Nat := fun _ => 0

namespace ReceiptTable

def update (t : ReceiptTable) (i : Nat) (f : OutstandingReceipt → OutstandingReceipt) : ReceiptTable :=
  { t with receipt := Function.update t.receipt i (f (t.receipt i)) }

def setPhase (t : ReceiptTable) (i : Nat) (phase : OutboundPhase) : ReceiptTable :=
  { t with phase := Function.update t.phase i phase }

section

variable (verify : Bytes → Bytes → Bytes → Bool)

/-- The proof is one for the receipt. A proof that comes over a link also names the packet. -/
def matching (context : UInt8) (proof : Bytes) (r : OutstandingReceipt) :
    Option Bool :=
  if context = contextLinkProof ∧ truncatedHashLength ≤ proof.length then
    if r.truncatedHash = proof.take truncatedHashLength then r.validates verify proof else some false
  else r.validates verify proof

/-- A receipt that a proof is for is delivered, another one stays in the table. -/
def settle (t : ReceiptTable) (i : Nat) (validated : Bool) : ReceiptTable :=
  if validated then
    let t' := t.update i (·.deliver)
    if (t.receipt i).deliveryCallback then
      { t' with delivered := Function.update t.delivered i (t.delivered i + 1) }
    else t'
  else { t with receipts := t.receipts ++ [i] }

/-- The loop that matches a proof; none if it panics. -/
def matchReceipts (context : UInt8) (proof : Bytes) (t : ReceiptTable) :
    Option ReceiptTable :=
  t.receipts.foldlM (fun t i => (matching verify context proof (t.receipt i)).map (t.settle i)) { t with receipts := [] }

/-- The last section of `Outbound`, after the packet has left. -/
def register (packets : Nat → Packet) (t : ReceiptTable) (i : Nat) (now timeout : Int) : ReceiptTable :=
  let t := t.setPhase i .done
  if receiptEligible (packets i) then
    { t.update i fun r => (r.setTimeout timeout).markSentAt now with receipts := t.receipts ++ [i] }
  else t.update i (·.markSentAt now)

def evict (t : ReceiptTable) (n : Nat) : ReceiptTable :=
  { t with receipts := t.receipts.drop n, evicted := t.evicted ++ t.receipts.take n }

inductive Action where
  /-- `Outbound` hands the packet to an interface. -/
  | transmit (i : Nat)
  | register (i : Nat) (now timeout : Int)
  /-- `processInboundPacket` of a proof that is neither for a client of this node nor to be transported. -/
  | proof (context : UInt8) (data : Bytes)
  | setDeliveryCallback (i : Nat) (set : Bool)
  | setTimeoutCallback (i : Nat) (set : Bool)
  /-- `processReceipts`, or the channel of a link, looks whether the receipt has expired. -/
  | checkTimeout (i : Nat) (now : Int)
  /-- `processReceipts` limits the table. -/
  | evict
  | cull (i : Nat) (now : Int)
  /-- `processReceipts` keeps the receipts that still wait. -/
  | sweep

def step (packets : Nat → Packet) (t : ReceiptTable) :
    Action → Option ReceiptTable
  | .transmit i => if t.phase i = .done then none else some (t.setPhase i .transmitted)
  | .register i now timeout => if t.phase i = .transmitted then some (t.register packets i now timeout) else none
  | .proof context data => t.matchReceipts verify context data
  | .setDeliveryCallback i set => some (t.update i fun r => { r with deliveryCallback := set })
  | .setTimeoutCallback i set => some (t.update i fun r => { r with timeoutCallback := set })
  | .checkTimeout i now => some (t.update i (·.checkTimeout now))
  | .evict => some (t.evict (t.receipts.length - maxReceipts))
  | .cull i now =>
    if i ∈ t.evicted then
      some { t.update i fun r => (r.setTimeout receiptTimeoutCulled).checkTimeout now with evicted := t.evicted.erase i }
    else none
  | .sweep => some { t with receipts := t.receipts.filter fun i => (t.receipt i).status = .sent }

end

end ReceiptTable

/-- A receipt whose methods are called. `due` counts the calls of the timeout callback that are still to be made after
    the receipt was unlocked, `deliveries` the calls of the delivery callback, and `late` the calls of the timeout
    callback after the delivery. -/
structure SharedReceipt extends OutstandingReceipt where
  due : Nat := 0
  deliveries : Nat := 0
  late : Nat := 0

namespace SharedReceipt

inductive Action where
  | markSent (sentAt : Int)
  /-- `ValidateLinkProof` or `ValidateProof`. -/
  | validateProof (proof : Bytes)
  | triggerDelivery
  | checkTimeout (now : Int)
  | setTimeout (timeout : Int)
  | triggerTimeout
  /-- A method that has unlocked the receipt calls the timeout callback. -/
  | timeoutCallback

def conclude (r : SharedReceipt) : SharedReceipt :=
  { r with
    toOutstandingReceipt := r.deliver
    deliveries := if r.deliveryCallback then r.deliveries + 1 else r.deliveries }

def expire (r : SharedReceipt) (status : ReceiptStatus) : SharedReceipt :=
  { r with status, due := if r.timeoutCallback then r.due + 1 else r.due }

def step (verify : Bytes → Bytes → Bytes → Bool) (r : SharedReceipt) : Action → Option SharedReceipt
  | .markSent sentAt => some { r with toOutstandingReceipt := r.markSentAt sentAt }
  | .validateProof proof => (r.validates verify proof).map fun validated => if validated then r.conclude else r
  | .triggerDelivery => some r.conclude
  | .checkTimeout now =>
    some (if r.status ≠ .sent ∨ now ≤ r.sentAt + r.timeout then r
      else r.expire (r.toOutstandingReceipt.checkTimeout now).status)
  | .setTimeout timeout => some { r with toOutstandingReceipt := r.toOutstandingReceipt.setTimeout timeout }
  | .triggerTimeout => some (r.expire .failed)
  | .timeoutCallback =>
    if r.due = 0 then none else some { r with due := r.due - 1, late := if r.proved then r.late + 1 else r.late }

end SharedReceipt
end Reticulum
