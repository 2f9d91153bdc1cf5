import Reticulum.Lxmf.Draft
import Reticulum.Lxmf.Outbound
import Reticulum.Lxmf.Router

/-! # What goes to the propagation node (lxmf/message.go, lxmf/router.go)

The router of `Lxmf/Outbound.lean` together with the bytes of its messages. For a propagation node a message is
encrypted, the hash of the result is its transient ID, and a stamp for that ID is put behind it. -/

namespace Reticulum.Lxmf

/-- What is in `PropagationPacked`: the time, and a list of one message. -/
structure PropagationPayload where
  time : UInt64
  message : Bytes
deriving DecidableEq

def PropagationPayload.bytes (payload : PropagationPayload) : Bytes :=
  Msgpack.pack false (.array [.float64 payload.time, .array [.bin payload.message]])

structure Parcel where
  destinationHash : Bytes
  packed : Bytes := []
  propagationEncryptedData : Bytes := []
  transientID : Bytes := []
  propagationStamp : Bytes := []
  propagationTargetCost : Option Int := none
  propagationPacked : Option PropagationPayload := none
  representation : Representation := .unknown

/-- What a call of `packPropagated` depends on. No encryption makes the data shorter. -/
structure PropagatedFacts where
  encrypt : Bytes → Option Bytes
  time : UInt64
  encrypt_length : ∀ data, ∀ encrypted ∈ encrypt data, data.length ≤ encrypted.length

/-- What a call of `Pack` depends on: the packed message, which is longer than its hashes and its signature. -/
structure ParcelFacts extends PropagatedFacts where
  packed : Option Bytes
  packed_length : ∀ bytes ∈ packed, 2 * destinationLength + signatureLength < bytes.length

/-- What `ProcessDeferredStamps` gets: whether the stamp for the recipient can be made, the cost that the node has
    announced, candidates for its stamp, and what the calls of `Pack` depend on. -/
structure StampingFacts where
  stamp : Bool := true
  targetCost : Option Int
  candidates : List Bytes
  first : ParcelFacts
  between : ParcelFacts
  second : ParcelFacts
  candidates_length : ∀ c ∈ candidates, c.length = stampSize

namespace Parcel

variable (p : Parcel)

def lxmfData : Bytes := p.destinationHash ++ p.propagationEncryptedData

def encryptedData (f : PropagatedFacts) : Option Bytes :=
  if p.propagationEncryptedData = [] then f.encrypt (p.packed.drop destinationLength) else some p.propagationEncryptedData

def packPropagated (f : PropagatedFacts) : Option Parcel :=
  if p.packed.length ≤ destinationLength then none
  else (p.encryptedData f).map fun propagationEncryptedData =>
    let p := { p with propagationEncryptedData }
    let payload : PropagationPayload := ⟨f.time, p.lxmfData ++ p.propagationStamp⟩
    { p with
      transientID := fullHash p.lxmfData
      propagationPacked := some payload
      representation := if payload.bytes.length ≤ linkPacketMaxContent then .packet else .resource }

/-- `Pack`, of which the first part is left to the facts. -/
def pack (propagated : Bool) (f : ParcelFacts) : Option Parcel :=
  if p.packed ≠ [] then none
  else f.packed.bind fun packed =>
    if propagated then { p with packed }.packPropagated f.toPropagatedFacts else some { p with packed }

def resetPackedState (preservePropagationEncryptedData : Bool) : Parcel :=
  { p with
    packed := []
    transientID := []
    propagationPacked := none
    propagationEncryptedData := if preservePropagationEncryptedData then p.propagationEncryptedData else [] }

def identified (f : ParcelFacts) : Option Parcel :=
  if p.transientID ≠ [] then some p
  else if p.packed = [] then p.pack true f
  else p.packPropagated f.toPropagatedFacts

/-- `GetPropagationStamp`: the message after it, and the stamp. -/
def getPropagationStamp (targetCost : Int) (f : StampingFacts) : Option (Parcel × Bytes) :=
  if p.propagationStamp ≠ [] then some (p, p.propagationStamp)
  else if targetCost ≤ 0 then none
  else do
    let p ← { p with propagationTargetCost := some targetCost }.identified f.between
    let stamp ← generateStamp p.transientID targetCost workblockExpandRoundsPN f.candidates
    some (p, stamp)

/-- The first half of `ProcessDeferredStamps`. A message whose stamps cannot be made is not sent. -/
def makeStamp (m : OutboundMessage) (f : StampingFacts) : Option Parcel :=
  if m.deferStamp = false ∨ m.stamped = true then some p
  else if f.stamp then (p.resetPackedState false).pack (m.desiredMethod = some .propagated) f.first
  else none

def requestStamp (f : StampingFacts) : Option (Parcel × Bytes) :=
  (f.targetCost.bind fun targetCost => p.getPropagationStamp targetCost f).filter (·.2 ≠ [])

def makePropagationStamp (m : OutboundMessage) (f : StampingFacts) : Option Parcel :=
  if m.desiredMethod ≠ some .propagated ∨ p.propagationStamp ≠ [] then some p
  else (p.requestStamp f).bind fun (p, propagationStamp) =>
    ({ p with propagationStamp }.resetPackedState true).pack true f.second

/-- `ProcessDeferredStamps` for this message. -/
def processDeferredStamps (m : OutboundMessage) (f : StampingFacts) : Option Parcel :=
  (p.makeStamp m f).bind fun p => p.makePropagationStamp m f

def stampFacts (m : OutboundMessage) (f : StampingFacts) : OutboundRouter.StampFacts where
  stamp := f.stamp
  packed := (p.makeStamp m f).isSome
  costKnown := f.targetCost.isSome
  propagationStamp := ((p.makeStamp m f).bind fun p => p.requestStamp f).isSome
  packedAgain := (p.processDeferredStamps m f).isSome

/-- The message as the loop of `ProcessOutbound` packs it before it is sent to the propagation node. -/
def forNode (f : PropagatedFacts) : Option Parcel :=
  if p.propagationPacked ≠ none then some p else p.packPropagated f

def propagationPackedLength : Nat := (p.propagationPacked.map (·.bytes.length)).getD 0

def onto (m : OutboundMessage) : OutboundMessage :=
  { m with
    packedLength := p.packed.length
    propagationPackedLength := p.propagationPackedLength
    representation := p.representation }

/-- What is packed for the node is the encrypted data and the stamp, made for that data at the target cost. -/
structure Sound (p : Parcel) : Prop where
  destinationHash : p.destinationHash.length = destinationLength
  packed : p.packed ≠ [] → 2 * destinationLength + signatureLength < p.packed.length
  encrypted : p.propagationEncryptedData ≠ [] → destinationLength + signatureLength < p.propagationEncryptedData.length
  transientID : p.transientID ≠ [] → p.propagationEncryptedData ≠ [] ∧ p.transientID = fullHash p.lxmfData
  propagationPacked : ∀ payload ∈ p.propagationPacked,
    p.propagationEncryptedData ≠ [] ∧ payload.message = p.lxmfData ++ p.propagationStamp
  propagationStamp : p.propagationStamp ≠ [] → p.propagationEncryptedData ≠ [] ∧
    ∃ cost ∈ p.propagationTargetCost, (validatePropagationMessage (p.lxmfData ++ p.propagationStamp) cost).isSome

end Parcel

/-- A call of `HandleOutbound`. A message with a propagation stamp was handed over before. -/
structure Handover where
  message : OutboundMessage
  parcel : Parcel
  facts : OutboundRouter.HandleFacts
  pack : ParcelFacts
  sound : parcel.Sound
  settled : parcel.propagationStamp ≠ [] → message.deferStamp = false ∨ message.stamped = true

namespace Handover

def propagated (h : Handover) : Bool := h.message.desiredMethod = some .propagated

/-- The message after it has been packed, unless that fails. -/
def packed (h : Handover) : Option Parcel :=
  if h.parcel.packed = [] then h.parcel.pack h.propagated h.pack else some h.parcel

end Handover

structure Upload where
  message : Nat
  payload : PropagationPayload
  stamp : Bytes
  targetCost : Option Int
deriving DecidableEq

/-- The router with the bytes of its messages, and what it has sent to the propagation node so far. -/
structure Sender where
  router : OutboundRouter
  parcels : List Parcel := []
  uploads : List Upload := []

def Parcel.upload (p : Parcel) (i : Nat) : Option Upload :=
  p.propagationPacked.map fun payload => ⟨i, payload, p.propagationStamp, p.propagationTargetCost⟩

namespace Sender

def handleOutbound (s : Sender) (h : Handover) : Option Sender := do
  let p ← h.packed
  let router ← s.router.handleOutbound { p.onto h.message with propagationStamped := p.propagationStamp ≠ [] } h.facts
  some { s with router, parcels := s.parcels ++ [p] }

/-- The rest of `ProcessDeferredStamps`. -/
def finishStamps (s : Sender) (f : StampingFacts) : Option Sender := do
  let i ← s.router.stamping
  let m ← s.router.messages[i]?
  let p ← s.parcels[i]?
  let router ← s.router.finishStamps (p.stampFacts m f)
  match p.processDeferredStamps m f with
  | none => some { s with router }
  | some p => some { s with router := router.modifyMessage i p.onto, parcels := s.parcels.set i p }

def forNode (s : Sender) (facts : Nat → PropagatedFacts) (i : Nat) : Option Parcel :=
  (s.parcels[i]?).bind fun p => p.forNode (facts i)

def sendFacts (s : Sender) (facts : Nat → SendFacts) (packing : Nat → PropagatedFacts) (i : Nat) : SendFacts :=
  { facts i with packPropagated := (s.forNode packing i).map (·.propagationPackedLength) }

def packedParcels (s : Sender) (packing : Nat → PropagatedFacts) (router : OutboundRouter) : List Parcel :=
  s.parcels.mapIdx fun i p =>
    if (router.messages[i]?).any (·.propagationPackedLength ≠ 0) then (s.forNode packing i).getD p else p

def processOutbound (s : Sender) (facts : Nat → SendFacts) (packing : Nat → PropagatedFacts) : Sender :=
  let router := s.router.processOutbound (s.sendFacts facts packing)
  let parcels := s.packedParcels packing router
  let sent := (router.transmissions.drop s.router.transmissions.length).filter (·.propagated)
  { router, parcels
    uploads := s.uploads ++ sent.filterMap fun x => (parcels[x.message]?).bind (·.upload x.message) }

inductive Action where
  | handleOutbound (h : Handover)
  | processOutbound (facts : Nat → SendFacts) (packing : Nat → PropagatedFacts)
  | finishStamps (f : StampingFacts)
  /-- The steps that have nothing to do with the bytes. -/
  | other (a : OutboundRouter.Action)

def step (s : Sender) : Action → Option Sender
  | .handleOutbound h => s.handleOutbound h
  | .processOutbound facts packing => some (s.processOutbound facts packing)
  | .finishStamps f => s.finishStamps f
  | .other a =>
    match a with
    | .handleOutbound .. | .processOutbound _ | .finishStamps _ => none
    | a => (s.router.step a).map fun router => { s with router }

end Sender
end Reticulum.Lxmf
