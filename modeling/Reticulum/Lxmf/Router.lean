import Reticulum.Lxmf.Message
import Mathlib.Data.Finset.Basic

/-! # The message router: what comes in (lxmf/router.go)

Messages for a local destination go to `handleInboundMessage` and from there to the application's callback; the others
are stored for the peers of a propagation node. The locks are left out: each function runs as one step. -/

namespace Reticulum.Lxmf

structure Destination where
  hash : Bytes
  /-- `Decrypt`; `none` for an error and for nil. -/
  decrypt : Bytes → Option Bytes

structure StoreFile where
  transientID : Bytes
  receivedAt : Time
  stampValue : Option Int
  data : Bytes
deriving DecidableEq

structure PropagationEntry where
  destinationHash : Bytes
  payload : Bytes
  receivedAt : Time
  order : Nat
  handledBy : List Bytes
  unhandledBy : List Bytes
  file : Option StoreFile
  size : Nat
  stampValue : Int
deriving DecidableEq

structure PeerDistributionEntry where
  transientID : Bytes
  fromPeerHash : Option Bytes
deriving DecidableEq

structure Router where
  transport : Transport
  /-- `r.now()`, read once for each call. -/
  now : Time
  /-- Whether `MkdirAll` and `WriteFile` succeed for a file of the message store. -/
  writable : StoreFile → Bool
  deliveryDestinations : Table (Option Destination) := ∅
  inboundStampCosts : Table Int := ∅
  ticketStore : Option TicketStore := some {}
  locallyDeliveredIDs : Table Time := ∅
  locallyProcessedIDs : Table Time := ∅
  peerDistributionQueue : List PeerDistributionEntry := []
  /-- Whether a callback is registered. -/
  deliveryCallback : Bool := false
  propagationEntries : Table PropagationEntry := ∅
  propagationEntrySeq : Nat := 0
  enforceStampsEnabled : Bool := false
  ignoredList : Finset Bytes := ∅
  propagationEnabled : Bool := false
  propagationCost : Int := 16
  propagationCostFlexibility : Int := 3
  clientPropagationMessagesReceived : Nat := 0
  isClosed : Bool := false

inductive Event where
  /-- `handleInboundMessage` is called. -/
  | inbound (message : Message)
  /-- The delivery callback runs. -/
  | deliver (message : Message)
  | prove
  | rejectStamp
deriving DecidableEq

structure Result (α : Type) where
  value : α
  router : Router
  events : List Event := []

inductive IngestOutcome where
  | none
  | duplicate
  | localDelivery
  | propagated
  | discarded
deriving DecidableEq, Repr

structure ValidatedPropagationMessage where
  transientID : Bytes
  lxmfData : Bytes
  stampData : Bytes
  stampValue : Int
deriving DecidableEq

def validatePropagationMessage (transientData : Bytes) (targetCost : Int) : Option ValidatedPropagationMessage :=
  if transientData.length ≤ 2 * destinationLength + signatureLength + stampSize then none
  else do
    let lxmfData := transientData.take (transientData.length - stampSize)
    let stampData := transientData.drop (transientData.length - stampSize)
    let transientID := fullHash lxmfData
    let workblock ← stampWorkblock transientID workblockExpandRoundsPN
    if stampValid stampData targetCost workblock then
      some { transientID, lxmfData, stampData, stampValue := stampValue workblock stampData }
    else none

def validatePropagationMessages (messages : List Bytes) (targetCost : Int) : List ValidatedPropagationMessage :=
  messages.filterMap fun message => validatePropagationMessage message targetCost

namespace Router

variable (r : Router)

def hasDeliveredTransientID (transientID : Bytes) : Bool :=
  transientID ≠ [] && (r.locallyDeliveredIDs.lookup transientID).isSome

def hasProcessedTransientID (transientID : Bytes) : Bool :=
  transientID ≠ [] && (r.locallyProcessedIDs.lookup transientID).isSome

def isDuplicate (transientID : Bytes) : Bool :=
  (r.propagationEntries.lookup transientID).isSome || r.hasProcessedTransientID transientID

def markProcessed (transientID : Bytes) : Router :=
  { r with locallyProcessedIDs := r.locallyProcessedIDs.insert transientID r.now }

def markDelivered (transientID : Bytes) : Router :=
  { r with locallyDeliveredIDs := r.locallyDeliveredIDs.insert transientID r.now }

/-- The ticket of an inbound message goes to the ticket store if its signature is valid. -/
def rememberTicket (message : Message) : Router :=
  match r.ticketStore with
  | none => r
  | some store =>
    if message.signatureValidated then
      match message.outboundTicketFieldEntry r.now with
      | some entry => { r with ticketStore := some (store.rememberOutboundTicket message.sourceHash entry) }
      | none => r
    else r

def handleInboundMessage (message : Message) : Result Unit :=
  if message.sourceBlackholed then ⟨(), r, [.inbound message]⟩
  else if message.sourceHash ∈ r.ignoredList then ⟨(), r, [.inbound message]⟩
  else if r.hasDeliveredTransientID message.hash then ⟨(), r, [.inbound message]⟩
  else
    ⟨(), (r.markDelivered message.hash).rememberTicket message,
      .inbound message :: if r.deliveryCallback then [.deliver message] else []⟩

/-- Shared by `handlePropagatedInbound` and `ingestURIOutcome`: decrypt, restore the destination, unpack. -/
def openPropagated (destination : Option Destination) (lxmfData : Bytes) : Option Message := do
  let deliveryDest ← destination
  let decrypted ← deliveryDest.decrypt (lxmfData.drop destinationLength)
  unpackMessageFromBytes r.transport (lxmfData.take destinationLength ++ decrypted) .propagated

def handlePropagatedInboundAllowDuplicate (payload : Bytes) (allowDuplicate : Bool) : Result Bool :=
  if payload.length < destinationLength then ⟨false, r, []⟩
  else
    let transientID := fullHash payload
    if !allowDuplicate && r.isDuplicate transientID then ⟨true, r, []⟩
    else
      let r := r.markProcessed transientID
      match r.deliveryDestinations.lookup (payload.take destinationLength) with
      | none => ⟨false, r, []⟩
      | some deliveryDest =>
        match r.openPropagated deliveryDest payload with
        | none => ⟨false, r, []⟩
        | some message =>
          let handled := r.handleInboundMessage message
          ⟨false, handled.router.markDelivered transientID, handled.events⟩

def handlePropagatedInbound (payload : Bytes) : Result Bool :=
  r.handlePropagatedInboundAllowDuplicate payload false

/-- The file of `writePropagationMessageFile`. -/
def propagationMessageFile (transientID : Bytes) (receivedAt : Time) (stampValue : Int)
    (destinationHash payload stampData : Bytes) : StoreFile where
  transientID := transientID
  receivedAt := receivedAt
  stampValue := if stampData ≠ [] ∧ stampValue ≤ 0 then none else some stampValue
  data := storeFileData destinationHash payload stampData

/-- `nextPropagationEntryOrderLocked`, and the counter after it. -/
def nextPropagationEntryOrder (transientID : Bytes) : Nat × Nat :=
  match r.propagationEntries.lookup transientID with
  | some existing =>
    if existing.order > 0 then (existing.order, r.propagationEntrySeq)
    else (r.propagationEntrySeq + 1, r.propagationEntrySeq + 1)
  | none => (r.propagationEntrySeq + 1, r.propagationEntrySeq + 1)

/-- `enqueuePeerDistributionLocked`. -/
def enqueuePeerDistribution (transientID : Bytes) (fromPeer : Option Bytes) : Router :=
  if transientID = [] then r
  else { r with peerDistributionQueue := r.peerDistributionQueue ++ [{ transientID, fromPeerHash := fromPeer }] }

def storePropagationMessageStamped (destinationHash payload stampData : Bytes) (stampValue : Int)
    (fromPeer : Option Bytes) : Result Bytes :=
  let transientID := fullHash payload
  let (order, propagationEntrySeq) := r.nextPropagationEntryOrder transientID
  let file := propagationMessageFile transientID r.now stampValue destinationHash payload stampData
  let persisted := r.propagationEnabled && r.writable file
  let entry : PropagationEntry := {
    destinationHash, payload, order, stampValue
    receivedAt := r.now
    handledBy := []
    unhandledBy := []
    file := if persisted then some file else none
    size := if persisted then file.data.length else destinationHash.length + payload.length }
  let r := { r with propagationEntries := r.propagationEntries.insert transientID entry, propagationEntrySeq }
  ⟨transientID, r.enqueuePeerDistribution transientID fromPeer, []⟩

def ingestPropagationMessageAllowDuplicate (lxmfData stampData : Bytes) (fromPeer : Option Bytes)
    (stampValue : Int) (allowDuplicate : Bool) : Result Bool :=
  if lxmfData.length < destinationLength then ⟨false, r, []⟩
  else
    let transientID := fullHash lxmfData
    let destinationHash := lxmfData.take destinationLength
    if !allowDuplicate && r.isDuplicate transientID then ⟨false, r, []⟩
    else
      let r := r.markProcessed transientID
      match r.deliveryDestinations.lookup destinationHash with
      | some _ =>
        let handled := r.handlePropagatedInboundAllowDuplicate lxmfData allowDuplicate
        ⟨true, handled.router, handled.events⟩
      | none =>
        if !r.propagationEnabled then ⟨false, r, []⟩
        else
          let stored := r.storePropagationMessageStamped destinationHash lxmfData stampData stampValue fromPeer
          ⟨stored.value ≠ [], stored.router, stored.events⟩

def ingestPropagationMessage (lxmfData stampData : Bytes) (fromPeer : Option Bytes)
    (stampValue : Int) : Result Bool :=
  r.ingestPropagationMessageAllowDuplicate lxmfData stampData fromPeer stampValue false

def ingestValidated (r : Router) (fromPeer : Option Bytes) : List ValidatedPropagationMessage → Result Nat
  | [] => ⟨0, r, []⟩
  | entry :: rest =>
    let first := r.ingestPropagationMessage entry.lxmfData entry.stampData fromPeer entry.stampValue
    let others := first.router.ingestValidated fromPeer rest
    ⟨first.value.toNat + others.value, others.router, first.events ++ others.events⟩

def minAcceptedCost : Int := max (r.propagationCost - r.propagationCostFlexibility) 0

/-- `propagationPacket` from the list of messages on that the packet's data decodes to. -/
def propagationPacket (messages : List Bytes) : Result Unit :=
  if messages = [] then ⟨(), r, []⟩
  else
    let validated := validatePropagationMessages messages r.minAcceptedCost
    let ingested := r.ingestValidated none validated
    let received := ingested.router.clientPropagationMessagesReceived + ingested.value
    ⟨(), { ingested.router with clientPropagationMessagesReceived := received },
      ingested.events ++ if validated.length = messages.length then [.prove] else [.rejectStamp]⟩

/-- The loop of `propagationResourceConcluded` over the messages, without the counters and queues of the peer. -/
def propagationResourceMessages (peer : Option Bytes) (messages : List Bytes) : Result Nat :=
  r.ingestValidated peer (validatePropagationMessages messages r.minAcceptedCost)

def ingestURIOutcome (lxmfData : Bytes) (allowDuplicate : Bool) : Result IngestOutcome :=
  if lxmfData.length < destinationLength then ⟨.none, r, []⟩
  else
    let transientID := fullHash lxmfData
    let destinationHash := lxmfData.take destinationLength
    if !allowDuplicate && r.isDuplicate transientID then ⟨.duplicate, r, []⟩
    else
      let r := r.markProcessed transientID
      match r.deliveryDestinations.lookup destinationHash with
      | some deliveryDest =>
        match r.openPropagated deliveryDest lxmfData with
        | none => ⟨.discarded, r, []⟩
        | some message =>
          let handled := r.handleInboundMessage message
          ⟨.localDelivery, handled.router.markDelivered transientID, handled.events⟩
      | none =>
        if !r.propagationEnabled then ⟨.discarded, r, []⟩
        else
          let stored := r.storePropagationMessageStamped destinationHash lxmfData [] 0 none
          ⟨if stored.value ≠ [] then .propagated else .discarded, stored.router, stored.events⟩

def handleInboundResourceData (data : Bytes) : Result Unit :=
  if data = [] then ⟨(), r, []⟩
  else
    match unpackMessageFromBytes r.transport data .direct with
    | none => ⟨(), r, []⟩
    | some message => r.handleInboundMessage message

/-- What `deliveryPacket` reads: whether it came on a link, the destination hash, and the destination's own. -/
structure DeliveryPacket where
  onLink : Bool
  destinationHash : Bytes
  destination : Option Bytes
deriving DecidableEq

def DeliveryPacket.lxmfData (packet : DeliveryPacket) (data : Bytes) : Option (Bytes × Method) :=
  if packet.onLink then some (data, .direct)
  else
    let destinationHash := if packet.destinationHash = [] then packet.destination.getD [] else packet.destinationHash
    if destinationHash.length ≠ destinationLength then none
    else some (destinationHash ++ data, .opportunistic)

/-- `deliveryPacket`, with the goroutine it starts. -/
def deliveryPacket (data : Bytes) (packet : DeliveryPacket) : Result Unit :=
  match packet.lxmfData data with
  | none => ⟨(), r, [.prove]⟩
  | some (lxmfData, method) =>
    if r.isClosed then ⟨(), r, [.prove]⟩
    else
      match unpackMessageFromBytes r.transport lxmfData method with
      | none => ⟨(), r, [.prove]⟩
      | some message =>
        let handled := r.handleInboundMessage message
        ⟨(), handled.router, .prove :: handled.events⟩

end Router
end Reticulum.Lxmf
