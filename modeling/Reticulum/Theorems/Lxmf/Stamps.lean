import Reticulum.Theorems.Lxmf.Inbound

/-! Which messages reach the application's callback, on any of the ways in, and whether their stamps are
    checked on the way. -/

namespace Reticulum.Lxmf
open Router List Option

/-- A packet, a resource on a link, a message downloaded from a node, one pushed to this node, and a paper URI. -/
inductive Ingress where
  | packet (data : Bytes) (header : DeliveryPacket)
  | resource (data : Bytes)
  | download (payload : Bytes)
  | push (lxmfData stampData : Bytes) (fromPeer : Option Bytes) (stampValue : Int)
  | uri (lxmfData : Bytes) (allowDuplicate : Bool)

namespace Ingress

def events (r : Router) : Ingress → List Event
  | packet data header => (r.deliveryPacket data header).events
  | resource data => (r.handleInboundResourceData data).events
  | download payload => (r.handlePropagatedInbound payload).events
  | push lxmfData stampData fromPeer stampValue =>
    (r.ingestPropagationMessage lxmfData stampData fromPeer stampValue).events
  | uri lxmfData allowDuplicate => (r.ingestURIOutcome lxmfData allowDuplicate).events

/-- The message of encrypted bytes for a local destination, unless they are a duplicate. -/
def propagatedMessage (r : Router) (lxmfData : Bytes) (allowDuplicate : Bool) : Option Message :=
  if lxmfData.length < destinationLength ∨ (allowDuplicate = false ∧ r.isDuplicate (fullHash lxmfData) = true) then none
  else (r.deliveryDestinations.lookup (lxmfData.take destinationLength)).bind (r.openPropagated · lxmfData)

def message (r : Router) : Ingress → Option Message
  | packet data header =>
    if r.isClosed then none
    else (header.lxmfData data).bind fun (lxmfData, method) => unpackMessageFromBytes r.transport lxmfData method
  | resource data => unpackMessageFromBytes r.transport data .direct
  | download payload => propagatedMessage r payload false
  | push .. => none
  | uri lxmfData allowDuplicate => propagatedMessage r lxmfData allowDuplicate

end Ingress

/-- What lets a message past `handleInboundMessage`. -/
structure Passes (r : Router) (message : Message) : Prop where
  notBlackholed : message.sourceBlackholed = false
  notIgnored : message.sourceHash ∉ r.ignoredList
  notDelivered : r.hasDeliveredTransientID message.hash = false
  callback : r.deliveryCallback = true

open Ingress

variable {r : Router} {message : Message}

variable {m : Message}

theorem deliver_mem_handleInboundMessage :
    .deliver m ∈ (r.handleInboundMessage message).events ↔ some message = some m ∧ Passes r m := by
  rw [some.injEq, handleInboundMessage]
  constructor
  · intro hmem
    split_ifs at hmem with hblackholed hignored hdelivered hcallback
    · simp at hmem
    · simp at hmem
    · simp at hmem
    · obtain rfl : m = message := by simpa using hmem
      exact ⟨rfl, by simpa using hblackholed, hignored, by simpa using hdelivered, hcallback⟩
    · simp at hmem
  · rintro ⟨rfl, h⟩
    simp [h.notBlackholed, h.notIgnored, h.notDelivered, h.callback]

@[simp] theorem markProcessed_deliveryDestinations (id : Bytes) :
    (r.markProcessed id).deliveryDestinations = r.deliveryDestinations := rfl

@[simp] theorem openPropagated_markProcessed (id data : Bytes) (destination : Option Destination) :
    (r.markProcessed id).openPropagated destination data = r.openPropagated destination data := rfl

theorem passes_markProcessed (id : Bytes) : Passes (r.markProcessed id) message ↔ Passes r message :=
  ⟨fun h => ⟨h.1, h.2, h.3, h.4⟩, fun h => ⟨h.1, h.2, h.3, h.4⟩⟩

theorem deliver_mem_handlePropagatedInbound {payload : Bytes} {allowDuplicate : Bool} :
    .deliver m ∈ (r.handlePropagatedInboundAllowDuplicate payload allowDuplicate).events ↔
      propagatedMessage r payload allowDuplicate = some m ∧ Passes r m := by
  rw [handlePropagatedInboundAllowDuplicate, propagatedMessage]
  by_cases hlong : payload.length < destinationLength
  · simp [hlong]
  by_cases hduplicate : allowDuplicate = false ∧ r.isDuplicate (fullHash payload) = true
  · simp [hlong, hduplicate]
  have hnew : ¬(!allowDuplicate && r.isDuplicate (fullHash payload)) = true := by simpa using hduplicate
  rw [if_neg hlong, if_neg (not_or.mpr ⟨hlong, hduplicate⟩)]
  simp only [if_neg hnew, markProcessed_deliveryDestinations]
  cases r.deliveryDestinations.lookup (payload.take destinationLength) with
  | none => simp
  | some destination =>
    simp only [openPropagated_markProcessed, bind_some]
    cases r.openPropagated destination payload with
    | none => simp
    | some message => exact deliver_mem_handleInboundMessage.trans (by rw [passes_markProcessed])

/-- A message that is stored instead reaches no one here. -/
theorem events_ingestURIOutcome (lxmfData : Bytes) (allowDuplicate : Bool) :
    (r.ingestURIOutcome lxmfData allowDuplicate).events =
      (r.handlePropagatedInboundAllowDuplicate lxmfData allowDuplicate).events := by
  rw [ingestURIOutcome, handlePropagatedInboundAllowDuplicate]
  dsimp only
  split
  · rfl
  split
  · rfl
  cases (r.markProcessed (fullHash lxmfData)).deliveryDestinations.lookup (lxmfData.take destinationLength) <;>
    dsimp only <;> split <;> rfl

theorem deliver_mem_deliveryPacket {data : Bytes} {header : DeliveryPacket} :
    .deliver m ∈ (r.deliveryPacket data header).events ↔ (packet data header).message r = some m ∧ Passes r m := by
  simp only [Ingress.message, deliveryPacket]
  cases header.lxmfData data with
  | none => simp
  | some lxmf =>
    obtain ⟨lxmfData, method⟩ := lxmf
    by_cases hc : r.isClosed = true
    · simp [hc]
    · simp only [hc, Bool.false_eq_true, if_false, bind_some]
      cases unpackMessageFromBytes r.transport lxmfData method with
      | none => simp
      | some message => simp [deliver_mem_handleInboundMessage]

theorem deliver_mem_handleInboundResourceData {data : Bytes} :
    .deliver m ∈ (r.handleInboundResourceData data).events ↔ (resource data).message r = some m ∧ Passes r m := by
  simp only [Ingress.message, handleInboundResourceData]
  by_cases hn : data = []
  · simp [hn, unpackMessageFromBytes, destinationLength]
  · simp only [hn, if_false]
    cases unpackMessageFromBytes r.transport data .direct with
    | none => simp
    | some message => exact deliver_mem_handleInboundMessage

theorem deliver_mem_events (r : Router) (i : Ingress) (m : Message) :
    .deliver m ∈ i.events r ↔ i.message r = some m ∧ Passes r m := by
  cases i with
  | packet data header => exact deliver_mem_deliveryPacket
  | resource data => exact deliver_mem_handleInboundResourceData
  | download payload => exact deliver_mem_handlePropagatedInbound
  | push lxmfData stampData fromPeer stampValue =>
    simp [Ingress.events, Ingress.message, ingestPropagationMessage_events]
  | uri lxmfData allowDuplicate =>
    rw [Ingress.events, events_ingestURIOutcome]
    exact deliver_mem_handlePropagatedInbound

def ticketsOf (r : Router) (message : Message) : List Bytes :=
  match r.ticketStore with
  | none => []
  | some store => store.inboundTickets message.sourceHash r.now

def Stamped (r : Router) (message : Message) : Prop :=
  ∀ cost, r.inboundStampCosts.lookup message.destinationHash = some cost → 0 < cost →
    (message.validateStamp cost (ticketsOf r message)).isSome

def EnforcesStamps (r : Router) (i : Ingress) : Prop :=
  r.enforceStampsEnabled = true → ∀ m, .deliver m ∈ i.events r → Stamped r m

/-- The switch is read on no way in: stamps are enforced only where something else stops a message. -/
theorem enforcesStamps_iff (r : Router) (i : Ingress) : EnforcesStamps r i ↔
    r.enforceStampsEnabled = false ∨ ∀ m, i.message r = some m → Stamped r m ∨
      m.sourceBlackholed = true ∨ m.sourceHash ∈ r.ignoredList ∨
      r.hasDeliveredTransientID m.hash = true ∨ r.deliveryCallback = false := by
  constructor
  · intro h
    cases hs : r.enforceStampsEnabled with
    | false => exact Or.inl rfl
    | true =>
      refine Or.inr fun m hm => or_iff_not_imp_right.mpr fun hpass => ?_
      simp only [not_or, Bool.not_eq_true, Bool.not_eq_false] at hpass
      obtain ⟨hb, hi, hd, hc⟩ := hpass
      exact h hs m ((deliver_mem_events r i m).mpr ⟨hm, hb, hi, hd, hc⟩)
  · intro h hs m hdel
    obtain ⟨hm, hp⟩ := (deliver_mem_events r i m).mp hdel
    rcases h with h | h
    · simp [hs] at h
    · rcases h m hm with h | h | h | h | h
      · exact h
      · simp [hp.notBlackholed] at h
      · exact absurd h hp.notIgnored
      · simp [hp.notDelivered] at h
      · simp [hp.callback] at h

/-- The sample router asks for stamps of value 8 and delivers a message without one. -/
theorem sampleData_delivered_unstamped : sampleRouter.enforceStampsEnabled = true ∧
    sampleRouter.inboundStampCosts.lookup sampleDestination = some 8 ∧
    Event.deliver (sampleMessage .direct) ∈ (packet sampleData ⟨true, [], none⟩).events sampleRouter ∧
    ¬EnforcesStamps sampleRouter (packet sampleData ⟨true, [], none⟩) := by
  have hdel : Event.deliver (sampleMessage .direct) ∈ (packet sampleData ⟨true, [], none⟩).events sampleRouter := by
    refine (deliver_mem_events _ _ _).mpr ⟨unpack_sampleData .direct, rfl, by simp [sampleRouter], ?_, rfl⟩
    simp [hasDeliveredTransientID, sampleRouter]
  refine ⟨rfl, rfl, hdel, fun h => ?_⟩
  have hstamp := h rfl _ hdel 8 rfl (by decide)
  simp [Message.validateStamp, Message.matchesTicket, ticketsOf, sampleRouter, sampleMessage,
    TicketStore.inboundTickets] at hstamp

end Reticulum.Lxmf
