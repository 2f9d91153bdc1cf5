import Reticulum.Lxmf.Router

/-! What the ways into the router hand to `handleInboundMessage`, and from there to the application. -/

namespace Reticulum.Lxmf
open Router

variable {r : Router} {message : Message}

def inboundMessages (events : List Event) : List Message :=
  events.filterMap fun
    | .inbound message => some message
    | _ => none

variable (r : Router)

theorem isDuplicate_markProcessed (data : Bytes) :
    (r.markProcessed (fullHash data)).isDuplicate (fullHash data) = true := by
  simp [isDuplicate, hasProcessedTransientID, markProcessed, fullHash_ne_nil]

theorem handlePropagatedInbound_of_marked (data : Bytes) :
    ((r.markProcessed (fullHash data)).handlePropagatedInboundAllowDuplicate data false).events = [] ∧
    ((r.markProcessed (fullHash data)).handlePropagatedInboundAllowDuplicate data false).router =
      r.markProcessed (fullHash data) := by
  unfold handlePropagatedInboundAllowDuplicate
  split
  · exact ⟨rfl, rfl⟩
  · simp [isDuplicate_markProcessed]

theorem ingestPropagationMessage_events (lxmfData stampData : Bytes) (fromPeer : Option Bytes)
    (stampValue : Int) : (r.ingestPropagationMessage lxmfData stampData fromPeer stampValue).events = [] := by
  unfold ingestPropagationMessage ingestPropagationMessageAllowDuplicate
  split
  · rfl
  · dsimp only
    split
    · rfl
    · split
      · exact (handlePropagatedInbound_of_marked r lxmfData).1
      · split <;> rfl

/-- A propagated message that is addressed to a user of this router and that nothing speaks against. -/
structure LocalMessage (r : Router) (lxmfData : Bytes) (message : Message) : Prop where
  length_le : destinationLength ≤ lxmfData.length
  opened : ∃ destination, r.deliveryDestinations.lookup (lxmfData.take destinationLength) = some (some destination) ∧
    r.openPropagated (some destination) lxmfData = some message
  fresh : r.isDuplicate (fullHash lxmfData) = false
  notIgnored : message.sourceHash ∉ r.ignoredList
  notBlackholed : message.sourceBlackholed = false

/-- The transient ID is marked first, so the function that should deliver takes the message for a duplicate. -/
theorem ingestPropagationMessage_never_inbound (r : Router) (lxmfData stampData : Bytes) (fromPeer : Option Bytes)
    (stampValue : Int) (message : Message) :
    inboundMessages (r.ingestPropagationMessage lxmfData stampData fromPeer stampValue).events ≠ [message] := by
  rw [ingestPropagationMessage_events]
  exact List.cons_ne_nil _ _ |>.symm

def sampleDestination : Bytes := List.replicate 16 1

def sampleSource : Bytes := List.replicate 16 2

def samplePayload : Bytes := [0x94, 0xcb, 0, 0, 0, 0, 0, 0, 0, 0, 0xc4, 0, 0xc4, 0, 0x80]

def sampleData : Bytes := sampleDestination ++ sampleSource ++ List.replicate 64 3 ++ samplePayload

def sampleMessage (method : Method) : Message where
  destinationHash := sampleDestination
  sourceHash := sampleSource
  hash := fullHash (sampleDestination ++ sampleSource ++ samplePayload)
  messageID := fullHash (sampleDestination ++ sampleSource ++ samplePayload)
  stamp := []
  ticketField := none
  signatureValidated := true
  sourceBlackholed := false
  method := method

def sampleRouter : Router where
  transport := {
    unpackPayload := fun packed => if packed = samplePayload then some { repacked := packed } else none
    verify := fun _ _ _ => true
    isBlackholed := fun _ => false }
  now := 0
  writable := fun _ => true
  deliveryDestinations := AList.singleton sampleDestination (some { hash := sampleDestination, decrypt := some })
  inboundStampCosts := AList.singleton sampleDestination 8
  deliveryCallback := true
  enforceStampsEnabled := true

theorem unpack_sampleData (method : Method) :
    unpackMessageFromBytes sampleRouter.transport sampleData method = some (sampleMessage method) := rfl

theorem sample_isDuplicate (id : Bytes) : sampleRouter.isDuplicate id = false := by
  simp [isDuplicate, hasProcessedTransientID, sampleRouter]

/-- A message for the user of the sample router is accepted and not delivered. -/
theorem ingest_sampleData_not_inbound : LocalMessage sampleRouter sampleData (sampleMessage .propagated) ∧
    inboundMessages (sampleRouter.ingestPropagationMessage sampleData [] none 0).events = [] ∧
    (sampleRouter.ingestPropagationMessage sampleData [] none 0).value = true := by
  refine ⟨⟨by decide, ⟨{ hash := sampleDestination, decrypt := some }, rfl, unpack_sampleData .propagated⟩,
    sample_isDuplicate _, by simp [sampleRouter], rfl⟩, ?_, ?_⟩
  · rw [ingestPropagationMessage_events]
    rfl
  · unfold ingestPropagationMessage ingestPropagationMessageAllowDuplicate
    rfl

end Reticulum.Lxmf
