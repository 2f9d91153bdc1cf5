import Reticulum.Lxmf.Peer
import Reticulum.Theorems.Lxmf.Inbound

/-! Syncing with a peer: what a transfer carries, and what moves the peer on from each state. -/

namespace Reticulum.Lxmf
open Router

variable {data : Bytes} {cost : Int} {v : ValidatedPropagationMessage}

variable {r : Router} {lxmfData stampData : Bytes} {fromPeer : Option Bytes} {stampValue : Int}

theorem validatePropagationMessage_eq_some : validatePropagationMessage data cost = some v ↔ 128 < data.length ∧
      ∃ workblock, stampWorkblock (fullHash (data.take (data.length - stampSize))) workblockExpandRoundsPN = some workblock ∧
        stampValid (data.drop (data.length - stampSize)) cost workblock = true ∧
        v = { transientID := fullHash (data.take (data.length - stampSize))
              lxmfData := data.take (data.length - stampSize)
              stampData := data.drop (data.length - stampSize)
              stampValue := Lxmf.stampValue workblock (data.drop (data.length - stampSize)) } := by
  unfold validatePropagationMessage
  by_cases hlen : data.length ≤ 128
  · rw [if_pos (by simpa [destinationLength, signatureLength, stampSize] using hlen)]
    simp [hlen]
  · rw [if_neg (by simpa [destinationLength, signatureLength, stampSize] using hlen)]
    simp only [Option.bind_eq_bind, Option.bind_eq_some_iff, Option.ite_none_right_eq_some, Option.some.injEq,
      Nat.lt_of_not_le hlen, true_and, eq_comm (a := v)]

theorem validatePropagationMessage_length
    (h : validatePropagationMessage data cost = some v) : v.lxmfData.length + stampSize = data.length := by
  obtain ⟨hlen, workblock, -, -, rfl⟩ := validatePropagationMessage_eq_some.mp h
  simp only [List.length_take, stampSize]
  omega

theorem validatePropagationMessage_transientID
    (h : validatePropagationMessage data cost = some v) : v.transientID = fullHash v.lxmfData := by
  obtain ⟨-, workblock, -, -, rfl⟩ := validatePropagationMessage_eq_some.mp h
  rfl

theorem validatePropagationMessage_free (data : Bytes) (h : 128 < data.length) :
    ∃ v, validatePropagationMessage data 0 = some v ∧ 0 ≤ v.stampValue := by
  obtain ⟨workblock, hw⟩ := Option.isSome_iff_exists.mp
    (stampWorkblock_isSome (fullHash_ne_nil (data.take (data.length - stampSize))) workblockExpandRoundsPN)
  exact ⟨_, validatePropagationMessage_eq_some.mpr ⟨h, workblock, hw, rfl, rfl⟩, Int.natCast_nonneg _⟩

theorem storePropagationMessageStamped_entries (r : Router) (destinationHash payload stampData : Bytes)
    (stampValue : Int) (fromPeer : Option Bytes) : ∃ entry : PropagationEntry, entry.payload = payload ∧
      (r.storePropagationMessageStamped destinationHash payload stampData stampValue fromPeer).router.propagationEntries =
        r.propagationEntries.insert (fullHash payload) entry := by
  unfold storePropagationMessageStamped enqueuePeerDistribution
  simp only [fullHash_ne_nil, if_false]
  exact ⟨_, rfl, rfl⟩

theorem payload_of_ingest {payload : Bytes}
    (h : (r.ingestPropagationMessage lxmfData stampData fromPeer stampValue).value = true ∧
      syncPayload (r.ingestPropagationMessage lxmfData stampData fromPeer stampValue).router.propagationEntries
        (fullHash lxmfData) = some payload) : payload = lxmfData := by
  unfold ingestPropagationMessage ingestPropagationMessageAllowDuplicate at h
  split at h
  · cases h.1
  · dsimp only at h
    split at h
    · cases h.1
    · rename_i hd
      split at h
      · have hnone : r.propagationEntries.lookup (fullHash lxmfData) = none := by
          simp only [isDuplicate, Bool.not_false, Bool.true_and, Bool.or_eq_true, not_or] at hd
          simpa using hd.1
        rw [(handlePropagatedInbound_of_marked r lxmfData).2] at h
        simp [syncPayload, markProcessed, hnone] at h
      · split at h
        · cases h.1
        · obtain ⟨entry, rfl, hentries⟩ := storePropagationMessageStamped_entries (r.markProcessed (fullHash lxmfData))
            (lxmfData.take destinationLength) lxmfData stampData stampValue fromPeer
          rw [syncPayload, hentries, AList.lookup_insert] at h
          exact (Option.some.inj (Option.ite_none_left_eq_some.mp h.2).2).symm

def AcceptedAs (payload lxmfData : Bytes) (cost : Int) : Prop :=
  ∃ v, validatePropagationMessage payload cost = some v ∧ v.transientID = fullHash lxmfData ∧ v.lxmfData = lxmfData

/-- What is sent to a peer has no stamp, so the peer takes the last 32 bytes of the message for one. -/
theorem syncPayload_never_accepted (r : Router) (lxmfData stampData : Bytes) (fromPeer : Option Bytes)
    (stampValue : Int)
    (hstored : (r.ingestPropagationMessage lxmfData stampData fromPeer stampValue).value = true) (payload : Bytes)
    (hpayload : syncPayload (r.ingestPropagationMessage lxmfData stampData fromPeer stampValue).router.propagationEntries
      (fullHash lxmfData) = some payload) (cost : Int) : ¬AcceptedAs payload lxmfData cost := by
  rintro ⟨v, hv, -, hl⟩
  have hlen := validatePropagationMessage_length hv
  rw [hl, payload_of_ingest ⟨hstored, hpayload⟩] at hlen
  simp [stampSize] at hlen

def sampleNode : Router := { sampleRouter with deliveryDestinations := ∅, propagationEnabled := true }

theorem sampleNode_stores (lxmfData stampData : Bytes) (stampValue : Int) (hlen : destinationLength ≤ lxmfData.length) :
    (sampleNode.ingestPropagationMessage lxmfData stampData none stampValue).value = true ∧
    syncPayload (sampleNode.ingestPropagationMessage lxmfData stampData none stampValue).router.propagationEntries
      (fullHash lxmfData) = some lxmfData := by
  have hne : lxmfData ≠ [] := by
    rintro rfl
    simp [destinationLength] at hlen
  obtain ⟨entry, hp, h⟩ := storePropagationMessageStamped_entries (sampleNode.markProcessed (fullHash lxmfData))
    (lxmfData.take destinationLength) lxmfData stampData stampValue none
  have hfresh : sampleNode.isDuplicate (fullHash lxmfData) = false := by
    simp [isDuplicate, hasProcessedTransientID, sampleNode, sampleRouter]
  have hlocal : (sampleNode.markProcessed (fullHash lxmfData)).deliveryDestinations.lookup
      (lxmfData.take destinationLength) = none := by simp [sampleNode, markProcessed]
  unfold ingestPropagationMessage ingestPropagationMessageAllowDuplicate
  simp only [if_neg (Nat.not_lt.mpr hlen), hfresh, Bool.and_false, Bool.false_eq_true, if_false, hlocal]
  rw [if_neg (by simp [markProcessed, sampleNode])]
  refine ⟨by simp [storePropagationMessageStamped, fullHash_ne_nil], ?_⟩
  rw [syncPayload, h, AList.lookup_insert]
  simp [hp, hne]

theorem sampleNode_payload_not_accepted :
    (sampleNode.ingestPropagationMessage sampleData [] none 0).value = true ∧ ¬AcceptedAs sampleData sampleData 0 :=
  have h := sampleNode_stores sampleData [] 0 (by decide)
  ⟨h.1, syncPayload_never_accepted sampleNode sampleData [] none 0 h.1 sampleData h.2 0⟩

/-- A validated upload of 129 bytes is stored, and what a peer is sent for it is refused there. -/
theorem upload_refused_by_peer : ∃ v, validatePropagationMessage (List.replicate 129 7) 0 = some v ∧ 0 ≤ v.stampValue ∧
      (sampleNode.ingestPropagationMessage v.lxmfData v.stampData none v.stampValue).value = true ∧
      syncPayload (sampleNode.ingestPropagationMessage v.lxmfData v.stampData none v.stampValue).router.propagationEntries
        v.transientID = some v.lxmfData ∧
      validatePropagationMessage v.lxmfData 0 = none := by
  obtain ⟨v, hv, hval⟩ := validatePropagationMessage_free (List.replicate 129 7) (by simp)
  have hlen : v.lxmfData.length = 97 := by
    have := validatePropagationMessage_length hv
    simp only [stampSize, List.length_replicate] at this
    omega
  have hstored := sampleNode_stores v.lxmfData v.stampData v.stampValue (by rw [hlen]; decide)
  refine ⟨v, hv, hval, hstored.1, validatePropagationMessage_transientID hv ▸ hstored.2, ?_⟩
  refine Option.eq_none_iff_forall_not_mem.mpr fun u hu => ?_
  have := (validatePropagationMessage_eq_some.mp hu).1
  omega

end Reticulum.Lxmf
