import Reticulum.Lxmf.Upload
import Reticulum.Theorems.Lxmf.Draft
import Reticulum.Theorems.Lxmf.PeerSync

/-! # Parcels: packing and stamping for the propagation node -/

namespace Reticulum.Lxmf.Parcel

open List Option

variable {p p' : Parcel} {m : OutboundMessage} {f : PropagatedFacts} {g : ParcelFacts} {h : StampingFacts} {cost : Int}
  {stamp : Bytes}

theorem packPropagated_cases (hpack : p.packPropagated f = some p') : destinationLength < p.packed.length ∧ ∃ encrypted,
      (p.propagationEncryptedData = [] ∧ f.encrypt (p.packed.drop destinationLength) = some encrypted ∨
        p.propagationEncryptedData ≠ [] ∧ encrypted = p.propagationEncryptedData) ∧
      ∃ payload representation, payload.message = p.destinationHash ++ encrypted ++ p.propagationStamp ∧
        p' = { p with
          propagationEncryptedData := encrypted
          transientID := fullHash (p.destinationHash ++ encrypted)
          propagationPacked := some payload
          representation } := by
  unfold packPropagated at hpack
  split at hpack
  · cases hpack
  · next hlength =>
    obtain ⟨encrypted, hencrypted, hpack⟩ := map_eq_some_iff.mp hpack
    refine ⟨Nat.lt_of_not_le hlength, encrypted, ?_, ⟨f.time, _⟩, _, rfl, hpack.symm⟩
    unfold encryptedData at hencrypted
    split at hencrypted
    · next hempty => exact .inl ⟨hempty, hencrypted⟩
    · next hkept => exact .inr ⟨hkept, (some.inj hencrypted).symm⟩

structure SameStamp (p p' : Parcel) : Prop where
  propagationStamp : p'.propagationStamp = p.propagationStamp
  propagationTargetCost : p'.propagationTargetCost = p.propagationTargetCost

theorem SameStamp.refl (p : Parcel) : SameStamp p p := ⟨rfl, rfl⟩

theorem sameStamp_packPropagated (hpack : p.packPropagated f = some p') : SameStamp p p' := by
  obtain ⟨-, encrypted, -, payload, representation, -, rfl⟩ := packPropagated_cases hpack
  exact ⟨rfl, rfl⟩

theorem Sound.packPropagated (hp : p.Sound) (hpack : p.packPropagated f = some p') :
    p'.Sound ∧ p'.transientID ≠ [] ∧ p'.propagationPacked ≠ none := by
  obtain ⟨hpacked, encrypted, hencrypted, payload, representation, hpayload, rfl⟩ := packPropagated_cases hpack
  have hlength : destinationLength + signatureLength < encrypted.length := by
    rcases hencrypted with ⟨-, hencrypt⟩ | ⟨hkept, rfl⟩
    · have hbytes := hp.packed fun hnil => by rw [hnil] at hpacked; exact absurd hpacked (Nat.not_lt_zero _)
      have hgrows := f.encrypt_length _ _ hencrypt
      rw [length_drop] at hgrows
      omega
    · exact hp.encrypted hkept
  have hne := ne_nil_of_length_pos (Nat.zero_lt_of_lt hlength)
  refine ⟨⟨hp.destinationHash, hp.packed, fun _ => hlength, fun _ => ⟨hne, rfl⟩, ?_, fun hstamp => ?_⟩,
    fullHash_ne_nil _, fun hnone => by cases hnone⟩
  · rintro payload' hpayload'
    cases hpayload'
    exact ⟨hne, hpayload⟩
  · -- A parcel with a stamp has been encrypted before, so this data is kept.
    obtain ⟨hold, cost, hcost, hvalid⟩ := hp.propagationStamp hstamp
    rcases hencrypted with ⟨hempty, -⟩ | ⟨-, rfl⟩
    · exact absurd hempty hold
    · exact ⟨hold, cost, hcost, hvalid⟩

variable {propagated : Bool}

theorem pack_cases (hpack : p.pack propagated g = some p') : p.packed = [] ∧ ∃ packed ∈ g.packed,
      (propagated = true ∧ { p with packed }.packPropagated g.toPropagatedFacts = some p' ∨
        propagated = false ∧ p' = { p with packed }) := by
  unfold pack at hpack
  split at hpack
  · cases hpack
  · next hnil =>
    obtain ⟨packed, hpacked, hpack⟩ := bind_eq_some_iff.mp hpack
    refine ⟨not_not.mp hnil, packed, hpacked, ?_⟩
    cases propagated with
    | true => exact .inl ⟨rfl, hpack⟩
    | false => exact .inr ⟨rfl, (some.inj hpack).symm⟩

theorem sameStamp_pack (hpack : p.pack propagated g = some p') : SameStamp p p' := by
  obtain ⟨-, packed, -, ⟨-, hpack⟩ | ⟨-, rfl⟩⟩ := pack_cases hpack
  · exact ⟨(sameStamp_packPropagated hpack).1, (sameStamp_packPropagated hpack).2⟩
  · exact ⟨rfl, rfl⟩

theorem Sound.with_packed (hp : p.Sound) {packed : Bytes} (hpacked : packed ∈ g.packed) : { p with packed }.Sound :=
  { hp with packed := fun _ => g.packed_length packed hpacked }

theorem Sound.pack (hp : p.Sound) (hpack : p.pack propagated g = some p') :
    p'.Sound ∧ (propagated = true → p'.transientID ≠ []) := by
  obtain ⟨-, packed, hpacked, ⟨-, hpack⟩ | ⟨hpropagated, rfl⟩⟩ := pack_cases hpack
  · obtain ⟨hsound, hID, -⟩ := (hp.with_packed hpacked).packPropagated hpack
    exact ⟨hsound, fun _ => hID⟩
  · exact ⟨hp.with_packed hpacked, fun h => absurd h (ne_true_of_eq_false hpropagated)⟩

theorem Sound.reset_preserving (hp : p.Sound) : (p.resetPackedState true).Sound where
  __ := hp
  packed h := absurd rfl h
  transientID h := absurd rfl h
  propagationPacked payload h := by cases h

theorem Sound.reset (hp : p.Sound) (hstamp : p.propagationStamp = []) : (p.resetPackedState false).Sound where
  destinationHash := hp.destinationHash
  packed h := absurd rfl h
  encrypted h := absurd rfl h
  transientID h := absurd rfl h
  propagationPacked payload h := by cases h
  propagationStamp h := absurd hstamp h

theorem validatePropagationMessage_generated {data : Bytes} {candidates : List Bytes}
    (hlength : 2 * destinationLength + signatureLength < data.length) (hcandidates : ∀ c ∈ candidates, c.length = stampSize)
    (hcost : 0 < cost) (hstamp : generateStamp (fullHash data) cost workblockExpandRoundsPN candidates = some stamp) :
    (validatePropagationMessage (data ++ stamp) cost).isSome := by
  obtain ⟨hmax, hmem, workblock, hworkblock, hvalue⟩ := Draft.generateStamp_spec hstamp (Int.le_of_lt hcost)
  have hsize : (data ++ stamp).length - stampSize = data.length := by
    rw [length_append, hcandidates stamp hmem, Nat.add_sub_cancel]
  refine isSome_iff_exists.mpr ⟨_, validatePropagationMessage_eq_some.mpr ⟨?_, workblock, ?_, ?_, rfl⟩⟩
  · rw [length_append, hcandidates stamp hmem]
    simp only [destinationLength, signatureLength, stampSize] at hlength ⊢
    omega
  · rw [hsize, take_left]
    exact hworkblock
  · rw [hsize, drop_left, stampValid, if_neg (Int.not_le.mpr hcost), if_neg (Int.not_lt.mpr hmax)]
    exact decide_eq_true hvalue

theorem Sound.identified (hp : p.Sound) (hidentified : p.identified g = some p') :
    p'.Sound ∧ p'.transientID ≠ [] ∧ p'.propagationTargetCost = p.propagationTargetCost := by
  unfold Parcel.identified at hidentified
  split at hidentified
  · next hID =>
    cases hidentified
    exact ⟨hp, hID, rfl⟩
  · split at hidentified
    · obtain ⟨hsound, hID⟩ := hp.pack hidentified
      exact ⟨hsound, hID rfl, (sameStamp_pack hidentified).propagationTargetCost⟩
    · obtain ⟨hsound, hID, -⟩ := hp.packPropagated hidentified
      exact ⟨hsound, hID, (sameStamp_packPropagated hidentified).propagationTargetCost⟩

theorem getPropagationStamp_spec (hp : p.Sound) (hunstamped : p.propagationStamp = [])
    (hget : p.getPropagationStamp cost h = some (p', stamp)) :
    p'.Sound ∧ p'.propagationTargetCost = some cost ∧ p'.propagationEncryptedData ≠ [] ∧ stamp ≠ [] ∧
      (validatePropagationMessage (p'.lxmfData ++ stamp) cost).isSome := by
  unfold getPropagationStamp at hget
  rw [if_neg (not_not.mpr hunstamped)] at hget
  split at hget
  · cases hget
  · next hcost =>
    obtain ⟨q, hq, hget⟩ := bind_eq_some_iff.mp hget
    obtain ⟨stamp', hstamp, heq⟩ := bind_eq_some_iff.mp hget
    cases heq
    have hcosted : { p with propagationTargetCost := some cost }.Sound :=
      ⟨hp.destinationHash, hp.packed, hp.encrypted, hp.transientID, hp.propagationPacked, fun h => absurd hunstamped h⟩
    obtain ⟨hsound, hID, htarget⟩ := hcosted.identified hq
    obtain ⟨hencrypted, hhash⟩ := hsound.transientID hID
    rw [hhash] at hstamp
    have hpos := Int.not_le.mp hcost
    obtain ⟨-, hmem, -⟩ := Draft.generateStamp_spec hstamp (Int.le_of_lt hpos)
    refine ⟨hsound, htarget, hencrypted, ne_nil_of_length_pos (h.candidates_length _ hmem ▸ Nat.succ_pos _),
      validatePropagationMessage_generated ?_ h.candidates_length hpos hstamp⟩
    have hlength := hsound.encrypted hencrypted
    rw [lxmfData, length_append, hsound.destinationHash]
    omega

theorem requestStamp_cases (hrequest : p.requestStamp h = some (p', stamp)) :
    ∃ cost, p.getPropagationStamp cost h = some (p', stamp) := by
  obtain ⟨hrequest, -⟩ := filter_eq_some_iff.mp hrequest
  obtain ⟨cost, -, hget⟩ := bind_eq_some_iff.mp hrequest
  exact ⟨cost, hget⟩

/-- A propagation stamp that is there already stays valid, unless the message gets its other stamp only now. -/
def Settled (p : Parcel) (m : OutboundMessage) : Prop := p.propagationStamp ≠ [] → m.deferStamp = false ∨ m.stamped = true

theorem sameStamp_makeStamp (hmake : p.makeStamp m h = some p') : SameStamp p p' := by
  unfold makeStamp at hmake
  split at hmake
  · exact some.inj hmake ▸ .refl p
  · obtain ⟨-, hpack⟩ := ite_none_right_eq_some.mp hmake
    exact ⟨(sameStamp_pack hpack).1, (sameStamp_pack hpack).2⟩

theorem Sound.makeStamp (hp : p.Sound) (hsettled : p.Settled m) (hmake : p.makeStamp m h = some p') : p'.Sound := by
  unfold Parcel.makeStamp at hmake
  split at hmake
  · exact some.inj hmake ▸ hp
  · next hunsettled =>
    obtain ⟨-, hpack⟩ := ite_none_right_eq_some.mp hmake
    have hstamp : p.propagationStamp = [] := not_not.mp fun hstamp => hunsettled (hsettled hstamp)
    exact ((hp.reset hstamp).pack hpack).1

theorem makePropagationStamp_spec (hp : p.Sound) (hmake : p.makePropagationStamp m h = some p') :
    p'.Sound ∧ (p'.propagationStamp ≠ [] ↔ p.propagationStamp ≠ [] ∨ m.desiredMethod = some .propagated) := by
  unfold makePropagationStamp at hmake
  split at hmake
  · next hdone =>
    cases hmake
    exact ⟨hp, .inl, fun hor => hor.elim id fun hpropagated => hdone.resolve_left (not_not.mpr hpropagated)⟩
  · next hmissing =>
    obtain ⟨hpropagated, hunstamped⟩ := not_or.mp hmissing
    obtain ⟨⟨q, stamp⟩, hrequest, hpack⟩ := bind_eq_some_iff.mp hmake
    obtain ⟨cost, hget⟩ := requestStamp_cases hrequest
    obtain ⟨hq, hcost, hencrypted, hne, hvalid⟩ := getPropagationStamp_spec hp (not_not.mp hunstamped) hget
    have hstamped : ({ q with propagationStamp := stamp }.resetPackedState true).Sound :=
      { hq.reset_preserving with
        propagationPacked := fun payload h => by cases h
        propagationStamp := fun _ => ⟨hencrypted, cost, hcost, hvalid⟩ }
    refine ⟨(hstamped.pack hpack).1, iff_of_true ?_ (.inr (not_not.mp hpropagated))⟩
    rw [(sameStamp_pack hpack).propagationStamp]
    exact hne

theorem processDeferredStamps_spec (hp : p.Sound) (hsettled : p.Settled m)
    (hprocess : p.processDeferredStamps m h = some p') :
    p'.Sound ∧ (p'.propagationStamp ≠ [] ↔ p.propagationStamp ≠ [] ∨ m.desiredMethod = some .propagated) := by
  obtain ⟨q, hmake, hprocess⟩ := bind_eq_some_iff.mp hprocess
  rw [← (sameStamp_makeStamp hmake).propagationStamp]
  exact makePropagationStamp_spec (hp.makeStamp hsettled hmake) hprocess

theorem makeStamp_isSome : (p.makeStamp m h).isSome = true ↔
    (m.deferStamp = false ∨ m.stamped = true) ∨ h.stamp = true ∧ (p.makeStamp m h).isSome = true := by
  unfold makeStamp
  split
  · next hdone => exact iff_of_true rfl (.inl hdone)
  · next hmissing =>
    cases h.stamp with
    | false => simpa using hmissing
    | true => simpa using fun hdone => absurd hdone hmissing

theorem processDeferredStamps_isSome {q : Parcel} (hmake : p.makeStamp m h = some q) :
    (p.processDeferredStamps m h).isSome = true ↔
      (m.desiredMethod ≠ some .propagated ∨ p.propagationStamp ≠ []) ∨
        h.targetCost.isSome = true ∧ (q.requestStamp h).isSome = true ∧ (p.processDeferredStamps m h).isSome = true := by
  rw [processDeferredStamps, hmake, bind_some, ← (sameStamp_makeStamp hmake).propagationStamp,
    makePropagationStamp]
  split
  · next hdone => exact iff_of_true rfl (.inl hdone)
  · next hmissing =>
    refine ⟨fun hmade => .inr ?_, fun hor => (hor.resolve_left hmissing).2.2⟩
    obtain ⟨p', hp'⟩ := isSome_iff_exists.mp hmade
    obtain ⟨request, hrequest, -⟩ := bind_eq_some_iff.mp hp'
    obtain ⟨hget, -⟩ := filter_eq_some_iff.mp hrequest
    obtain ⟨cost, hcost, -⟩ := bind_eq_some_iff.mp hget
    exact ⟨isSome_of_eq_some hcost, isSome_of_eq_some hrequest, hmade⟩

theorem stampResult_eq_made {facts : OutboundRouter.StampFacts} : OutboundRouter.stampResult m facts = .made ↔
    ((m.deferStamp = false ∨ m.stamped = true) ∨ facts.stamp = true ∧ facts.packed = true) ∧
      ((m.desiredMethod ≠ some .propagated ∨ m.propagationStamped = true) ∨
        facts.costKnown = true ∧ facts.propagationStamp = true ∧ facts.packedAgain = true) := by
  unfold OutboundRouter.stampResult
  split_ifs <;> simp_all

theorem stampResult_stampFacts (hstamped : m.propagationStamped = true ↔ p.propagationStamp ≠ []) :
    OutboundRouter.stampResult m (p.stampFacts m h) = .made ↔ (p.processDeferredStamps m h).isSome = true := by
  rw [stampResult_eq_made, hstamped, stampFacts]
  rw [← makeStamp_isSome]
  cases hmake : p.makeStamp m h with
  | none => simp [processDeferredStamps, hmake]
  | some q =>
    rw [bind_some, ← processDeferredStamps_isSome hmake, isSome_some]
    exact and_iff_right rfl

end Reticulum.Lxmf.Parcel
