import Reticulum.Theorems.Lxmf.Outcome
import Reticulum.Theorems.Lxmf.Parcel

/-! # Whether what goes to the propagation node is stamped -/

namespace Reticulum.Lxmf

open Transitions List Option OutboundRouter

namespace OutboundMessage

/-- The message came with a propagation stamp, or is queued for its stamps and meant for propagation. -/
def Provided (m : OutboundMessage) : Prop :=
  m.propagationStamped = true ∨ m.desiredMethod = some .propagated ∧ OutboundRouter.defers m = true

variable {m m' : OutboundMessage}

theorem request_inj (h : m'.request = m.request) : m'.desiredMethod = m.desiredMethod ∧ m'.deferStamp = m.deferStamp ∧
    m'.stamped = m.stamped ∧ m'.deferPropagationStamp = m.deferPropagationStamp ∧
    m'.propagationStamped = m.propagationStamped := by
  simpa only [request, Prod.mk.injEq] using h

theorem defers_congr (h : m'.request = m.request) : defers m' = defers m := by
  obtain ⟨hmethod, hstamp, -, hpropagation, -⟩ := request_inj h
  rw [defers, defers, hmethod, hstamp, hpropagation]

theorem provided_congr (h : m'.request = m.request) : m'.Provided ↔ m.Provided := by
  obtain ⟨hmethod, -, -, -, hstamped⟩ := request_inj h
  rw [Provided, Provided, defers_congr h, hmethod, hstamped]

end OutboundMessage

namespace OutboundRouter

variable {r r' : OutboundRouter} {i k : Nat} {m m' : OutboundMessage} {f : SendFacts}

/-! ### The other steps -/

structure Quiet (r r' : OutboundRouter) : Prop where
  queue : ∀ j ∈ r'.pendingOutbound, j ∈ r.pendingOutbound
  deferred : ∀ j, r'.Deferred j → r.Deferred j
  length : r'.messages.length = r.messages.length
  messages : Unaltered r r'

theorem Quiet.of_sameQueues (h : SameQueues r r') (hmessages : Unaltered r r') : Quiet r r' :=
  ⟨fun _ hj => h.pendingOutbound ▸ hj, fun _ => h.deferred.mp, h.length, hmessages⟩

theorem startStamps_quiet (hstep : r.startStamps = some r') : Quiet r r' := by
  obtain ⟨k, rest, m, hstamping, hdeferred, -, ⟨-, rfl⟩ | rfl⟩ := startStamps_cases hstep
  · refine ⟨fun _ => id, fun j hj => ?_, rfl, .of_eq rfl⟩
    exact hj.imp_left fun hj => hdeferred ▸ mem_cons_of_mem k hj
  · refine ⟨fun _ => id, fun j hj => ?_, rfl, .of_eq rfl⟩
    rcases hj with hj | hj
    · exact .inl hj
    · cases hj
      exact .inl (hdeferred ▸ mem_cons_self)

theorem step_quiet {a : Action} (hstep : r.step a = some r') (hhandle : ∀ m f, a ≠ .handleOutbound m f)
    (hprocess : ∀ facts, a ≠ .processOutbound facts) (hfinish : ∀ f, a ≠ .finishStamps f) : Quiet r r' := by
  have hunaltered := (step_still hstep hprocess).1.unaltered
  cases hminor : a.minor with
  | true =>
    rcases step_minor hstep hminor with h | ⟨_, _, _, h⟩
    · exact .of_sameQueues h.toSameQueues hunaltered
    · exact .of_sameQueues h.toSameQueues hunaltered
  | false =>
    cases a with
    | handleOutbound m f => exact absurd rfl (hhandle m f)
    | processOutbound facts => exact absurd rfl (hprocess facts)
    | finishStamps f => exact absurd rfl (hfinish f)
    | startStamps => exact startStamps_quiet hstep
    | resourceLinkEstablished =>
      cases hstep
      exact ⟨fun _ => id, fun _ => id, rfl, hunaltered⟩
    | _ => cases hminor

theorem finishStamps_made {f : StampFacts} (hstamping : r.stamping = some k) (hm : r.messages[k]? = some m)
    (hmade : stampResult m f = .made) (hstep : r.finishStamps f = some r') : r' = { r with
      stamping := none
      pendingDeferredStamps := r.deleteDeferred m.messageID
      pendingOutbound := r.pendingOutbound ++ [k] } := by
  obtain ⟨k', m', hk', hm', hcases⟩ := finishStamps_cases hstep
  obtain rfl := some.inj (hstamping.symm.trans hk')
  obtain rfl := some.inj (hm.symm.trans hm')
  exact (hcases.resolve_right fun h => h.1 hmade).2

theorem finishStamps_quiet {f : StampFacts} (hstamping : r.stamping = some k) (hm : r.messages[k]? = some m)
    (hmade : stampResult m f ≠ .made) (hstep : r.finishStamps f = some r') : Quiet r r' := by
  have hunaltered := (step_still (a := .finishStamps f) hstep fun _ => Action.noConfusion).1.unaltered
  obtain ⟨k', m', hk', hm', ⟨hmade', -⟩ | ⟨-, change, -, -, rfl⟩⟩ := finishStamps_cases hstep
  · obtain rfl := some.inj (hstamping.symm.trans hk')
    obtain rfl := some.inj (hm.symm.trans hm')
    exact absurd hmade' hmade
  · refine ⟨fun _ => id, fun j hj => ?_, length_modify _ _ _, hunaltered⟩
    rcases hj with hj | hj
    · exact .inl (mem_deleteDeferred.mp hj).1
    · cases hj

end OutboundRouter

/-! ### Uploads -/

/-- It ends in a stamp that `validatePropagationMessage` accepts at the cost for which the stamp was requested. -/
def Upload.Stamped (u : Upload) : Prop :=
  u.stamp ≠ [] ∧ u.stamp <:+ u.payload.message ∧
    ∃ cost ∈ u.targetCost, (validatePropagationMessage u.payload.message cost).isSome = true

theorem Parcel.Sound.upload {p : Parcel} (hp : p.Sound) {i : Nat} {u : Upload} (hu : p.upload i = some u) :
    u.message = i ∧ (u.Stamped ↔ p.propagationStamp ≠ []) := by
  obtain ⟨payload, hpayload, rfl⟩ := map_eq_some_iff.mp hu
  obtain ⟨-, hmessage⟩ := hp.propagationPacked payload hpayload
  refine ⟨rfl, And.left, fun hstamp => ⟨hstamp, ?_, ?_⟩⟩
  · exact hmessage ▸ suffix_append _ _
  · obtain ⟨-, cost, hcost, hvalid⟩ := hp.propagationStamp hstamp
    exact ⟨cost, hcost, hmessage ▸ hvalid⟩

namespace Sender

open OutboundRouter (WellFormed Quiet)
open OutboundMessage (request_inj defers_congr provided_congr)

variable {s s' : Sender} {r r' : OutboundRouter} {i : Nat} {m m' : OutboundMessage} {p p' : Parcel}

/-- How a message of the router and its parcel belong together: a message in the queue has its stamp if it is to have one,
    and one that waits for its stamps has none yet unless it came with it. -/
structure Carried (r : OutboundRouter) (i : Nat) (m : OutboundMessage) (p : Parcel) : Prop where
  sound : p.Sound
  packed : m.propagationPackedLength ≠ 0 → p.propagationPacked ≠ none
  queued : i ∈ r.pendingOutbound → (p.propagationStamp ≠ [] ↔ m.Provided)
  deferred : r.Deferred i → OutboundRouter.defers m = true ∧
    (m.propagationStamped = true ↔ p.propagationStamp ≠ []) ∧ p.Settled m

/-- Every message has its parcel, and uploads have the stamps they want. -/
structure Sound (s : Sender) : Prop where
  wellFormed : s.router.WellFormed
  length : s.parcels.length = s.router.messages.length
  carried : ∀ i m p, s.router.messages[i]? = some m → s.parcels[i]? = some p → Carried s.router i m p
  uploads : ∀ u ∈ s.uploads, ∃ m, s.router.messages[u.message]? = some m ∧ (u.Stamped ↔ m.Provided)

theorem Carried.mono (h : Carried r i m p) (hqueue : i ∈ r'.pendingOutbound → i ∈ r.pendingOutbound)
    (hdeferred : r'.Deferred i → r.Deferred i) (hrequest : m'.request = m.request) (hsound : p'.Sound)
    (hsame : p'.propagationStamp = p.propagationStamp)
    (hpacked : m'.propagationPackedLength ≠ 0 → p'.propagationPacked ≠ none) : Carried r' i m' p' where
  sound := hsound
  packed := hpacked
  queued hi := by
    rw [hsame, provided_congr hrequest]
    exact h.queued (hqueue hi)
  deferred hi := by
    obtain ⟨hdefers, hstamped, hsettled⟩ := h.deferred (hdeferred hi)
    obtain ⟨-, hstamp, hhas, -, hpropagation⟩ := request_inj hrequest
    rw [defers_congr hrequest, hpropagation, Parcel.Settled, hsame, hstamp, hhas]
    exact ⟨hdefers, hstamped, hsettled⟩

theorem Sound.quiet (hs : s.Sound) (hwell : r'.WellFormed) (h : Quiet s.router r') : Sound { s with router := r' } where
  wellFormed := hwell
  length := hs.length.trans h.length.symm
  carried i m' p hm' hp := by
    have hi := h.length ▸ (List.getElem?_eq_some_iff.mp hm').1
    have hm := getElem?_eq_getElem hi
    obtain ⟨m₁, hm₁, halike⟩ := h.messages i _ hm
    obtain rfl := some.inj (hm'.symm.trans hm₁)
    have hcarried := hs.carried i _ p hm hp
    exact hcarried.mono (h.queue i) (h.deferred i) halike.request hcarried.sound rfl (halike.packed ▸ hcarried.packed)
  uploads u hu := by
    obtain ⟨m, hm, hiff⟩ := hs.uploads u hu
    obtain ⟨m', hm', halike⟩ := h.messages _ m hm
    exact ⟨m', hm', hiff.trans (provided_congr halike.request).symm⟩

/-! ### A message is handed over -/

theorem getElem?_concat_cases {α : Type} {l : List α} {x y : α} (h : (l ++ [x])[i]? = some y) :
    l[i]? = some y ∨ i = l.length ∧ y = x := by
  rcases Nat.lt_trichotomy i l.length with hi | hi | hi
  · exact .inl (getElem?_append_left hi ▸ h)
  · subst hi
    rw [getElem?_concat_length] at h
    exact .inr ⟨rfl, (some.inj h).symm⟩
  · rw [getElem?_eq_none (by rw [length_append]; exact hi)] at h
    cases h

theorem Handover.packed_spec {h : Handover} (hpacked : h.packed = some p) :
    p.Sound ∧ p.propagationStamp = h.parcel.propagationStamp := by
  unfold Handover.packed at hpacked
  split at hpacked
  · exact ⟨(h.sound.pack hpacked).1, (Parcel.sameStamp_pack hpacked).propagationStamp⟩
  · cases hpacked
    exact ⟨h.sound, rfl⟩

theorem propagationPacked_of_length (h : p.propagationPackedLength ≠ 0) : p.propagationPacked ≠ none :=
  fun hnone => h (by rw [Parcel.propagationPackedLength, hnone]; rfl)

theorem carried_accepted {h : Handover} (hpacked : h.packed = some p)
    (hm : m = accepted { p.onto h.message with propagationStamped := p.propagationStamp ≠ [] } h.facts)
    (hqueue : i ∈ r.pendingOutbound → defers m = false)
    (hdeferred : r.Deferred i → defers m = true) : Carried r i m p := by
  obtain ⟨hsound, hstamp⟩ := Handover.packed_spec hpacked
  have hstamped : m.propagationStamped = true ↔ p.propagationStamp ≠ [] := by
    rw [hm]
    exact decide_eq_true_iff
  refine ⟨hsound, fun hlength => ?_, fun hi => ?_, fun hi => ⟨hdeferred hi, hstamped, fun hne => ?_⟩⟩
  · subst hm
    exact propagationPacked_of_length hlength
  · rw [OutboundMessage.Provided, hqueue hi, hstamped]
    simp
  · subst hm
    rcases h.settled (hstamp ▸ hne) with hdone | hdone
    · refine .inl ?_
      change (h.message.deferStamp && !h.facts.ticket && h.facts.stampCostKnown) = false
      rw [hdone]
      rfl
    · exact .inr hdone

theorem handleOutbound_queues {f : HandleFacts} (hwell : r.WellFormed) (hstep : r.handleOutbound m f = some r') :
    r'.messages = r.messages ++ [accepted m f] ∧
      (∀ j < r.messages.length, (j ∈ r'.pendingOutbound → j ∈ r.pendingOutbound) ∧ (r'.Deferred j → r.Deferred j)) ∧
      (r.messages.length ∈ r'.pendingOutbound → defers (accepted m f) = false) ∧
      (r'.Deferred r.messages.length → defers (accepted m f) = true) := by
  have hfresh : ¬(r.Deferred r.messages.length ∨ r.Touched r.messages.length) :=
    fun hn => Nat.lt_irrefl _ (hwell.known _ hn)
  have hconcat : ∀ {l : List Nat} {j}, j < r.messages.length → j ∈ l ++ [r.messages.length] → j ∈ l := by
    intro l j hj hmem
    exact (mem_append.mp hmem).resolve_right fun h => Nat.ne_of_lt hj (mem_singleton.mp h)
  rcases handleOutbound_cases hstep with ⟨hdefers, rfl⟩ | ⟨hdefers, rfl⟩
  · refine ⟨rfl, fun j hj => ⟨id, Or.imp_left fun hmem => ?_⟩, fun hmem => ?_, fun _ => hdefers⟩
    · exact (mem_deleteDeferred.mp (hconcat hj hmem)).1
    · exact absurd (.inr (.inl hmem)) hfresh
  · exact ⟨rfl, fun j hj => ⟨hconcat hj, id⟩, fun _ => hdefers, fun hdeferred => absurd (.inl hdeferred) hfresh⟩

theorem Sound.handleOutbound {h : Handover} (hs : s.Sound) (hstep : s.handleOutbound h = some s') : s'.Sound := by
  obtain ⟨p, hpacked, hstep⟩ := bind_eq_some_iff.mp hstep
  obtain ⟨router, hrouter, hstep⟩ := bind_eq_some_iff.mp hstep
  cases hstep
  obtain ⟨hmessages, hold, hqueue, hdeferred⟩ := handleOutbound_queues hs.wellFormed hrouter
  refine ⟨handleOutbound_wellFormed hs.wellFormed hrouter, ?_, fun i m q hm hq => ?_, fun u hu => ?_⟩
  · rw [hmessages, length_append, length_append, hs.length]
    rfl
  · rw [hmessages] at hm
    rcases getElem?_concat_cases hm with hm | ⟨rfl, rfl⟩
    · have hi := (List.getElem?_eq_some_iff.mp hm).1
      rw [getElem?_append_left (hs.length ▸ hi)] at hq
      have hcarried := hs.carried i m q hm hq
      exact hcarried.mono (hold i hi).1 (hold i hi).2 rfl hcarried.sound rfl hcarried.packed
    · rw [← hs.length, getElem?_concat_length] at hq
      cases hq
      exact carried_accepted hpacked rfl hqueue hdeferred
  · obtain ⟨m, hm, hiff⟩ := hs.uploads u hu
    refine ⟨m, ?_, hiff⟩
    rw [hmessages, List.getElem?_append_left (List.getElem?_eq_some_iff.mp hm).1, hm]

/-! ### Stamps are made -/

theorem Sound.stamped {k : Nat} (hs : s.Sound) (hwell : WellFormed { s.router with
      stamping := none
      pendingDeferredStamps := s.router.deleteDeferred m.messageID
      pendingOutbound := s.router.pendingOutbound ++ [k] })
    (hm : s.router.messages[k]? = some m) (hp : s.parcels[k]? = some p) (hp' : p'.Sound)
    (hstamp : p'.propagationStamp ≠ [] ↔ m.Provided) :
    Sound { s with
      router := { s.router with
        stamping := none
        pendingDeferredStamps := s.router.deleteDeferred m.messageID
        pendingOutbound := s.router.pendingOutbound ++ [k] }.modifyMessage k p'.onto
      parcels := s.parcels.set k p' } := by
  have hreleased : ¬(k ∈ s.router.deleteDeferred m.messageID ∨ none = some k) := by
    rintro (hk | hk)
    · exact (mem_deleteDeferred.mp hk).2 (by rw [messageIDOf, hm]; rfl)
    · cases hk
  have hk : k < s.parcels.length := (List.getElem?_eq_some_iff.mp hp).1
  refine ⟨modifyMessage_sameQueues.wellFormed hwell, ?_, fun i m' q hm' hq => ?_, fun u hu => ?_⟩
  · rw [length_set, hs.length]
    exact (length_modify _ _ _).symm
  · by_cases hi : i = k
    · subst hi
      obtain rfl : p' = q := some.inj ((getElem?_set_self hk).symm.trans hq)
      obtain rfl : p'.onto m = m' := by
        refine some.inj (Eq.trans ?_ hm')
        exact ((getElem?_modify_eq _ _ _).trans (congrArg _ hm)).symm
      exact ⟨hp', propagationPacked_of_length, fun _ => hstamp, fun hdeferred => absurd hdeferred hreleased⟩
    · have hm : s.router.messages[i]? = some m' := (getElem?_modify_ne _ _ (Ne.symm hi)).symm.trans hm'
      have hcarried := hs.carried i m' q hm ((getElem?_set_ne (Ne.symm hi)).symm.trans hq)
      refine hcarried.mono (fun hmem => ?_) (fun hdeferred => ?_) rfl hcarried.sound rfl hcarried.packed
      · exact (mem_append.mp hmem).resolve_right fun h => hi (mem_singleton.mp h)
      · exact hdeferred.elim (fun h => .inl (mem_deleteDeferred.mp h).1) fun h => by cases h
  · obtain ⟨m₀, hm₀, hiff⟩ := hs.uploads u hu
    obtain ⟨m', hm', hrequest⟩ : ∃ m', (s.router.messages.modify k p'.onto)[u.message]? = some m' ∧ m'.request = m₀.request :=
      modify_keeps (fun m hm => hm) ⟨m₀, hm₀, rfl⟩
    exact ⟨m', hm', hiff.trans (provided_congr hrequest).symm⟩

theorem Sound.finishStamps {f : StampingFacts} (hs : s.Sound) (hstep : s.finishStamps f = some s') : s'.Sound := by
  obtain ⟨k, hstamping, hstep⟩ := bind_eq_some_iff.mp hstep
  obtain ⟨m, hm, hstep⟩ := bind_eq_some_iff.mp hstep
  obtain ⟨p, hp, hstep⟩ := bind_eq_some_iff.mp hstep
  obtain ⟨router, hrouter, hstep⟩ := bind_eq_some_iff.mp hstep
  have hwell : router.WellFormed :=
    step_wellFormed (a := .finishStamps (p.stampFacts m f)) hs.wellFormed hrouter
  have hcarried := hs.carried k m p hm hp
  obtain ⟨hdefers, hstamped, hsettled⟩ := hcarried.deferred (.inr hstamping)
  have hmade := Parcel.stampResult_stampFacts (h := f) hstamped
  cases hprocess : p.processDeferredStamps m f with
  | none =>
    rw [hprocess] at hstep hmade
    cases hstep
    exact hs.quiet hwell (finishStamps_quiet hstamping hm (fun h => by cases hmade.mp h) hrouter)
  | some p' =>
    rw [hprocess] at hstep hmade
    cases hstep
    obtain ⟨hp', hstamp⟩ := Parcel.processDeferredStamps_spec hcarried.sound hsettled hprocess
    obtain rfl := finishStamps_made hstamping hm (hmade.mpr rfl) hrouter
    refine hs.stamped hwell hm hp hp' ?_
    rw [hstamp, OutboundMessage.Provided, hstamped, hdefers, and_iff_left rfl]

/-! ### A pass -/

theorem forNode_packed {f : PropagatedFacts} (h : p.forNode f = some p') : p'.propagationPacked ≠ none := by
  unfold Parcel.forNode at h
  split at h
  · next hpacked => exact some.inj h ▸ hpacked
  · obtain ⟨-, encrypted, -, payload, representation, -, rfl⟩ := Parcel.packPropagated_cases h
    exact some_ne_none payload

theorem forNode_sound {f : PropagatedFacts} (hp : p.Sound) (h : p.forNode f = some p') :
    p'.Sound ∧ p'.propagationStamp = p.propagationStamp := by
  unfold Parcel.forNode at h
  split at h
  · cases h
    exact ⟨hp, rfl⟩
  · exact ⟨(hp.packPropagated h).1, (Parcel.sameStamp_packPropagated h).propagationStamp⟩

section Pass
variable {facts : Nat → SendFacts} {packing : Nat → PropagatedFacts}

theorem packedParcels_cases (hq : (s.packedParcels packing r)[i]? = some p') : ∃ p, s.parcels[i]? = some p ∧
      ((∃ m, r.messages[i]? = some m ∧ m.propagationPackedLength ≠ 0) ∧ p' = (p.forNode (packing i)).getD p ∨
        (∀ m, r.messages[i]? = some m → m.propagationPackedLength = 0) ∧ p' = p) := by
  rw [packedParcels, getElem?_mapIdx] at hq
  obtain ⟨p, hp, rfl⟩ := map_eq_some_iff.mp hq
  refine ⟨p, hp, ?_⟩
  split
  · next hany =>
    obtain ⟨m, hm, hne⟩ := (any_eq_true _ _).mp hany
    refine .inl ⟨⟨m, hm, of_decide_eq_true hne⟩, ?_⟩
    rw [forNode, hp]
    rfl
  · next hany =>
    refine .inr ⟨fun m hm => not_not.mp fun hne => hany ?_, rfl⟩
    exact (any_eq_true _ _).mpr ⟨m, hm, decide_eq_true hne⟩

theorem Sound.passed {fates : List (Nat × Fate)} (hs : s.Sound)
    (hpassed : PassedQueue (s.sendFacts facts packing) s.router r' fates) (hm' : r'.messages[i]? = some m')
    (hp' : (s.packedParcels packing r')[i]? = some p') :
    ∃ m p, s.router.messages[i]? = some m ∧ s.parcels[i]? = some p ∧ m'.request = m.request ∧ p'.Sound ∧
      p'.propagationStamp = p.propagationStamp ∧ (m'.propagationPackedLength ≠ 0 → p'.propagationPacked ≠ none) := by
  obtain ⟨p, hp, hcases⟩ := packedParcels_cases hp'
  have hi := hpassed.length ▸ (List.getElem?_eq_some_iff.mp hm').1
  have hm := getElem?_eq_getElem hi
  obtain ⟨m₁, hm₁, -, hrequest, hpacked⟩ := hpassed.became hm
  obtain rfl := some.inj (hm'.symm.trans hm₁)
  have hcarried := hs.carried i _ p hm hp
  refine ⟨_, p, hm, hp, hrequest, ?_⟩
  rcases hcases with ⟨-, rfl⟩ | ⟨hzero, rfl⟩
  · cases hforNode : p.forNode (packing i) with
    | some q =>
      obtain ⟨hq, hstamp⟩ := forNode_sound hcarried.sound hforNode
      exact ⟨hq, hstamp, fun _ => forNode_packed hforNode⟩
    | none =>
      refine ⟨hcarried.sound, rfl, fun hne => ?_⟩
      rcases hpacked with hsame | ⟨-, hfact⟩
      · exact hcarried.packed (hsame ▸ hne)
      · rw [sendFacts, forNode, hp, bind_some, hforNode] at hfact
        cases hfact
  · exact ⟨hcarried.sound, rfl, fun hne => absurd (hzero m' hm') hne⟩

theorem Sound.processOutbound (hs : s.Sound) : (s.processOutbound facts packing).Sound := by
  have hpassed := processOutbound_passed hs.wellFormed (s.sendFacts facts packing)
  unfold Sender.processOutbound
  dsimp only
  refine ⟨hpassed.wellFormed hs.wellFormed, ?_, fun i m' p' hm' hp' => ?_, fun u hu => ?_⟩
  · rw [packedParcels, length_mapIdx, hs.length, hpassed.length]
  · obtain ⟨m, p, hm, hp, hrequest, hsound, hstamp, hpacked⟩ := hs.passed hpassed hm' hp'
    refine (hs.carried i m p hm hp).mono (fun hi => ?_) hpassed.deferred.mp hrequest hsound hstamp hpacked
    exact hpassed.order ▸ mem_fated hi
  · rcases mem_append.mp hu with hu | hu
    · obtain ⟨m, hm, hiff⟩ := hs.uploads u hu
      obtain ⟨m', hm', -, hrequest, -⟩ := hpassed.became hm
      exact ⟨m', hm', hiff.trans (provided_congr hrequest).symm⟩
    · -- What is sent in this pass is in the queue, so its message has the stamp it is to have.
      obtain ⟨x, hx, hu⟩ := mem_filterMap.mp hu
      obtain ⟨hx, hpropagated⟩ := mem_filter.mp hx
      obtain ⟨added, hadded, hall⟩ := hpassed.transmissions
      rw [hadded, drop_left] at hx
      obtain ⟨hqueue, -, hsent⟩ := hall x hx
      obtain ⟨m', hm', -⟩ := hsent hpropagated
      obtain ⟨p', hp', hu⟩ := bind_eq_some_iff.mp hu
      obtain ⟨m, p, hm, hp, hrequest, hsound, hstamp, -⟩ := hs.passed hpassed hm' hp'
      obtain ⟨hmessage, hstamped⟩ := hsound.upload hu
      refine ⟨m', hmessage ▸ hm', ?_⟩
      rw [hstamped, hstamp, provided_congr hrequest]
      exact (hs.carried x.message m p hm hp).queued hqueue

end Pass

/-! ### Runs -/

theorem step_cases {a : Action} (hstep : s.step a = some s') :
    (∃ h, a = .handleOutbound h ∧ s.handleOutbound h = some s') ∨
      (∃ facts packing, a = .processOutbound facts packing ∧ s' = s.processOutbound facts packing) ∨
      (∃ f, a = .finishStamps f ∧ s.finishStamps f = some s') ∨
      ∃ b r', a = .other b ∧ s.router.step b = some r' ∧ Quiet s.router r' ∧ s' = { s with router := r' } := by
  cases a with
  | handleOutbound h => exact .inl ⟨h, rfl, hstep⟩
  | processOutbound facts packing => exact .inr (.inl ⟨facts, packing, rfl, (some.inj hstep).symm⟩)
  | finishStamps f => exact .inr (.inr (.inl ⟨f, rfl, hstep⟩))
  | other b =>
    refine .inr (.inr (.inr ⟨b, ?_⟩))
    unfold step at hstep
    dsimp only at hstep
    split at hstep
    · cases hstep
    · cases hstep
    · cases hstep
    · next hhandle hprocess hfinish =>
      obtain ⟨r', hr', rfl⟩ := map_eq_some_iff.mp hstep
      exact ⟨r', rfl, hr', step_quiet hr' hhandle hprocess hfinish, rfl⟩

theorem Sound.step {a : Action} (hs : s.Sound) (hstep : s.step a = some s') : s'.Sound := by
  obtain ⟨h, -, hstep⟩ | ⟨facts, packing, -, rfl⟩ | ⟨f, -, hstep⟩ | ⟨b, r', -, hrouter, hquiet, rfl⟩ := step_cases hstep
  · exact hs.handleOutbound hstep
  · exact hs.processOutbound
  · exact hs.finishStamps hstep
  · exact hs.quiet (step_wellFormed hs.wellFormed hrouter) hquiet

def start (now : Time) : Sender := { router := { now } }

theorem start_sound {now : Time} : (start now).Sound :=
  ⟨OutboundRouter.start_wellFormed, rfl, fun _ _ _ hm => absurd hm (by simp [start]),
    fun _ hu => absurd hu not_mem_nil⟩

/-- An upload ends in an accepted stamp just when it was queued for its stamps or came with it. -/
theorem upload_stamped_iff {now : Time} {as : List Action} (hrun : run step (start now) as = some s) {u : Upload}
    (hu : u ∈ s.uploads) (hm : s.router.messages[u.message]? = some m) : u.Stamped ↔ m.propagationStamped = true ∨
      m.desiredMethod = some .propagated ∧ OutboundRouter.defers m = true := by
  have hs : s.Sound := Reachable.invariant ⟨as, hrun⟩ Sound start_sound fun _ _ _ hs hstep => hs.step hstep
  obtain ⟨m', hm', hiff⟩ := hs.uploads u hu
  obtain rfl := Option.some.inj (hm.symm.trans hm')
  exact hiff

namespace Sample

def plain : ParcelFacts where
  encrypt := some
  time := 0
  encrypt_length := fun _ _ h => Nat.le_of_eq (congrArg _ (Option.some.inj h))
  packed := some (List.replicate 111 7)
  packed_length := fun _ h => Option.some.inj h ▸ by decide

def direct : OutboundMessage :=
  { messageID := [1], destinationHash := List.replicate 16 7, desiredMethod := some .direct, packedLength := 0
    tryPropagationOnFail := true, deferPropagationStamp := true }

def fresh : Handover where
  message := direct
  parcel := { destinationHash := List.replicate 16 7 }
  facts := {}
  pack := plain
  sound := ⟨rfl, fun h => absurd rfl h, fun h => absurd rfl h, fun h => absurd rfl h, fun _ h => (Option.not_mem_none _ h).elim,
    fun h => absurd rfl h⟩
  settled := fun h => absurd rfl h

def pathless (time : Time) : List Action :=
  [.other (.tick time), .processOutbound (fun _ => { hasPath := false }) fun _ => plain.toPropagatedFacts]

def pass : Action := .processOutbound (fun _ => {}) fun _ => plain.toPropagatedFacts

/-- There is no path to the destination for five attempts, so the message goes to the propagation node. -/
def fallback (h : Handover) : List Action :=
  [.other (.setPropagationNode true), .handleOutbound h] ++
    [0, 10, 20, 30, 40, 50].flatMap (fun seconds => pathless (seconds * 1000000000)) ++ [pass, pass]

/-- The fallback is uploaded without a stamp, and no cost is low enough for it. -/
theorem fallback_unstamped : ∃ s u m, run step (start 0) (fallback fresh) = some s ∧ u ∈ s.uploads ∧
    s.router.messages[u.message]? = some m ∧ m.method = some .propagated ∧ u.stamp = [] ∧ u.targetCost = none ∧
      ¬u.Stamped ∧ ∀ cost, validatePropagationMessage u.payload.message cost = none := by
  obtain ⟨s, hrun, huploads, m, hm, hmethod⟩ : ∃ s ∈ run step (start 0) (fallback fresh),
      s.uploads = [⟨0, ⟨0, List.replicate 111 7⟩, [], none⟩] ∧
        ∃ m ∈ s.router.messages[0]?, m.method = some .propagated := by
    decide +kernel
  refine ⟨s, _, m, hrun, huploads ▸ List.mem_singleton_self _, hm, hmethod, rfl, rfl, fun h => absurd rfl h.1, fun cost => ?_⟩
  rfl

def stamp : Bytes := List.replicate 32 9

def returned : Handover where
  message := direct
  parcel := { destinationHash := List.replicate 16 7
              packed := List.replicate 111 7
              propagationEncryptedData := List.replicate 95 7
              propagationStamp := stamp
              propagationTargetCost := some 0 }
  facts := {}
  pack := plain
  sound := by
    obtain ⟨v, hv, -⟩ := validatePropagationMessage_free (List.replicate 111 7 ++ stamp) (by simp [stamp])
    exact ⟨rfl, fun _ => by decide, fun _ => by decide, fun h => absurd rfl h, fun _ h => (Option.not_mem_none _ h).elim,
      fun _ => ⟨by decide, 0, rfl, Option.isSome_of_eq_some hv⟩⟩
  settled := fun _ => .inl rfl

/-- A message that comes with its stamp is uploaded with it, also as a fallback. -/
theorem returned_stamped : ∃ s u, run step (start 0) (fallback returned) = some s ∧ u ∈ s.uploads ∧ u.Stamped := by
  obtain ⟨s, hrun, huploads, m, hm, hstamped⟩ : ∃ s ∈ run step (start 0) (fallback returned),
      s.uploads = [⟨0, ⟨0, List.replicate 111 7 ++ stamp⟩, stamp, some 0⟩] ∧
        ∃ m ∈ s.router.messages[0]?, m.propagationStamped = true := by
    decide +kernel
  have hu := huploads ▸ List.mem_singleton_self (⟨0, ⟨0, List.replicate 111 7 ++ stamp⟩, stamp, some 0⟩ : Upload)
  exact ⟨s, _, hrun, hu, (upload_stamped_iff hrun hu hm).mpr (.inl hstamped)⟩

end Sample

end Sender
end Reticulum.Lxmf
