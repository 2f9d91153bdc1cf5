import Reticulum.Theorems.Lxmf.Outbound

/-! # The outcome of an outbound message

How often the callbacks of a message have been called can be told from its state (`Told`), as long as every step is
`Orderly` for it. -/

namespace Reticulum.Lxmf

open List Option

def ReceiptKind.leaves : ReceiptKind → List MessageState
  | .propagated => [.sent, .cancelled]
  | .direct | .raw => [.delivered, .cancelled]

def OutboundResource.leaves (resource : OutboundResource) (complete : Bool) : List MessageState :=
  if resource.propagated then [.cancelled]
  else if complete then [.delivered]
  else [.delivered, .cancelled, .failed]

namespace OutboundMessage

variable {m : OutboundMessage}

/-- The states that a report of delivery sets. -/
def reported (m : OutboundMessage) : Bool :=
  match m.state with
  | .delivered => true
  | .sent => m.method = some .propagated
  | _ => false

theorem terminal_of_reported (h : m.reported = true) : m.terminal = true := by
  unfold reported at h
  unfold terminal
  split at h <;> simp_all

theorem not_reported (h : m.terminal = false) : m.reported = false ∧ m.state ≠ .failed := by
  refine ⟨Bool.eq_false_iff.mpr fun hreported => ?_, fun hfailed => ?_⟩
  · simp [terminal_of_reported hreported] at h
  · simp [terminal, hfailed] at h

theorem reported_congr {m' : OutboundMessage} (hstate : m'.state = m.state) (hmethod : m'.method = m.method) :
    m'.reported = m.reported ∧ m'.terminal = m.terminal := by
  simp [reported, terminal, hstate, hmethod]

end OutboundMessage

namespace OutboundRouter

open Transitions

variable {r r' : OutboundRouter} {i j k : Nat} {m : OutboundMessage} {f : SendFacts}

/-! ### Outcomes -/

def outcome (r : OutboundRouter) (i : Nat) : Option MessageState := if r.Waiting i then none else r.terminalState i

/-- The callbacks are called once for an outcome. -/
structure OneOutcome (i : Nat) (r : OutboundRouter) : Prop where
  atMostOne : r.callsOf i ≤ 1
  called : r.outcome i ≠ none → r.callsOf i = 1

def Final (i : Nat) (r r' : OutboundRouter) : Prop := ∀ s, r.outcome i = some s → r'.outcome i = some s

/-- Whether the message waits for its stamps under the ID, and those that are being made are not for it. -/
def HeldUnder (r : OutboundRouter) (i : Nat) (messageID : Option Bytes) : Prop :=
  i ∈ r.pendingDeferredStamps ∧ r.stamping ≠ some i ∧ r.messageIDOf i = messageID

/-- The message is in no terminal state, or has been cancelled. -/
def Unsettled (r : OutboundRouter) (i : Nat) : Prop :=
  ∀ s ∈ r.terminalState i, s ∈ [MessageState.cancelled, .rejected]

/-- A message that is cancelled under the ID is unsettled before, and is cancelled or rejected after. -/
def Cancels (i : Nat) (r : OutboundRouter) (messageID : Bytes) (cancelState : MessageState) : Prop :=
  r.Waiting i → r.messageIDOf i = some messageID → r.Unsettled i ∧ cancelState ∈ [MessageState.cancelled, .rejected]

/-- A report or a cancellation meets a message that is still in the queue and unsettled, or one that it leaves as it is. -/
def Orderly (i : Nat) (r : OutboundRouter) : Action → Prop
  -- The entry of a message that has been cancelled is not taken by another one with the same ID.
  | .handleOutbound m f => defers (accepted m f) = true → r.HeldUnder i (some m.messageID) → r.terminalState i = none
  | .finishStamps _ => r.HeldUnder i (r.stamping.bind r.messageIDOf) → r.terminalState i = none
  | .processOutbound facts => i ∈ r.pendingOutbound → ∀ m ∈ r.messages[i]?, ¬Unreceipted m (facts i)
  | .cancelOutbound messageID cancelState => Cancels i r messageID cancelState
  | .delivered receipt => receipt.message = i → i ∈ r.pendingOutbound ∧ r.Unsettled i
  | .timedOut receipt => receipt.message = i →
      i ∈ r.pendingOutbound ∧ r.Unsettled i ∨ ∀ s ∈ r.terminalState i, s ∈ receipt.kind.leaves
  | .concluded resource complete => resource.message = i →
      resource.propagated = true ∧ i ∈ r.pendingOutbound ∧ r.Unsettled i ∨
        (resource.propagated && complete) = false ∧ ∃ s ∈ r.terminalState i, s ∈ resource.leaves complete
  | _ => True

instance {messageID : Option Bytes} : Decidable (r.HeldUnder i messageID) := inferInstanceAs (Decidable (_ ∧ _ ∧ _))

instance : Decidable (r.Unsettled i) := inferInstanceAs (Decidable (∀ s ∈ r.terminalState i, s ∈ [.cancelled, .rejected]))

instance : Decidable (Unreceipted m f) := inferInstanceAs (Decidable (_ ∧ _))

instance : ∀ a, Decidable (Orderly i r a)
  | .handleOutbound _ _ => inferInstanceAs (Decidable (_ → _ → _))
  | .finishStamps _ => inferInstanceAs (Decidable (_ → _))
  | .processOutbound facts =>
    inferInstanceAs (Decidable (i ∈ r.pendingOutbound → ∀ m ∈ r.messages[i]?, ¬Unreceipted m (facts i)))
  | .cancelOutbound _ _ => inferInstanceAs (Decidable (_ → _ → _))
  | .delivered _ => inferInstanceAs (Decidable (_ → _))
  | .timedOut receipt =>
    inferInstanceAs (Decidable (_ → _ ∨ ∀ s ∈ r.terminalState i, s ∈ receipt.kind.leaves))
  | .concluded resource complete =>
    inferInstanceAs (Decidable (_ → _ ∨ _ ∧ ∃ s ∈ r.terminalState i, s ∈ resource.leaves complete))
  | .startStamps | .propagationLinkClosed _ | .directLinkClosed _ _ | .resourceLinkEstablished _
  | .resourceLinkClosed _ | .deliveryAnnounced _ | .propagationAnnounced | .setPropagationNode _ | .tick _ =>
    isTrue trivial

theorem outcome_of_waiting (h : r.Waiting i) : r.outcome i = none := if_pos h

theorem outcome_of_left (h : ¬r.Waiting i) : r.outcome i = r.terminalState i := if_neg h

theorem outcome_eq_some {s : MessageState} : r.outcome i = some s ↔
    ¬r.Waiting i ∧ ∃ m, r.messages[i]? = some m ∧ m.terminal = true ∧ m.state = s := by
  rw [outcome, ← terminalState_eq_some]
  split_ifs with h <;> simp [h]

theorem final_of_waiting (h : r.Waiting i) : Final i r r' := fun s hs => by
  rw [outcome_of_waiting h] at hs
  cases hs

theorem Unsettled.not_reported (h : r.Unsettled i) (hm : r.messages[i]? = some m) : m.reported = false := by
  refine Bool.eq_false_iff.mpr fun hreported => ?_
  have hstate := h m.state (terminalState_eq_some.mpr ⟨m, hm, m.terminal_of_reported hreported, rfl⟩)
  unfold OutboundMessage.reported at hreported
  split at hreported <;> simp_all

/-! ### What the state of a message tells -/

/-- While a message waits it has been called for just when its state says that delivery was reported. -/
structure Told (i : Nat) (r : OutboundRouter) : Prop where
  waiting : r.Waiting i → ∀ m, r.messages[i]? = some m →
    m.method ≠ none ∧ m.state ≠ .failed ∧ r.callsOf i = if m.reported then 1 else 0
  left : r.outcome i ≠ none → r.callsOf i = 1
  reports : i ∈ r.reports → i ∈ r.pendingOutbound ∨ r.outcome i ≠ none

/-- The state stays, or the message is waiting and delivery is reported neither before nor after. -/
def Restated (waiting : Prop) (m m' : OutboundMessage) : Prop :=
  m'.method = m.method ∧
    (m'.state = m.state ∨ waiting ∧ m.reported = false ∧ m'.reported = false ∧ m'.state ≠ .failed)

theorem Restated.refl {waiting : Prop} : Restated waiting m m := ⟨rfl, .inl rfl⟩

/-- A message that is called for as it leaves, or has been before. -/
theorem told_of_left (hw : r.Waiting i) (houtcome : r'.outcome i ≠ none) (hcalls : r'.callsOf i = 1) :
    Told i r' ∧ Final i r r' := by
  refine ⟨⟨fun hw' => ?_, fun _ => hcalls, fun _ => .inr houtcome⟩, final_of_waiting hw⟩
  exact absurd (outcome_of_waiting hw') houtcome

/-- What a pass does with a message that has not failed. -/
theorem processMessage_fate (hmethod : m.method ≠ none) (hfailed : m.state ≠ .failed) (hreceipt : ¬Unreceipted m f) :
    m.reported = true ∧ (r.processMessage i m f).2.2 = .removed ∨
      m.reported = false ∧ ((r.processMessage i m f).2.2 = .notified ∨ Ongoing (r.processMessage i m f)) := by
  unfold processMessage
  cases hstate : m.state with
  | sent =>
    dsimp only
    split_ifs with hpropagated
    · exact .inl ⟨by simp [OutboundMessage.reported, hstate, hpropagated], rfl⟩
    · exact .inr ⟨by simp [OutboundMessage.reported, hstate, hpropagated],
        .inr (attempt_processed.ongoing ⟨by simp [OutboundMessage.terminal, hstate, hpropagated], hmethod⟩ hreceipt)⟩
  | failed => exact absurd hstate hfailed
  | delivered => exact .inl ⟨by simp [OutboundMessage.reported, hstate], rfl⟩
  | cancelled | rejected => exact .inr ⟨by simp [OutboundMessage.reported, hstate], .inl rfl⟩
  | generating | outbound | sending | paper =>
    exact .inr ⟨by simp [OutboundMessage.reported, hstate],
      .inr (attempt_processed.ongoing ⟨by simp [OutboundMessage.terminal, hstate], hmethod⟩ hreceipt)⟩

theorem timedOut_state {kind : ReceiptKind} {retryAt : Time} : (timedOut kind retryAt m).state = m.state ∨
    (timedOut kind retryAt m).state = .outbound ∧ (m.terminal = true → m.state ∉ kind.leaves) := by
  cases kind <;> cases hstate : m.state <;>
    simp_all [timedOut, OutboundMessage.retryAt, OutboundMessage.terminal, ReceiptKind.leaves]

theorem concluded_state {resource : OutboundResource} {complete : Bool} {retryAt : Time} :
    (concluded resource.propagated complete retryAt m).state = m.state ∨
      (m.terminal = true → m.state ∉ resource.leaves complete) ∧ (resource.propagated = true →
        (concluded resource.propagated complete retryAt m).state = .outbound) := by
  unfold concluded OutboundResource.leaves
  cases resource.propagated <;> cases complete <;> cases hstate : m.state <;>
    simp_all [OutboundMessage.retryAt, OutboundMessage.terminal]

theorem propagationLinkClosed_restated {link : Nat} (m : OutboundMessage) (hm : r.messages[i]? = some m) :
    ∃ m', (r.propagationLinkClosed link).messages[i]? = some m' ∧ Restated (r.Waiting i) m m' := by
  unfold propagationLinkClosed
  split
  · by_cases hi : i ∈ r.pendingOutbound
    · refine foldl_modify_keeps (fun m' hm' => ?_) _ _ ⟨m, hm, .refl⟩
      split_ifs with hsending
      · refine ⟨hm'.1, .inr ⟨.inl hi, ?_, rfl, nofun⟩⟩
        rcases hm'.2 with hstate | ⟨-, hreported, -⟩
        · simp [OutboundMessage.reported, ← hstate, hsending.2]
        · exact hreported
      · exact hm'
    · exact ⟨m, (foldl_modify_getElem? hi).trans hm, .refl⟩
  · exact ⟨m, hm, .refl⟩

theorem heldUnder_of_gone {messageID : Option Bytes} (hgone : r.Waiting i ∧ ¬r'.Waiting i)
    (hqueue : i ∈ r'.pendingOutbound ↔ i ∈ r.pendingOutbound)
    (hdeferred : i ∈ r'.pendingDeferredStamps ↔ i ∈ r.pendingDeferredStamps ∧ r.messageIDOf i ≠ messageID)
    (hstamping : r'.stamping = some i ↔ r.stamping = some i) : r.HeldUnder i messageID := by
  obtain ⟨hq | hd | hs, hw'⟩ := hgone
  · exact absurd (.inl (hqueue.mpr hq)) hw'
  · refine ⟨hd, fun hs => hw' (.inr (.inr (hstamping.mpr hs))), ?_⟩
    by_contra hID
    exact hw' (.inr (.inl (hdeferred.mpr ⟨hd, hID⟩)))
  · exact absurd (.inr (.inr (hstamping.mpr hs))) hw'

section

variable (hwell : WellFormed r)
include hwell

theorem WellFormed.message (hw : r.Waiting i) : ∃ m, r.messages[i]? = some m :=
  ⟨_, getElem?_eq_getElem (hwell.known i (hw.symm.imp_right .inl))⟩

theorem Told.oneOutcome (h : Told i r) : OneOutcome i r := by
  refine ⟨?_, h.left⟩
  by_cases hw : r.Waiting i
  · obtain ⟨m, hm⟩ := hwell.message hw
    rw [(h.waiting hw m hm).2.2]
    split <;> decide
  · by_cases houtcome : r.outcome i = none
    · rw [callsOf_of_untouched]
      · exact Nat.zero_le 1
      · rintro (hq | hreports)
        · exact hw (.inl hq)
        · exact (h.reports hreports).elim (fun hq => hw (.inl hq)) fun hne => hne houtcome
    · exact (h.left houtcome).le

/-- A step that calls nothing and restates the message keeps what its state tells. -/
theorem Told.keep (h : Told i r) (hwaiting : r'.Waiting i ↔ r.Waiting i)
    (hcalls : r'.callsOf i = r.callsOf i) (hqueue : i ∈ r.pendingOutbound → i ∈ r'.pendingOutbound)
    (hreports : i ∈ r'.reports → i ∈ r.reports) (hnone : r.messages[i]? = none → r'.messages[i]? = none)
    (hmessage : ∀ m, r.messages[i]? = some m → ∃ m', r'.messages[i]? = some m' ∧ Restated (r.Waiting i) m m') :
    Told i r' ∧ Final i r r' := by
  have hfinal : Final i r r' := by
    intro s hs
    obtain ⟨hleft, m, hm, hterminal, rfl⟩ := outcome_eq_some.mp hs
    obtain ⟨m', hm', hmethod, hstate | ⟨hw, -⟩⟩ := hmessage m hm
    · exact outcome_eq_some.mpr
        ⟨hwaiting.not.mpr hleft, m', hm', (OutboundMessage.reported_congr hstate hmethod).2.trans hterminal, hstate⟩
    · exact absurd hw hleft
  refine ⟨⟨fun hw m' hm' => ?_, fun hne => ?_, fun hin => ?_⟩, hfinal⟩
  · obtain ⟨m, hm⟩ := hwell.message (hwaiting.mp hw)
    obtain ⟨m'', hm'', hmethod, hrest⟩ := hmessage m hm
    obtain rfl := some.inj (hm'.symm.trans hm'')
    obtain ⟨hsome, hfailed, hone⟩ := h.waiting (hwaiting.mp hw) m hm
    rw [hcalls, hone, hmethod]
    refine ⟨hsome, ?_⟩
    rcases hrest with hstate | ⟨-, hbefore, hafter, hfailed'⟩
    · rw [hstate, (OutboundMessage.reported_congr hstate hmethod).1]
      exact ⟨hfailed, rfl⟩
    · rw [hbefore, hafter]
      exact ⟨hfailed', rfl⟩
  · obtain ⟨s, hs⟩ := ne_none_iff_exists'.mp hne
    obtain ⟨hleft, m', hm', hterminal, -⟩ := outcome_eq_some.mp hs
    rw [hcalls]
    cases hm : r.messages[i]? with
    | none =>
      rw [hnone hm] at hm'
      cases hm'
    | some m =>
      obtain ⟨m'', hm'', hmethod, hstate | ⟨hw, -⟩⟩ := hmessage m hm
      · obtain rfl := some.inj (hm'.symm.trans hm'')
        rw [(OutboundMessage.reported_congr hstate hmethod).2] at hterminal
        exact h.left (ne_none_iff_exists'.mpr ⟨_, outcome_eq_some.mpr ⟨hwaiting.not.mp hleft, m, hm, hterminal, rfl⟩⟩)
      · exact absurd hw (hwaiting.not.mp hleft)
  · refine (h.reports (hreports hin)).imp hqueue fun hne => ?_
    obtain ⟨s, hs⟩ := ne_none_iff_exists'.mp hne
    exact ne_none_iff_exists'.mpr ⟨s, hfinal s hs⟩

theorem Told.same (h : Told i r) (hsame : SameQueues r r') (hcalls : r'.callsOf i = r.callsOf i)
    (hmessage : ∀ m, r.messages[i]? = some m → ∃ m', r'.messages[i]? = some m' ∧ Restated (r.Waiting i) m m') :
    Told i r' ∧ Final i r r' := by
  refine h.keep hwell hsame.waiting hcalls (fun hq => hsame.pendingOutbound ▸ hq)
    (hsame.reports i) (fun hnone => ?_) hmessage
  rw [getElem?_eq_none_iff, hsame.length]
  exact getElem?_eq_none_iff.mp hnone

/-! ### Passes -/

theorem Told.pass (h : Told i r) (facts : Nat → SendFacts) (horderly : Orderly i r (.processOutbound facts)) :
    Told i (r.processOutbound facts) ∧ Final i r (r.processOutbound facts) := by
  have hpassed := processOutbound_passed hwell facts
  by_cases hi : i ∈ r.pendingOutbound
  · obtain ⟨m, hm⟩ := hwell.message (.inl hi)
    obtain ⟨hmethod, hfailed, hone⟩ := h.waiting (.inl hi) m hm
    obtain ⟨⟨i, fate⟩, hfate, rfl⟩ := mem_map.mp (hpassed.order ▸ hi)
    dsimp only at *
    obtain ⟨r₁, m₁, hm₁, hm', heq⟩ := hpassed.processed _ hfate
    obtain rfl := some.inj (hm.symm.trans hm₁)
    have hprocessed := processMessage_fate (r := r₁) (i := i) hmethod hfailed (horderly hi m hm)
    generalize r₁.processMessage i m (facts i) = result at hm' heq hprocessed
    obtain ⟨r₂, m', _⟩ := result
    cases heq
    have hnodup : ((r.fates facts).map (·.1)).Nodup := hpassed.order ▸ hwell.queue_nodup
    have hcalls := hpassed.callsOf i
    rw [count_fated hnodup hfate, count_fated hnodup hfate, hone] at hcalls
    have hkept : i ∈ (r.processOutbound facts).pendingOutbound ↔ fate = .kept := by
      rw [hpassed.pendingOutbound, ← count_pos_iff, count_fated hnodup hfate]
      split <;> simp [*]
    -- A message that is not kept is in no queue and has reached a terminal state.
    have hleft : fate ≠ .kept → (r.processOutbound facts).outcome i ≠ none := by
      intro hne
      rw [outcome_of_left]
      · exact hpassed.terminal hfate hne
      · rintro (hqueue | hdeferred)
        · exact hne (hkept.mp hqueue)
        · exact hwell.untouched i (hpassed.deferred.mp hdeferred) (.inl hi)
    rcases hprocessed with ⟨hreported, rfl⟩ | ⟨hreported, rfl | rfl | ⟨rfl, hterminal, hsome⟩⟩
    iterate 3 exact told_of_left (.inl hi) (hleft nofun) (by simpa [hreported] using hcalls)
    · have hqueue := hkept.mpr rfl
      obtain ⟨hunreported, hfailed'⟩ := OutboundMessage.not_reported hterminal
      refine ⟨⟨fun _ m'' hm'' => ?_, fun hne => ?_, fun _ => .inl hqueue⟩, final_of_waiting (.inl hi)⟩
      · obtain rfl : m' = m'' := some.inj (hm'.symm.trans hm'')
        refine ⟨hsome, hfailed', ?_⟩
        rw [hunreported]
        simpa [hreported] using hcalls
      · exact absurd (outcome_of_waiting (.inl hqueue)) hne
  · have hnot : ∀ fate, i ∉ fated fate (r.fates facts) := fun fate hin => hi (hpassed.order ▸ mem_fated hin)
    have hqueue : i ∈ (r.processOutbound facts).pendingOutbound ↔ i ∈ r.pendingOutbound := by
      rw [hpassed.pendingOutbound]
      exact iff_of_false (hnot _) hi
    refine h.keep hwell (or_congr hqueue hpassed.deferred) ?_ hqueue.mpr
      (fun hin => (hpassed.reports i hin).resolve_right hi) (hpassed.others i hi).trans
      fun m hm => ⟨m, (hpassed.others i hi).trans hm, .refl⟩
    rw [hpassed.callsOf, count_eq_zero_of_not_mem (hnot _), count_eq_zero_of_not_mem (hnot _)]
    rfl

/-! ### Reports and cancellations -/

section

variable {change : OutboundMessage → OutboundMessage}

theorem Told.other {calls : List Nat} (h : Told i r) (hreports : Reports k change calls r r')
    (hne : k ≠ i) (hcalls : calls.count i = 0) : Told i r' ∧ Final i r r' := by
  refine h.same hwell hreports.toSameQueues ?_ fun m hm => ⟨m, ?_, .refl⟩
  · rw [hreports.callsOf_eq, hcalls, Nat.add_zero]
  · rw [hreports.messages, getElem?_modify_ne _ _ hne, hm]

/-- Delivery is reported of a message that has not been called for. -/
theorem Told.delivered (h : Told i r) (hreports : Reports k change [k] r r')
    (hunsettled : k = i → i ∈ r.pendingOutbound ∧ r.Unsettled i)
    (hchange : ∀ m, r.messages[k]? = some m → (change m).method = m.method ∧ (change m).reported = true) :
    Told i r' ∧ Final i r r' := by
  by_cases hne : k = i
  · subst hne
    obtain ⟨hq, hunsettled⟩ := hunsettled rfl
    have hq' : k ∈ r'.pendingOutbound := hreports.pendingOutbound ▸ hq
    refine ⟨⟨fun _ m' hm' => ?_, fun hout => ?_, fun _ => .inl hq'⟩, final_of_waiting (.inl hq)⟩
    · obtain ⟨m, hm⟩ := hwell.message (.inl hq)
      obtain ⟨hmethod, hreported⟩ := hchange m hm
      obtain rfl : change m = m' := by
        rw [hreports.messages, getElem?_modify_eq, hm] at hm'
        exact some.inj hm'
      obtain ⟨hsome, -, hone⟩ := h.waiting (.inl hq) m hm
      rw [hunsettled.not_reported hm] at hone
      refine ⟨hmethod ▸ hsome, fun hfailed => ?_, ?_⟩
      · simp [OutboundMessage.reported, hfailed] at hreported
      · rw [hreports.callsOf_eq, hone, count_singleton_self, hreported]
        rfl
    · exact absurd (outcome_of_waiting (.inl hq')) hout
  · exact h.other hwell hreports hne (count_eq_zero_of_not_mem fun hin => hne (mem_singleton.mp hin).symm)

/-- A report that does not call: it leaves the state, or the message is to be sent again. -/
theorem Told.retried (h : Told i r) (hreports : Reports k change [] r r')
    (hmethod : ∀ m, (change m).method = m.method)
    (hstate : k = i → ∀ m, r.messages[i]? = some m → (change m).state = m.state ∨
      (change m).state = .outbound ∧ (m.terminal = false ∨ i ∈ r.pendingOutbound ∧ r.Unsettled i)) :
    Told i r' ∧ Final i r r' := by
  by_cases hne : k = i
  · subst hne
    refine h.same hwell hreports.toSameQueues hreports.callsOf_eq fun m hm =>
      ⟨change m, by rw [hreports.messages, getElem?_modify_eq, hm]; rfl, hmethod m, ?_⟩
    refine (hstate rfl m hm).imp_right fun ⟨houtbound, hopen⟩ => ?_
    have hwaiting : r.Waiting k ∧ m.reported = false := by
      rcases hopen with hterminal | ⟨hq, hunsettled⟩
      · refine ⟨(h.reports hreports.reported).elim .inl fun hout => ?_, (OutboundMessage.not_reported hterminal).1⟩
        obtain ⟨s, hs⟩ := ne_none_iff_exists'.mp hout
        obtain ⟨-, m', hm', hterminal', -⟩ := outcome_eq_some.mp hs
        obtain rfl := some.inj (hm.symm.trans hm')
        simp [hterminal] at hterminal'
      · exact ⟨.inl hq, hunsettled.not_reported hm⟩
    exact ⟨hwaiting.1, hwaiting.2, by simp [OutboundMessage.reported, houtbound], by simp [houtbound]⟩
  · exact h.other hwell hreports hne count_nil

end

theorem Told.cancelFirst {messageID : Bytes} {cancelState : MessageState} {among : List Nat} (h : Told i r)
    (hamong : ∀ j ∈ among, r.Waiting j) (hcancel : Cancels i r messageID cancelState) :
    (Told i (r.cancelFirst messageID cancelState among) ∧ Final i r (r.cancelFirst messageID cancelState among)) ∧
      Cancels i (r.cancelFirst messageID cancelState among) messageID cancelState := by
  have hharmless : Harmless r (r.cancelFirst messageID cancelState among) := cancelFirst_harmless hamong
  unfold OutboundRouter.cancelFirst at hharmless ⊢
  cases hfind : among.find? fun j => r.messageIDOf j = some messageID with
  | none => exact ⟨⟨h, fun _ => id⟩, hcancel⟩
  | some k =>
    simp only [hfind] at hharmless ⊢
    by_cases hk : k = i
    · subst hk
      have hID : r.messageIDOf k = some messageID := by simpa using find?_some hfind
      obtain ⟨hunsettled, hstate⟩ := hcancel (hamong k (mem_of_find?_eq_some hfind)) hID
      have hafter : ∀ m, r.messages[k]? = some m →
          (r.modifyMessage k fun m => { m with state := cancelState }).messages[k]? =
            some { m with state := cancelState } := fun m hm => by rw [modifyMessage, getElem?_modify_eq, hm]; rfl
      have hother : cancelState ≠ .delivered ∧ cancelState ≠ .sent ∧ cancelState ≠ .failed := by
        rcases mem_cons.mp hstate with rfl | hstate
        · decide
        · obtain rfl := mem_singleton.mp hstate
          decide
      refine ⟨h.same hwell hharmless.toSameQueues rfl fun m hm => ⟨_, hafter m hm, rfl, .inr ?_⟩, fun _ _ => ⟨?_, hstate⟩⟩
      · refine ⟨hamong k (mem_of_find?_eq_some hfind), hunsettled.not_reported hm, ?_, hother.2.2⟩
        unfold OutboundMessage.reported
        split <;> simp_all
      · intro s hs
        obtain ⟨m', hm', -, rfl⟩ := terminalState_eq_some.mp hs
        cases hm : r.messages[k]? with
        | none => simp [messageIDOf, hm] at hID
        | some m =>
          obtain rfl := some.inj ((hafter m hm).symm.trans hm')
          exact hstate
    · have hsame : (r.modifyMessage k fun m => { m with state := cancelState }).messages[i]? = r.messages[i]? :=
        getElem?_modify_ne _ _ hk
      refine ⟨h.same hwell hharmless.toSameQueues rfl fun m hm => ⟨m, hsame.trans hm, .refl⟩, fun hw hID => ?_⟩
      rw [messageIDOf, hsame, ← messageIDOf] at hID
      rw [Unsettled, terminalState_congr hsame]
      exact hcancel (hharmless.waiting.mp hw) hID

/-! ### Stamps -/

/-- The message itself stays, and is dropped only when it is in no terminal state. -/
theorem Told.hold (h : Told i r) (hmessage : r'.messages[i]? = r.messages[i]?) (hcalls : r'.callsOf i = r.callsOf i)
    (hqueue : i ∈ r.pendingOutbound → i ∈ r'.pendingOutbound) (hreports : i ∈ r'.reports → i ∈ r.reports)
    (hwaiting : r'.Waiting i → r.Waiting i) (hdropped : r.Waiting i ∧ ¬r'.Waiting i → r.terminalState i = none) :
    Told i r' ∧ Final i r r' := by
  by_cases hgone : r.Waiting i ∧ ¬r'.Waiting i
  · have hnone : r'.outcome i = none := by
      rw [outcome_of_left hgone.2, terminalState_congr hmessage, hdropped hgone]
    have hdeferred : r.Deferred i := hgone.1.resolve_left fun hq => hgone.2 (.inl (hqueue hq))
    refine ⟨⟨fun hw => absurd hw hgone.2, fun hne => absurd hnone hne, fun hin => ?_⟩,
      final_of_waiting hgone.1⟩
    exact absurd (.inr (hreports hin)) (hwell.untouched i hdeferred)
  · have hiff : r'.Waiting i ↔ r.Waiting i := ⟨hwaiting, fun hw => by_contra fun hw' => hgone ⟨hw, hw'⟩⟩
    exact h.keep hwell hiff hcalls hqueue hreports hmessage.trans fun m hm => ⟨m, hmessage.trans hm, .refl⟩

theorem Told.handleOutbound {f : HandleFacts} (h : Told i r) (hstep : r.handleOutbound m f = some r')
    (horderly : Orderly i r (.handleOutbound m f)) :
    Told i r' ∧ Final i r r' := by
  by_cases hi : i = r.messages.length
  · subst hi
    have huntouched : ¬(r.Deferred r.messages.length ∨ r.Touched r.messages.length) :=
      fun hn => Nat.lt_irrefl _ (hwell.known _ hn)
    have hreports : r.messages.length ∉ r.reports := fun hin => huntouched (.inr (.inr hin))
    have hnew : (r.messages ++ [accepted m f])[r.messages.length]? = some (accepted m f) := by simp
    have hcalls : r.callsOf r.messages.length = 0 := callsOf_of_untouched fun ht => huntouched (.inr ht)
    have hnone : r.outcome r.messages.length = none := by
      rw [outcome, terminalState, getElem?_eq_none (Nat.le_refl _)]
      exact ite_self none
    have hall : r'.messages = r.messages ++ [accepted m f] ∧ r'.calls = r.calls ∧ r'.reports = r.reports ∧
        r'.Waiting r.messages.length := by
      rcases handleOutbound_cases hstep with ⟨-, rfl⟩ | ⟨-, rfl⟩
      · exact ⟨rfl, rfl, rfl, .inr (.inl (mem_append_right _ mem_cons_self))⟩
      · exact ⟨rfl, rfl, rfl, .inl (mem_append_right _ mem_cons_self)⟩
    obtain ⟨hmessages, hcalls', hreports', hw⟩ := hall
    refine ⟨⟨fun _ m' hm' => ?_, fun hne => absurd (outcome_of_waiting hw) hne,
      fun hin => absurd (hreports' ▸ hin) hreports⟩, fun s hs => ?_⟩
    · rw [hmessages, hnew] at hm'
      obtain rfl := some.inj hm'
      refine ⟨Option.some_ne_none _, MessageState.noConfusion, ?_⟩
      rw [callsOf, hcalls', ← callsOf, hcalls]
      rfl
    · rw [hnone] at hs
      cases hs
  · have hmessage : (r.messages ++ [accepted m f])[i]? = r.messages[i]? := by
      rcases Nat.lt_or_gt_of_ne hi with hlt | hgt
      · exact getElem?_append_left hlt
      · rw [getElem?_eq_none (Nat.le_of_lt hgt), getElem?_eq_none]
        rw [length_append]
        exact hgt
    have hconcat : ∀ l : List Nat, i ∈ l ++ [r.messages.length] ↔ i ∈ l := by
      intro l
      rw [mem_append, mem_singleton, or_iff_left hi]
    rcases handleOutbound_cases hstep with ⟨hdefers, rfl⟩ | ⟨-, rfl⟩
    · have hdeferred : i ∈ r.deleteDeferred m.messageID ++ [r.messages.length] ↔
          i ∈ r.pendingDeferredStamps ∧ r.messageIDOf i ≠ some m.messageID := (hconcat _).trans mem_deleteDeferred
      refine h.hold hwell hmessage rfl id id (Or.imp_right (Or.imp_left fun hi => (hdeferred.mp hi).1)) fun hgone => ?_
      exact horderly hdefers (heldUnder_of_gone hgone Iff.rfl hdeferred Iff.rfl)
    · have hqueue := hconcat r.pendingOutbound
      exact h.hold hwell hmessage rfl hqueue.mpr id (Or.imp_left hqueue.mp)
        fun hgone => absurd (hgone.1.imp_left hqueue.mpr) hgone.2

theorem Told.releases {queued called : List Nat} (h : Told i r) (hreleases : Releases k queued called r r')
    (hdropped : i ≠ k → r.Waiting i ∧ ¬r'.Waiting i → r.terminalState i = none) : Told i r' ∧ Final i r r' := by
  by_cases hi : i = k
  · subst hi
    have huntouched := hwell.untouched i hreleases.deferred
    have hcalls : r'.callsOf i = r.callsOf i + called.count i := by rw [callsOf, hreleases.calls, count_append, callsOf]
    rcases hreleases.which with ⟨rfl, rfl, hmessage⟩ | ⟨rfl, rfl, hterminal⟩
    · have hqueue : i ∈ r'.pendingOutbound := hreleases.pendingOutbound ▸ mem_append_right _ mem_cons_self
      refine h.hold hwell hmessage hcalls (fun _ => hqueue) (fun hin => ?_) (fun _ => .inr hreleases.deferred)
        fun hgone => absurd (.inl hqueue) hgone.2
      rwa [hreleases.reports, append_nil] at hin
    · refine told_of_left (.inr hreleases.deferred) ?_ ?_
      · rw [outcome_of_left]
        · exact hterminal
        · rintro (hqueue | hdeferred)
          · rw [hreleases.pendingOutbound, append_nil] at hqueue
            exact huntouched (.inl hqueue)
          · exact hreleases.released hdeferred
      · rw [hcalls, callsOf_of_untouched huntouched, count_singleton_self]
  · have hnot : i ∉ queued ∧ i ∉ called := by
      rcases hreleases.which with ⟨rfl, rfl, _⟩ | ⟨rfl, rfl, _⟩ <;> simpa using hi
    have hqueue : i ∈ r'.pendingOutbound ↔ i ∈ r.pendingOutbound := by
      rw [hreleases.pendingOutbound, mem_append, or_iff_left hnot.1]
    refine h.hold hwell (hreleases.others i hi) ?_ hqueue.mpr (fun hin => ?_)
      (Or.imp hqueue.mp (hreleases.kept i)) (hdropped hi)
    · rw [callsOf, hreleases.calls, count_append, count_eq_zero_of_not_mem hnot.2, Nat.add_zero, callsOf]
    · rw [hreleases.reports] at hin
      exact (mem_append.mp hin).resolve_right hnot.2

theorem Told.startStamps (h : Told i r) (hstep : r.startStamps = some r') : Told i r' ∧ Final i r r' := by
  obtain ⟨k, rest, m, hstamping, hdeferred, hm, ⟨hcancelled, rfl⟩ | rfl⟩ := startStamps_cases hstep
  · have hterminal : m.terminal = true := by rw [OutboundMessage.terminal, hcancelled]
    have hreleases := cancelled_releases hwell hstamping hdeferred
      (ne_none_iff_exists'.mpr ⟨m.state, terminalState_eq_some.mpr ⟨m, hm, hterminal, rfl⟩⟩)
    refine h.releases hwell hreleases fun hi hgone => absurd (hgone.1.imp_right ?_) hgone.2
    refine Or.imp_left fun hmem => ?_
    rw [hdeferred] at hmem
    exact (mem_cons.mp hmem).resolve_left hi
  · refine h.hold hwell rfl rfl id id (Or.imp_right fun hj => hj.elim .inl fun hk => .inl ?_) fun hgone => ?_
    · cases hk
      exact hdeferred ▸ mem_cons_self
    · refine absurd (hgone.1.imp_right fun hj => hj.elim .inl fun hk => ?_) hgone.2
      cases hstamping.symm.trans hk

theorem Told.finishStamps {f : StampFacts} (h : Told i r) (hstep : r.finishStamps f = some r')
    (horderly : Orderly i r (.finishStamps f)) :
    Told i r' ∧ Final i r r' := by
  obtain ⟨k, m, queued, called, hstamping, hm, hstamping', hdeferred, hreleases⟩ := finishStamps_releases hstep
  refine h.releases hwell hreleases fun hi hgone => horderly ?_
  have hID : r.stamping.bind r.messageIDOf = some m.messageID := by
    rw [hstamping, bind_some, messageIDOf, hm]
    rfl
  rw [hID]
  refine heldUnder_of_gone hgone ?_ ?_ ?_
  · rcases hreleases.which with ⟨hq, _⟩ | ⟨hq, _⟩
    · rw [hreleases.pendingOutbound, hq, mem_append, mem_singleton, or_iff_left hi]
    · rw [hreleases.pendingOutbound, hq, append_nil]
  · rw [hdeferred, mem_deleteDeferred]
  · rw [hstamping', hstamping]
    exact iff_of_false (some_ne_none i).symm fun hk => hi (some.inj hk).symm

/-! ### Runs -/

/-- An orderly step keeps what the state tells, and an outcome stays. -/
theorem Told.step {a : Action} (h : Told i r) (hrouted : r.Routed) (hstep : r.step a = some r')
    (horderly : Orderly i r a) :
    Told i r' ∧ Final i r r' := by
  have hsame : ∀ {r₁}, Harmless r r₁ → some r₁ = some r' → (∀ m, r.messages[i]? = some m →
      ∃ m', r₁.messages[i]? = some m' ∧ Restated (r.Waiting i) m m') → Told i r' ∧ Final i r r' := by
    rintro r₁ hr₁ heq hmessage
    cases heq
    exact h.same hwell hr₁.toSameQueues (by rw [callsOf, callsOf, hr₁.calls]) hmessage
  cases a with
  | handleOutbound m f => exact h.handleOutbound hwell hstep horderly
  | processOutbound facts =>
    cases hstep
    exact h.pass hwell facts horderly
  | cancelOutbound messageID cancelState =>
    cases hstep
    obtain ⟨⟨h₁, hfinal₁⟩, hcancel⟩ := h.cancelFirst hwell (fun j hj => .inr (.inl hj)) horderly
    have hharmless : Harmless r (r.cancelFirst messageID cancelState r.pendingDeferredStamps) :=
      cancelFirst_harmless fun j hj => .inr (.inl hj)
    obtain ⟨⟨h₂, hfinal₂⟩, -⟩ :=
      h₁.cancelFirst (hharmless.wellFormed hwell) (fun j hj => hharmless.waiting.mpr (.inl hj)) hcancel
    exact ⟨h₂, fun s hs => hfinal₂ s (hfinal₁ s hs)⟩
  | startStamps => exact h.startStamps hwell hstep
  | finishStamps f => exact h.finishStamps hwell hstep horderly
  | delivered receipt =>
    obtain ⟨hmem, heq⟩ := ite_none_right_eq_some.mp hstep
    cases heq
    refine h.delivered hwell (receiptDelivered_reports hmem) horderly fun m hm => ⟨rfl, ?_⟩
    cases hkind : receipt.kind with
    | propagated =>
      obtain ⟨m', hm', hmethod⟩ := hrouted.receipts receipt hmem hkind
      obtain rfl := some.inj (hm.symm.trans hm')
      exact decide_eq_true hmethod
    | direct | raw => rfl
  | timedOut receipt =>
    obtain ⟨hmem, heq⟩ := ite_none_right_eq_some.mp hstep
    cases heq
    refine h.retried hwell (receiptTimedOut_reports hmem) (fun _ => timedOut_alike.method) fun hk m hm => ?_
    refine timedOut_state.imp_right (And.imp_right fun hleaves => ?_)
    refine (horderly hk).symm.imp (fun hstates => Bool.eq_false_iff.mpr fun hterminal => ?_) id
    exact hleaves hterminal (hstates m.state (terminalState_eq_some.mpr ⟨m, hm, hterminal, rfl⟩))
  | concluded resource complete =>
    obtain ⟨hmem, heq⟩ := ite_none_right_eq_some.mp hstep
    cases heq
    cases hcomplete : resource.propagated && complete with
    | true =>
      refine h.delivered hwell (resourceConcluded_delivers hmem hcomplete) (fun hk => ?_) fun m hm => ⟨rfl, ?_⟩
      · rcases horderly hk with hopen | ⟨hnot, -⟩
        · exact hopen.2
        · rw [hcomplete] at hnot
          cases hnot
      · obtain ⟨m', hm', hmethod⟩ := hrouted.resources resource hmem (Bool.and_eq_true_iff.mp hcomplete).1
        obtain rfl := some.inj (hm.symm.trans hm')
        exact decide_eq_true hmethod
    | false =>
      refine h.retried hwell (resourceConcluded_restates hmem hcomplete) (fun _ => concluded_alike.method) fun hk m hm => ?_
      rcases concluded_state with hstate | ⟨hleaves, houtbound⟩
      · exact .inl hstate
      · rcases horderly hk with ⟨hpropagated, hopen⟩ | ⟨-, s, hs, hin⟩
        · exact .inr ⟨houtbound hpropagated, .inr hopen⟩
        · obtain ⟨m', hm', hterminal, rfl⟩ := terminalState_eq_some.mp hs
          obtain rfl := some.inj (hm.symm.trans hm')
          exact absurd hin (hleaves hterminal)
  | propagationLinkClosed link => exact hsame propagationLinkClosed_harmless hstep propagationLinkClosed_restated
  | deliveryAnnounced destinationHash | propagationAnnounced =>
    refine hsame announced_harmless hstep fun m hm => foldl_modify_keeps (fun m' hm' => ?_) _ _ ⟨m, hm, .refl⟩
    split <;> exact hm'
  | resourceLinkEstablished destinationHash =>
    cases hstep
    exact h.same hwell ⟨rfl, rfl, rfl, rfl, fun _ => id⟩ rfl fun m hm => ⟨m, hm, .refl⟩
  | directLinkClosed destinationHash link =>
    refine hsame directLinkClosed_harmless hstep fun m hm => ⟨m, ?_, .refl⟩
    unfold directLinkClosed
    split <;> exact hm
  | resourceLinkClosed | setPropagationNode | tick => exact hsame .of_links hstep fun m hm => ⟨m, hm, .refl⟩

end

theorem start_told {now : Time} : Told i (start now) := by
  refine ⟨fun _ m hm => ?_, fun hne => absurd ?_ hne, fun hin => ?_⟩
  · cases hm
  · rfl
  · cases hin

/-- A message has one outcome throughout a run whose steps are all orderly for it. -/
theorem one_outcome {now : Time} {as : List Action} (i : Nat) (h : Keeps step (Orderly i) (start now) as) :
    Throughout step (OneOutcome i) (Final i) (start now) as :=
  Throughout.of_keeps (fun r => (WellFormed r ∧ r.Routed) ∧ Told i r) (fun _ h => h.2.oneOutcome h.1.1) (fun _ _ => id)
    (fun _ _ _ h₁₂ h₂₃ s hs => h₂₃ s (h₁₂ s hs)) (fun _ _ _ h hstep horderly =>
      have h' := h.2.step h.1.1 h.1.2 hstep horderly
      ⟨⟨⟨step_wellFormed h.1.1 hstep, step_routed h.1.1 h.1.2 hstep⟩, h'.1⟩, h'.2⟩)
    ⟨⟨start_wellFormed, start_routed⟩, start_told⟩ h

namespace Sample

def message : OutboundMessage :=
  { messageID := [1], destinationHash := [2], desiredMethod := some .opportunistic, packedLength := 100 }

/-- The first packet times out after the second has been delivered. -/
def deliveredOnce : List Action :=
  [.handleOutbound message {}, .processOutbound fun _ => {}, .tick deliveryRetryWait, .processOutbound fun _ => {},
    .delivered ⟨0, .raw⟩, .processOutbound fun _ => {}, .timedOut ⟨0, .raw⟩]

def deliveredTwice : List Action :=
  [.handleOutbound message {}, .processOutbound fun _ => {}, .tick deliveryRetryWait, .processOutbound fun _ => {},
    .delivered ⟨0, .raw⟩, .delivered ⟨0, .raw⟩]

theorem delivered_once : Throughout step (OneOutcome 0) (Final 0) (start 0) deliveredOnce :=
  one_outcome 0 (by decide)

theorem delivered_twice : ∃ r, run step (start 0) deliveredTwice = some r ∧ r.callsOf 0 = 2 ∧
    ¬Throughout step (OneOutcome 0) (Final 0) (start 0) deliveredTwice := by
  refine ⟨_, rfl, rfl, fun h => ?_⟩
  have hone : OneOutcome 0 _ := (h deliveredTwice [] _ (List.append_nil _).symm rfl).1
  exact absurd hone.atMostOne (by decide)

end Sample

end OutboundRouter
end Reticulum.Lxmf
