import Reticulum.Theorems.Lxmf.Outcome

/-! # Whether a cancelled message stays cancelled

Most reports on a message look for `StateCancelled` only, and put a rejected message back into the queue (`Revives`). -/

namespace Reticulum.Lxmf.OutboundRouter

open Transitions List Option

variable {r r' : OutboundRouter} {i j k : Nat} {m : OutboundMessage}
variable {messageID : Bytes} {cancelState : MessageState} {a : Action}

/-! ### Messages that are let go -/

def Terminal (r : OutboundRouter) (i : Nat) : Prop := ∃ m, r.messages[i]? = some m ∧ m.terminal = true

def Stopped (i : Nat) (r : OutboundRouter) : Prop := r.Waiting i → r.Terminal i

def Found (r : OutboundRouter) (messageID : Bytes) (i : Nat) : Prop :=
  r.pendingDeferredStamps.find? (fun j => r.messageIDOf j = some messageID) = some i ∨
    r.pendingOutbound.find? (fun j => r.messageIDOf j = some messageID) = some i

def Revives (i : Nat) (r : OutboundRouter) : Action → Prop
  | .cancelOutbound messageID cancelState =>
    r.Found messageID i ∧ ∃ m, r.messages[i]? = some m ∧ { m with state := cancelState }.terminal = false
  | .timedOut receipt =>
    receipt.message = i ∧ r.Waiting i ∧ ∃ m, r.messages[i]? = some m ∧ m.state ∉ receipt.kind.leaves
  | .concluded resource complete =>
    resource.message = i ∧ r.Waiting i ∧ (resource.propagated = true ∧ complete = false) ∧
      ∃ m, r.messages[i]? = some m ∧ m.state ≠ .cancelled
  | _ => False

def transmissionsOf (r : OutboundRouter) (i : Nat) : List Transmission := r.transmissions.filter (·.message = i)

theorem terminal_iff : r.Terminal i ↔ r.terminalState i ≠ none := by
  rw [ne_none_iff_exists']
  constructor
  · rintro ⟨m, hm, hterminal⟩
    exact ⟨m.state, terminalState_eq_some.mpr ⟨m, hm, hterminal, rfl⟩⟩
  · rintro ⟨s, hs⟩
    obtain ⟨m, hm, hterminal, -⟩ := terminalState_eq_some.mp hs
    exact ⟨m, hm, hterminal⟩

/-! ### `CancelOutbound` -/

section Cancel
variable {messageID : Bytes} {cancelState : MessageState} {among : List Nat}

theorem cancelFirst_messageIDOf : (r.cancelFirst messageID cancelState among).messageIDOf j = r.messageIDOf j := by
  unfold cancelFirst
  split
  · rfl
  · next k _ =>
    rw [messageIDOf, messageIDOf, modifyMessage, getElem?_modify]
    cases r.messages[j]? with
    | none => rfl
    | some m =>
      split
      · rfl
      · rfl

theorem cancelFirst_message (hm : r.messages[i]? = some m) : (r.cancelFirst messageID cancelState among).messages[i]? =
      some (if among.find? (fun j => r.messageIDOf j = some messageID) = some i then { m with state := cancelState }
        else m) := by
  unfold cancelFirst
  cases among.find? fun j => r.messageIDOf j = some messageID with
  | none =>
    exact hm
  | some k =>
    by_cases hk : k = i
    · subst hk
      rw [if_pos rfl]
      exact (getElem?_modify_eq _ _ _).trans (congrArg _ hm)
    · rw [if_neg fun h => hk (some.inj h)]
      exact (getElem?_modify_ne _ _ hk).trans hm

theorem cancelOutbound_message (messageID : Bytes) (cancelState : MessageState) (hknown : i < r.messages.length) :
    ∃ m m', r.messages[i]? = some m ∧ (r.cancelOutbound messageID cancelState).messages[i]? = some m' ∧
      (r.Found messageID i → m' = { m with state := cancelState }) ∧ (¬r.Found messageID i → m' = m) := by
  -- The waiting messages are looked through first, and then the queue.
  have hm := getElem?_eq_getElem hknown
  refine ⟨_, _, hm, cancelFirst_message (cancelFirst_message hm), ?_⟩
  simp only [cancelFirst_messageIDOf]
  constructor
  · rintro (h | h)
    · rw [if_pos h]
      split
      · rfl
      · rfl
    · rw [if_pos h]
      split
      · rfl
      · rfl
  · intro h
    rw [Found, not_or] at h
    rw [if_neg h.1, if_neg h.2]

end Cancel

/-! ### One step -/

/-- What is kept of a message that is let go. -/
structure Steady (i : Nat) (r : OutboundRouter) : Prop where
  wellFormed : WellFormed r
  routed : Routed r
  known : i < r.messages.length
  stopped : Stopped i r

theorem Steady.of_same (h : Steady i r) (hwaiting : r'.Waiting i → r.Waiting i)
    (hmessage : r'.messages[i]? = r.messages[i]?) : Stopped i r' := by
  intro hw
  obtain ⟨m, hm, hterminal⟩ := h.stopped (hwaiting hw)
  exact ⟨m, hmessage.trans hm, hterminal⟩

theorem PassedQueue.steady {facts : Nat → SendFacts} {fates : List (Nat × Fate)}
    (hpassed : PassedQueue facts r r' fates) (h : Steady i r) :
    Stopped i r' ∧ r'.transmissionsOf i = r.transmissionsOf i := by
  constructor
  · by_cases hi : i ∈ r.pendingOutbound
    · obtain ⟨⟨i, fate⟩, hfate, rfl⟩ := mem_map.mp (hpassed.order ▸ hi)
      have hgone : fate ≠ .kept := hpassed.removed hfate (terminal_iff.mp (h.stopped (.inl hi)))
      rintro (hqueue | hdeferred)
      · rw [hpassed.pendingOutbound, ← count_pos_iff,
          count_fated (hpassed.order ▸ h.wellFormed.queue_nodup) hfate, if_neg hgone] at hqueue
        exact absurd hqueue (Nat.lt_irrefl 0)
      · exact absurd (.inl hi) (h.wellFormed.untouched i (hpassed.deferred.mp hdeferred))
    · refine h.of_same (Or.imp (fun hqueue => ?_) hpassed.deferred.mp) (hpassed.others i hi)
      rw [hpassed.pendingOutbound] at hqueue
      exact hpassed.order ▸ mem_fated hqueue
  · obtain ⟨added, hadded, hall⟩ := hpassed.transmissions
    have hnone : added.filter (·.message = i) = [] := by
      refine filter_eq_nil_iff.mpr fun x hx hxi => ?_
      obtain ⟨hqueue, hstate, -⟩ := hall x hx
      rw [of_decide_eq_true hxi] at hqueue hstate
      exact terminal_iff.mp (h.stopped (.inl hqueue)) hstate
    rw [transmissionsOf, hadded, filter_append, hnone, append_nil, transmissionsOf]

theorem Reports.stopped_iff {change : OutboundMessage → OutboundMessage} {calls : List Nat}
    (hreports : Reports k change calls r r') (h : Steady i r) :
    Stopped i r' ↔ ¬(k = i ∧ r.Waiting i ∧ ∃ m, r.messages[i]? = some m ∧ (change m).terminal = false) := by
  by_cases hk : k = i
  · subst hk
    constructor
    · rintro hstopped ⟨-, hw, m, hm, hfalse⟩
      obtain ⟨m', hm', hterminal⟩ := hstopped (hreports.waiting.mpr hw)
      rw [hreports.messages, getElem?_modify_eq, hm] at hm'
      cases hm'
      rw [hfalse] at hterminal
      cases hterminal
    · intro hnot hw
      obtain ⟨m, hm, -⟩ := h.stopped (hreports.waiting.mp hw)
      have hterminal : (change m).terminal = true :=
        eq_true_of_ne_false fun hfalse => hnot ⟨rfl, hreports.waiting.mp hw, m, hm, hfalse⟩
      exact ⟨change m, by rw [hreports.messages, getElem?_modify_eq, hm]; rfl, hterminal⟩
  · refine iff_of_true (h.of_same hreports.waiting.mp ?_) fun hnot => hk hnot.1
    rw [hreports.messages, getElem?_modify_ne _ _ hk]

theorem timedOut_terminal {kind : ReceiptKind} {retryAt : Time} (h : m.terminal = true) :
    (timedOut kind retryAt m).terminal = false ↔ m.state ∉ kind.leaves := by
  cases kind <;> cases hstate : m.state <;>
    simp_all [timedOut, OutboundMessage.retryAt, OutboundMessage.terminal, ReceiptKind.leaves]

theorem concluded_terminal {propagated complete : Bool} {retryAt : Time} (h : m.terminal = true)
    (hcomplete : (propagated && complete) = false) : (concluded propagated complete retryAt m).terminal = false ↔
      (propagated = true ∧ complete = false) ∧ m.state ≠ .cancelled := by
  unfold concluded
  cases propagated <;> cases complete <;> cases hstate : m.state <;>
    simp_all [OutboundMessage.retryAt, OutboundMessage.terminal]

theorem Releases.waiting {queued called : List Nat} (h : Releases k queued called r r') (hw : r'.Waiting i) :
    r.Waiting i := by
  rcases hw with hqueue | hdeferred
  · rw [h.pendingOutbound, mem_append] at hqueue
    rcases hqueue with hqueue | hqueue
    · exact .inl hqueue
    · rcases h.which with ⟨rfl, -⟩ | ⟨rfl, -⟩
      · exact .inr (mem_singleton.mp hqueue ▸ h.deferred)
      · exact absurd hqueue not_mem_nil
  · exact .inr (h.kept i hdeferred)

theorem startStamps_same (hstep : r.startStamps = some r') :
    r'.messages = r.messages ∧ (r'.Waiting i → r.Waiting i) := by
  obtain ⟨k, rest, m, hstamping, hdeferred, -, ⟨-, rfl⟩ | rfl⟩ := startStamps_cases hstep
  · refine ⟨rfl, Or.imp_right (Or.imp_left fun hi => ?_)⟩
    exact hdeferred ▸ mem_cons_of_mem k hi
  · refine ⟨rfl, Or.imp_right fun hi => hi.elim .inl fun hk => .inl ?_⟩
    exact hdeferred ▸ some.inj hk ▸ mem_cons_self

theorem finishStamps_stopped {f : StampFacts} (h : Steady i r) (hstep : r.finishStamps f = some r') : Stopped i r' := by
  obtain ⟨_, _, _, _, -, -, -, -, hreleases⟩ := finishStamps_releases hstep
  obtain ⟨k, m, -, hm, ⟨-, rfl⟩ | ⟨-, change, hterminal, -, rfl⟩⟩ := finishStamps_cases hstep
  · exact h.of_same hreleases.waiting rfl
  · by_cases hk : i = k
    · subst hk
      exact fun _ => ⟨change m, (getElem?_modify_eq _ _ _).trans (congrArg _ hm), hterminal⟩
    · exact h.of_same hreleases.waiting (getElem?_modify_ne _ _ (Ne.symm hk))

theorem propagationLinkClosed_terminal {link : Nat} (h : r.Terminal i) : (r.propagationLinkClosed link).Terminal i := by
  unfold propagationLinkClosed
  split
  · refine foldl_modify_keeps (fun m hm => ?_) _ _ h
    split
    · next hsending =>
      rw [OutboundMessage.terminal, hsending.2] at hm
      cases hm
    · exact hm
  · exact h

theorem sent_terminal (h : r.Propagated k) (hm : r.messages[k]? = some m) : { m with state := .sent }.terminal = true := by
  obtain ⟨m', hm', hmethod⟩ := h
  obtain rfl := some.inj (hm.symm.trans hm')
  exact decide_eq_true hmethod

theorem cancelOutbound_stopped_iff (h : Steady i r) :
    Stopped i (r.cancelOutbound messageID cancelState) ↔ ¬Revives i r (.cancelOutbound messageID cancelState) := by
  have hwaiting : (r.cancelOutbound messageID cancelState).Waiting i ↔ r.Waiting i :=
    cancelOutbound_harmless.toSameQueues.waiting
  obtain ⟨m, m', hm, hm', hfound, hother⟩ := cancelOutbound_message messageID cancelState h.known
  by_cases hf : r.Found messageID i
  · have hw : r.Waiting i := hf.elim (fun hf => .inr (.inl (mem_of_find?_eq_some hf)))
      fun hf => .inl (mem_of_find?_eq_some hf)
    obtain rfl := hfound hf
    simp [Stopped, Revives, Terminal, hwaiting, hw, hf, hm, hm']
  · obtain rfl := hother hf
    exact iff_of_true (h.of_same hwaiting.mp (hm'.trans hm.symm)) fun hr => hf hr.1

theorem step_stopped_iff (h : Steady i r) (hstep : r.step a = some r') : Stopped i r' ↔ ¬Revives i r a := by
  -- A message that is held stays as it is, or at least terminal.
  have of_same : (r'.Waiting i → r.Waiting i) → r'.messages[i]? = r.messages[i]? → (Stopped i r' ↔ ¬False) :=
    fun hwaiting hmessage => iff_of_true (h.of_same hwaiting hmessage) id
  have of_queues : SameQueues r r' → (r.Terminal i → r'.Terminal i) → (Stopped i r' ↔ ¬False) :=
    fun hqueues hterminal => iff_of_true (fun hw => hterminal (h.stopped (hqueues.waiting.mp hw))) id
  -- Receipts and resources report.
  have of_reports : ∀ {k change calls} {revives : Prop}, Reports k change calls r r' →
      (k = i → ∀ m, r.messages[i]? = some m → m.terminal = true → ((change m).terminal = false ↔ revives)) →
      (Stopped i r' ↔ ¬(k = i ∧ r.Waiting i ∧ revives)) := by
    intro k change calls revives hreports hchange
    refine (hreports.stopped_iff h).trans (not_congr ?_)
    refine and_congr_right fun hk => and_congr_right fun hw => ?_
    obtain ⟨m, hm, hterminal⟩ := h.stopped hw
    rw [← hchange hk m hm hterminal]
    simp [hm]
  have of_delivery : ∀ {k change calls}, Reports k change calls r r' →
      (∀ m, r.messages[k]? = some m → (change m).terminal = true) → Stopped i r' := by
    intro k change calls hreports hterminal
    refine (of_reports hreports fun hk m hm _ => ?_).mpr fun h => h.2.2
    exact iff_of_false (ne_false_of_eq_true (hterminal m (hk ▸ hm))) id
  cases a with
  | processOutbound facts =>
    cases hstep
    exact iff_of_true ((processOutbound_passed h.wellFormed facts).steady h).1 id
  | handleOutbound m f =>
    have hne : i ≠ r.messages.length := Nat.ne_of_lt h.known
    rcases handleOutbound_cases hstep with ⟨-, rfl⟩ | ⟨-, rfl⟩
    · refine of_same (Or.imp_right (Or.imp_left fun hi => ?_)) (getElem?_append_left h.known)
      rcases mem_append.mp hi with hi | hi
      · exact (mem_deleteDeferred.mp hi).1
      · exact absurd (mem_singleton.mp hi) hne
    · refine of_same (Or.imp_left fun hi => ?_) (getElem?_append_left h.known)
      rcases mem_append.mp hi with hi | hi
      · exact hi
      · exact absurd (mem_singleton.mp hi) hne
  | startStamps =>
    obtain ⟨hmessages, hwaiting⟩ := startStamps_same hstep
    exact of_same hwaiting (by rw [hmessages])
  | finishStamps f => exact iff_of_true (finishStamps_stopped h hstep) id
  | cancelOutbound messageID cancelState =>
    cases hstep
    exact cancelOutbound_stopped_iff h
  | delivered receipt =>
    obtain ⟨hmem, heq⟩ := ite_none_right_eq_some.mp hstep
    cases heq
    refine iff_of_true (of_delivery (receiptDelivered_reports hmem) fun m hm => ?_) id
    cases hkind : receipt.kind with
    | propagated => exact sent_terminal (h.routed.receipts receipt hmem hkind) hm
    | direct | raw => rfl
  | timedOut receipt =>
    obtain ⟨hmem, heq⟩ := ite_none_right_eq_some.mp hstep
    cases heq
    refine of_reports (receiptTimedOut_reports hmem) fun _ m hm hterminal => ?_
    rw [timedOut_terminal hterminal]
    simp [hm]
  | concluded resource complete =>
    obtain ⟨hmem, heq⟩ := ite_none_right_eq_some.mp hstep
    cases heq
    cases hcomplete : resource.propagated && complete with
    | true =>
      obtain ⟨hpropagated, hdone⟩ := Bool.and_eq_true_iff.mp hcomplete
      refine iff_of_true (of_delivery (resourceConcluded_delivers hmem hcomplete) fun m hm =>
        sent_terminal (h.routed.resources resource hmem hpropagated) hm) ?_
      rintro ⟨-, -, ⟨-, hfalse⟩, -⟩
      rw [hdone] at hfalse
      cases hfalse
    | false =>
      refine of_reports (resourceConcluded_restates hmem hcomplete) fun _ m hm hterminal => ?_
      rw [concluded_terminal hterminal hcomplete]
      simp [hm]
  | propagationLinkClosed link =>
    cases hstep
    exact of_queues propagationLinkClosed_harmless.toSameQueues propagationLinkClosed_terminal
  | directLinkClosed destinationHash link =>
    cases hstep
    have hharmless : Harmless r (r.directLinkClosed destinationHash link) := directLinkClosed_harmless
    refine of_queues hharmless.toSameQueues ?_
    unfold directLinkClosed
    split
    · exact id
    · exact id
  | deliveryAnnounced | propagationAnnounced =>
    cases hstep
    refine of_queues announced_harmless.toSameQueues (foldl_modify_keeps (fun m hm => ?_) _ _)
    split <;> exact hm
  | resourceLinkEstablished | resourceLinkClosed | setPropagationNode | tick =>
    cases hstep
    exact of_same id rfl

theorem step_steady (h : Steady i r) (hstep : r.step a = some r') :
    (¬Revives i r a → Steady i r') ∧ r'.transmissionsOf i = r.transmissionsOf i := by
  have hwell : WellFormed r' := step_wellFormed h.wellFormed hstep
  have hrouted := step_routed h.wellFormed h.routed hstep
  by_cases ha : ∃ facts, a = .processOutbound facts
  · obtain ⟨facts, rfl⟩ := ha
    have hstopped := step_stopped_iff h hstep
    cases hstep
    have hpassed := processOutbound_passed h.wellFormed facts
    exact ⟨fun hnot => ⟨hwell, hrouted, hpassed.length ▸ h.known, hstopped.mpr hnot⟩, (hpassed.steady h).2⟩
  · have hstill := (step_still hstep (not_exists.mp ha)).1
    refine ⟨fun hnot => ?_, by rw [transmissionsOf, hstill.transmissions, transmissionsOf]⟩
    exact ⟨hwell, hrouted, Nat.lt_of_lt_of_le h.known hstill.grows, (step_stopped_iff h hstep).mpr hnot⟩

/-! ### Runs -/

theorem cancelOutbound_terminal_iff
    (hstate : cancelState = .cancelled ∨ cancelState = .rejected) (hknown : i < r.messages.length) :
    (r.cancelOutbound messageID cancelState).Terminal i ↔ r.Found messageID i ∨ r.Terminal i := by
  obtain ⟨m, m', hm, hm', hfound, hother⟩ := cancelOutbound_message messageID cancelState hknown
  by_cases hf : r.Found messageID i
  · obtain rfl := hfound hf
    refine iff_of_true ⟨_, hm', ?_⟩ (.inl hf)
    rcases hstate with rfl | rfl
    · rfl
    · rfl
  · obtain rfl := hother hf
    simp [Terminal, hf, hm, hm']

/-- A cancelled message stays so just when `CancelOutbound` has found it and no step puts it back. -/
theorem cancellation_final_iff {now : Time} {as bs : List Action}
    {r₀ r₁ : OutboundRouter} (hrun : run step (start now) as = some r₀)
    (hqueued : i ∈ r₀.pendingOutbound ∨ i ∈ r₀.pendingDeferredStamps)
    (hstate : cancelState = .cancelled ∨ cancelState = .rejected)
    (hcancel : r₀.step (.cancelOutbound messageID cancelState) = some r₁) (hrest : run step r₁ bs = some r) :
    ((∀ bs₁ bs₂ r₂, bs = bs₁ ++ bs₂ → run step r₁ bs₁ = some r₂ → Stopped i r₂) ↔
      (r₀.Found messageID i ∨ r₀.Terminal i) ∧ Keeps step (fun r a => ¬Revives i r a) r₁ bs) ∧
    ((r₀.Found messageID i ∨ r₀.Terminal i) ∧ Keeps step (fun r a => ¬Revives i r a) r₁ bs →
      r.transmissionsOf i = r₀.transmissionsOf i) := by
  obtain ⟨hwell₀, hrouted₀⟩ : WellFormed r₀ ∧ r₀.Routed :=
    Reachable.invariant ⟨as, hrun⟩ (fun r => WellFormed r ∧ r.Routed)
      ⟨start_wellFormed, start_routed⟩
      fun r a r' h hstep => ⟨step_wellFormed h.1 hstep, step_routed h.1 h.2 hstep⟩
  have hwaiting₀ : r₀.Waiting i := hqueued.imp_right .inl
  have hknown₀ : i < r₀.messages.length := hwell₀.known i (hwaiting₀.symm.imp_right .inl)
  have hstill : Still r₀ r₁ := (step_still hcancel fun _ => Action.noConfusion).1
  have hwell : WellFormed r₁ := step_wellFormed hwell₀ hcancel
  cases hcancel
  have hterminal : (r₀.cancelOutbound messageID cancelState).Terminal i ↔ r₀.Found messageID i ∨ r₀.Terminal i :=
    cancelOutbound_terminal_iff hstate hknown₀
  have hsteady : r₀.Found messageID i ∨ r₀.Terminal i → Steady i (r₀.cancelOutbound messageID cancelState) := fun h =>
    ⟨hwell, hstill.routed hrouted₀, Nat.lt_of_lt_of_le hknown₀ hstill.grows, fun _ => hterminal.mpr h⟩
  have hkeeps := fun hs => keeps_iff_good (Steady i) (fun r h => h.stopped)
    (fun r a r' h hstep hnot => (step_steady h hstep).1 hnot)
    (fun r a r' h hstep hstopped => (step_stopped_iff h hstep).mp hstopped) hs hrest
  refine ⟨⟨fun hall => ?_, fun h => (hkeeps (hsteady h.1)).mpr h.2⟩, fun h => ?_⟩
  · have hwaiting : (r₀.cancelOutbound messageID cancelState).Waiting i :=
      cancelOutbound_harmless.toSameQueues.waiting.mpr hwaiting₀
    have hfirst := hterminal.mp (hall [] bs _ rfl rfl hwaiting)
    exact ⟨hfirst, (hkeeps (hsteady hfirst)).mp hall⟩
  · have hsent : (r₀.cancelOutbound messageID cancelState).transmissionsOf i = r₀.transmissionsOf i := by
      rw [transmissionsOf, hstill.transmissions, transmissionsOf]
    refine (run_induction (fun r => Steady i r ∧ r.transmissionsOf i = r₀.transmissionsOf i) ?_ bs
      ⟨hsteady h.1, hsent⟩ h.2 hrest).2
    rintro r a r' hnot ⟨hs, hsame⟩ hstep
    exact ⟨(step_steady hs hstep).1 hnot, (step_steady hs hstep).2.trans hsame⟩

namespace Sample

def propagatedMessage : OutboundMessage :=
  { messageID := [1], destinationHash := [2], desiredMethod := some .propagated, packedLength := 100 }

def facts : SendFacts := { packPropagated := some 200 }

def sentOnce : List Action :=
  [.setPropagationNode true, .handleOutbound propagatedMessage {}, .processOutbound fun _ => facts,
    .processOutbound fun _ => facts]

def timeout : List Action :=
  [.timedOut ⟨0, .propagated⟩, .tick (2 * deliveryRetryWait), .processOutbound fun _ => facts]

/-- A message that is cancelled is not sent again. -/
theorem cancelled_final : ∃ r₀ r₁ r, run step (start 0) sentOnce = some r₀ ∧
    r₀.step (.cancelOutbound [1] .cancelled) = some r₁ ∧ run step r₁ timeout = some r ∧
      r.transmissionsOf 0 = r₀.transmissionsOf 0 := by
  obtain ⟨r₀, r₁, r, hrun, hcancel, hrest, hqueue, hfound, hstate⟩ : ∃ r₀ r₁ r,
      run step (start 0) sentOnce = some r₀ ∧ r₀.step (.cancelOutbound [1] .cancelled) = some r₁ ∧
      run step r₁ timeout = some r ∧ r₀.pendingOutbound = [0] ∧
      r₀.pendingOutbound.find? (fun j => r₀.messageIDOf j = some [1]) = some 0 ∧
      r₁.messages[0]?.map (·.state) = some .cancelled :=
    ⟨_, _, _, rfl, rfl, rfl, rfl, rfl, rfl⟩
  -- The timeout leaves a cancelled message alone, and no other step could put it back.
  have htimeout : ¬Revives 0 r₁ (.timedOut ⟨0, .propagated⟩) := by
    rintro ⟨-, -, m, hm, hleaves⟩
    rw [hm] at hstate
    have hcancelled : m.state = .cancelled := Option.some.inj hstate
    exact hleaves (hcancelled ▸ by decide)
  refine ⟨r₀, r₁, r, hrun, hcancel, hrest, ?_⟩
  exact (cancellation_final_iff hrun (.inl (hqueue ▸ List.mem_singleton_self 0)) (.inl rfl) hcancel hrest).2
    ⟨.inl (.inr hfound), htimeout, fun _ _ => ⟨id, fun _ _ => ⟨id, fun _ _ => trivial⟩⟩⟩

/-- A message that is rejected is put back into the queue when its packet times out, and sent again. -/
theorem rejected_sent : ∃ r₀ r₁ r, run step (start 0) sentOnce = some r₀ ∧ r₀.pendingOutbound = [0] ∧
    r₀.step (.cancelOutbound [1] .rejected) = some r₁ ∧ run step r₁ timeout = some r ∧
      r₀.transmissionsOf 0 = [⟨0, true⟩] ∧ r.transmissionsOf 0 = [⟨0, true⟩, ⟨0, true⟩] :=
  ⟨_, _, _, rfl, rfl, rfl, rfl, rfl, rfl⟩

end Sample

end Reticulum.Lxmf.OutboundRouter
