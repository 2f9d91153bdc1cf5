import Reticulum.Lxmf.Callbacks
import Reticulum.Theorems.Lxmf.Cancellation
import Reticulum.Theorems.Lxmf.Locking

/-! # Whether a callback may call the router -/

namespace Reticulum.Lxmf.OutboundRouter
open Locks Transitions List

variable {r : OutboundRouter} {i : Nat} {m : OutboundMessage} {f : SendFacts}

theorem attempt_fate : (r.attempt i m f).2.2 ≠ .notified := by
  have hsend : ∀ {r : OutboundRouter} {m sent}, (r.sendOrRetry i m f sent).2.2 ≠ .notified := by
    intro r m sent
    unfold sendOrRetry
    split <;> simp
  unfold attempt
  dsimp only
  split_ifs
  · simp
  · simp
  · simp
  · split
    · unfold processPropagated
      repeat' (split <;> try dsimp only)
      all_goals simp
    · unfold processOpportunistic
      split_ifs <;> simp [hsend]
    · unfold processDirect
      repeat' (split <;> try dsimp only)
      all_goals simp [hsend]
    · exact hsend

theorem processMessage_notified :
    (r.processMessage i m f).2.2 = .notified ↔ m.state = .cancelled ∨ m.state = .rejected := by
  unfold processMessage
  cases m.state <;> simp [attempt_fate]
  split <;> simp [attempt_fate]

theorem mem_fates_notified (facts : Nat → SendFacts) : ∀ (queue : List Nat) (r : OutboundRouter), queue.Nodup →
    ((i, .notified) ∈ (processAll facts r queue).2 ↔
      i ∈ queue ∧ ∃ m, r.messages[i]? = some m ∧ (m.state = .cancelled ∨ m.state = .rejected)) := by
  intro queue
  induction queue with
  | nil => simp [processAll]
  | cons k rest ih =>
    intro r hnodup
    obtain ⟨hk, hrest⟩ := nodup_cons.mp hnodup
    rw [processAll]
    cases hm : r.messages[k]? with
    | none =>
      rw [ih r hrest, mem_cons]
      refine ⟨fun h => ⟨.inr h.1, h.2⟩, fun h => ⟨h.1.resolve_left ?_, h.2⟩⟩
      rintro rfl
      simp [hm] at h
    | some m =>
      have hmessages := (processMessage_processed (r := r) (i := k) (m := m) (f := facts k)).sends.messages
      have hnotified := processMessage_notified (r := r) (i := k) (m := m) (f := facts k)
      rw [mem_cons, ih _ hrest, mem_cons, hmessages]
      by_cases hik : i = k
      · subst hik
        simp only [Prod.mk.injEq, true_and, hk, false_and, or_false, hm, Option.some.injEq, exists_eq_left']
        rw [eq_comm, hnotified]
      · simp [hik, getElem?_set_ne (Ne.symm hik)]

theorem sound_notices {fate : Fate} {fates : List (Nat × Fate)} {rest : List (Op Mutex)} :
    Locks.Sound ∅ ((notices fate fates).flatMap RouterEvent.ops ++ rest) ↔ Locks.Sound ∅ rest := by
  refine sound_flatMap fun e he rest => ?_
  obtain ⟨x, -, rfl⟩ := mem_map.mp he
  exact sound_within (by simp)

/-- A pass may be re-entered only after it has released the lock. -/
theorem sound_pass {fates : List (Nat × Fate)} {rest : List RouterEvent}
    (hrest : Locks.Sound ∅ (rest.flatMap RouterEvent.ops)) :
    Locks.Sound ∅ ((.lock :: (notices .notified fates ++ .unlock :: rest)).flatMap RouterEvent.ops) ↔
      ∀ i, (i, .notified) ∉ fates := by
  have hnil : notices .notified fates = [] ↔ ∀ i, (i, .notified) ∉ fates := by
    simp only [notices, map_eq_nil_iff, filter_eq_nil_iff, decide_eq_true_eq]
    exact ⟨fun h i hi => h _ hi rfl, fun h x hx heq => h x.1 (heq ▸ hx)⟩
  rw [← hnil]
  cases hN : notices .notified fates with
  | nil =>
    refine iff_of_true ?_ rfl
    simpa [RouterEvent.ops, Locks.Sound] using hrest
  | cons e notices' =>
    refine iff_of_false ?_ (cons_ne_nil _ _)
    obtain ⟨x, -, rfl⟩ := mem_map.mp (hN ▸ mem_cons_self : e ∈ notices .notified fates)
    simp [RouterEvent.ops, within, Locks.Sound]

/-- No callback finds the lock taken just when no message in the queue is cancelled or rejected. -/
theorem callbacks_reenter_iff (as : List Action) (now : Time) (r : OutboundRouter)
    (hrun : run step (start now) as = some r) (a : Action) :
    Locks.Sound ∅ ((r.events a).flatMap RouterEvent.ops) ↔ ∀ facts, a = .processOutbound facts →
      ∀ i ∈ r.pendingOutbound, ∀ m, r.messages[i]? = some m → m.state ≠ .cancelled ∧ m.state ≠ .rejected := by
  have hwell : WellFormed r := Reachable.invariant ⟨as, hrun⟩ WellFormed start_wellFormed
    fun _ _ _ h hstep => step_wellFormed h hstep
  have hother : ∀ {a}, (∀ facts, a ≠ .processOutbound facts) → Locks.Sound ∅ ((r.events a).flatMap RouterEvent.ops) := by
    intro a ha
    cases a with
    | processOutbound facts => exact absurd rfl (ha facts)
    | startStamps | finishStamps =>
      simp only [events]
      split
      · simp [RouterEvent.ops, Locks.Sound]
      · split_ifs <;> simp [RouterEvent.ops, within, Locks.Sound]
    | concluded =>
      simp only [events]
      split_ifs <;> simp [RouterEvent.ops, within, Locks.Sound]
    | _ => simp [events, RouterEvent.ops, within, Locks.Sound]
  by_cases ha : ∃ facts, a = .processOutbound facts
  · obtain ⟨facts, rfl⟩ := ha
    have hfailed : Locks.Sound ∅ ((notices .failed (r.fates facts)).flatMap RouterEvent.ops) := by
      rw [← List.append_nil (List.flatMap ..)]
      exact sound_notices.mpr trivial
    rw [events, sound_pass hfailed]
    have hfates : ∀ i, (i, .notified) ∈ r.fates facts ↔ _ := fun i =>
      mem_fates_notified (i := i) facts r.pendingOutbound r hwell.queue_nodup
    constructor
    · rintro h _ - i hi m hm
      exact not_or.mp fun hstate => h i ((hfates i).mpr ⟨hi, m, hm, hstate⟩)
    · intro h i hi
      obtain ⟨hqueue, m, hm, hstate⟩ := (hfates i).mp hi
      exact not_or.mpr (h facts rfl i hqueue m hm) hstate
  · exact iff_of_true (hother fun facts h => ha ⟨facts, h⟩) fun facts h => absurd ⟨facts, h⟩ ha

theorem sent_reenters : ∃ r, run step (start 0) Sample.sentOnce = some r ∧
    Locks.Sound ∅ ((r.events (.processOutbound fun _ => Sample.facts)).flatMap RouterEvent.ops) := by
  obtain ⟨r, hrun, hqueue, hstate⟩ : ∃ r, run step (start 0) Sample.sentOnce = some r ∧ r.pendingOutbound = [0] ∧
      r.messages[0]?.map (·.state) = some .sending := ⟨_, rfl, rfl, rfl⟩
  refine ⟨r, hrun, (callbacks_reenter_iff Sample.sentOnce 0 r hrun _).mpr fun _ _ i hi m hm => ?_⟩
  rw [hqueue, List.mem_singleton] at hi
  simp_all

/-- The pass calls the callback of a cancelled message while it holds the lock. -/
theorem cancelled_deadlocks : ∃ r, run step (start 0) (Sample.sentOnce ++ [.cancelOutbound [1] .cancelled]) = some r ∧
    r.events (.processOutbound fun _ => Sample.facts) = [.lock, .callback 0 .failed, .unlock] ∧
      ¬Locks.Sound ∅ ([.lock, .callback 0 .failed, .unlock].flatMap RouterEvent.ops) := by
  refine ⟨_, rfl, rfl, ?_⟩
  simp [RouterEvent.ops, within, Locks.Sound]

end Reticulum.Lxmf.OutboundRouter
