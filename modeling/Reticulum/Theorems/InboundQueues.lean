import Reticulum.InboundQueues

/-! No item of the inbound queues is lost or returned twice, whatever the goroutines do, and no getter sleeps while there
is an item. -/

namespace Reticulum.InboundQueues

open Transitions List Option Function InboundQueues

variable {α : Type} {q q' : InboundQueues α} {k : TrafficClass}
variable {getter : Nat} {next : List (Point α)} {signal : Signal}

/-! ### One section -/

def returnedOf (q : InboundQueues α) (k : TrafficClass) : List α :=
  (q.returned.filter fun r => r.trafficClass = k).map Returned.item

structure Accounted (sizes : TrafficClass → Int) (q : InboundQueues α) : Prop where
  unchanged : q.sizes = sizes
  /-- The accepted items of a class have been returned, in that order, or are still queued. -/
  items : ∀ k, q.accepted k = q.returnedOf k ++ q.queues k
  /-- A class has no more items than its size. -/
  bounded : ∀ k, ((q.queues k).length : Int) ≤ max (sizes k) 0
  /-- Every valid `Put` has been accepted or dropped. -/
  counted : ∀ k, (q.accepted k).length + q.dropped k = q.puts k

def Prioritised (q q' : InboundQueues α) : Prop :=
  q'.returned = q.returned ∨ ∃ getter k item rest, q.queues k = item :: rest ∧ (∀ k' < k, q.queues k' = []) ∧
    q'.returned = q.returned ++ [⟨getter, k, item⟩]

/-- An item is accepted by a `Put` that returns no error, and only so, and the valid calls are counted. -/
def Recorded (q : InboundQueues α) : Point α → InboundQueues α → Prop
  | .put trafficClass item, q' =>
    ∀ k : TrafficClass, q'.accepted k = q.accepted k ++
        (if (k.val : Int) = trafficClass ∧ (q.put trafficClass item).2 = none then [item] else []) ∧
      q'.puts k = q.puts k + if (k.val : Int) = trafficClass then 1 else 0
  | _, q' => q'.accepted = q.accepted ∧ q'.puts = q.puts

theorem firstQueued_eq_some (h : q.firstQueued = some k) : q.queues k ≠ [] ∧ ∀ k' < k, q.queues k' = [] := by
  obtain ⟨hk, before, after, hsplit, hbefore⟩ := find?_eq_some_iff_append.mp h
  refine ⟨by simpa using hk, fun k' hlt => ?_⟩
  have hmem : k' ∈ before ++ k :: after := hsplit ▸ mem_finRange k'
  have hsorted : (before ++ k :: after).Pairwise (· < ·) := hsplit ▸ pairwise_lt_finRange numTrafficClasses
  rcases mem_append.mp hmem with hin | hin
  · simpa using hbefore k' hin
  · -- The classes from this one on are not before it.
    obtain ⟨hafter, -⟩ := pairwise_cons.mp (pairwise_append.mp hsorted).2.1
    rcases mem_cons.mp hin with rfl | hin
    · exact absurd hlt (lt_irrefl _)
    · exact absurd hlt (hafter k' hin).asymm

theorem scan_eq_some (h : q.scan getter = some q') : ∃ k item rest,
    q.queues k = item :: rest ∧ (∀ k' < k, q.queues k' = []) ∧ q' = q.take getter k item rest := by
  obtain ⟨k, hfirst, h⟩ := bind_eq_some_iff.mp h
  obtain ⟨-, hbefore⟩ := firstQueued_eq_some hfirst
  split at h
  · cases h
  · rename_i item rest hqueue
    exact ⟨k, item, rest, hqueue, hbefore, (some.inj h).symm⟩

theorem scan_eq_none (h : q.scan getter = none) (k : TrafficClass) : q.queues k = [] := by
  cases hfirst : q.firstQueued with
  | none => simpa using find?_eq_none.mp hfirst k (mem_finRange k)
  | some k' =>
    rw [scan, hfirst] at h
    have hne := (firstQueued_eq_some hfirst).1
    dsimp only [bind_some] at h
    split at h
    · rename_i hqueue
      exact absurd hqueue hne
    · cases h

variable {sizes : TrafficClass → Int}

section

variable (hq : Accounted sizes q)
include hq

theorem Accounted.drop (k : TrafficClass) : Accounted sizes (q.drop k) := by
  refine ⟨hq.unchanged, hq.items, hq.bounded, fun j => ?_⟩
  have hcounted := hq.counted j
  by_cases hj : j = k
  · subst hj
    simp only [InboundQueues.drop, update_self]
    omega
  · simp only [InboundQueues.drop, update_of_ne hj]
    exact hcounted

theorem Accounted.accept (item : α) (hroom : ¬q.sizes k ≤ (q.queues k).length) :
    Accounted sizes (q.accept k item) := by
  refine ⟨hq.unchanged, fun j => ?_, fun j => ?_, fun j => ?_⟩
  all_goals by_cases hj : j = k
  · subst hj
    simp only [accept, update_self]
    rw [hq.items j, append_assoc]
    rfl
  · simp only [InboundQueues.accept, update_of_ne hj]
    exact hq.items j
  · subst hj
    simp only [accept, update_self, length_append, length_singleton]
    rw [hq.unchanged] at hroom
    omega
  · simp only [InboundQueues.accept, update_of_ne hj]
    exact hq.bounded j
  · subst hj
    simp only [accept, update_self, length_append, length_singleton]
    have hcounted := hq.counted j
    omega
  · simp only [InboundQueues.accept, update_of_ne hj]
    exact hq.counted j

theorem Accounted.take {item : α} {rest : List α} (hqueue : q.queues k = item :: rest)
    (getter : Nat) : Accounted sizes (q.take getter k item rest) := by
  refine ⟨hq.unchanged, fun j => ?_, fun j => ?_, hq.counted⟩
  all_goals by_cases hj : j = k
  · subst hj
    have hitems := hq.items j
    rw [hqueue] at hitems
    simp only [InboundQueues.take, returnedOf, update_self, filter_append, map_append]
    simpa [returnedOf] using hitems
  · have hitems := hq.items j
    simp only [InboundQueues.take, returnedOf, update_of_ne hj, filter_append, map_append]
    simpa [returnedOf, Ne.symm hj] using hitems
  · subst hj
    simp only [InboundQueues.take, update_self]
    have hbounded := hq.bounded j
    rw [hqueue, length_cons] at hbounded
    omega
  · simp only [InboundQueues.take, update_of_ne hj]
    exact hq.bounded j

theorem Accounted.put (trafficClass : Int) (item : α) :
    Accounted sizes (q.put trafficClass item).1 := by
  rw [InboundQueues.put]
  split
  · dsimp only
    split
    · exact hq.drop _
    · rename_i hroom
      exact hq.accept item hroom
  · exact hq

end

theorem recorded_put (q : InboundQueues α) (trafficClass : Int) (item : α) :
    Recorded q (.put trafficClass item) (q.put trafficClass item).1 := by
  intro j
  by_cases hvalid : 0 ≤ trafficClass ∧ trafficClass < numTrafficClasses
  · obtain ⟨k, rfl⟩ : ∃ k : TrafficClass, (k.val : Int) = trafficClass :=
      ⟨⟨trafficClass.toNat, by omega⟩, Int.toNat_of_nonneg hvalid.1⟩
    have hput : q.put k.val item =
        if q.sizes k ≤ (q.queues k).length then (q.drop k, some .full) else (q.accept k item, none) := dif_pos hvalid
    rw [hput]
    by_cases hj : j = k
    · subst hj
      split
      · simp [drop]
      · simp [accept]
    · have hne : (j.val : Int) ≠ k.val := fun h => hj (Fin.ext (Int.ofNat.inj h))
      split
      · simp [drop, hj, hne]
      · simp [accept, hj, hne]
  · have hne : (j.val : Int) ≠ trafficClass := fun h => hvalid (h ▸ ⟨Int.natCast_nonneg _, Int.ofNat_lt.mpr j.isLt⟩)
    rw [put, dif_neg hvalid]
    simp [hne]

structure Wakes (q q' : InboundQueues α) (next : List (Point α)) : Prop where
  later : q.notify ≤ q'.notify
  /-- The queues stay empty unless the last channel is closed. -/
  empty : q'.notify = q.notify → (∀ k, q.queues k = []) → ∀ k, q'.queues k = []
  /-- A getter begins to wait for the last channel, when it has found nothing. -/
  next : ∀ getter kind ch, .wait getter kind ch ∈ next → ch = q'.notify ∧ ∀ k, q'.queues k = []

theorem Wakes.refl (h : ∀ getter kind ch, .wait getter kind ch ∉ next) : Wakes q q next :=
  ⟨le_rfl, fun _ h => h, fun getter kind ch hmem => absurd hmem (h getter kind ch)⟩

theorem wakes_put (q : InboundQueues α) (trafficClass : Int) (item : α) : Wakes q (q.put trafficClass item).1 [] := by
  rw [put]
  split
  · dsimp only
    split
    · exact ⟨le_rfl, fun _ h => h, fun _ _ _ h => nomatch h⟩
    · exact ⟨Nat.le_succ _, fun h => absurd h (Nat.succ_ne_self _), fun _ _ _ h => nomatch h⟩
  · exact .refl fun _ _ _ => not_mem_nil

theorem wakes_take {item : α} {rest : List α} (hqueue : q.queues k = item :: rest) (getter : Nat) :
    Wakes q (q.take getter k item rest) [] := by
  refine ⟨le_rfl, fun _ hempty => ?_, fun _ _ _ h => nomatch h⟩
  rw [hempty k] at hqueue
  cases hqueue

theorem eq_notify_of_mem_afterScan {getter' ch : Nat} {kind kind' : Getter}
    (h : .wait getter' kind' ch ∈ q.afterScan getter kind signal) : ch = q.notify := by
  cases kind with
  | tryGet => cases h
  | getWithTimeout =>
    rw [afterScan] at h
    split at h
    · cases h
    · cases mem_singleton.mp h
      rfl
  | get | getUntil =>
    cases mem_singleton.mp h
    rfl

theorem not_mem_afterWait {getter' ch ch' : Nat} {kind kind' : Getter}
    (h : q.afterWait getter kind ch signal = some next) : .wait getter' kind' ch' ∉ next := by
  intro hmem
  cases signal <;> obtain ⟨-, hnext⟩ := ite_none_right_eq_some.mp h <;> cases some.inj hnext
  · cases mem_singleton.mp hmem
  · cases mem_singleton.mp hmem
  · cases hmem
  · cases mem_singleton.mp hmem

theorem section_of_exec {p : Point α} (hq : Accounted sizes q)
    (h : q.exec p signal = some (q', next)) : Accounted sizes q' ∧ Wakes q q' next ∧ Prioritised q q' ∧ Recorded q p q' := by
  cases p with
  | put trafficClass item =>
    cases h
    refine ⟨hq.put trafficClass item, wakes_put q trafficClass item, .inl ?_, recorded_put q trafficClass item⟩
    rw [put]
    split
    · dsimp only
      split <;> rfl
    · rfl
  | scan getter kind =>
    rw [exec] at h
    split at h
    · rename_i q₁ hscan
      cases h
      obtain ⟨k, item, rest, hqueue, hbefore, rfl⟩ := scan_eq_some hscan
      exact ⟨hq.take hqueue getter, wakes_take hqueue getter,
        .inr ⟨getter, k, item, rest, hqueue, hbefore, rfl⟩, rfl, rfl⟩
    · rename_i hscan
      cases h
      refine ⟨hq, ⟨le_rfl, fun _ h => h, fun getter' kind' ch hmem => ?_⟩, .inl rfl, rfl, rfl⟩
      exact ⟨eq_notify_of_mem_afterScan hmem, scan_eq_none hscan⟩
  | wait getter kind ch =>
    obtain ⟨next', hafter, h⟩ := map_eq_some_iff.mp h
    obtain ⟨rfl, rfl⟩ := Prod.mk.inj h
    exact ⟨hq, .refl fun _ _ _ => not_mem_afterWait hafter, .inl rfl, rfl, rfl⟩
  | rescan getter =>
    cases h
    cases hscan : q.scan getter with
    | none => exact ⟨hq, .refl fun _ _ _ => not_mem_nil, .inl rfl, rfl, rfl⟩
    | some q₁ =>
      obtain ⟨k, item, rest, hqueue, hbefore, rfl⟩ := scan_eq_some hscan
      exact ⟨hq.take hqueue getter, wakes_take hqueue getter,
        .inr ⟨getter, k, item, rest, hqueue, hbefore, rfl⟩, rfl, rfl⟩

/-! ### Runs -/

variable [DecidableEq α] {c c' : Threads.Config (InboundQueues α) (Point α)} {a : Threads.Action (Point α) Signal}

/-- Nothing is lost, and no getter waits while something is queued. -/
structure Conserved (sizes : TrafficClass → Int) (c : Threads.Config (InboundQueues α) (Point α)) : Prop where
  accounted : Accounted sizes c.shared
  awake : ∀ getter kind ch, .wait getter kind ch ∈ c.threads → ¬c.shared.Closed ch → ∀ k, c.shared.queues k = []

structure Sound (sizes : TrafficClass → Int) (c : Threads.Config (InboundQueues α) (Point α)) : Prop
    extends Conserved sizes c where
  made : ∀ getter kind ch, .wait getter kind ch ∈ c.threads → ch ≤ c.shared.notify

def Specified (c : Threads.Config (InboundQueues α) (Point α)) (a : Threads.Action (Point α) Signal)
    (c' : Threads.Config (InboundQueues α) (Point α)) : Prop :=
  match a with
  | .start _ => c'.shared = c.shared
  | .advance p _ => Prioritised c.shared c'.shared ∧ Recorded c.shared p c'.shared

theorem sound_step (hc : Sound sizes c) (hstep : system.step c a = some c') : Sound sizes c' ∧ Specified c a c' := by
  cases a with
  | start p =>
    obtain ⟨hentry, rfl⟩ := Threads.System.step_start.mp hstep
    -- No thread starts by waiting.
    have hold : ∀ getter kind ch, .wait getter kind ch ∈ p :: c.threads → .wait getter kind ch ∈ c.threads := by
      rintro getter kind ch hmem
      rcases mem_cons.mp hmem with rfl | hmem
      · cases hentry
      · exact hmem
    refine ⟨⟨⟨hc.accounted, fun getter kind ch hmem => ?_⟩, fun getter kind ch hmem => ?_⟩, rfl⟩
    · exact hc.awake getter kind ch (hold getter kind ch hmem)
    · exact hc.made getter kind ch (hold getter kind ch hmem)
  | advance p signal =>
    obtain ⟨-, q', next, hexec, rfl⟩ := Threads.System.step_advance.mp hstep
    obtain ⟨haccounted, hwakes, hspecified⟩ := section_of_exec hc.accounted hexec
    refine ⟨⟨⟨haccounted, fun getter kind ch hmem hopen => ?_⟩, fun getter kind ch hmem => ?_⟩, hspecified⟩
    · rcases mem_append.mp hmem with hnext | hold
      · exact (hwakes.next getter kind ch hnext).2
      · -- The channel is the last one of before, so no `Put` has been accepted since.
        have hold := mem_of_mem_erase hold
        have hmade := hc.made getter kind ch hold
        have hlast : q'.notify ≤ ch := not_lt.mp hopen
        have hopen' : ¬c.shared.Closed ch := not_lt.mpr (hwakes.later.trans hlast)
        exact hwakes.empty (le_antisymm (hlast.trans hmade) hwakes.later) (hc.awake getter kind ch hold hopen')
    · rcases mem_append.mp hmem with hnext | hold
      · exact (hwakes.next getter kind ch hnext).1.le
      · exact (hc.made getter kind ch (mem_of_mem_erase hold)).trans hwakes.later

omit [DecidableEq α] in
theorem sound_empty (sizes : TrafficClass → Int) :
    Sound sizes (⟨{ sizes }, []⟩ : Threads.Config (InboundQueues α) (Point α)) where
  accounted := ⟨rfl, fun _ => rfl, fun _ => Int.le_max_right _ _, fun _ => rfl⟩
  awake _ _ _ hmem := nomatch hmem
  made _ _ _ hmem := nomatch hmem

/-- In every state that is reached the items are conserved, no wake-up was missed, and steps return by class. -/
theorem conserved_of_run (sizes : TrafficClass → Int) (as : List (Threads.Action (Point α) Signal))
    (c : Threads.Config (InboundQueues α) (Point α)) (hrun : run system.step ⟨{ sizes }, []⟩ as = some c) :
    Conserved sizes c ∧ ∀ a c', system.step c a = some c' → Specified c a c' := by
  have hc : Sound sizes c := Reachable.invariant ⟨as, hrun⟩ (Sound sizes) (sound_empty sizes)
    fun _ _ _ hc hstep => (sound_step hc hstep).1
  exact ⟨hc.toConserved, fun a c' hstep => (sound_step hc hstep).2⟩

namespace Sample

def woken : List (Threads.Action (Point Nat) Signal) :=
  [.start (.scan 0 .get), .advance (.scan 0 .get) .notified, .start (.put 1 7), .start (.put 0 8),
    .advance (.put 1 7) .notified, .advance (.put 0 8) .notified, .advance (.wait 0 .get 0) .notified,
    .advance (.scan 0 .get) .notified]

end Sample

theorem woken_conserved : ∃ c, run system.step ⟨{ sizes := fun _ => 1 }, []⟩ Sample.woken = some c ∧
    c.shared.returned = [⟨0, 0, 8⟩] ∧ Conserved (fun _ => 1) c := by
  obtain ⟨c, hrun, hreturned⟩ : ∃ c ∈ run system.step ⟨{ sizes := fun _ => 1 }, []⟩ Sample.woken,
      c.shared.returned = [⟨0, 0, 8⟩] := by decide +kernel
  exact ⟨c, hrun, hreturned, (conserved_of_run _ _ c hrun).1⟩

end Reticulum.InboundQueues
