import Reticulum.Threads
import Mathlib.Data.Finset.Basic
import Mathlib.Data.List.Pairwise

/-! # Threads that take and release locks

A thread runs a list of lock operations. Locks are not reentrant. -/

namespace Locks
open Threads List Option

inductive Op (L : Type) where
  | lock (l : L)
  | unlock (l : L)
deriving DecidableEq

/-- A thread that runs the program of its label: the locks it holds, and what is left to do. -/
structure Thread (L A : Type) where
  label : A
  held : Finset L
  rest : List (Op L)
deriving DecidableEq

variable {L A : Type} [DecidableEq L]

def exec (taken : Finset L) (t : Thread L A) : Option (Finset L × List (Thread L A)) :=
  match t.rest with
  | [] => some (taken, [])
  | .lock l :: rest => if l ∈ taken then none else some (insert l taken, [{ t with held := insert l t.held, rest }])
  | .unlock l :: rest => some (taken.erase l, [{ t with held := t.held.erase l, rest }])

def system [DecidableEq A] (program : A → List (Op L)) : System (Finset L) (Thread L A) Unit where
  entry t := t.held = ∅ ∧ t.rest = program t.label
  exec taken t _ := exec taken t

def Thread.Waits (t : Thread L A) (l : L) : Prop := t.rest.head? = some (.lock l)

/-- Two threads wait for each other's lock, or one for its own. -/
def Deadlock (c : Config (Finset L) (Thread L A)) : Prop :=
  ∃ t ∈ c.threads, ∃ u ∈ c.threads, ∃ a b, a ∈ t.held ∧ t.Waits b ∧ b ∈ u.held ∧ u.Waits a

/-- The thread holds `a` and will take `b` before it releases `a`. -/
def Thread.Nests (t : Thread L A) (a b : L) : Prop := a ∈ t.held ∧ .lock b ∈ t.rest.takeWhile (· ≠ .unlock a)

/-- The operations take no lock that is held and release only what is held. -/
def Sound : Finset L → List (Op L) → Prop
  | _, [] => True
  | held, .lock l :: rest => l ∉ held ∧ Sound (insert l held) rest
  | held, .unlock l :: rest => l ∈ held ∧ Sound (held.erase l) rest

/-- A lock inside which others are taken is taken only while no other thread nests the two the other way. -/
def Careful [DecidableEq A] (c : Config (Finset L) (Thread L A)) (t : Thread L A) : Prop :=
  ∀ l rest, t.rest = .lock l :: rest → ∀ b, .lock b ∈ rest.takeWhile (· ≠ .unlock l) →
    ∀ u ∈ c.threads.erase t, ¬u.Nests b l

def Crosses (t u : Thread L A) : Prop := ∃ a b, t.Nests a b ∧ u.Nests b a

variable {t : Thread L A}

theorem Crosses.symm {u : Thread L A} : Crosses t u → Crosses u t
  | ⟨a, b, ht, hu⟩ => ⟨b, a, hu, ht⟩

instance : Std.Symm fun t u : Thread L A => ¬Crosses t u := ⟨fun _ _ h h' => h h'.symm⟩

/-- The invariant of careful runs. -/
structure Safe (ts : List (Thread L A)) : Prop where
  sound : ∀ t ∈ ts, Sound t.held t.rest
  noCrossing : ts.Pairwise fun t u => ¬Crosses t u

theorem Thread.Waits.nests {a b : L} (h : t.Waits b) (ha : a ∈ t.held) : t.Nests a b := by
  cases hr : t.rest with
  | nil => simp [Waits, hr] at h
  | cons op rest =>
    simp only [Waits, hr, head?_cons, some.injEq] at h
    simp [Nests, hr, h, ha]

/-- No deadlock where the invariant holds. -/
theorem Safe.not_deadlock {c : Config (Finset L) (Thread L A)} (h : Safe c.threads) : ¬Deadlock c := by
  rintro ⟨t, ht, u, hu, a, b, ha, hb, hb', ha'⟩
  by_cases htu : t = u
  · cases htu
    cases Op.lock.inj (some.inj (ha'.symm.trans hb))
    cases hr : t.rest with
    | nil => simp [Thread.Waits, hr] at hb
    | cons op rest =>
      have hsound := h.sound t ht
      simp only [Thread.Waits, hr, head?_cons, some.injEq] at hb
      rw [hr, hb] at hsound
      exact hsound.1 ha
  · exact h.noCrossing.forall ht hu htu ⟨a, b, hb.nests ha, ha'.nests hb'⟩

/-- What a thread does in one step. -/
theorem exec_cases {taken taken' : Finset L} {next : List (Thread L A)}
    (h : exec taken t = some (taken', next)) : (t.rest = [] ∧ next = []) ∨
    (∃ l rest, t.rest = .lock l :: rest ∧ next = [{ t with held := insert l t.held, rest }]) ∨
    ∃ l rest, t.rest = .unlock l :: rest ∧ next = [{ t with held := t.held.erase l, rest }] := by
  unfold exec at h
  split at h
  · rename_i hr
    cases h
    exact .inl ⟨hr, rfl⟩
  · rename_i l rest hr
    split at h
    · cases h
    · cases h
      exact .inr (.inl ⟨l, rest, hr, rfl⟩)
  · rename_i l rest hr
    cases h
    exact .inr (.inr ⟨l, rest, hr, rfl⟩)

theorem nests_of_unlock {l a b : L} {rest : List (Op L)} (hr : t.rest = .unlock l :: rest)
    (h : Thread.Nests { t with held := t.held.erase l, rest } a b) : t.Nests a b := by
  obtain ⟨ha, hb⟩ := h
  obtain ⟨hne, ha⟩ := Finset.mem_erase.mp ha
  refine ⟨ha, ?_⟩
  rw [hr, takeWhile_cons_of_pos (by simpa using hne.symm)]
  exact mem_cons_of_mem _ hb

theorem nests_of_lock {l a b : L} {rest : List (Op L)} (hr : t.rest = .lock l :: rest)
    (h : Thread.Nests { t with held := insert l t.held, rest } a b) :
    t.Nests a b ∨ (a = l ∧ .lock b ∈ rest.takeWhile (· ≠ .unlock l)) := by
  obtain ⟨ha, hb⟩ := h
  rcases Finset.mem_insert.mp ha with rfl | ha
  · exact .inr ⟨rfl, hb⟩
  · refine .inl ⟨ha, ?_⟩
    rw [hr, takeWhile_cons_of_pos (by simp)]
    exact mem_cons_of_mem _ hb

section Run
variable [DecidableEq A] {program : A → List (Op L)}

/-- Replacing a thread by one that crosses no other. -/
theorem Safe.replace {ts : List (Thread L A)} {t' : Thread L A} (h : Safe ts) (ht : t ∈ ts)
    (hsound : Sound t'.held t'.rest) (hcross : ∀ u ∈ ts.erase t, ¬Crosses t u → ¬Crosses t' u) :
    Safe (t' :: ts.erase t) := by
  have hperm := (perm_cons_erase ht).pairwise_iff (R := fun t u => ¬Crosses t u) fun h h' => h h'.symm
  obtain ⟨hfirst, hothers⟩ := pairwise_cons.mp (hperm.mp h.noCrossing)
  refine ⟨fun u hu => ?_, pairwise_cons.mpr ⟨fun u hu => hcross u hu (hfirst u hu), hothers⟩⟩
  rcases mem_cons.mp hu with rfl | hu
  · exact hsound
  · exact h.sound u (mem_of_mem_erase hu)

theorem Safe.advance {c c' : Config (Finset L) (Thread L A)} (h : Safe c.threads)
    (hc : Careful c t) (hs : (system program).step c (.advance t ()) = some c') : Safe c'.threads := by
  obtain ⟨ht, taken, next, hx, rfl⟩ := System.step_advance.mp hs
  have hsound := h.sound t ht
  rcases exec_cases hx with ⟨-, rfl⟩ | ⟨l, rest, hr, rfl⟩ | ⟨l, rest, hr, rfl⟩
  · refine ⟨fun u hu => h.sound u (mem_of_mem_erase hu), ?_⟩
    exact h.noCrossing.sublist erase_sublist
  · rw [hr] at hsound
    refine h.replace ht hsound.2 fun u hu hnot => ?_
    rintro ⟨a, b, hab, hba⟩
    rcases nests_of_lock hr hab with hab | ⟨rfl, hb⟩
    · exact hnot ⟨a, b, hab, hba⟩
    · exact hc a rest hr b hb u hu hba
  · rw [hr] at hsound
    refine h.replace ht hsound.2 fun u _ hnot => ?_
    rintro ⟨a, b, hab, hba⟩
    exact hnot ⟨a, b, nests_of_unlock hr hab, hba⟩

/-- A thread that starts holds nothing, so it crosses no other. -/
theorem Safe.start {c c' : Config (Finset L) (Thread L A)} (h : Safe c.threads)
    (hsound : Sound ∅ (program t.label)) (hs : (system program).step c (.start t) = some c') : Safe c'.threads := by
  obtain ⟨he, rfl⟩ := System.step_start.mp hs
  obtain ⟨hheld, hrest⟩ : t.held = ∅ ∧ t.rest = program t.label := by simpa [system] using he
  refine ⟨fun u hu => ?_, pairwise_cons.mpr ⟨fun u _ => ?_, h.noCrossing⟩⟩
  · rcases mem_cons.mp hu with rfl | hu
    · rw [hheld, hrest]
      exact hsound
    · exact h.sound u hu
  · rintro ⟨a, b, ⟨ha, -⟩, -⟩
    simp [hheld] at ha

end Run

end Locks
