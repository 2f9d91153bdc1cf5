import Reticulum.Transitions

/-! # Threads over a shared state

A thread is at a program point and runs one atomic section at a time; the environment decides what the code cannot.
Threads start at any time. -/

namespace Threads

/-- The points at which threads start, and what a thread at a point does in one section: the new shared
    state, and the points where it and the threads it starts go on. `none` means that it cannot run. -/
structure System (σ τ ι : Type) where
  entry : τ → Bool
  exec : σ → τ → ι → Option (σ × List τ)

structure Config (σ τ : Type) where
  shared : σ
  threads : List τ
deriving DecidableEq

inductive Action (τ ι : Type) where
  | start (t : τ)
  | advance (t : τ) (input : ι)

variable {σ τ ι : Type} [DecidableEq τ]

namespace System

def step (sys : System σ τ ι) (c : Config σ τ) : Action τ ι → Option (Config σ τ)
  | .start t => if sys.entry t then some { c with threads := t :: c.threads } else none
  | .advance t input =>
    if t ∈ c.threads then
      (sys.exec c.shared t input).map fun (s, next) => ⟨s, next ++ c.threads.erase t⟩
    else none

abbrev run (sys : System σ τ ι) (c : Config σ τ) (as : List (Action τ ι)) : Option (Config σ τ) :=
  Transitions.run sys.step c as

/-- Every step of the run meets the condition, in the state before it. -/
abbrev Keeps (sys : System σ τ ι) (cond : Config σ τ → Action τ ι → Prop) (c : Config σ τ)
    (as : List (Action τ ι)) : Prop := Transitions.Keeps sys.step cond c as

variable {sys : System σ τ ι} {c c' : Config σ τ} {t : τ} {input : ι}

theorem step_start : sys.step c (.start t) = some c' ↔
    sys.entry t = true ∧ c' = { c with threads := t :: c.threads } := by
  simp only [step]
  split
  · rename_i he
    simp [he, eq_comm (a := c')]
  · rename_i he
    simp [he]

theorem step_advance : sys.step c (.advance t input) = some c' ↔
    t ∈ c.threads ∧ ∃ s next, sys.exec c.shared t input = some (s, next) ∧ c' = ⟨s, next ++ c.threads.erase t⟩ := by
  simp only [step]
  by_cases ht : t ∈ c.threads
  · rw [if_pos ht, Option.map_eq_some_iff]
    constructor
    · rintro ⟨⟨s, next⟩, h, rfl⟩
      exact ⟨ht, s, next, h, rfl⟩
    · rintro ⟨-, s, next, h, rfl⟩
      exact ⟨(s, next), h, rfl⟩
  · simp [ht]

/-- The thread that runs, and the others. -/
theorem step_advance_perm (h : sys.step c (.advance t input) = some c') : ∃ s next others,
    sys.exec c.shared t input = some (s, next) ∧ c.threads.Perm (t :: others) ∧ c' = ⟨s, next ++ others⟩ := by
  obtain ⟨hmem, s, next, hexec, rfl⟩ := step_advance.mp h
  exact ⟨s, next, _, hexec, List.perm_cons_erase hmem, rfl⟩

end System
end Threads
