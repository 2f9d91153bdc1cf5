import Mathlib.Data.List.Range

/-! Buffers of numbers that wait for their turn: they are released only from the front, while the front is the awaited
number. -/

namespace ReorderBuffer

def Ordered (next : Nat) (pending : List Nat) : Prop :=
  pending.Pairwise (· < ·) ∧ ∀ o ∈ pending, next ≤ o

def release (next : Nat) : List Nat → Nat × List Nat
  | [] => (next, [])
  | o :: pending => if o = next then release (next + 1) pending else (next, o :: pending)

theorem range'_append_sub {a b c : Nat} (hab : a ≤ b) (hbc : b ≤ c) :
    List.range' a (b - a) ++ List.range' b (c - b) = List.range' a (c - a) := by
  obtain ⟨m, rfl⟩ := Nat.exists_eq_add_of_le hab
  obtain ⟨k, rfl⟩ := Nat.exists_eq_add_of_le hbc
  rw [Nat.add_sub_cancel_left, Nat.add_sub_cancel_left, List.range'_append_1]
  congr 1
  omega

theorem ordered_nil (next : Nat) : Ordered next [] := ⟨List.Pairwise.nil, by simp⟩

variable {l : List Nat}

variable {next : Nat}

theorem Ordered.of_sublist {l' : List Nat} (hl : l.Sublist l') (h : Ordered next l') : Ordered next l :=
  ⟨h.1.sublist hl, fun o ho => h.2 o (hl.subset ho)⟩

theorem ordered_cons {o : Nat} : Ordered next (o :: l) ↔ next ≤ o ∧ Ordered (o + 1) l := by
  simp only [Ordered, List.pairwise_cons, List.forall_mem_cons]
  constructor
  · rintro ⟨⟨hlt, hp⟩, hle, -⟩
    exact ⟨hle, hp, fun x hx => hlt x hx⟩
  · rintro ⟨hle, hp, hlt⟩
    exact ⟨⟨fun x hx => hlt x hx, hp⟩, hle, fun x hx => by have := hlt x hx; omega⟩

theorem release_le (next : Nat) (l : List Nat) : next ≤ (release next l).1 := by
  induction l generalizing next with
  | nil => exact Nat.le_refl _
  | cons o l ih =>
    unfold release
    split
    · have := ih (next + 1)
      omega
    · exact Nat.le_refl _

/-- What is released is the run of numbers from the awaited one. -/
theorem release_append (next : Nat) (l : List Nat) :
    List.range' next ((release next l).1 - next) ++ (release next l).2 = l := by
  induction l generalizing next with
  | nil => simp [release]
  | cons o l ih =>
    unfold release
    split
    · rename_i ho
      have hle := release_le (next + 1) l
      have hsub : (release (next + 1) l).1 - next = ((release (next + 1) l).1 - (next + 1)) + 1 := by omega
      rw [hsub, List.range'_succ, List.cons_append, ih, ho]
    · simp

/-- Only a buffer that was in order releases its way to one that is. -/
theorem ordered_of_release (h : Ordered (release next l).1 (release next l).2) :
    Ordered next l := by
  induction l generalizing next with
  | nil => exact ordered_nil next
  | cons o l ih =>
    unfold release at h
    split at h
    · rename_i ho
      exact ordered_cons.mpr ⟨Nat.le_of_eq ho.symm, ho ▸ ih h⟩
    · exact h

theorem Ordered.released (h : Ordered next l) :
    Ordered (release next l).1 (release next l).2 ∧ (release next l).1 ∉ (release next l).2 := by
  induction l generalizing next with
  | nil => exact ⟨ordered_nil next, by simp [release]⟩
  | cons o l ih =>
    obtain ⟨hle, hl⟩ := ordered_cons.mp h
    unfold release
    split
    · rename_i ho
      exact ih (ho ▸ hl)
    · rename_i ho
      refine ⟨h, fun hmem => ?_⟩
      rcases List.mem_cons.mp hmem with heq | hmem
      · exact ho heq.symm
      · have : o + 1 ≤ next := hl.2 _ hmem
        omega

end ReorderBuffer
