import Mathlib.Data.Finset.Card

/-! # Sets in two generations

When the current generation is full, it becomes the previous one, and the one before it is lost. -/

namespace Reticulum

structure Generations (α : Type) where
  current : Finset α := ∅
  previous : Finset α := ∅

namespace Generations

inductive Operation (α : Type) where
  | remember (x : α)
  | forget (x : α)

variable {α : Type} {capacity : Nat} {s : Generations α} {x : α}

instance : Membership α (Generations α) := ⟨fun s x => x ∈ s.current ∨ x ∈ s.previous⟩

theorem mem_iff : x ∈ s ↔ x ∈ s.current ∨ x ∈ s.previous := Iff.rfl

/-- The element is current, or in the previous generation and all that is current came after it. -/
def Stays (x : α) (later : Finset α) (s : Generations α) : Prop :=
  x ∈ s.current ∨ x ∈ s.previous ∧ s.current ⊆ later

variable {later : Finset α}

theorem Stays.mem (h : Stays x later s) : x ∈ s := h.imp_right And.left

variable [DecidableEq α]

instance : Decidable (x ∈ s) := inferInstanceAs (Decidable (x ∈ s.current ∨ x ∈ s.previous))

def remember (capacity : Nat) (s : Generations α) (x : α) : Generations α :=
  if x ∈ s then s
  else if capacity ≤ s.current.card then ⟨{x}, s.current⟩
  else ⟨insert x s.current, s.previous⟩

def forget (s : Generations α) (x : α) : Generations α := ⟨s.current.erase x, s.previous.erase x⟩

def apply (capacity : Nat) (s : Generations α) : Operation α → Generations α
  | .remember x => s.remember capacity x
  | .forget x => s.forget x

def run (capacity : Nat) (s : Generations α) (ops : List (Operation α)) : Generations α := ops.foldl (apply capacity) s

def added (s : Generations α) : Operation α → Finset α
  | .remember x => if x ∈ s then ∅ else {x}
  | .forget _ => ∅

/-- The elements that the operations add, each counted once. -/
def addedAlong (capacity : Nat) : Generations α → List (Operation α) → Finset α
  | _, [] => ∅
  | s, op :: ops => s.added op ∪ addedAlong capacity (s.apply capacity op) ops

theorem remember_cases (capacity : Nat) (s : Generations α) (x : α) : x ∈ s ∧ s.remember capacity x = s ∨
      x ∉ s ∧ capacity ≤ s.current.card ∧ s.remember capacity x = ⟨{x}, s.current⟩ ∨
      x ∉ s ∧ s.current.card < capacity ∧ s.remember capacity x = ⟨insert x s.current, s.previous⟩ := by
  unfold remember
  split
  · next hx => exact .inl ⟨hx, rfl⟩
  · next hx =>
    split
    · next hfull => exact .inr (.inl ⟨hx, hfull, rfl⟩)
    · next hfull => exact .inr (.inr ⟨hx, Nat.lt_of_not_le hfull, rfl⟩)

structure Bounded (capacity : Nat) (s : Generations α) : Prop where
  current : s.current.card ≤ capacity
  previous : s.previous.card ≤ capacity

theorem Bounded.apply (hcapacity : 1 ≤ capacity) (hs : Bounded capacity s) (op : Operation α) :
    Bounded capacity (s.apply capacity op) := by
  cases op with
  | remember y =>
    obtain ⟨-, heq⟩ | ⟨-, -, heq⟩ | ⟨hy, hroom, heq⟩ := remember_cases capacity s y
    · rw [Generations.apply, heq]
      exact hs
    · rw [Generations.apply, heq]
      exact ⟨(Finset.card_singleton y).trans_le hcapacity, hs.current⟩
    · rw [Generations.apply, heq]
      refine ⟨?_, hs.previous⟩
      exact Nat.le_trans (Finset.card_insert_le y s.current) hroom
  | forget y =>
    exact ⟨Nat.le_trans Finset.card_erase_le hs.current, Nat.le_trans Finset.card_erase_le hs.previous⟩

theorem notMem_added (hx : x ∈ s) (op : Operation α) : x ∉ s.added op := by
  cases op with
  | remember y =>
    intro hmem
    rw [added] at hmem
    split at hmem
    · exact Finset.notMem_empty x hmem
    · next hy => exact hy (Finset.mem_singleton.mp hmem ▸ hx)
  | forget y => exact Finset.notMem_empty x

theorem mem_apply {op : Operation α} (h : x ∈ s.apply capacity op) : x ∈ s ∨ x ∈ s.added op := by
  cases op with
  | remember y =>
    obtain ⟨-, heq⟩ | ⟨hy, -, heq⟩ | ⟨hy, -, heq⟩ := remember_cases capacity s y
    · exact .inl (heq ▸ h)
    · rw [Generations.apply, heq, mem_iff, Finset.mem_singleton] at h
      rcases h with rfl | h
      · exact .inr (by rw [added, if_neg hy]; exact Finset.mem_singleton_self x)
      · exact .inl (.inl h)
    · rw [Generations.apply, heq, mem_iff, Finset.mem_insert] at h
      rcases h with (rfl | h) | h
      · exact .inr (by rw [added, if_neg hy]; exact Finset.mem_singleton_self x)
      · exact .inl (.inl h)
      · exact .inl (.inr h)
  | forget y =>
    exact .inl (h.imp Finset.mem_of_mem_erase Finset.mem_of_mem_erase)

theorem Stays.apply {op : Operation α} (h : Stays x later s) (hop : op ≠ .forget x)
    (hcard : (later ∪ s.added op).card ≤ capacity) : Stays x (later ∪ s.added op) (s.apply capacity op) := by
  cases op with
  | remember y =>
    obtain ⟨-, heq⟩ | ⟨hy, hfull, heq⟩ | ⟨hy, hroom, heq⟩ := remember_cases capacity s y
    · rw [Generations.apply, heq]
      exact h.imp_right (And.imp_right fun hsub => hsub.trans Finset.subset_union_left)
    · have hadded : s.added (.remember y) = {y} := if_neg hy
      rw [hadded] at hcard ⊢
      rw [Generations.apply, heq]
      rcases h with hx | ⟨-, hsub⟩
      · exact .inr ⟨hx, Finset.subset_union_right⟩
      · -- The full current generation and the new element have all come after `x`: there are too many of them.
        have hmany : s.current.card + 1 ≤ (later ∪ {y}).card := by
          rw [← Finset.card_insert_of_notMem fun hmem => hy (.inl hmem)]
          refine Finset.card_le_card (Finset.insert_subset ?_ (hsub.trans Finset.subset_union_left))
          exact Finset.mem_union_right _ (Finset.mem_singleton_self y)
        exact absurd (Nat.le_trans hmany hcard) (Nat.not_le.mpr (Nat.lt_succ_of_le hfull))
    · have hadded : s.added (.remember y) = {y} := if_neg hy
      rw [hadded, Generations.apply, heq]
      rcases h with hx | ⟨hx, hsub⟩
      · exact .inl (Finset.mem_insert_of_mem hx)
      · refine .inr ⟨hx, Finset.insert_subset ?_ (hsub.trans Finset.subset_union_left)⟩
        exact Finset.mem_union_right _ (Finset.mem_singleton_self y)
  | forget y =>
    have hxy : x ≠ y := fun heq => hop (heq ▸ rfl)
    refine h.imp (fun hx => Finset.mem_erase.mpr ⟨hxy, hx⟩) fun ⟨hx, hsub⟩ => ⟨Finset.mem_erase.mpr ⟨hxy, hx⟩, ?_⟩
    exact (Finset.erase_subset y s.current).trans (hsub.trans Finset.subset_union_left)

theorem Bounded.run (hcapacity : 1 ≤ capacity) (hs : Bounded capacity s) (ops : List (Operation α)) :
    Bounded capacity (s.run capacity ops) := by
  induction ops generalizing s with
  | nil => exact hs
  | cons op ops ih => exact ih (hs.apply hcapacity op)

theorem mem_run {ops : List (Operation α)} (h : x ∈ s.run capacity ops) : x ∈ s ∨ x ∈ addedAlong capacity s ops := by
  induction ops generalizing s with
  | nil => exact .inl h
  | cons op ops ih =>
    rcases ih h with hmem | hmem
    · exact (mem_apply hmem).imp_right (Finset.mem_union_left _)
    · exact .inr (Finset.mem_union_right _ hmem)

theorem Stays.run {ops : List (Operation α)} (h : Stays x later s) (hlater : x ∉ later)
    (hops : .forget x ∉ ops) (hcard : ((later ∪ addedAlong capacity s ops).erase x).card ≤ capacity) :
    x ∈ s.run capacity ops := by
  induction ops generalizing s later with
  | nil => exact h.mem
  | cons op ops ih =>
    rw [List.mem_cons, not_or] at hops
    rw [addedAlong, ← Finset.union_assoc] at hcard
    have hnotMem : x ∉ later ∪ s.added op :=
      Finset.notMem_union.mpr ⟨hlater, notMem_added h.mem op⟩
    have hop : (later ∪ s.added op).card ≤ capacity := by
      refine Nat.le_trans (Finset.card_le_card ?_) hcard
      exact Finset.subset_erase.mpr ⟨Finset.subset_union_left, hnotMem⟩
    exact ih (h.apply (Ne.symm hops.1) hop) hnotMem hops.2 hcard

end Generations
end Reticulum
