import Mathlib.Data.List.Basic

/-! # Streams of flagged segments

A flag closes the segment that is open and opens the next one; what comes before the first flag belongs to no segment.
The reader takes one symbol after another, so it does not matter how a stream is cut into pieces. -/

namespace Framing

open List

variable {α : Type} [DecidableEq α] {flag : α}

/-- Reads a stream, given the open segment, if any: the segment that is open then, and those closed. -/
def read (flag : α) (current : Option (List α)) : List α → Option (List α) × List (List α)
  | [] => (current, [])
  | b :: bs =>
    if b = flag then ((read flag (some []) bs).1, current.toList ++ (read flag (some []) bs).2)
    else read flag (current.map (· ++ [b])) bs

variable {current : Option (List α)} {as bs segment : List α}

theorem read_flag (current : Option (List α)) (bs : List α) : read flag current (flag :: bs) =
    ((read flag (some []) bs).1, current.toList ++ (read flag (some []) bs).2) := by
  rw [read, if_pos rfl]

theorem read_append (current : Option (List α)) (as bs : List α) : read flag current (as ++ bs) =
    ((read flag (read flag current as).1 bs).1,
      (read flag current as).2 ++ (read flag (read flag current as).1 bs).2) := by
  induction as generalizing current with
  | nil => rfl
  | cons a as ih =>
    rw [cons_append, read, read]
    split
    · rw [ih, append_assoc]
    · exact ih _

theorem read_segment (h : flag ∉ segment) (current : Option (List α)) :
    read flag current segment = (current.map (· ++ segment), []) := by
  induction segment generalizing current with
  | nil => cases current <;> simp [read]
  | cons a segment ih =>
    rw [mem_cons, not_or] at h
    rw [read, if_neg (Ne.symm h.1), ih h.2]
    cases current <;> simp

/-- Bytes that are escaped one by one hold no flag. -/
theorem flag_not_mem_escape {escape : α → List α} {esc : α} {as bs : List α}
    (h : ∀ b, escape b = if b = esc then as else if b = flag then bs else [b]) (has : flag ∉ as) (hbs : flag ∉ bs)
    (data : List α) : flag ∉ data.flatMap escape := by
  rw [mem_flatMap]
  rintro ⟨b, -, hb⟩
  rw [h] at hb
  split_ifs at hb with hesc hflag
  · exact has hb
  · exact hbs hb
  · exact hflag (mem_singleton.mp hb).symm

/-- A segment between two flags. -/
theorem read_frame (h : flag ∉ segment) (current : Option (List α)) :
    read flag current (flag :: segment ++ [flag]) = (some [], current.toList ++ [segment]) := by
  rw [cons_append, read_flag, read_append, read_segment h, read_flag]
  rfl

theorem idxOf?_flag (h : flag ∉ segment) (rest : List α) :
    (segment ++ flag :: rest).idxOf? flag = some segment.length := by
  induction segment with
  | nil => rw [nil_append, idxOf?_cons, if_pos (beq_self_eq_true flag), length_nil]
  | cons b segment ih =>
    rw [mem_cons, not_or] at h
    rw [cons_append, idxOf?_cons, if_neg (by simpa using Ne.symm h.1), ih h.2]
    rfl

omit [DecidableEq α] in
theorem drop_flag (segment rest : List α) : (segment ++ flag :: rest).drop (segment.length + 1) = rest := by
  simp

def held (flag : α) : Option (List α) → List α
  | none => []
  | some segment => flag :: segment

theorem read_held (h : ∀ s ∈ current, flag ∉ s) (bs : List α) :
    read flag none (held flag current ++ bs) = read flag current bs := by
  cases current with
  | none => rfl
  | some segment =>
    rw [held, cons_append, read_flag, read_append, read_segment (h segment rfl)]
    rfl

section Frames

variable {β : Type} {code : β → List α} {accept : List α → List β} {xs : List β}

/-- Between frames the open segment is empty, if there is one. -/
theorem read_frames (hempty : accept [] = []) (hcode : ∀ x ∈ xs, flag ∉ code x)
    (haccept : ∀ x ∈ xs, accept (code x) = [x]) (hcurrent : current = none ∨ current = some []) :
    ((read flag current (xs.flatMap fun x => flag :: code x ++ [flag])).1 = none ∨
        (read flag current (xs.flatMap fun x => flag :: code x ++ [flag])).1 = some []) ∧
      (read flag current (xs.flatMap fun x => flag :: code x ++ [flag])).2.flatMap accept = xs := by
  induction xs generalizing current with
  | nil => exact ⟨hcurrent, rfl⟩
  | cons x xs ih =>
    obtain ⟨hlast, hrest⟩ := ih (fun y hy => hcode y (mem_cons_of_mem _ hy))
      (fun y hy => haccept y (mem_cons_of_mem _ hy)) (.inr rfl)
    have hfirst : (current.toList ++ [code x]).flatMap accept = [x] := by
      obtain rfl | rfl := hcurrent
      · simp [haccept x mem_cons_self]
      · simp [haccept x mem_cons_self, hempty]
    rw [flatMap_cons, read_append, read_frame (hcode x mem_cons_self)]
    refine ⟨hlast, ?_⟩
    rw [flatMap_append, hfirst, hrest]
    rfl

end Frames

/-- The open segment has no flag. -/
theorem not_mem_read (h : ∀ s ∈ current, flag ∉ s) : ∀ s ∈ (read flag current bs).1, flag ∉ s := by
  induction bs generalizing current with
  | nil => exact h
  | cons b bs ih =>
    rw [read]
    split
    · exact ih fun s hs => by simp [← Option.some.inj hs]
    · rename_i hb
      refine ih fun s hs => ?_
      obtain ⟨s', hs', rfl⟩ := Option.map_eq_some_iff.mp hs
      simp [h s' hs', Ne.symm hb]

/-- Whoever forgets the open segment closes no others. -/
theorem read_none_sublist (current : Option (List α)) (bs : List α) :
    (read flag none bs).2.Sublist (read flag current bs).2 := by
  induction bs generalizing current with
  | nil => exact Sublist.refl _
  | cons b bs ih =>
    rw [read, read]
    split
    · exact sublist_append_right _ _
    · exact ih _

end Framing
