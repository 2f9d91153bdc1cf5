import Mathlib.Data.List.DropRight

/-! # Slash-separated file paths

`clean`, `join` and `base` follow Go's `path/filepath` on a Unix system. `Within` and `Below` compare the places that
paths name, and so do not depend on how a path is spelled. -/

namespace Filepath

open List

abbrev Path := List UInt8

def separator : UInt8 := 47
def dot : Path := [46]
def dotDot : Path := [46, 46]

def isAbs (p : Path) : Bool := p.head? = some separator

def elements (p : Path) : List Path := p.splitOn separator

/-- The elements before this one are on a stack, the last one on top. -/
def push (rooted : Bool) (stack : List Path) (e : Path) : List Path :=
  if e = [] ∨ e = dot then stack
  else if e = dotDot then
    match stack with
    | [] => if rooted then [] else [e]
    | top :: rest => if top = dotDot then e :: stack else rest
  else e :: stack

def names (p : Path) : List Path := ((elements p).foldl (push (isAbs p)) []).reverse

def clean (p : Path) : Path :=
  let body := [separator].intercalate (names p)
  if isAbs p then separator :: body else if names p = [] then dot else body

def join (elems : List Path) : Path :=
  match elems.dropWhile (· = []) with
  | [] => []
  | rest => clean ([separator].intercalate rest)

def base (p : Path) : Path :=
  if p = [] then dot
  else
    let name := (p.rdropWhile (· = separator)).rtakeWhile (· ≠ separator)
    if name = [] then [separator] else name

/-- `p` is the place `dir` or a place below it. -/
def Within (dir p : Path) : Prop := isAbs p = isAbs dir ∧ names dir <+: names p

def Below (dir p : Path) : Prop := Within dir p ∧ names p ≠ names dir

/-- Below an entry of `dir`. -/
def Deep (dir p : Path) : Prop := isAbs p = isAbs dir ∧ ∃ a b es, names p = names dir ++ a :: b :: es

/-- A name that a directory entry can have. -/
def Plain (e : Path) : Prop := e ≠ [] ∧ e ≠ dot ∧ e ≠ dotDot ∧ separator ∉ e

instance (dir p : Path) : Decidable (Within dir p) := inferInstanceAs (Decidable (_ ∧ _))
instance (e : Path) : Decidable (Plain e) := inferInstanceAs (Decidable (_ ∧ _))

variable {rooted : Bool} {stack : List Path} {e p dir root : Path}

theorem separator_notMem_of_mem_elements : ∀ {p : Path}, ∀ e ∈ elements p, separator ∉ e
  | [], e, he => by simp_all [elements]
  | c :: p, e, he => by
    have ih := separator_notMem_of_mem_elements (p := p)
    rw [elements, splitOn_cons_eq_if_modifyHead] at he
    split at he
    · rcases mem_cons.mp he with rfl | he
      · exact not_mem_nil
      · exact ih e he
    · rename_i hc
      rw [elements] at ih
      cases hp : p.splitOn separator with
      | nil => exact absurd hp (splitOn_ne_nil _ _)
      | cons first rest =>
        rw [hp] at he ih
        rcases mem_cons.mp he with rfl | he
        · have hne : separator ≠ c := fun h => hc (by simp [h])
          exact not_mem_cons_of_ne_of_not_mem hne (ih first mem_cons_self)
        · exact ih e (mem_cons_of_mem _ he)

theorem elements_append (dir p : Path) : elements (dir ++ separator :: p) = elements dir ++ elements p :=
  splitOn_append_cons_self dir p

theorem elements_of_notMem (h : separator ∉ e) : elements e = [e] := splitOn_eq_singleton h

theorem isAbs_append (h : dir ≠ []) (p : Path) : isAbs (dir ++ p) = isAbs dir := by
  cases dir with
  | nil => exact absurd rfl h
  | cons c dir => rfl

theorem push_plain (h : Plain e) : push rooted stack e = e :: stack := by
  rw [push.eq_def, if_neg (by simp [h.1, h.2.1]), if_neg h.2.2.1]

@[simp] theorem push_nil : push rooted stack [] = stack := rfl

/-- An element that stays is on top of the stack as it was. -/
theorem push_cases (rooted : Bool) (stack : List Path) (e : Path) :
    push rooted stack e = stack ∨ push rooted stack e = stack.tail ∨
      (e ≠ [] ∧ push rooted stack e = e :: stack) := by
  rw [push.eq_def]
  split
  · exact .inl rfl
  · rename_i hne
    have he : e ≠ [] := fun h => hne (.inl h)
    split
    · cases stack with
      | nil =>
        cases rooted with
        | true => exact .inl rfl
        | false => exact .inr (.inr ⟨he, rfl⟩)
      | cons top rest =>
        simp only
        split
        · exact .inr (.inr ⟨he, rfl⟩)
        · exact .inr (.inl rfl)
    · exact .inr (.inr ⟨he, rfl⟩)

/-- A stack of elements that were pushed and are still there. -/
def Stacked (rooted : Bool) : List Path → Prop
  | [] => True
  | e :: stack => (e ≠ [] ∧ separator ∉ e) ∧ push rooted stack e = e :: stack ∧ Stacked rooted stack

namespace Stacked

theorem push (h : Stacked rooted stack) (he : separator ∉ e) : Stacked rooted (push rooted stack e) := by
  rcases push_cases rooted stack e with hp | hp | ⟨hne, hp⟩
  · rwa [hp]
  · rw [hp]
    cases stack with
    | nil => trivial
    | cons top rest => exact h.2.2
  · rw [hp]
    exact ⟨⟨hne, he⟩, hp, h⟩

theorem foldl_push {es : List Path} (hes : ∀ e ∈ es, separator ∉ e) :
    ∀ {stack : List Path}, Stacked rooted stack → Stacked rooted (es.foldl (Filepath.push rooted) stack) := by
  induction es with
  | nil => exact fun h => h
  | cons e es ih =>
    intro stack h
    exact ih (fun e he => hes e (mem_cons_of_mem _ he)) (h.push (hes e mem_cons_self))

theorem mem : ∀ {stack : List Path}, Stacked rooted stack → ∀ e ∈ stack, e ≠ [] ∧ separator ∉ e
  | _ :: _, h, e, he => by
    rcases mem_cons.mp he with rfl | he
    · exact h.1
    · exact h.2.2.mem e he

theorem foldl_reverse : ∀ {stack : List Path}, Stacked rooted stack →
    stack.reverse.foldl (Filepath.push rooted) [] = stack
  | [], _ => rfl
  | e :: stack, h => by
    rw [reverse_cons, foldl_append, h.2.2.foldl_reverse]
    exact h.2.1

end Stacked

theorem stacked_names (p : Path) : Stacked (isAbs p) (names p).reverse := by
  rw [names, reverse_reverse]
  exact Stacked.foldl_push separator_notMem_of_mem_elements trivial

theorem mem_names (he : e ∈ names p) : e ≠ [] ∧ separator ∉ e :=
  (stacked_names p).mem e (mem_reverse.mpr he)

/-- Put together, the names of a path have the same names. -/
theorem foldl_elements_names (p : Path) :
    (elements ([separator].intercalate (names p))).foldl (push (isAbs p)) [] = (names p).reverse := by
  cases hn : names p with
  | nil => rfl
  | cons e es =>
    rw [← hn, elements, splitOn_intercalate separator (fun l hl => (mem_names hl).2) (by simp [hn])]
    simpa using (stacked_names p).foldl_reverse

theorem isAbs_intercalate {es : List Path} (hes : ∀ e ∈ es, e ≠ [] ∧ separator ∉ e) :
    isAbs ([separator].intercalate es) = false := by
  cases es with
  | nil => rfl
  | cons e es =>
    obtain ⟨hne, hsep⟩ := hes e mem_cons_self
    obtain ⟨c, e, rfl⟩ := exists_cons_of_ne_nil hne
    have hc : c ≠ separator := fun h => hsep (h ▸ mem_cons_self)
    simp [isAbs, hc]

theorem isAbs_clean (p : Path) : isAbs (clean p) = isAbs p := by
  unfold clean
  cases hp : isAbs p with
  | true => rfl
  | false =>
    simp only [Bool.false_eq_true, if_false]
    split
    · rfl
    · exact isAbs_intercalate fun e he => mem_names he

@[simp] theorem names_clean (p : Path) : names (clean p) = names p := by
  rw [names, isAbs_clean]
  have hfold := foldl_elements_names p
  unfold clean
  cases hp : isAbs p with
  | true =>
    rw [hp] at hfold
    have hroot : elements (separator :: [separator].intercalate (names p)) =
        [] :: elements ([separator].intercalate (names p)) := elements_append [] _
    rw [if_pos rfl, hroot, foldl_cons, push_nil, hfold, reverse_reverse]
  | false =>
    rw [hp] at hfold
    simp only [Bool.false_eq_true, if_false]
    split
    · rename_i hn
      rw [hn]
      rfl
    · rw [hfold, reverse_reverse]

section

variable (h : dir ≠ [])
include h

theorem names_append (p : Path) :
    names (dir ++ separator :: p) = ((elements p).foldl (push (isAbs dir)) (names dir).reverse).reverse := by
  rw [names, isAbs_append h, elements_append, foldl_append]
  simp [names]

theorem join_pair (p : Path) : join [dir, p] = clean (dir ++ separator :: p) := by
  simp [join, h, dropWhile, intercalate_cons_cons]

theorem isAbs_join (p : Path) : isAbs (join [dir, p]) = isAbs dir := by
  rw [join_pair h, isAbs_clean, isAbs_append h]

theorem names_join (p : Path) :
    names (join [dir, p]) = ((elements p).foldl (push (isAbs dir)) (names dir).reverse).reverse := by
  rw [join_pair h, names_clean, names_append h]

theorem names_join_plain (he : Plain e) : names (join [dir, e]) = names dir ++ [e] := by
  rw [names_join h, elements_of_notMem he.2.2.2]
  simp [push_plain he]

end

theorem Within.refl (p : Path) : Within p p := ⟨rfl, prefix_rfl⟩

theorem Below.trans (h : Below dir p) {q : Path} (hq : Within p q) : Below dir q := by
  refine ⟨⟨hq.1.trans h.1.1, h.1.2.trans hq.2⟩, fun heq => h.2 ?_⟩
  have hle := hq.2
  rw [heq] at hle
  exact (h.1.2.eq_of_length_le hle.length_le).symm

theorem Below.ne_nil (h : Below dir p) : p ≠ [] := by
  rintro rfl
  exact h.2 (prefix_nil.mp h.1.2).symm

theorem below_iff : Below dir p ↔ isAbs p = isAbs dir ∧ ∃ e es, names p = names dir ++ e :: es := by
  constructor
  · rintro ⟨⟨habs, rest, hrest⟩, hne⟩
    cases rest with
    | nil => exact absurd (by simpa using hrest.symm) hne
    | cons e es => exact ⟨habs, e, es, hrest.symm⟩
  · rintro ⟨habs, e, es, hnames⟩
    refine ⟨⟨habs, hnames ▸ prefix_append _ _⟩, fun h => ?_⟩
    rw [hnames] at h
    exact absurd h (by simp)

theorem below_join (h : dir ≠ []) (he : Plain e) : Below dir (join [dir, e]) :=
  below_iff.mpr ⟨isAbs_join h e, e, [], names_join_plain h he⟩

theorem Below.entry (h : Below root dir) (he : Plain e) : Below root (join [dir, e]) :=
  h.trans (below_join h.ne_nil he).1

theorem Below.deep (h : Below root dir) (he : Plain e) : Deep root (join [dir, e]) := by
  obtain ⟨habs, a, es, hnames⟩ := below_iff.mp h
  refine ⟨(isAbs_join h.ne_nil e).trans habs, ?_⟩
  rw [names_join_plain h.ne_nil he, hnames]
  cases es with
  | nil => exact ⟨a, e, [], by simp⟩
  | cons b es => exact ⟨a, b, es ++ [e], by simp⟩

theorem Deep.trans {q : Path} (h : Deep root p) (hq : Within p q) : Deep root q := by
  obtain ⟨habs, a, b, es, hnames⟩ := h
  obtain ⟨habs', rest, hrest⟩ := hq
  exact ⟨habs'.trans habs, a, b, es ++ rest, by rw [← hrest, hnames]; simp⟩

end Filepath
