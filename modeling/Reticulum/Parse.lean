import Mathlib.Data.List.Basic

/-! Parsers of byte strings: what a parser reads, what it rejects, and what its results satisfy. -/

namespace Parse

open List

abbrev Parser (ε α : Type) := StateT (List UInt8) (Except ε) α

variable {ε α β : Type}

def fail (e : ε) : Parser ε α := fun _ => .error e

def ensure (c : Prop) [Decidable c] (e : ε) : Parser ε Unit := if c then pure () else fail e

def byteAt (eof : ε) : Parser ε UInt8
  | [] => .error eof
  | b :: s => .ok (b, s)

def peekByte (eof : ε) : Parser ε UInt8
  | [] => .error eof
  | b :: s => .ok (b, b :: s)

def take (eof : ε) (n : Nat) : Parser ε (List UInt8) := fun s =>
  if s.length < n then .error eof else .ok (s.take n, s.drop n)

def remaining : Parser ε Nat := fun s => .ok (s.length, s)

def times (p : Parser ε α) : Nat → Parser ε (List α)
  | 0 => pure []
  | n + 1 => do
    let a ← p
    let as ← times p n
    pure (a :: as)

/-- Items up to the byte `stop`, which is read too. The last argument is fuel: an item is at least one byte. -/
def upTo (eof : ε) (stop : UInt8) (p : Parser ε α) : Nat → Parser ε (List α)
  | 0 => fail eof
  | n + 1 => do
    let b ← peekByte eof
    if b = stop then
      let _ ← byteAt eof
      pure []
    else
      let a ← p
      let as ← upTo eof stop p n
      pure (a :: as)

/-- The parser takes `s` from the front of any input that begins with it, and gives `a`. -/
def Reads (p : Parser ε α) (s : List UInt8) (a : α) : Prop := ∀ rest, p (s ++ rest) = .ok (a, rest)

/-- The parser fails on every input that begins with `s`. -/
def Rejects (p : Parser ε α) (s : List UInt8) : Prop := ∀ rest, ∃ e, p (s ++ rest) = .error e

/-- Every result of the parser satisfies `P`. -/
def Yields (p : Parser ε α) (P : α → Prop) : Prop := ∀ s a rest, p s = .ok (a, rest) → P a

theorem bind_eq (p : Parser ε α) (f : α → Parser ε β) (s : List UInt8) :
    (p >>= f) s = (p s).bind fun x => f x.1 x.2 := rfl

variable {p q : Parser ε α} {f : α → Parser ε β} {s t : List UInt8} {a : α} {b : β} {P : α → Prop} {Q : β → Prop}

theorem reads_pure (a : α) : Reads (pure a : Parser ε α) [] a := fun _ => rfl

variable {c : Prop}

theorem reads_ensure [Decidable c] (e : ε) (h : c) : Reads (ensure c e) [] () := by
  rw [ensure, if_pos h]
  exact reads_pure ()

variable (eof : ε)

theorem reads_byteAt (b : UInt8) : Reads (byteAt eof) [b] b := fun _ => rfl

theorem reads_take (s : List UInt8) : Reads (take eof s.length) s s := by
  intro rest
  rw [take, if_neg (by simp), take_left, drop_left]

theorem Reads.bind (hp : Reads p s a) (hf : Reads (f a) t b) : Reads (p >>= f) (s ++ t) b := by
  intro rest
  rw [bind_eq, append_assoc, hp]
  exact hf rest

theorem Reads.bind_nil (hp : Reads p s a) (hf : Reads (f a) [] b) : Reads (p >>= f) s b := by
  have h := hp.bind hf
  rwa [append_nil] at h

theorem Reads.map (f : α → β) (hp : Reads p s a) : Reads (f <$> p) s (f a) := by
  intro rest
  have hmap : (f <$> p) (s ++ rest) = (p (s ++ rest)).bind fun x => .ok (f x.1, x.2) := rfl
  rw [hmap, hp]
  rfl

theorem Reads.remaining_bind {f : Nat → Parser ε β}
    (h : ∀ n, s.length ≤ n → Reads (f n) s b) : Reads (remaining >>= f) s b :=
  fun rest => h (s ++ rest).length (by simp) rest

variable {code : α → List UInt8}

theorem Reads.times {p : Parser ε β} {value : α → β} : ∀ {as : List α},
    (∀ a ∈ as, Reads p (code a) (value a)) → Reads (times p as.length) (as.flatMap code) (as.map value)
  | [], _ => reads_pure []
  | a :: as, h => by
    have hrest := Reads.times fun x hx => h x (mem_cons_of_mem a hx)
    exact (h a mem_cons_self).bind (hrest.bind_nil (reads_pure _))

theorem mul_length_le_flatMap {c : Nat} : ∀ {as : List α},
    (∀ a ∈ as, c ≤ (code a).length) → c * as.length ≤ (as.flatMap code).length
  | [], _ => by simp
  | a :: as, h => by
    have hrest := mul_length_le_flatMap fun x hx => h x (mem_cons_of_mem a hx)
    have hhead := h a mem_cons_self
    rw [length_cons, flatMap_cons, length_append, Nat.mul_succ]
    omega

theorem length_le_flatMap_of_mem (code : α → List UInt8) {a : α} {as : List α} (ha : a ∈ as) :
    (code a).length ≤ (as.flatMap code).length := by
  induction as with
  | nil => cases ha
  | cons b as ih =>
    rw [flatMap_cons, length_append]
    rcases mem_cons.mp ha with rfl | ha
    · exact Nat.le_add_right _ _
    · exact Nat.le_trans (ih ha) (Nat.le_add_left _ _)

theorem rejects_ensure [Decidable c] (e : ε) (h : ¬c) (s : List UInt8) : Rejects (ensure c e) s := by
  rw [ensure, if_neg h]
  exact fun _ => ⟨e, rfl⟩

theorem Rejects.append (h : Rejects p s) (t : List UInt8) : Rejects p (s ++ t) := by
  intro rest
  rw [append_assoc]
  exact h _

theorem Rejects.bind (h : Rejects p s) (f : α → Parser ε β) : Rejects (p >>= f) s := by
  intro rest
  obtain ⟨e, he⟩ := h rest
  exact ⟨e, by rw [bind_eq, he]; rfl⟩

theorem Reads.bind_rejects (hp : Reads p s a) (hf : Rejects (f a) t) : Rejects (p >>= f) (s ++ t) := by
  intro rest
  rw [bind_eq, append_assoc, hp]
  exact hf rest

theorem Reads.bind_nil_rejects (hp : Reads p s a) (hf : Rejects (f a) []) : Rejects (p >>= f) s := by
  have h := hp.bind_rejects hf
  rwa [append_nil] at h

theorem Rejects.remaining_bind {f : Nat → Parser ε β} (h : ∀ n, Rejects (f n) s) : Rejects (remaining >>= f) s :=
  fun rest => h (s ++ rest).length rest

/-- A sequence of items is rejected at the first that is. -/
theorem Rejects.times {value : α → α} : ∀ {as : List α},
    (∀ a ∈ as, Reads p (code a) (value a) ∨ Rejects p (code a)) → (∃ a ∈ as, Rejects p (code a)) →
    Rejects (times p as.length) (as.flatMap code)
  | [], _, h => by simp at h
  | a :: as, hall, hbad => by
    rcases hall a mem_cons_self with hread | hreject
    · by_cases hrej : Rejects p (code a)
      · exact (hrej.append _).bind _
      have hrest : ∃ x ∈ as, Rejects p (code x) := by
        obtain ⟨x, hx, hxrej⟩ := hbad
        rcases mem_cons.mp hx with rfl | hx
        · exact absurd hxrej hrej
        · exact ⟨x, hx, hxrej⟩
      exact hread.bind_rejects ((Rejects.times (fun x hx => hall x (mem_cons_of_mem a hx)) hrest).bind _)
    · exact (hreject.append _).bind _

theorem yields_pure (h : P a) : Yields (pure a : Parser ε α) P := by
  rintro s b rest ⟨⟩
  exact h

theorem yields_fail (P : α → Prop) (e : ε) : Yields (fail e) P := by
  rintro s a rest ⟨⟩

theorem yields_any (p : Parser ε α) : Yields p fun _ => True := fun _ _ _ _ => trivial

theorem yields_ensure [Decidable c] (e : ε) : Yields (ensure c e) fun _ => c := by
  rw [ensure]
  split_ifs with h
  · exact yields_pure h
  · exact yields_fail _ e

theorem Yields.bind (hp : Yields p P) (hf : ∀ a, P a → Yields (f a) Q) : Yields (p >>= f) Q := by
  intro s b rest h
  rw [bind_eq] at h
  cases hps : p s with
  | error e => simp [hps, Except.bind] at h
  | ok x =>
    rw [hps] at h
    exact hf x.1 (hp s x.1 x.2 hps) x.2 b rest h

theorem Yields.after (hf : ∀ a, Yields (f a) Q) : Yields (p >>= f) Q := (yields_any p).bind fun a _ => hf a

theorem Yields.map {f : α → β} (hp : Yields p P) (hf : ∀ a, P a → Q (f a)) : Yields (f <$> p) Q :=
  show Yields (p >>= fun a => pure (f a)) Q from hp.bind fun a ha => yields_pure (hf a ha)

theorem Yields.ite [Decidable c] (hp : Yields p P) (hq : Yields q P) : Yields (if c then p else q) P := by
  split
  · exact hp
  · exact hq

theorem Yields.times (hp : Yields p P) : ∀ n, Yields (times p n) fun as => ∀ a ∈ as, P a
  | 0 => yields_pure (by simp)
  | n + 1 => hp.bind fun _ ha => (Yields.times hp n).bind fun _ has => yields_pure (forall_mem_cons.mpr ⟨ha, has⟩)

theorem Yields.upTo (hp : Yields p P) (eof : ε) (stop : UInt8) :
    ∀ n, Yields (upTo eof stop p n) fun as => ∀ a ∈ as, P a
  | 0 => yields_fail _ _
  | n + 1 => .after fun _ => .ite (.after fun _ => yields_pure (by simp)) <|
      hp.bind fun _ ha => (Yields.upTo hp eof stop n).bind fun _ has => yields_pure (forall_mem_cons.mpr ⟨ha, has⟩)

/-- Every error of the parser satisfies `E`. -/
def Raises (p : Parser ε α) (E : ε → Prop) : Prop := ∀ s e, p s = .error e → E e

variable {E : ε → Prop}

theorem raises_pure (a : α) : Raises (pure a : Parser ε α) E := nofun

theorem raises_fail {e : ε} (h : E e) : Raises (fail e : Parser ε α) E := by
  rintro _ _ ⟨⟩
  exact h

theorem raises_ensure [Decidable c] {e : ε} (h : E e) : Raises (ensure c e) E := by
  rw [ensure]
  split
  · exact raises_pure ()
  · exact raises_fail h

theorem raises_byteAt (h : E eof) : Raises (byteAt eof) E := by
  rintro (_ | _) _ ⟨⟩
  exact h

theorem raises_peekByte (h : E eof) : Raises (peekByte eof) E := by
  rintro (_ | _) _ ⟨⟩
  exact h

theorem raises_take (n : Nat) (h : E eof) : Raises (take eof n) E := by
  intro s e he
  rw [take] at he
  split_ifs at he
  cases he
  exact h

theorem Raises.bind (hp : Raises p E) (hf : ∀ a, Raises (f a) E) : Raises (p >>= f) E := by
  intro s e he
  rw [bind_eq] at he
  cases hs : p s with
  | error e' =>
    rw [hs] at he
    cases he
    exact hp s e hs
  | ok x =>
    rw [hs] at he
    exact hf x.1 x.2 e he

theorem Raises.map {f : α → β} (hp : Raises p E) : Raises (f <$> p) E :=
  show Raises (p >>= fun a => pure (f a)) E from hp.bind fun _ => raises_pure _

theorem Raises.ite [Decidable c] (hp : Raises p E) (hq : Raises q E) : Raises (if c then p else q) E := by
  split
  · exact hp
  · exact hq

theorem Raises.upTo (hp : Raises p E) (heof : E eof) (stop : UInt8) : ∀ n, Raises (upTo eof stop p n) E
  | 0 => raises_fail heof
  | n + 1 => (raises_peekByte eof heof).bind fun _ => .ite ((raises_byteAt eof heof).bind fun _ => raises_pure _)
      (hp.bind fun _ => (Raises.upTo hp heof stop n).bind fun _ => raises_pure _)

end Parse
