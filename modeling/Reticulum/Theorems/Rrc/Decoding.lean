import Mathlib
import Reticulum.Theorems.Rrc.Outline

/-! # What the decoder makes of input that nobody has checked -/

namespace Reticulum.Rrc.Cbor

open Parse

/-- The text strings in the value are UTF-8. -/
inductive TextsValid : Value → Prop
  | intro {v : Value} (text : ∀ s, v = .text s → Text.valid s = true) (parts : ∀ c ∈ v.parts, TextsValid c) :
    TextsValid v

theorem textsValid_leaf {v : Value} (hleaf : v.Leaf) (h : ∀ s, v = .text s → Text.valid s = true) : TextsValid v :=
  ⟨h, by simp [hleaf.1]⟩

theorem textsValid_array {items : List Value} : TextsValid (.array items) ↔ ∀ v ∈ items, TextsValid v :=
  ⟨fun ⟨_, hparts⟩ => hparts, fun h => ⟨nofun, h⟩⟩

theorem textsValid_map {m : Map} : TextsValid (.map m) ↔ ∀ p ∈ m, TextsValid p.1 ∧ TextsValid p.2 := by
  constructor
  · rintro ⟨-, hparts⟩ p hp
    exact ⟨hparts _ (mem_parts_map.mpr ⟨p, hp, .inl rfl⟩), hparts _ (mem_parts_map.mpr ⟨p, hp, .inr rfl⟩)⟩
  · refine fun h => ⟨nofun, fun c hc => ?_⟩
    obtain ⟨p, hp, rfl | rfl⟩ := mem_parts_map.mp hc
    · exact (h p hp).1
    · exact (h p hp).2

theorem textsValid_tagged {number : Nat} {v : Value} : TextsValid (tagged number v) ↔ TextsValid v := by
  cases v with
  | bytes payload => exact iff_of_true (tagged_cases ⟨nofun, nofun⟩ fun _ _ => ⟨nofun, nofun⟩) ⟨nofun, nofun⟩
  | _ => rfl

theorem valid_of_kept {o : Outline} {s : Bytes} (hkept : Kept o s) (h : TextsValid o.value) : Text.valid s = true := by
  have hpairs : ∀ {pairs p}, p ∈ kept pairs → TextsValid (Outline.map pairs).value →
      TextsValid p.1.value ∧ TextsValid p.2.value := by
    intro pairs p hp h
    rw [Outline.value, ← map_kept, textsValid_map] at h
    exact h _ (List.mem_map_of_mem hp)
  induction hkept with
  | text =>
    obtain ⟨htext, -⟩ := h
    exact htext _ rfl
  | item ho _ ih =>
    rw [Outline.value, values_eq_map, textsValid_array] at h
    exact ih (h _ (List.mem_map_of_mem ho))
  | key hp _ ih => exact ih (hpairs hp h).1
  | val hp _ ih => exact ih (hpairs hp h).2
  | tag _ ih => exact ih (textsValid_tagged.mp h)

theorem textsValid_of_kept (fuel depth : Nat) (s : Bytes) :
    (∀ t, Kept (outline fuel depth s).1 t → Text.valid t = true) → TextsValid (outline fuel depth s).1.value := by
  refine outline_induction (Q := fun _ o => (∀ t, Kept o t → Text.valid t = true) → TextsValid o.value)
    ?_ ?_ ?_ ?_ ?_ ?_ fuel depth s
  · exact fun _ _ => ⟨nofun, nofun⟩
  · exact fun _ _ _ => ⟨nofun, nofun⟩
  · intro _ _ v indefiniteText htext hleaf h
    refine textsValid_leaf hleaf fun t ht => (htext t ht).elim (fun hindefinite => h t ?_) id
    obtain rfl : v = .text t := ht
    rw [hindefinite]
    exact .text
  · intro _ _ items ih h
    rw [Outline.value, values_eq_map, textsValid_array, List.forall_mem_map]
    exact fun o ho => ih o ho fun t ht => h t (.item ho ht)
  · intro _ _ pairs ih h
    rw [Outline.value, ← map_kept, textsValid_map, List.forall_mem_map]
    -- a pair that stays has its key from one pair and its value from another
    have hfrom : ∀ p ∈ kept pairs, (∃ q ∈ pairs, q.1 = p.1) ∧ ∃ q ∈ pairs, q.2 = p.2 :=
      forall_kept (K := fun o => ∃ q ∈ pairs, q.1 = o) (V := fun o => ∃ q ∈ pairs, q.2 = o)
        fun p hp => ⟨⟨p, hp, rfl⟩, p, hp, rfl⟩
    intro p hp
    obtain ⟨⟨q, hq, hkey⟩, r, hr, hval⟩ := hfrom p hp
    exact ⟨hkey ▸ (ih q hq).1 fun t ht => h t (.key hp (hkey ▸ ht)),
      hval ▸ (ih r hr).2 fun t ht => h t (.val hp (hval ▸ ht))⟩
  · exact fun _ _ number item ih h => textsValid_tagged.mpr (ih fun t ht => h t (.tag ht))

/-- The texts in a decoded value are UTF-8 just when those texts of indefinite length in the input are that stay in it. -/
theorem decoded_text_valid_iff (data : Bytes) (v : Value) (h : decode data = .ok v) :
    TextsValid v ↔ ∀ s, Kept (outlineOfInput data) s → Text.valid s = true := by
  rw [value_outlineOfInput h]
  exact ⟨fun hv s hs => valid_of_kept hs hv, textsValid_of_kept _ _ _⟩

/-- A text that a later value of the same key replaces, and one in two chunks that are one character together. -/
def chunkedTexts : Bytes := [0xa2, 0x01, 0x7f, 0x61, 0xff, 0xff, 0x01, 0x7f, 0x61, 0xc3, 0x61, 0xa9, 0xff]

theorem chunked_text_valid : decode chunkedTexts = .ok (.map [(.int64 1, .text [0xc3, 0xa9])]) ∧
    TextsValid (.map [(.int64 1, .text [0xc3, 0xa9])]) := by
  have h : decode chunkedTexts = .ok (.map [(.int64 1, .text [0xc3, 0xa9])]) := rfl
  refine ⟨h, (decoded_text_valid_iff _ _ h).mpr ?_⟩
  have houtline : outlineOfInput chunkedTexts = .map [(.leaf (.int64 1) false, .leaf (.text [0xff]) true),
    (.leaf (.int64 1) false, .leaf (.text [0xc3, 0xa9]) true)] := rfl
  rw [houtline]
  have hkept : kept [(.leaf (.int64 1) false, .leaf (.text [0xff]) true),
    (.leaf (.int64 1) false, .leaf (.text [0xc3, 0xa9]) true)] =
      [(.leaf (.int64 1) false, .leaf (.text [0xc3, 0xa9]) true)] := rfl
  rintro s (_ | _ | ⟨hp, hs⟩ | ⟨hp, hs⟩)
  · rw [hkept, List.mem_singleton] at hp
    subst hp
    cases hs
  · rw [hkept, List.mem_singleton] at hp
    subst hp
    cases hs
    decide

/-- A chunk that is not UTF-8. -/
theorem chunked_text_invalid : decode [0x7f, 0x61, 0xff, 0xff] = .ok (.text [0xff]) ∧ ¬TextsValid (.text [0xff]) := by
  refine ⟨rfl, ?_⟩
  rintro ⟨htext, -⟩
  exact absurd (htext _ rfl) (by decide)

/-- At most 64 levels are accepted, in as many calls, just when this holds of every tag and what is inside it. -/
theorem nesting_enforced_iff (data : Bytes) :
    ((∀ v, decode data = .ok v → (outlineOfInput data).calls ≤ maxDecodeDepth + 1) ∧
        value (maxDecodeDepth + 1) 0 data ≠ .error errFuel) ↔
      ∀ n number o, Inside n (outlineOfInput data) (.tag number o) →
        n + (Outline.tag number o).calls ≤ maxDecodeDepth + 1 := by
  rw [Ne, calls_outlineOfInput data (le_max_right _ _), Nat.not_lt]
  constructor
  · exact fun h n number o hin => (calls_of_inside hin).trans h.2
  · intro h
    have hle : (outlineOfInput data).calls ≤ maxDecodeDepth + 1 := by
      have := calls_le_of_tags _ 0 data (Nat.zero_le _) fun n number o hin => by
        rw [Nat.zero_add]
        exact h n number o hin
      rwa [Nat.zero_add] at this
    exact ⟨fun _ _ => hle, hle⟩

theorem value_tag (fuel : Nat) (s : Bytes) : value (fuel + 1) 0 (0xc1 :: s) = (tagged 1 <$> value fuel 0) s := by
  rfl

/-- Any number of tags is accepted, and takes as many nested calls. -/
theorem decode_tags (n : Nat) : decode (List.replicate n 0xc1 ++ [0]) = .ok (.int64 0) ∧
    ∀ fuel ≤ n, value fuel 0 (List.replicate n 0xc1 ++ [0]) = .error errFuel := by
  constructor
  · have hvalue : ∀ n, value (n + 2) 0 (List.replicate n 0xc1 ++ [0]) = .ok (.int64 0, []) := by
      intro n
      induction n with
      | zero => rfl
      | succ n ih =>
        rw [List.replicate_succ, List.cons_append, value_tag]
        show (do let x ← value (n + 2) 0 _; pure (tagged 1 x.1, x.2) : Except _ _) = _
        rw [ih]
        rfl
    rw [decode, List.length_append, List.length_replicate, List.length_singleton, hvalue]
    rfl
  · intro fuel
    induction fuel generalizing n with
    | zero => exact fun _ => rfl
    | succ fuel ih =>
      intro hfuel
      obtain ⟨n, rfl⟩ := Nat.exists_eq_succ_of_ne_zero (Nat.ne_zero_of_lt hfuel)
      rw [List.replicate_succ, List.cons_append, value_tag]
      show (do let x ← value fuel 0 _; pure (tagged 1 x.1, x.2) : Except _ _) = .error errFuel
      rw [ih n (Nat.le_of_succ_le_succ hfuel)]
      rfl

theorem nested_tags_accepted : decode (List.replicate 1000 0xc1 ++ [0]) = .ok (.int64 0) ∧
    ∀ fuel ≤ 1000, value fuel 0 (List.replicate 1000 0xc1 ++ [0]) = .error errFuel :=
  decode_tags 1000

/-- The integer that tag 2 or 3 gives the bytes. -/
def bignum (negative : Bool) (magnitude : Bytes) : Int :=
  if negative then -1 - beNat magnitude else beNat magnitude

def Value.integer : Value → Option Int
  | .int64 n => some n.toInt
  | .uint64 n => some n.toNat
  | .bigUint negative magnitude => some (bignum negative magnitude)
  | _ => none

theorem integer_uintValue {n : Nat} (hn : n < 2 ^ 64) : (uintValue n).integer = some (n : Int) := by
  rw [uintValue]
  split
  · rw [Value.integer, Int64.toInt_ofNat_of_lt (by omega)]
  · rw [Value.integer, UInt64.toNat_ofNat_of_lt' hn]

theorem integer_recodeBigUint (negative : Bool) (magnitude : Bytes) :
    (recodeBigUint negative magnitude).integer = some (bignum negative magnitude) := by
  have htrim : (Value.bigUint negative (trimMagnitude magnitude)).integer = some (bignum negative magnitude) := by
    rw [Value.integer, bignum, bignum, beNat_trimMagnitude]
  rw [recodeBigUint]
  cases hm : asUint64 (trimMagnitude magnitude) with
  | none => exact htrim
  | some n =>
    obtain ⟨hbe, hlt⟩ := asUint64_eq_some hm
    rw [beNat_trimMagnitude] at hbe
    subst hbe
    cases negative with
    | false => exact integer_uintValue hlt
    | true =>
      dsimp only
      rw [if_pos rfl]
      split
      · rw [Value.integer, toInt_negative (by omega), bignum, if_pos rfl]
      · exact htrim

theorem toList_formatInt (n : Int) : (Text.formatInt n).map (fun b => Char.ofNat b.toNat) = n.repr.toList := by
  rw [Text.formatInt, Text.ascii, List.map_map]
  refine (List.map_congr_left fun c hc => ?_).trans (List.map_id _)
  have hdigit : ∀ {k : Nat}, c ∈ k.repr.toList → c.toNat ≤ 57 := fun h =>
    (Char.isDigit_iff_toNat.mp (@Nat.isDigit_of_mem_toDigits 10 _ _ (by decide) (by decide) (Nat.toList_repr ▸ h))).2
  have hle : c.toNat ≤ 57 := by
    rw [Int.toString_eq_repr, Int.repr_eq_if] at hc
    split_ifs at hc
    · exact hdigit hc
    · rcases List.mem_cons.mp (String.toList_append ▸ hc) with rfl | hc
      · decide
      · exact hdigit hc
  simp [Nat.mod_eq_of_lt (show c.toNat < 256 by omega)]

/-- Different integers have different texts. -/
theorem formatInt_inj {m n : Int} : Text.formatInt m = Text.formatInt n ↔ m = n := by
  refine ⟨fun h => Int.repr_inj.mp (String.toList_injective ?_), congrArg _⟩
  rw [← toList_formatInt, h, toList_formatInt]

/-- A bignum keeps its meaning on the wire. The text of a negative one is two too large. -/
theorem bigUint_meaning (negative : Bool) (magnitude : Bytes)
    (hsize : (encode (.bigUint negative magnitude)).length < 2 ^ 63) :
    bigUintString negative magnitude = Text.formatInt (bignum negative magnitude + if negative then 2 else 0) ∧
      (bigUintString negative magnitude = Text.formatInt (bignum negative magnitude) ↔ negative = false) ∧
      ∃ v, decode (encode (.bigUint negative magnitude)) = .ok v ∧ v.integer = some (bignum negative magnitude) := by
  have htext : bigUintString negative magnitude =
      Text.formatInt (bignum negative magnitude + if negative then 2 else 0) := by
    rw [bigUintString, bignum]
    cases negative with
    | false => simp
    | true =>
      rw [if_pos rfl, if_pos rfl, if_pos rfl]
      congr 1
      ring
  refine ⟨htext, ?_, ?_⟩
  · rw [htext, formatInt_inj]
    cases negative <;> simp
  · have hportable : Portable (.bigUint negative magnitude) :=
      portable_iff.mpr ⟨trivial, fun c hc => by cases hc⟩
    exact ⟨_, (decode_encode hsize (fun c hc => by cases hc)).1 hportable, integer_recodeBigUint negative magnitude⟩

theorem bigUint_meaning_wide : bigUintString false [1, 0, 0, 0, 0, 0, 0, 0, 0] = Text.formatInt (2 ^ 64) ∧
    ∃ v, decode (encode (.bigUint false [1, 0, 0, 0, 0, 0, 0, 0, 0])) = .ok v ∧ v.integer = some (2 ^ 64) :=
  (bigUint_meaning false [1, 0, 0, 0, 0, 0, 0, 0, 0] (by decide)).imp_right And.right

/-- The integer -1 is printed as 1. -/
theorem bigUintString_negative : decode [0xc3, 0x41, 0] = .ok (.bigUint true [0]) ∧ bignum true [0] = -1 ∧
    bigUintString true [0] = Text.formatInt 1 ∧ bigUintString true [0] ≠ Text.formatInt (-1) :=
  ⟨rfl, rfl, rfl, by decide⟩

end Reticulum.Rrc.Cbor
