import Reticulum.Rrc.Cbor

/-! # What the decoder reads of what the encoder writes

A value comes back as `recode` says, and only when it is `Portable`. -/

namespace Reticulum.Rrc.Cbor

open Parse List

variable {c v : Value}

def Value.parts : Value → List Value
  | .array items => items
  | .map pairs => pairs.flatMap fun p => [p.1, p.2]
  | _ => []

theorem mem_parts_map {pairs : List (Value × Value)} :
    c ∈ (Value.map pairs).parts ↔ ∃ p ∈ pairs, c = p.1 ∨ c = p.2 := by
  simp [Value.parts]

theorem sizeOf_lt_of_mem_parts (h : c ∈ v.parts) : sizeOf c < sizeOf v := by
  cases v with
  | array items =>
    have := sizeOf_lt_of_mem (show c ∈ items from h)
    simp only [Value.array.sizeOf_spec]
    omega
  | map pairs =>
    obtain ⟨⟨k, w⟩, hp, hc⟩ := mem_parts_map.mp h
    have := sizeOf_lt_of_mem hp
    simp only [Prod.mk.sizeOf_spec] at this
    simp only [Value.map.sizeOf_spec]
    rcases hc with rfl | rfl <;> omega
  | _ => simp [Value.parts] at h

theorem Value.induction_parts {P : Value → Prop} (step : ∀ v : Value, (∀ c ∈ v.parts, P c) → P v) (v : Value) :
    P v := by
  induction hn : sizeOf v using Nat.strong_induction_on generalizing v with
  | _ n ih => exact step v fun c hc => ih (sizeOf c) (hn ▸ sizeOf_lt_of_mem_parts hc) c rfl

def Value.Sound : Value → Prop
  | .text s => Text.valid s = true
  | .array items => items.length ≤ 2 ^ 28
  | .map pairs => pairs.length ≤ 2 ^ 28
  | _ => True

/-- The value and everything in it can be decoded after `encode`. -/
inductive Portable : Value → Prop
  | intro {v : Value} (sound : v.Sound) (parts : ∀ c ∈ v.parts, Portable c) : Portable v

/-- Arrays and maps are nested at most `n` deep. -/
def Shallow : Nat → Value → Prop
  | 0, v => v.parts = []
  | n + 1, v => ∀ c ∈ v.parts, Shallow n c

theorem portable_iff : Portable v ↔ v.Sound ∧ ∀ c ∈ v.parts, Portable c :=
  ⟨fun ⟨sound, parts⟩ => ⟨sound, parts⟩, fun ⟨sound, parts⟩ => ⟨sound, parts⟩⟩

theorem portable_map {pairs : Map} :
    Portable (.map pairs) ↔ pairs.length ≤ 2 ^ 28 ∧ ∀ p ∈ pairs, Portable p.1 ∧ Portable p.2 := by
  rw [portable_iff]
  refine and_congr_right fun _ => ⟨fun h p hp => ?_, fun h c hc => ?_⟩
  · exact ⟨h _ (mem_parts_map.mpr ⟨p, hp, .inl rfl⟩), h _ (mem_parts_map.mpr ⟨p, hp, .inr rfl⟩)⟩
  · obtain ⟨p, hp, rfl | rfl⟩ := mem_parts_map.mp hc
    · exact (h p hp).1
    · exact (h p hp).2

def recodeBigUint (negative : Bool) (magnitude : Bytes) : Value :=
  let mag := trimMagnitude magnitude
  match asUint64 mag with
  | some n =>
    if negative then
      if n ≤ 2 ^ 63 - 1 then .int64 (-1 - Int64.ofNat n) else .bigUint negative mag
    else uintValue n
  | none => .bigUint negative mag

mutual

/-- What `Decode` makes of `encode v`. -/
def recode : Value → Value
  | .uint64 n => uintValue n.toNat
  | .array items => .array (recodeItems items)
  | .map pairs => .map (Map.ofPairs (recodePairs pairs))
  | .bigUint negative magnitude => recodeBigUint negative magnitude
  | v => v

def recodeItems : List Value → List Value
  | [] => []
  | v :: items => recode v :: recodeItems items

def recodePairs : List (Value × Value) → List (Value × Value)
  | [] => []
  | (k, v) :: pairs => (recode k, recode v) :: recodePairs pairs

end

theorem recodeItems_eq : ∀ items : List Value, recodeItems items = items.map recode
  | [] => rfl
  | v :: items => by rw [recodeItems, recodeItems_eq items, map_cons]

theorem recodePairs_eq : ∀ pairs : Map, recodePairs pairs = pairs.map fun p => (recode p.1, recode p.2)
  | [] => rfl
  | (k, v) :: pairs => by rw [recodePairs, recodePairs_eq pairs, map_cons]

theorem appendItems_eq : ∀ items : List Value, appendItems items = items.flatMap appendValue
  | [] => rfl
  | v :: items => by rw [appendItems, appendItems_eq items, flatMap_cons]

theorem appendPairs_eq : ∀ pairs : Map, appendPairs pairs = pairs.flatMap fun p => appendValue p.1 ++ appendValue p.2
  | [] => rfl
  | (k, v) :: pairs => by rw [appendPairs, appendPairs_eq pairs, flatMap_cons]

theorem toNat_headByte {major info : Nat} (hm : major < 8) (hi : info < 32) :
    (headByte major info).toNat = 32 * major + info := by
  rw [headByte, UInt8.toNat_ofNat']
  omega

theorem appendHead_cases (major : Nat) {val : Nat} (hv : val < 2 ^ 64) : ∃ info tail,
    appendHead major val = headByte major info :: tail ∧ info < 31 ∧ Reads (argOfDirect info) tail val := by
  have hbytes : ∀ {k}, val < 256 ^ k → Reads (beNat <$> takeBytes k) (beBytes k val) val := by
    intro k hk
    have htake := (reads_take errTruncated (beBytes k val)).map beNat
    rwa [length_beBytes, beNat_beBytes hk] at htake
  rw [appendHead]
  split_ifs with h0 h1 h2 h3
  · exact ⟨val, [], rfl, by omega, by rw [argOfDirect, if_pos h0]; exact reads_pure val⟩
  · exact ⟨24, _, rfl, by omega, hbytes (by omega)⟩
  · exact ⟨25, _, rfl, by omega, hbytes (by omega)⟩
  · exact ⟨26, _, rfl, by omega, hbytes (by omega)⟩
  · exact ⟨27, _, rfl, by omega, hbytes (by omega)⟩

theorem length_appendHead_pos (major val : Nat) (s : Bytes) : 0 < (appendHead major val ++ s).length := by
  rw [appendHead]
  split_ifs <;> simp

section

variable {fuel depth major info val : Nat} {s : Bytes} {v : Value}

theorem reads_value (hd : depth ≤ maxDecodeDepth) (hm : major < 8) (hi : info < 32)
    (h : Reads (valueOf (value fuel) depth major info) s v) :
    Reads (value (fuel + 1) depth) (headByte major info :: s) v := by
  have hhead := toNat_headByte hm hi
  have hmajor : (headByte major info).toNat / 32 = major := by omega
  have hinfo : (headByte major info).toNat % 32 = info := by omega
  refine (reads_ensure _ hd).bind ((reads_byteAt errTruncated (headByte major info)).bind ?_)
  rwa [hmajor, hinfo]

theorem rejects_value (hm : major < 8) (hi : info < 32) (h : Rejects (valueOf (value fuel) depth major info) s) :
    Rejects (value (fuel + 1) depth) (headByte major info :: s) := by
  have hhead := toNat_headByte hm hi
  have hmajor : (headByte major info).toNat / 32 = major := by omega
  have hinfo : (headByte major info).toNat % 32 = info := by omega
  by_cases hd : depth ≤ maxDecodeDepth
  · refine (reads_ensure _ hd).bind_rejects ((reads_byteAt errTruncated (headByte major info)).bind_rejects ?_)
    rwa [hmajor, hinfo]
  · exact (rejects_ensure _ hd _).bind _

theorem reads_head (hd : depth ≤ maxDecodeDepth) (hm : major < 8) (hv : val < 2 ^ 64)
    (h : ∀ info < 31, ∀ tail, Reads (argOfDirect info) tail val →
      Reads (valueOf (value fuel) depth major info) (tail ++ s) v) :
    Reads (value (fuel + 1) depth) (appendHead major val ++ s) v := by
  obtain ⟨info, tail, happend, hinfo, harg⟩ := appendHead_cases major hv
  rw [happend, cons_append]
  exact reads_value hd hm (by omega) (h info hinfo tail harg)

theorem rejects_head (hm : major < 8) (hv : val < 2 ^ 64) (h : ∀ info < 31, ∀ tail, Reads (argOfDirect info) tail val →
      Rejects (valueOf (value fuel) depth major info) (tail ++ s)) :
    Rejects (value (fuel + 1) depth) (appendHead major val ++ s) := by
  obtain ⟨info, tail, happend, hinfo, harg⟩ := appendHead_cases major hv
  rw [happend, cons_append]
  exact rejects_value hm (by omega) (h info hinfo tail harg)

section

variable (hd : depth ≤ maxDecodeDepth)
include hd

theorem reads_uint (hv : val < 2 ^ 64) : Reads (value (fuel + 1) depth) (appendHead 0 val) (uintValue val) := by
  rw [← append_nil (appendHead 0 val)]
  refine reads_head hd (by decide) hv fun info _ tail harg => ?_
  rw [append_nil]
  exact harg.map uintValue

theorem reads_int (n : Int64) : Reads (value (fuel + 1) depth) (appendInt n) (.int64 n) := by
  rw [appendInt]
  split_ifs with hn
  · have hclamp := Int64.toNat_toUInt64_of_le hn
    have hlt := n.toNatClampNeg_lt
    have hback : uintValue n.toUInt64.toNat = .int64 n := by
      rw [hclamp, uintValue, if_pos (by omega), Int64.ofNat_toNatClampNeg n hn]
    rw [← hback]
    exact reads_uint hd (by omega)
  · have hpos : 0 ≤ -1 - n := by grind
    have hclamp := Int64.toNat_toUInt64_of_le hpos
    have hlt := (-1 - n).toNatClampNeg_lt
    have hback : -1 - Int64.ofNat (-1 - n).toUInt64.toNat = n := by
      rw [hclamp, Int64.ofNat_toNatClampNeg _ hpos]
      grind
    rw [← append_nil (appendHead 1 _)]
    refine reads_head hd (by decide) (by omega) fun info _ tail harg => ?_
    refine harg.bind ((reads_ensure _ (by omega)).bind_nil ?_)
    rw [hback]
    exact reads_pure _

omit hd in
theorem valueOf_string (hmajor : major = 2 ∨ major = 3) (hinfo : info < 31) : valueOf (value fuel) depth major info =
      (argOfDirect info >>= fun n => takeBytes n >>= fun c => definiteString major c) := by
  rcases hmajor with rfl | rfl <;> simp [valueOf, stringOf, hinfo.ne]

theorem reads_string (hmajor : major = 2 ∨ major = 3) (hs : s.length < 2 ^ 64)
    (h : Reads (definiteString major s) [] v) : Reads (value (fuel + 1) depth) (appendHead major s.length ++ s) v := by
  refine reads_head hd (by omega) hs fun info hinfo tail harg => ?_
  rw [valueOf_string hmajor hinfo]
  exact harg.bind ((reads_take errTruncated s).bind_nil h)

theorem reads_bytes (hs : s.length < 2 ^ 64) : Reads (value (fuel + 1) depth) (appendByteString s) (.bytes s) :=
  reads_string hd (.inl rfl) hs (reads_pure _)

theorem reads_float (bits : UInt64) : Reads (value (fuel + 1) depth) (appendFloat bits) (.float64 bits) := by
  have htake := (reads_take errTruncated (beBytes 8 bits.toNat)).map fun b => Value.float64 (UInt64.ofNat (beNat b))
  rw [length_beBytes, beNat_beBytes (by exact bits.toNat_lt), UInt64.ofNat_toNat] at htake
  exact reads_value hd (by decide : 7 < 8) (by decide : 27 < 32) htake

omit hd in
theorem beNat_trimMagnitude (magnitude : Bytes) : beNat (trimMagnitude magnitude) = beNat magnitude := by
  fun_induction trimMagnitude magnitude with
  | case1 c b ih => rw [ih, beNat_cons 0]; simp
  | case2 b h => rfl

theorem reads_tagged (negative : Bool) (hs : s.length < 2 ^ 64) :
    Reads (value (fuel + 2) depth) (appendHead 6 (if negative then 3 else 2) ++ appendByteString s)
      (.bigUint negative s) := by
  refine reads_head hd (by decide) (by cases negative <;> decide) fun info hinfo tail harg => ?_
  have htag : tagged (if negative then 3 else 2) (.bytes s) = .bigUint negative s := by
    cases negative <;> simp [tagged]
  rw [← htag]
  exact (reads_ensure _ hinfo.ne).bind (harg.bind ((reads_bytes hd hs).map _))

end

theorem asUint64_eq_some {magnitude : Bytes} {n : Nat} (h : asUint64 magnitude = some n) :
    n = beNat magnitude ∧ n < 2 ^ 64 := by
  rw [asUint64, Option.ite_none_left_eq_some] at h
  obtain ⟨hlen, ⟨⟩⟩ := h
  have hpow : 256 ^ magnitude.length ≤ 256 ^ 8 := Nat.pow_le_pow_right (by decide) (by omega)
  exact ⟨rfl, (beNat_lt magnitude).trans_le hpow⟩

theorem reads_bigUint (hd : depth ≤ maxDecodeDepth) (negative : Bool) (magnitude : Bytes)
    (hs : (encodeBigUint negative magnitude).length < 2 ^ 64) :
    Reads (value (fuel + 2) depth) (encodeBigUint negative magnitude) (recodeBigUint negative magnitude) := by
  rw [recodeBigUint]
  rw [encodeBigUint] at hs ⊢
  cases hn : asUint64 (trimMagnitude magnitude) with
  | none =>
    simp only [hn, appendByteString, length_append] at hs
    exact reads_tagged hd negative (by omega)
  | some n =>
    simp only [hn] at hs ⊢
    split_ifs at hs ⊢ with hneg hsmall
    · exact reads_int hd _
    · subst hneg
      simp only [appendByteString, length_append] at hs
      exact reads_tagged hd true (by omega)
    · have hlt := (asUint64_eq_some hn).2
      rw [appendUint, UInt64.toNat_ofNat_of_lt' hlt]
      exact reads_uint hd hlt

/-- What `code` writes for an element, the parser reads back when the element is good, and refuses otherwise. -/
def Settles {α : Type} (p : Parser String α) (code : α → Bytes) (back : α → α) (good : α → Prop) (a : α) : Prop :=
  (good a → Reads p (code a) (back a)) ∧ (¬good a → Rejects p (code a))

variable {α : Type} {p : Parser String α} {code : α → Bytes} {back : α → α} {good : α → Prop} {as : List α}
variable {tail : Bytes}

theorem length_le_flatMap (hpos : ∀ a ∈ as, 0 < (code a).length) : as.length ≤ (as.flatMap code).length := by
  have hle := Parse.mul_length_le_flatMap (c := 1) hpos
  rwa [Nat.one_mul] at hle

theorem reads_elements (hinfo : info < 31) (harg : Reads (argOfDirect info) tail as.length)
    (hpos : ∀ a ∈ as, 0 < (code a).length) (hall : ∀ a ∈ as, Settles p code back good a)
    (hlen : as.length ≤ 2 ^ 28) (hgood : ∀ a ∈ as, good a) :
    Reads (elements p info) (tail ++ as.flatMap code) (as.map back) := by
  rw [elements, if_neg hinfo.ne]
  refine harg.bind (.remaining_bind fun n hn => ?_)
  refine (reads_ensure _ ((length_le_flatMap hpos).trans hn)).bind ((reads_ensure _ hlen).bind ?_)
  exact Reads.times fun a ha => (hall a ha).1 (hgood a ha)

theorem rejects_elements (hinfo : info < 31) (harg : Reads (argOfDirect info) tail as.length)
    (hall : ∀ a ∈ as, Settles p code back good a) (hbad : ¬(as.length ≤ 2 ^ 28 ∧ ∀ a ∈ as, good a)) :
    Rejects (elements p info) (tail ++ as.flatMap code) := by
  rw [elements, if_neg hinfo.ne]
  refine harg.bind_rejects (.remaining_bind fun n => ?_)
  by_cases hroom : as.length ≤ n
  case neg => exact (rejects_ensure _ hroom _).bind _
  refine (reads_ensure _ hroom).bind_rejects ?_
  by_cases hlen : as.length ≤ 2 ^ 28
  case neg => exact (rejects_ensure _ hlen _).bind _
  refine (reads_ensure _ hlen).bind_rejects ?_
  obtain ⟨a, ha, hnot⟩ : ∃ a ∈ as, ¬good a := by
    by_contra hno
    push Not at hno
    exact hbad ⟨hlen, hno⟩
  have hdecided : ∀ x ∈ as, Reads p (code x) (back x) ∨ Rejects p (code x) := by
    intro x hx
    by_cases hgood : good x
    · exact .inl ((hall x hx).1 hgood)
    · exact .inr ((hall x hx).2 hgood)
  exact Rejects.times hdecided ⟨a, ha, (hall a ha).2 hnot⟩

theorem settles_container (make : List α → Value) (hd : depth ≤ maxDecodeDepth) (hm : major < 8)
    (hsize : (appendHead major as.length ++ as.flatMap code).length < 2 ^ 64) (hpos : ∀ a ∈ as, 0 < (code a).length)
    (hall : ∀ a ∈ as, (code a).length < (appendHead major as.length ++ as.flatMap code).length →
      Settles p code back good a)
    (hvalue : ∀ info, valueOf (value fuel) depth major info = elements p info >>= fun as => pure (make as)) :
    (as.length ≤ 2 ^ 28 ∧ (∀ a ∈ as, good a) →
      Reads (value (fuel + 1) depth) (appendHead major as.length ++ as.flatMap code) (make (as.map back))) ∧
    (¬(as.length ≤ 2 ^ 28 ∧ ∀ a ∈ as, good a) →
      Rejects (value (fuel + 1) depth) (appendHead major as.length ++ as.flatMap code)) := by
  have hhead := length_appendHead_pos major as.length []
  rw [append_nil] at hhead
  rw [length_append] at hsize hall
  have hcount := length_le_flatMap hpos
  have hlen : as.length < 2 ^ 64 := by omega
  have hall : ∀ a ∈ as, Settles p code back good a := by
    intro a ha
    have := length_le_flatMap_of_mem code ha
    exact hall a ha (by omega)
  refine ⟨fun ⟨hsmall, hgood⟩ => ?_, fun hbad => ?_⟩
  · refine reads_head hd hm hlen fun info hinfo tail harg => ?_
    rw [hvalue]
    exact (reads_elements hinfo harg hpos hall hsmall hgood).bind_nil (reads_pure _)
  · refine rejects_head hm hlen fun info hinfo tail harg => ?_
    rw [hvalue]
    exact (rejects_elements hinfo harg hall hbad).bind _

end

theorem settles_pair {item : Parser String Value} {p : Value × Value}
    (hk : Settles item appendValue recode Portable p.1) (hv : Settles item appendValue recode Portable p.2) :
    Settles (pairOf item) (fun p => appendValue p.1 ++ appendValue p.2) (fun p => (recode p.1, recode p.2))
      (fun p => Portable p.1 ∧ Portable p.2) p := by
  refine ⟨fun ⟨hgk, hgv⟩ => (hk.1 hgk).bind ((hv.1 hgv).bind_nil (reads_pure _)), fun hbad => ?_⟩
  by_cases hgk : Portable p.1
  · exact (hk.1 hgk).bind_rejects ((hv.2 fun hgv => hbad ⟨hgk, hgv⟩).bind _)
  · exact ((hk.2 hgk).append _).bind _

theorem length_appendInt_pos (n : Int64) : 0 < (appendInt n).length := by
  rw [appendInt]
  split <;> simpa using length_appendHead_pos _ _ []

theorem length_encodeBigUint_pos (negative : Bool) (magnitude : Bytes) :
    0 < (encodeBigUint negative magnitude).length := by
  rw [encodeBigUint]
  cases asUint64 (trimMagnitude magnitude) with
  | none => exact length_appendHead_pos _ _ _
  | some n =>
    simp only
    split_ifs
    · exact length_appendInt_pos _
    · exact length_appendHead_pos _ _ _
    · simpa [appendUint] using length_appendHead_pos 0 (UInt64.ofNat n).toNat []

theorem length_appendValue_pos (v : Value) : 0 < (appendValue v).length := by
  cases v with
  | int64 n => exact length_appendInt_pos n
  | uint64 n => simpa [appendValue, appendUint] using length_appendHead_pos 0 n.toNat []
  | text s | bytes s | array items | map pairs => exact length_appendHead_pos _ _ _
  | bigUint negative magnitude => exact length_encodeBigUint_pos negative magnitude
  | _ => simp [appendValue, appendFloat]

theorem Shallow.part {n : Nat} (h : Shallow n v) (hc : c ∈ v.parts) : 0 < n ∧ Shallow (n - 1) c := by
  cases n with
  | zero =>
    rw [Shallow] at h
    simp [h] at hc
  | succ n => exact ⟨n.succ_pos, h c hc⟩

theorem shallow_of_parts_eq_nil {n : Nat} (h : v.parts = []) : Shallow n v := by
  cases n with
  | zero => exact h
  | succ n => simp [Shallow, h]

theorem settles_leaf {p : Parser String Value} (hsound : v.Sound) (hparts : v.parts = [])
    (h : Reads p (appendValue v) (recode v)) : Settles p appendValue recode Portable v :=
  ⟨fun _ => h, fun hbad => absurd (portable_iff.mpr ⟨hsound, by simp [hparts]⟩) hbad⟩

theorem settles_value (v : Value) : ∀ fuel depth, (appendValue v).length < fuel → (appendValue v).length < 2 ^ 64 →
    depth ≤ maxDecodeDepth → Shallow (maxDecodeDepth - depth) v →
    Settles (value fuel depth) appendValue recode Portable v := by
  induction v using Value.induction_parts with
  | step v ih =>
    intro fuel depth hfuel hsize hd hshallow
    have hpos := length_appendValue_pos v
    obtain ⟨fuel, rfl⟩ : ∃ n, fuel = n + 2 := ⟨fuel - 2, by omega⟩
    -- What the induction hypothesis gives for a part that is written within the value.
    have hpart : ∀ c ∈ v.parts, (appendValue c).length < (appendValue v).length →
        Settles (value (fuel + 1) (depth + 1)) appendValue recode Portable c := by
      intro c hc hlen
      obtain ⟨hdepth, hc'⟩ := hshallow.part hc
      exact ih c hc (fuel + 1) (depth + 1) (by omega) (by omega) (by omega) hc'
    cases v with
    | null => exact settles_leaf trivial rfl (reads_value hd (by decide : 7 < 8) (by decide : 22 < 32) (reads_pure _))
    | bool b =>
      refine settles_leaf trivial rfl ?_
      cases b
      · exact reads_value hd (by decide : 7 < 8) (by decide : 20 < 32) (reads_pure _)
      · exact reads_value hd (by decide : 7 < 8) (by decide : 21 < 32) (reads_pure _)
    | int64 n => exact settles_leaf trivial rfl (reads_int hd n)
    | uint64 n => exact settles_leaf trivial rfl (reads_uint hd n.toNat_lt)
    | float64 bits => exact settles_leaf trivial rfl (reads_float hd bits)
    | text s =>
      simp only [appendValue, appendText, length_append] at hsize
      have hgood : Portable (.text s) ↔ Text.valid s = true := by
        rw [portable_iff]
        simp [Value.Sound, Value.parts]
      rw [Settles, hgood]
      have hs : s.length < 2 ^ 64 := by omega
      refine ⟨fun hvalid => reads_string hd (.inr rfl) hs ((reads_ensure _ hvalid).bind (reads_pure _)),
        fun hvalid => rejects_head (by decide) hs fun info hinfo tail harg => ?_⟩
      rw [valueOf_string (.inr rfl) hinfo]
      exact harg.bind_rejects ((reads_take errTruncated s).bind_nil_rejects ((rejects_ensure _ hvalid []).bind _))
    | bytes s =>
      simp only [appendValue, appendByteString, length_append] at hsize
      exact settles_leaf trivial rfl (reads_bytes hd (by omega))
    | array items =>
      have hcode : appendValue (.array items) = appendHead 4 items.length ++ items.flatMap appendValue := by
        rw [appendValue, appendItems_eq]
      rw [hcode] at hsize hpart
      rw [Settles, portable_iff, hcode, recode, recodeItems_eq]
      exact settles_container .array hd (by decide) hsize (fun c _ => length_appendValue_pos c) hpart fun _ => rfl
    | map pairs =>
      have hcode : appendValue (.map pairs) =
          appendHead 5 pairs.length ++ pairs.flatMap fun p => appendValue p.1 ++ appendValue p.2 := by
        rw [appendValue, appendPairs_eq]
      have hpos : ∀ p ∈ pairs, 0 < (appendValue p.1 ++ appendValue p.2).length := by
        intro p _
        have := length_appendValue_pos p.1
        rw [length_append]
        omega
      rw [hcode] at hsize hpart
      rw [Settles, portable_map, hcode, recode, recodePairs_eq]
      refine settles_container (fun pairs => .map (Map.ofPairs pairs)) hd (by decide) hsize hpos ?_ fun _ => rfl
      intro p hp hlen
      rw [length_append] at hlen
      exact settles_pair (hpart _ (mem_parts_map.mpr ⟨p, hp, .inl rfl⟩) (by omega))
        (hpart _ (mem_parts_map.mpr ⟨p, hp, .inr rfl⟩) (by omega))
    | bigUint negative magnitude => exact settles_leaf trivial rfl (reads_bigUint hd negative magnitude hsize)

theorem decode_encode (hsize : (encode v).length < 2 ^ 63) (hshallow : Shallow maxDecodeDepth v) :
    (Portable v → decode (encode v) = .ok (recode v)) ∧ (¬Portable v → ∃ e, decode (encode v) = .error e) := by
  rw [encode] at hsize ⊢
  have h := settles_value v ((appendValue v).length + 1) 0 (Nat.lt_succ_self _) (by omega) (Nat.zero_le _) hshallow
  refine ⟨fun hgood => ?_, fun hbad => ?_⟩
  · have hread := h.1 hgood []
    rw [append_nil] at hread
    rw [decode, hread]
    rfl
  · obtain ⟨e, he⟩ := h.2 hbad []
    rw [append_nil] at he
    exact ⟨e, by rw [decode, he]; rfl⟩

end Reticulum.Rrc.Cbor
