import Reticulum.Theorems.Rrc.Codec

/-! # What a decoded map looks like and what its reader finds

A bignum equals no key, and after `encode` it may be a plain integer. -/

namespace Reticulum.Rrc.Cbor

open Parse List Option

variable {m : Map} {key v a : Value} {depth n : Nat} {data : Bytes}

/-! ### Maps -/

def Map.keys (m : Map) : List Value := m.map (·.1)

def Map.Distinct (m : Map) : Prop := m.keys.Pairwise fun a b => keyEqual a b = false

variable (p : Value × Value)

theorem keys_cons (m : Map) : Map.keys (p :: m) = p.1 :: m.keys := rfl

theorem keys_set (m : Map) (key val : Value) :
    (Map.set m key val).keys = if m.any (fun p => keyEqual p.1 key) then m.keys else m.keys ++ [key] := by
  induction m with
  | nil => rfl
  | cons p m ih =>
    rw [Map.set, any_cons]
    by_cases hp : keyEqual p.1 key = true
    · rw [if_pos hp, hp, Bool.true_or, if_pos rfl, keys_cons, keys_cons]
    · rw [if_neg hp, Bool.eq_false_of_not_eq_true hp, Bool.false_or, keys_cons, keys_cons, ih]
      split <;> rfl

theorem Map.Distinct.set (h : m.Distinct) (key val : Value) : (Map.set m key val).Distinct := by
  rw [Map.Distinct, keys_set]
  split_ifs with hany
  · exact h
  · refine pairwise_append.mpr ⟨h, pairwise_singleton _ _, fun a ha b hb => ?_⟩
    obtain ⟨p, hp, rfl⟩ := mem_map.mp ha
    rw [mem_singleton.mp hb]
    simp only [List.any_eq_true, not_exists, not_and, Bool.not_eq_true] at hany
    exact hany p hp

theorem forall_set {K V : Value → Prop} {val : Value} (h : ∀ p ∈ m, K p.1 ∧ V p.2) (hkey : K key)
    (hval : V val) : ∀ p ∈ Map.set m key val, K p.1 ∧ V p.2 := by
  induction m with
  | nil =>
    intro p hp
    rw [mem_singleton.mp hp]
    exact ⟨hkey, hval⟩
  | cons q m ih =>
    obtain ⟨hq, hm⟩ := forall_mem_cons.mp h
    rw [Map.set]
    split
    · exact forall_mem_cons.mpr ⟨⟨hq.1, hval⟩, hm⟩
    · exact forall_mem_cons.mpr ⟨hq, ih hm⟩

theorem forall_ofPairs {K V : Value → Prop} {pairs : List (Value × Value)} (h : ∀ p ∈ pairs, K p.1 ∧ V p.2) :
    ∀ p ∈ Map.ofPairs pairs, K p.1 ∧ V p.2 :=
  foldlRecOn (motive := fun m : Map => ∀ p ∈ m, K p.1 ∧ V p.2) pairs _ (by simp)
    fun _ hm p hp => forall_set hm (h p hp).1 (h p hp).2

/-! ### Sizes -/

def pairSize (p : Value × Value) : Nat := (encode p.1).length + (encode p.2).length

def Map.size (m : Map) : Nat := (m.map pairSize).sum

theorem length_encode_map (m : Map) : (encode (.map m)).length = (appendHead 5 m.length).length + m.size := by
  rw [encode, appendValue, appendPairs_eq, length_append, length_flatMap]
  simp only [length_append]
  rfl

theorem size_cons (m : Map) : Map.size (p :: m) = pairSize p + m.size := rfl

theorem get_cons (m : Map) (key : Value) :
    Map.get (p :: m) key = if keyEqual p.1 key then some p.2 else m.get key := by
  split <;> simp_all [Map.get]

theorem size_set (m : Map) (key val : Value) :
    (∃ w, m.get key = some w ∧ (m.set key val).size + (encode w).length = m.size + (encode val).length) ∨
      m.get key = none ∧ m.set key val = m ++ [(key, val)] := by
  induction m with
  | nil => exact .inr ⟨rfl, rfl⟩
  | cons p m ih =>
    rw [get_cons, Map.set, size_cons]
    by_cases hp : keyEqual p.1 key = true
    · rw [if_pos hp, if_pos hp, size_cons, pairSize, pairSize]
      refine .inl ⟨p.2, rfl, ?_⟩
      dsimp only
      omega
    · rw [if_neg hp, if_neg hp, size_cons]
      rcases ih with ⟨w, hw, hsize⟩ | ⟨hnone, heq⟩
      · exact .inl ⟨w, hw, by omega⟩
      · exact .inr ⟨hnone, by rw [heq, cons_append]⟩

theorem size_pop {w : Value} (h : m.get key = some w) :
    ∃ k, (k, w) ∈ m ∧ keyEqual k key = true ∧ (m.pop key).size + pairSize (k, w) = m.size := by
  induction m with
  | nil => cases h
  | cons p m ih =>
    rw [get_cons] at h
    split_ifs at h with hp
    · cases h
      refine ⟨p.1, mem_cons_self, hp, ?_⟩
      rw [Map.pop, eraseP_cons, hp, cond_true, size_cons, Nat.add_comm]
    · obtain ⟨k, hk, hkey, hsize⟩ := ih h
      refine ⟨k, mem_cons_of_mem p hk, hkey, ?_⟩
      rw [Map.pop, eraseP_cons, eq_false_of_ne_true hp, cond_false, size_cons, size_cons, ← hsize, Nat.add_assoc]
      rfl

/-! ### Decoded values -/

structure Decoded (depth : Nat) (v : Value) : Prop where
  depth_le : depth ≤ maxDecodeDepth
  shallow : Shallow (maxDecodeDepth - depth) v
  distinct : ∀ m : Map, v = .map m → m.Distinct

def Value.Leaf (v : Value) : Prop := v.parts = [] ∧ ∀ m, v ≠ .map m

theorem shallow_of_parts (h : ∀ c ∈ v.parts, Decoded (depth + 1) c) : Shallow (maxDecodeDepth - depth) v := by
  by_cases hd : depth < maxDecodeDepth
  · obtain ⟨n, hn⟩ : ∃ n, maxDecodeDepth - depth = n + 1 := ⟨maxDecodeDepth - depth - 1, by omega⟩
    have hn' : maxDecodeDepth - (depth + 1) = n := by omega
    rw [hn]
    exact fun c hc => hn' ▸ (h c hc).shallow
  · rw [show maxDecodeDepth - depth = 0 by omega, Shallow, eq_nil_iff_forall_not_mem]
    intro c hc
    have := (h c hc).depth_le
    omega

theorem Value.Leaf.decoded (h : v.Leaf) (hd : depth ≤ maxDecodeDepth) : Decoded depth v :=
  ⟨hd, shallow_of_parts (by simp [h.1]), fun m hm => absurd hm (h.2 m)⟩

theorem decoded_ofPairs {pairs : List (Value × Value)} (hd : depth ≤ maxDecodeDepth)
    (h : ∀ p ∈ pairs, Decoded (depth + 1) p.1 ∧ Decoded (depth + 1) p.2) :
    Decoded depth (.map (Map.ofPairs pairs)) := by
  refine ⟨hd, shallow_of_parts fun c hc => ?_, ?_⟩
  · obtain ⟨p, hp, rfl | rfl⟩ := mem_parts_map.mp hc
    · exact (forall_ofPairs h p hp).1
    · exact (forall_ofPairs h p hp).2
  · rintro m ⟨⟩
    exact foldlRecOn (motive := Map.Distinct) pairs _ Pairwise.nil fun _ hm p _ => hm.set p.1 p.2

theorem leaf_uintValue (n : Nat) : (uintValue n).Leaf := by
  rw [uintValue]
  split <;> simp [Value.Leaf, Value.parts]

theorem uintValue_ne_text (n : Nat) (s : Bytes) : uintValue n ≠ .text s := by
  rw [uintValue]
  split <;> simp

theorem tagged_cases {D : Value → Prop} {tagNum : Nat} (hv : D v)
    (hbig : ∀ negative magnitude, D (.bigUint negative magnitude)) : D (tagged tagNum v) := by
  cases v with
  | bytes payload =>
    rw [tagged]
    split
    · exact hbig _ _
    · exact hv
  | _ => exact hv

theorem yields_stringOf (major info : Nat) : Yields (stringOf major info) fun v =>
    v.Leaf ∧ ∀ s, v = .text s → major ≠ 2 ∧ (info = 31 ∨ Text.valid s = true) := by
  rw [stringOf]
  split
  · refine .after fun n => .after fun chunks => yields_pure ?_
    split <;> simp_all [Value.Leaf, Value.parts]
  · refine .after fun n => .after fun c => ?_
    rw [definiteString]
    split
    · exact yields_pure (by simp [Value.Leaf, Value.parts])
    · exact (yields_ensure _).bind fun _ hvalid => yields_pure (by simp_all [Value.Leaf, Value.parts])

theorem yields_simpleOf (info : Nat) : Yields (simpleOf info) fun v => v.Leaf ∧ ∀ s, v ≠ .text s := by
  have hfloat : ∀ (n : Nat) (f : Bytes → UInt64),
      Yields ((fun b => Value.float64 (f b)) <$> takeBytes n) fun v => v.Leaf ∧ ∀ s, v ≠ .text s :=
    fun n f => (yields_any _).map fun b _ => by simp [Value.Leaf, Value.parts]
  refine .ite (yields_pure (by simp [Value.Leaf, Value.parts])) ?_
  refine .ite (yields_pure (by simp [Value.Leaf, Value.parts])) ?_
  refine .ite (yields_pure (by simp [Value.Leaf, Value.parts])) ?_
  refine .ite (yields_fail _ _) (.ite (.after fun _ => yields_fail _ _) ?_)
  refine .ite (hfloat 2 _) (.ite (hfloat 4 _) (.ite (hfloat 8 _) ?_))
  exact .ite (yields_fail _ _) (yields_fail _ _)

theorem yields_elements {α : Type} {p : Parser String α} {P : α → Prop} (hp : Yields p P)
    (info : Nat) : Yields (elements p info) fun as => ∀ a ∈ as, P a :=
  .ite (.after fun n => hp.upTo _ _ n) (.after fun n => .after fun _ => .after fun _ => .after fun _ => hp.times n)

/-- A value that holds no others. The text of one is valid, unless its length is indefinite. -/
theorem yields_leafOf {value : Nat → Parser String Value} (depth : Nat) {major : Nat}
    (hmajor : major ∉ [4, 5, 6]) (info : Nat) : Yields (valueOf value depth major info) fun v =>
      v.Leaf ∧ ∀ s, v = .text s → major = 3 ∧ info = 31 ∨ Text.valid s = true := by
  have hother : ∀ {v : Value}, (v.Leaf ∧ ∀ s, v ≠ .text s) →
      v.Leaf ∧ ∀ s, v = .text s → major = 3 ∧ info = 31 ∨ Text.valid s = true :=
    fun h => ⟨h.1, fun s hs => absurd hs (h.2 s)⟩
  rw [valueOf.eq_def]
  split
  · exact (yields_any _).map fun n _ => hother ⟨leaf_uintValue n, uintValue_ne_text n⟩
  · exact .after fun _ => .after fun _ => yields_pure (hother (by simp [Value.Leaf, Value.parts]))
  · intro s v rest hv
    obtain ⟨hleaf, htext⟩ := yields_stringOf 2 info s v rest hv
    exact ⟨hleaf, fun t ht => absurd rfl (htext t ht).1⟩
  · intro s v rest hv
    obtain ⟨hleaf, htext⟩ := yields_stringOf 3 info s v rest hv
    exact ⟨hleaf, fun t ht => (htext t ht).2.imp_left fun h => ⟨rfl, h⟩⟩
  · simp at hmajor
  · simp at hmajor
  · simp at hmajor
  · exact fun s v rest hv => hother (yields_simpleOf info s v rest hv)
  · exact yields_fail _ _

/-- A property of the values at each depth that goes from what a value is made of to the value. -/
structure Hereditary (D : Nat → Value → Prop) : Prop where
  leaf : ∀ depth v, depth ≤ maxDecodeDepth → v.Leaf → D depth v
  array : ∀ depth items, depth ≤ maxDecodeDepth → (∀ v ∈ items, D (depth + 1) v) → D depth (.array items)
  map : ∀ depth pairs, depth ≤ maxDecodeDepth → (∀ p ∈ pairs, D (depth + 1) p.1 ∧ D (depth + 1) p.2) →
    D depth (.map (Map.ofPairs pairs))

theorem Hereditary.yields_value {D : Nat → Value → Prop} (h : Hereditary D) :
    ∀ fuel depth, Yields (value fuel depth) (D depth)
  | 0, _ => .after fun _ => yields_fail _ _
  | fuel + 1, depth => by
    refine (yields_ensure _).bind fun _ hd => .after fun b => ?_
    have hitem : Yields (value fuel (depth + 1)) (D (depth + 1)) := h.yields_value fuel (depth + 1)
    generalize b.toNat / 32 = major
    by_cases hmajor : major ∈ [4, 5, 6]
    · simp only [mem_cons, not_mem_nil, or_false] at hmajor
      rcases hmajor with rfl | rfl | rfl
      · exact (yields_elements hitem _).bind fun items hitems => yields_pure (h.array depth items hd hitems)
      · have hpair : Yields (pairOf (value fuel (depth + 1))) fun p => D (depth + 1) p.1 ∧ D (depth + 1) p.2 :=
          hitem.bind fun _ hk => hitem.bind fun _ hv => yields_pure ⟨hk, hv⟩
        exact (yields_elements hpair _).bind fun pairs hpairs => yields_pure (h.map depth pairs hd hpairs)
      · refine .after fun _ => .after fun tagNum => ?_
        exact (h.yields_value fuel depth).map fun v hv => tagged_cases hv fun _ _ =>
          h.leaf depth _ hd (by simp [Value.Leaf, Value.parts])
    · exact fun s v rest hv => h.leaf depth v hd (yields_leafOf depth hmajor _ s v rest hv).1

theorem Hereditary.of_decode {D : Nat → Value → Prop} (h : Hereditary D) (hv : decode data = .ok v) : D 0 v := by
  rw [decode] at hv
  cases hx : value (data.length + 1) 0 data with
  | error e =>
    rw [hx] at hv
    cases hv
  | ok x =>
    rw [hx] at hv
    cases hv
    exact h.yields_value _ _ _ _ _ hx

theorem decoded_of_decode (h : decode data = .ok v) : Decoded 0 v :=
  Hereditary.of_decode
    { leaf := fun _ _ hd hv => hv.decoded hd
      array := fun _ _ hd hitems => ⟨hd, shallow_of_parts hitems, fun m hm => by cases hm⟩
      map := fun _ _ hd hpairs => decoded_ofPairs hd hpairs } h

/-! ### Lookups -/

theorem keyEqual_int {n : Int64} : keyEqual a (.int64 n) = true ↔ numericValue a = some (Binary64.ofInt n.toInt) := by
  rw [keyEqual, show numericValue (.int64 n) = some (Binary64.ofInt n.toInt) from rfl]
  cases numericValue a with
  | none => simp
  | some x =>
    simp only [Binary64.Number.equal_iff, some.injEq]
    exact ⟨And.right, fun h => ⟨h ▸ Binary64.ofInt_ne_nan _, h⟩⟩

theorem numericValue_eq_of_keyEqual {b : Value} (h : keyEqual a b = true) : numericValue a = numericValue b := by
  rw [keyEqual] at h
  cases ha : numericValue a <;> cases hb : numericValue b <;> simp only [ha, hb] at h
  · rfl
  · cases h
  · cases h
  · rw [(Binary64.Number.equal_iff.mp h).2]

theorem keyEqual_of_int {b : Value} {n : Int64} (ha : keyEqual a (.int64 n) = true)
    (hb : keyEqual b (.int64 n) = true) : keyEqual a b = true := by
  rw [keyEqual_int] at ha hb
  rw [keyEqual, ha, hb]
  exact Binary64.Number.equal_iff.mpr ⟨Binary64.ofInt_ne_nan _, rfl⟩

theorem get_set (m : Map) (key val : Value) (n : Int64) :
    Map.get (Map.set m key val) (.int64 n) = if keyEqual key (.int64 n) then some val else m.get (.int64 n) := by
  induction m with
  | nil => rw [Map.set, get_cons]
  | cons p m ih =>
    have hint : ∀ {a b : Value}, keyEqual a b = true → (keyEqual a (.int64 n) = true ↔ keyEqual b (.int64 n) = true) := by
      intro a b h
      rw [keyEqual_int, keyEqual_int, numericValue_eq_of_keyEqual h]
    rw [Map.set]
    split_ifs with hp hkey hkey
    · rw [get_cons, if_pos ((hint hp).mpr hkey)]
    · have hpn : ¬keyEqual p.1 (.int64 n) = true := fun h => hkey ((hint hp).mp h)
      rw [get_cons, if_neg hpn, get_cons, if_neg hpn]
    · have hpn : ¬keyEqual p.1 (.int64 n) = true := fun h => hp (keyEqual_of_int h hkey)
      rw [get_cons, if_neg hpn, ih, if_pos hkey]
    · rw [get_cons, ih, if_neg hkey, get_cons]

theorem get_ofPairs (pairs : List (Value × Value)) (n : Int64) : (Map.ofPairs pairs).get (.int64 n) =
      ((pairs.filter fun p => keyEqual p.1 (.int64 n)).getLast?).map (·.2) := by
  induction pairs using reverseRecOn with
  | nil => rfl
  | append_singleton pairs p ih =>
    have hfold : Map.ofPairs (pairs ++ [p]) = Map.set (Map.ofPairs pairs) p.1 p.2 := by
      rw [Map.ofPairs, foldl_append]
      rfl
    rw [hfold, get_set, ih, filter_append]
    by_cases hp : keyEqual p.1 (.int64 n) = true
    · simp [hp]
    · simp [hp]

/-! ### Changes to one key -/

/-- What `set` does to a pair when the key is there. -/
def Map.update (key val : Value) (p : Value × Value) : Value × Value := if keyEqual p.1 key then (p.1, val) else p

theorem update_fst (key val : Value) (p : Value × Value) : (Map.update key val p).1 = p.1 := by
  rw [Map.update]
  split <;> rfl

section

variable {m : Map} {n : Int64}
variable {p : Value × Value}

theorem Map.Distinct.cons (h : Map.Distinct (p :: m)) :
    m.Distinct ∧ ∀ q ∈ m, keyEqual p.1 (.int64 n) = true → keyEqual q.1 (.int64 n) = false := by
  obtain ⟨hp, hm⟩ := pairwise_cons.mp h
  refine ⟨hm, fun q hq hpn => ?_⟩
  by_contra hqn
  have hpq := keyEqual_of_int hpn (Bool.not_eq_false _ ▸ hqn)
  simp [hp q.1 (mem_map_of_mem hq)] at hpq

theorem get_of_mem (hd : m.Distinct) (hp : p ∈ m) (hkey : keyEqual p.1 (.int64 n) = true) :
    m.get (.int64 n) = some p.2 := by
  induction m with
  | nil => cases hp
  | cons q m ih =>
    obtain ⟨hm, hq⟩ := hd.cons (n := n)
    rw [get_cons]
    rcases mem_cons.mp hp with rfl | hp
    · rw [if_pos hkey]
    · rw [if_neg fun hqn => by simp [hq p hp hqn] at hkey, ih hm hp]

theorem keyEqual_of_get_eq_none (h : m.get (.int64 n) = none) (hp : p ∈ m) : keyEqual p.1 (.int64 n) = false := by
  rw [Map.get, map_eq_none_iff, find?_eq_none] at h
  simpa using h p hp

theorem set_of_get_eq_some {val w : Value} (hd : m.Distinct) (h : m.get (.int64 n) = some w) :
    Map.set m (.int64 n) val = m.map (Map.update (.int64 n) val) := by
  induction m with
  | nil => cases h
  | cons p m ih =>
    obtain ⟨hm, hp⟩ := hd.cons (n := n)
    rw [get_cons] at h
    rw [Map.set, map_cons, Map.update]
    split_ifs at h ⊢ with hpn
    · have hrest : m.map (Map.update (.int64 n) val) = m.map id :=
        map_congr_left fun q hq => by simp [Map.update, hp q hq hpn]
      rw [hrest, List.map_id]
    · rw [ih hm h]

theorem set_of_get_eq_none {val : Value} (h : m.get (.int64 n) = none) :
    Map.set m (.int64 n) val = m ++ [(.int64 n, val)] := by
  induction m with
  | nil => rfl
  | cons p m ih =>
    rw [get_cons] at h
    split_ifs at h with hpn
    rw [Map.set, if_neg hpn, ih h, cons_append]

theorem pop_eq_filter (hd : m.Distinct) : Map.pop m (.int64 n) = m.filter fun p => !keyEqual p.1 (.int64 n) := by
  induction m with
  | nil => rfl
  | cons p m ih =>
    obtain ⟨hm, hp⟩ := hd.cons (n := n)
    by_cases hpn : keyEqual p.1 (.int64 n) = true
    · have hrest : m.filter (fun q => !keyEqual q.1 (.int64 n)) = m :=
        filter_eq_self.mpr fun q hq => by simp [hp q hq hpn]
      simp [Map.pop, hpn, hrest]
    · rw [Map.pop] at ih ⊢
      simp [hpn, ih hm]

theorem get_pop_of_ne {k : Int64} (hd : m.Distinct) (hne : keyEqual (.int64 k) (.int64 n) = false) :
    (Map.pop m (.int64 k)).get (.int64 n) = m.get (.int64 n) := by
  rw [pop_eq_filter hd, Map.get, Map.get, find?_filter]
  congr 2
  funext p
  by_cases hp : keyEqual p.1 (.int64 n) = true
  · have hpk : keyEqual p.1 (.int64 k) = false := by
      by_contra hpk
      have hpk := keyEqual_int.mp (Bool.not_eq_false _ ▸ hpk)
      have hkn : keyEqual (.int64 k) (.int64 n) = true := keyEqual_int.mpr (hpk.symm.trans (keyEqual_int.mp hp))
      simp [hne] at hkn
    simp [hp, hpk]
  · simp [hp]

theorem Map.Distinct.pop (hd : m.Distinct) : (Map.pop m (.int64 n)).Distinct :=
  Pairwise.sublist (eraseP_sublist.map _) hd

end

/-! ### Keys on the wire -/

theorem numericValue_uintValue (hn : n < 2 ^ 64) : numericValue (uintValue n) = some (Binary64.ofInt n) := by
  rw [uintValue]
  split_ifs with h
  · rw [numericValue, Int64.toInt_ofNat_of_lt (by omega)]
  · rw [numericValue, UInt64.toNat_ofNat_of_lt' hn]

theorem trimMagnitude_head {magnitude : Bytes} {c d : UInt8} {b : Bytes}
    (h : trimMagnitude magnitude = c :: d :: b) : c ≠ 0 := by
  fun_induction trimMagnitude magnitude with
  | case1 c' b' ih => exact ih h
  | case2 b' hb' =>
    rintro rfl
    exact hb' d b h

theorem le_beNat_of_length {magnitude : Bytes} (h : 8 < (trimMagnitude magnitude).length) :
    2 ^ 64 ≤ beNat magnitude := by
  rw [← beNat_trimMagnitude]
  obtain ⟨c, d, b, hb⟩ : ∃ c d b, trimMagnitude magnitude = c :: d :: b := by
    rcases hm : trimMagnitude magnitude with _ | ⟨c, _ | ⟨d, b⟩⟩
    · simp [hm] at h
    · simp [hm] at h
    · exact ⟨c, d, b, rfl⟩
  have hc : 1 ≤ c.toNat := by
    have := trimMagnitude_head hb
    rw [Nat.one_le_iff_ne_zero]
    exact fun h0 => this (UInt8.toNat_inj.mp h0)
  have hpow : 256 ^ 8 ≤ 256 ^ (d :: b).length := Nat.pow_le_pow_right (by decide) (by rw [hb] at h; simp at h ⊢; omega)
  rw [hb, beNat_cons]
  calc 2 ^ 64 = 1 * 256 ^ 8 := by norm_num
    _ ≤ c.toNat * 256 ^ (d :: b).length := Nat.mul_le_mul hc hpow
    _ ≤ _ := Nat.le_add_right _ _

/-- The keys that `encode` writes as the integer `n`, or as another number equal to it. -/
def denotes (n : Nat) : Value → Bool
  | .bigUint negative magnitude => !negative && beNat magnitude == n
  | key => keyEqual key (.int64 (Int64.ofNat n))

theorem toInt_negative (hn : n < 2 ^ 63) : (-1 - Int64.ofNat n).toInt = -1 - n := by
  rw [Int64.toInt_sub, Int64.toInt_ofNat_of_lt hn]
  exact Int.bmod_eq_of_le (by simp; omega) (by simp; omega)

theorem keyEqual_recode (hn : n < 2 ^ 53) (key : Value) :
    keyEqual (recode key) (.int64 (Int64.ofNat n)) = denotes n key := by
  have hval : (Int64.ofNat n).toInt = n := Int64.toInt_ofNat_of_lt (by omega)
  have hint : ∀ {v : Value} {m : Int}, numericValue v = some (Binary64.ofInt m) →
      keyEqual v (.int64 (Int64.ofNat n)) = decide (m = n) := by
    intro v m hm
    rw [Bool.eq_iff_iff, keyEqual_int, hm, hval, decide_eq_true_iff, some.injEq]
    exact ⟨Binary64.ofInt_inj (by simpa using hn), congrArg _⟩
  have hother : ∀ {v : Value}, numericValue v = none → keyEqual v (.int64 (Int64.ofNat n)) = false := by
    intro v hv
    rw [Bool.eq_false_iff, ne_eq, keyEqual_int, hv]
    exact nofun
  cases key with
  | uint64 m => exact (hint (numericValue_uintValue m.toNat_lt)).trans (hint (v := .uint64 m) rfl).symm
  | array items => exact (hother (v := .array (recodeItems items)) rfl).trans (hother (v := .array items) rfl).symm
  | map pairs => exact (hother (v := recode (.map pairs)) rfl).trans (hother (v := .map pairs) rfl).symm
  | bigUint negative magnitude =>
    have hdenotes : denotes n (.bigUint negative magnitude) = (!negative && beNat magnitude == n) := rfl
    rw [recode, recodeBigUint, hdenotes]
    cases hm : asUint64 (trimMagnitude magnitude) with
    | none =>
      have hlen : 8 < (trimMagnitude magnitude).length := by
        by_contra hlen
        simp [asUint64, hlen] at hm
      have hlarge := le_beNat_of_length hlen
      have hne : (beNat magnitude == n) = false := beq_false_of_ne (by omega)
      rw [hne, Bool.and_false]
      exact hother rfl
    | some m =>
      obtain ⟨hbe, hlt⟩ := asUint64_eq_some hm
      rw [beNat_trimMagnitude] at hbe
      cases negative with
      | false =>
        have h := hint (numericValue_uintValue hlt)
        simp only [Bool.false_eq_true, if_false, h, ← hbe, Bool.not_false, Bool.true_and]
        rw [Bool.eq_iff_iff]
        simp
      | true =>
        simp only [if_true, Bool.not_true, Bool.false_and]
        split
        · rw [hint (m := (-1 - Int64.ofNat m).toInt) rfl, decide_eq_false_iff_not, toInt_negative (by omega)]
          omega
        · exact hother rfl
  | _ => rfl

theorem denotes_of_keyEqual {k : Nat} (hn : n < 2 ^ 53) (hk : k < 2 ^ 53)
    (h : keyEqual key (.int64 (Int64.ofNat k)) = true) : denotes n key = decide (n = k) := by
  have hnum := keyEqual_int.mp h
  have hint : ∀ {j : Nat}, j < 2 ^ 53 → (Int64.ofNat j).toInt = j := fun hj => Int64.toInt_ofNat_of_lt (by omega)
  have hdenotes : denotes n key = keyEqual key (.int64 (Int64.ofNat n)) := by
    cases key with
    | bigUint negative magnitude => cases hnum
    | _ => rfl
  rw [hdenotes, Bool.eq_iff_iff, keyEqual_int, hnum, hint hn, hint hk, decide_eq_true_iff, some.injEq]
  refine ⟨fun heq => ?_, fun heq => by rw [heq]⟩
  have := Binary64.ofInt_inj (by simpa using hn) heq
  omega

theorem get_recoded (m : Map) (hn : n < 2 ^ 53) : (Map.ofPairs (recodePairs m)).get (.int64 (Int64.ofNat n)) =
      ((m.filter fun p => denotes n p.1).getLast?).map fun p => recode p.2 := by
  have hkey : ((fun p : Value × Value => keyEqual p.1 (.int64 (Int64.ofNat n))) ∘ fun p : Value × Value =>
      (recode p.1, recode p.2)) = fun p => denotes n p.1 := by
    funext p
    exact keyEqual_recode hn p.1
  rw [get_ofPairs, recodePairs_eq, List.filter_map, hkey, List.getLast?_map, Option.map_map]
  rfl

section

variable {m : Map} {n k : Nat}

theorem filter_map_update (key val : Value) (f : Value → Bool) :
    (m.map (Map.update key val)).filter (fun p => f p.1) = (m.filter fun p => f p.1).map (Map.update key val) := by
  rw [List.filter_map]
  congr 2
  funext p
  simp [update_fst]

theorem filter_set_of_ne (val : Value) (hd : m.Distinct) (hn : n < 2 ^ 53) (hk : k < 2 ^ 53) (hne : n ≠ k) :
    (Map.set m (.int64 (Int64.ofNat k)) val).filter (fun p => denotes n p.1) = m.filter fun p => denotes n p.1 := by
  have hother : ∀ {key : Value}, keyEqual key (.int64 (Int64.ofNat k)) = true → denotes n key = false := by
    intro key h
    rw [denotes_of_keyEqual hn hk h, decide_eq_false_iff_not]
    exact hne
  cases hget : m.get (.int64 (Int64.ofNat k)) with
  | none =>
    have hself : keyEqual (.int64 (Int64.ofNat k)) (.int64 (Int64.ofNat k)) = true := keyEqual_int.mpr rfl
    rw [set_of_get_eq_none hget, filter_append]
    simp [hother hself]
  | some w =>
    rw [set_of_get_eq_some hd hget, filter_map_update]
    have hid : ∀ p ∈ m.filter (fun p => denotes n p.1), Map.update (.int64 (Int64.ofNat k)) val p = id p := by
      intro p hp
      have hdenotes := (mem_filter.mp hp).2
      rw [Map.update, if_neg fun h => by simp [hother h] at hdenotes]
      rfl
    rw [List.map_congr_left hid, List.map_id]

theorem filter_pop_of_ne (hd : m.Distinct) (hn : n < 2 ^ 53) (hk : k < 2 ^ 53) (hne : n ≠ k) :
    (Map.pop m (.int64 (Int64.ofNat k))).filter (fun p => denotes n p.1) = m.filter fun p => denotes n p.1 := by
  rw [pop_eq_filter hd, List.filter_filter]
  refine filter_congr fun p _ => ?_
  by_cases h : keyEqual p.1 (.int64 (Int64.ofNat k)) = true
  · simp [h, denotes_of_keyEqual hn hk h, hne]
  · simp [h]

end

theorem recode_eq_string {w : Value} (hw : (∃ b, w = .bytes b) ∨ ∃ s, w = .text s) : recode v = w ↔ v = w := by
  have hint : ∀ n, Value.int64 n ≠ w := by rcases hw with ⟨b, rfl⟩ | ⟨s, rfl⟩ <;> simp
  have huint : ∀ n, uintValue n ≠ w := by
    intro n
    rw [uintValue]
    split
    · exact hint _
    · rcases hw with ⟨b, rfl⟩ | ⟨s, rfl⟩ <;> simp
  have hbig : ∀ negative mag, Value.bigUint negative mag ≠ w := by
    rcases hw with ⟨b, rfl⟩ | ⟨s, rfl⟩ <;> simp
  cases v with
  | uint64 n => rcases hw with ⟨b, rfl⟩ | ⟨s, rfl⟩ <;> simpa [recode] using huint n.toNat
  | array items | map pairs => rcases hw with ⟨b, rfl⟩ | ⟨s, rfl⟩ <;> simp [recode]
  | bigUint negative magnitude =>
    refine ⟨fun h => ?_, fun h => absurd h (hbig _ _)⟩
    rw [recode, recodeBigUint] at h
    cases hm : asUint64 (trimMagnitude magnitude) with
    | none =>
      simp only [hm] at h
      exact absurd h (hbig _ _)
    | some m =>
      simp only [hm] at h
      split_ifs at h
      · exact absurd h (hint _)
      · exact absurd h (hbig _ _)
      · exact absurd h (huint _)
  | _ => rfl

end Reticulum.Rrc.Cbor
