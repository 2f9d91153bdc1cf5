import Reticulum.Msgpack

/-! # What `Pack` writes, `Unpack` reads -/

namespace Reticulum.Msgpack

open Parse List

/-! ### Numbers -/

theorem reads_readUint {k v : Nat} (hk : 0 < k) (hv : v < 256 ^ k) : Reads (readUint k) (beBytes k v) v := by
  intro rest
  have hlen := length_beBytes k v
  have hne : beBytes k v ++ rest ≠ [] := by
    intro h
    have hnil := (append_eq_nil_iff.mp h).1
    rw [hnil] at hlen
    exact hk.ne hlen
  rw [readUint, if_neg hne, if_neg (by rw [length_append]; omega), take_left' hlen, drop_left' hlen,
    beNat_beBytes hv]

theorem signed_emod {k h : Nat} {i : Int} (hk : 256 ^ k = 2 * h) (hlo : -(h : Int) ≤ i) (hhi : i < h) :
    signed k (i % 256 ^ k).toNat = i := by
  have hpow : (256 : Int) ^ k = 2 * h := by exact_mod_cast hk
  rw [signed, hk, hpow]
  rcases le_or_gt 0 i with hi | hi
  · rw [Int.emod_eq_of_lt hi (by omega), if_pos (by omega), Int.toNat_of_nonneg hi]
  · have hmod : i % (2 * h) = i + 2 * h := by
      rw [← Int.add_emod_right, Int.emod_eq_of_lt (by omega) (by omega)]
    omega

theorem reads_readInt {k h : Nat} {i : Int64} (hpos : 0 < k) (hk : 256 ^ k = 2 * h) (hlo : -(h : Int) ≤ i.toInt)
    (hhi : i.toInt < h) : Reads (readInt k) (intBytes k i.toInt) (.int i) := by
  have hlt : (i.toInt % 256 ^ k).toNat < 256 ^ k := by
    have hmod := Int.emod_lt_of_pos i.toInt (show (0 : Int) < 256 ^ k by positivity)
    zify
    rw [Int.toNat_of_nonneg (Int.emod_nonneg _ (by positivity))]
    exact hmod
  have hread := (reads_readUint hpos hlt).map fun n => Value.int (Int64.ofInt (signed k n))
  rwa [signed_emod hk hlo hhi, Int64.ofInt_toInt] at hread

variable {v : Value}

variable {s : Bytes}

theorem reads_value {fuel : Nat} {b : UInt8}
    (h : Reads (unpackAs (unpackValue fuel) b) s v) : Reads (unpackValue (fuel + 1)) (b :: s) v :=
  (reads_byteAt .eof b).bind h

section

variable {fuel : Nat} {item : Parser Error Value}

theorem unpackAs_fixint {b : UInt8} (h : b.toNat ≤ 0x7f) : unpackAs item b = pure (.int (Int64.ofNat b.toNat)) :=
  if_pos (UInt8.le_iff_toNat_le.mpr h)

theorem unpackAs_negative {b : UInt8} (h : 0xe0 ≤ b.toNat) : unpackAs item b = pure (.int b.toInt8.toInt64) := by
  have hle : ∀ {c : UInt8}, c.toNat < 0xe0 → ¬b ≤ c := by
    intro c hc hbc
    have := UInt8.le_iff_toNat_le.mp hbc
    omega
  have hne : ∀ {c : UInt8}, c.toNat < 0xe0 → ¬b = c := by
    rintro c hc rfl
    omega
  unfold unpackAs
  repeat rw [if_neg (hle (by decide))]
  repeat rw [if_neg (hne (by decide))]
  have hge : (0xe0 : UInt8) ≤ b := UInt8.le_iff_toNat_le.mpr h
  exact if_pos hge

theorem toInt_negative {b : UInt8} (h : 0x80 ≤ b.toNat) : b.toInt8.toInt64.toInt = b.toNat - 256 := by
  have hbits : b.toInt8.toInt = b.toBitVec.toInt := rfl
  have hnat : b.toBitVec.toNat = b.toNat := rfl
  rw [Int8.toInt_toInt64, hbits, BitVec.toInt_eq_toNat_cond, hnat, if_neg (by omega)]
  rfl

theorem reads_int (i : Int64) : Reads (unpackValue (fuel + 1)) (packInt i.toInt) (.int i) := by
  rw [packInt]
  split_ifs with h0 h1 h2 h3
  · have hbyte : (UInt8.ofNat (i.toInt % 256 ^ 1).toNat).toNat = (i.toInt % 256).toNat := by
      rw [UInt8.toNat_ofNat', pow_one]
      omega
    have hone : intBytes 1 i.toInt = [UInt8.ofNat (i.toInt % 256 ^ 1).toNat] := by simp [intBytes, beBytes]
    rw [hone]
    refine reads_value ?_
    rcases le_or_gt 0 i.toInt with hi | hi
    · rw [unpackAs_fixint (by omega), hbyte]
      have hback : Int64.ofNat (i.toInt % 256).toNat = i := by
        apply Int64.toInt_inj.mp
        rw [Int64.toInt_ofNat_of_lt (by omega)]
        omega
      rw [hback]
      exact reads_pure _
    · rw [unpackAs_negative (by omega)]
      have hback : (UInt8.ofNat (i.toInt % 256 ^ 1).toNat).toInt8.toInt64 = i := by
        apply Int64.toInt_inj.mp
        rw [toInt_negative (by omega), hbyte]
        omega
      rw [hback]
      exact reads_pure _
  · exact reads_value (reads_readInt (h := 128) (by decide) rfl h1.1 (by omega))
  · exact reads_value (reads_readInt (h := 32768) (by decide) rfl h2.1 (by omega))
  · exact reads_value (reads_readInt (h := 2147483648) (by decide) rfl h3.1 (by omega))
  · exact reads_value (reads_readInt (h := 9223372036854775808) (by decide) rfl i.le_toInt i.toInt_lt)

def unsigned (n : UInt64) : Value := if n.toNat ≤ 127 then .int (Int64.ofNat n.toNat) else .uint n

theorem reads_uint (n : UInt64) : Reads (unpackValue (fuel + 1)) (packUint n.toNat) (unsigned n) := by
  have hread : ∀ {k}, 0 < k → n.toNat < 256 ^ k →
      Reads ((fun m => Value.uint (UInt64.ofNat m)) <$> readUint k) (beBytes k n.toNat) (.uint n) := by
    intro k hk hlt
    have h := (reads_readUint hk hlt).map fun m => Value.uint (UInt64.ofNat m)
    rwa [UInt64.ofNat_toNat] at h
  have hn := n.toNat_lt
  rw [packUint, unsigned]
  split_ifs with h0 h1 h2 h3
  · have hone : beBytes 1 n.toNat = [UInt8.ofNat n.toNat] := by simp [beBytes]
    have hbyte : (UInt8.ofNat n.toNat).toNat = n.toNat := by
      rw [UInt8.toNat_ofNat']
      omega
    rw [hone]
    refine reads_value ?_
    rw [unpackAs_fixint (by omega), hbyte]
    exact reads_pure _
  all_goals exact reads_value (hread (by decide) (by omega))

/-! ### Strings -/

theorem unpackAs_fixstr {l : Nat} (h : l < 32) : unpackAs item (UInt8.ofNat (0xa0 + l)) = unpackStr l := by
  have hsize : 0xa0 + l < 256 := by omega
  have hle : ∀ {c : UInt8}, UInt8.ofNat (0xa0 + l) ≤ c ↔ 0xa0 + l ≤ c.toNat := UInt8.ofNat_le_iff hsize
  have hb : (UInt8.ofNat (0xa0 + l)).toNat = 0xa0 + l := UInt8.toNat_ofNat_of_lt' hsize
  rw [unpackAs, if_neg (hle.not.mpr (by simp; omega)), if_neg (hle.not.mpr (by simp; omega)),
    if_neg (hle.not.mpr (by simp; omega)), if_pos (hle.mpr (by simp; omega)), hb, Nat.add_sub_cancel_left]

theorem reads_str (h : s.length < 2 ^ 32) : Reads (unpackValue (fuel + 1)) (packStr s) (.str s) := by
  have htake := (reads_take Error.unexpectedEOF s).map Value.str
  rw [packStr]
  split_ifs with h0 h1 h2
  · refine reads_value ?_
    rw [unpackAs_fixstr h0]
    exact htake
  all_goals exact reads_value ((reads_readUint (by decide) (by omega)).bind htake)

theorem reads_bin {b : Bytes} (h : b.length < 2 ^ 32) : Reads (unpackValue (fuel + 1)) (packBin b) (.bin b) := by
  have htake := (reads_take Error.unexpectedEOF b).map Value.bin
  rw [packBin]
  split_ifs with h0 h1
  all_goals exact reads_value ((reads_readUint (by decide) (by omega)).bind htake)

/-! ### Arrays and maps -/

theorem Reads.length_pos (h : Reads (unpackValue fuel) s v) : 0 < s.length := by
  refine length_pos_iff.mpr ?_
  rintro rfl
  have hnil := h []
  cases fuel with
  | zero | succ fuel => cases hnil

theorem eq_map {α β : Type} {f : List α → List β} {g : α → β} (hnil : f [] = [])
    (hcons : ∀ a as, f (a :: as) = g a :: f as) (as : List α) : f as = as.map g := by
  induction as with
  | nil => exact hnil
  | cons a as ih => rw [hcons, ih, map_cons]

theorem packItems_eq (sorted : Bool) (items : List Value) : packItems sorted items = items.flatMap (pack sorted) := by
  induction items with
  | nil => rfl
  | cons v items ih => rw [packItems, ih, flatMap_cons]

theorem packEntries_eq (sorted : Bool) (entries : List (Value × Value)) :
    packEntries sorted entries = entries.map fun e => (pack sorted e.1, pack sorted e.2) :=
  eq_map rfl (fun _ _ => rfl) entries

theorem unpackAs_fixarray {l : Nat} (h : l < 16) : unpackAs item (UInt8.ofNat (0x90 + l)) = unpackArray item l := by
  have hsize : 0x90 + l < 256 := by omega
  have hle : ∀ {c : UInt8}, UInt8.ofNat (0x90 + l) ≤ c ↔ 0x90 + l ≤ c.toNat := UInt8.ofNat_le_iff hsize
  have hb : (UInt8.ofNat (0x90 + l)).toNat = 0x90 + l := UInt8.toNat_ofNat_of_lt' hsize
  rw [unpackAs, if_neg (hle.not.mpr (by simp; omega)), if_neg (hle.not.mpr (by simp; omega)),
    if_pos (hle.mpr (by simp; omega)), hb, Nat.add_sub_cancel_left]

theorem unpackAs_fixmap {l : Nat} (h : l < 16) : unpackAs item (UInt8.ofNat (0x80 + l)) = unpackMap item l := by
  have hsize : 0x80 + l < 256 := by omega
  have hle : ∀ {c : UInt8}, UInt8.ofNat (0x80 + l) ≤ c ↔ 0x80 + l ≤ c.toNat := UInt8.ofNat_le_iff hsize
  have hb : (UInt8.ofNat (0x80 + l)).toNat = 0x80 + l := UInt8.toNat_ofNat_of_lt' hsize
  rw [unpackAs, if_neg (hle.not.mpr (by simp; omega)), if_pos (hle.mpr (by simp; omega)), hb, Nat.add_sub_cancel_left]

/-- `arrayHeader` and `mapHeader` differ in their codes. -/
theorem reads_header {switch : UInt8 → Parser Error Value} {body : Nat → Parser Error Value} {l code : Nat}
    {code₂ code₄ : UInt8} (hl : l < 2 ^ 32) (hfix : l < 16 → switch (UInt8.ofNat (code + l)) = body l)
    (h16 : switch code₂ = readUint 2 >>= body) (h32 : switch code₄ = readUint 4 >>= body) (hbody : Reads (body l) s v) :
    Reads (byteAt .eof >>= switch) ((if l < 16 then [UInt8.ofNat (code + l)]
      else if l < 65536 then code₂ :: beBytes 2 l else code₄ :: beBytes 4 l) ++ s) v := by
  split_ifs with h0 h1
  · refine (reads_byteAt .eof _).bind ?_
    rw [hfix h0]
    exact hbody
  · refine (reads_byteAt .eof code₂).bind ?_
    rw [h16]
    exact (reads_readUint (by decide) (by omega)).bind hbody
  · refine (reads_byteAt .eof code₄).bind ?_
    rw [h32]
    exact (reads_readUint (by decide) (by omega)).bind hbody

variable {items : List Value}

theorem reads_unpackArray {α : Type} {items : List α} {code : α → Bytes} {back : α → Value}
    (hitems : ∀ v ∈ items, Reads item (code v) (back v) ∧ 0 < (code v).length) :
    Reads (unpackArray item items.length) (items.flatMap code) (.array (items.map back)) := by
  refine .remaining_bind fun n hn => ?_
  have hle := mul_length_le_flatMap (c := 1) fun v hv => (hitems v hv).2
  rw [Nat.one_mul] at hle
  exact (reads_ensure _ (hle.trans hn)).bind ((Reads.times fun v hv => (hitems v hv).1).bind_nil (reads_pure _))

theorem reads_array {back : Value → Value} (hlen : items.length < 2 ^ 32)
    (hitems : ∀ v ∈ items, Reads (unpackValue fuel) (pack false v) (back v)) :
    Reads (unpackValue (fuel + 1)) (pack false (.array items)) (.array (items.map back)) := by
  rw [pack, packItems_eq]
  exact reads_header hlen unpackAs_fixarray rfl rfl
    (reads_unpackArray fun v hv => ⟨hitems v hv, Reads.length_pos (hitems v hv)⟩)

theorem keyEqual_str (a b : Bytes) : keyEqual (.str a) (.str b) = (a == b) := rfl

theorem foldl_setEntry (as bs : List (Value × Value)) (h : (bs ++ as).Pairwise fun e e' => keyEqual e.1 e'.1 = false) :
    as.foldl (fun m e => setEntry m e.1 e.2) bs = bs ++ as := by
  induction as generalizing bs with
  | nil => rw [foldl_nil, append_nil]
  | cons e as ih =>
    have hset : ∀ cs : List (Value × Value), (∀ c ∈ cs, keyEqual c.1 e.1 = false) →
        setEntry cs e.1 e.2 = cs ++ [e] := by
      intro cs hcs
      induction cs with
      | nil => rfl
      | cons c cs ih =>
        rw [setEntry, hcs c mem_cons_self, if_neg Bool.false_ne_true,
          ih fun c hc => hcs c (mem_cons_of_mem _ hc)]
        rfl
    have hfresh : ∀ c ∈ bs, keyEqual c.1 e.1 = false :=
      fun c hc => (pairwise_append.mp h).2.2 c hc e mem_cons_self
    have happend : bs ++ e :: as = bs ++ [e] ++ as := by simp
    rw [foldl_cons, hset bs hfresh, ih, happend]
    rwa [← happend]

variable {entries : List (Value × Value)}

theorem reads_times_entries {α : Type} {entries : List (α × α)} {entry : Parser Error (Value × Value)} {code : α → Bytes}
    {key back : α → Value} (result : List (Value × Value) → Value)
    (hread : ∀ e ∈ entries, Reads entry (code e.1 ++ code e.2) (key e.1, back e.2))
    (hpos : ∀ e ∈ entries, 0 < (code e.1).length ∧ 0 < (code e.2).length) : Reads (do
        ensure (entries.length ≤ (← remaining) / 2) .unexpectedEOF
        let es ← times entry entries.length
        pure (result es))
      (entries.flatMap fun e => code e.1 ++ code e.2)
      (result (entries.map fun e => (key e.1, back e.2))) := by
  refine .remaining_bind fun n hn => ?_
  have hle : 2 * entries.length ≤ (entries.flatMap fun e => code e.1 ++ code e.2).length := by
    refine mul_length_le_flatMap fun e he => ?_
    rw [length_append]
    exact Nat.add_le_add (hpos e he).1 (hpos e he).2
  exact (reads_ensure _ (by omega)).bind ((Reads.times hread).bind_nil (reads_pure _))

theorem reads_entries {key back : Value → Value} (hlen : entries.length < 2 ^ 32)
    (hkeys : ∀ e ∈ entries, Reads (unpackValue fuel) (pack false e.1) (key e.1) ∧ mapKey (key e.1) = pure (key e.1))
    (hdistinct : entries.Pairwise fun e e' => keyEqual (key e.1) (key e'.1) = false)
    (hvalues : ∀ e ∈ entries, Reads (unpackValue fuel) (pack false e.2) (back e.2)) :
    Reads (unpackValue (fuel + 1)) (pack false (.map entries)) (.map (entries.map fun e => (key e.1, back e.2))) := by
  have hread : ∀ e ∈ entries, Reads (unpackEntry (unpackValue fuel)) (pack false e.1 ++ pack false e.2)
      (key e.1, back e.2) := by
    intro e he
    obtain ⟨hkey, hmapKey⟩ := hkeys e he
    refine (hkey.bind_nil (f := mapKey) ?_).bind ((hvalues e he).bind_nil (reads_pure _))
    rw [hmapKey]
    exact reads_pure _
  have hfold := foldl_setEntry (entries.map fun e => (key e.1, back e.2)) [] (by
    rw [nil_append, pairwise_map]
    exact hdistinct)
  have hbody := reads_times_entries (fun es => .map (es.foldl (fun m e => setEntry m e.1 e.2) [])) hread
    fun e he => ⟨Reads.length_pos (hkeys e he).1, Reads.length_pos (hvalues e he)⟩
  rw [hfold] at hbody
  rw [pack, packEntries_eq, if_neg Bool.false_ne_true, flatMap_map]
  exact reads_header hlen unpackAs_fixmap rfl rfl hbody

theorem reads_map {entries : List (Bytes × Value)} {back : Value → Value} (hlen : entries.length < 2 ^ 32)
    (hnodup : (entries.map Prod.fst).Nodup) (hkeys : ∀ e ∈ entries, e.1.length < 2 ^ 32)
    (hvalues : ∀ e ∈ entries, Reads (unpackValue (fuel + 1)) (pack false e.2) (back e.2)) :
    Reads (unpackValue (fuel + 2)) (pack false (.map (entries.map fun e => (.str e.1, e.2))))
      (.map (entries.map fun e => (.str e.1, back e.2))) := by
  have hread := @reads_entries (fuel + 1) (entries.map fun e => (.str e.1, e.2)) id back (by rwa [length_map])
    (fun e he => ?_) ?_ fun e he => ?_
  · rwa [map_map] at hread
  · obtain ⟨e, hmem, rfl⟩ := mem_map.mp he
    exact ⟨reads_str (hkeys e hmem), rfl⟩
  · rw [pairwise_map]
    refine (pairwise_map.mp hnodup).imp fun hne => ?_
    exact beq_false_of_ne hne
  · obtain ⟨e, hmem, rfl⟩ := mem_map.mp he
    exact hvalues e hmem

theorem unpack_of_reads (h : ∀ fuel, Reads (unpackValue (fuel + 2)) s v) :
    unpack s = .ok v := by
  have hpos := Reads.length_pos (h 0)
  have hs := h (s.length - 1) []
  rw [append_nil, show s.length - 1 + 2 = s.length + 1 by omega] at hs
  rw [unpack, hs]
  rfl

/-! ### Trees -/

def Value.IsKey : Value → Prop
  | .str s => s.length < 2 ^ 32
  | .int _ | .uint _ => True
  | _ => False

/-- A tree of the plain kinds; the keys of a map differ on the wire, and counts are as the parameter says. -/
inductive Tree (count : Nat → Prop) : Value → Prop
  | nil : Tree count .nil
  | bool (b : Bool) : Tree count (.bool b)
  | int (i : Int64) : Tree count (.int i)
  | uint (n : UInt64) : Tree count (.uint n)
  | float64 (bits : UInt64) : Tree count (.float64 bits)
  | str {s : Bytes} (hs : s.length < 2 ^ 32) : Tree count (.str s)
  | bin {b : Bytes} (hb : b.length < 2 ^ 32) : Tree count (.bin b)
  | array {items : List Value} (hcount : count items.length) (hitems : ∀ v ∈ items, Tree count v) :
    Tree count (.array items)
  | map {entries : List (Value × Value)} (hcount : count entries.length) (hkeys : ∀ e ∈ entries, e.1.IsKey)
    (hdistinct : (entries.map fun e => pack false e.1).Nodup) (hvalues : ∀ e ∈ entries, Tree count e.2) :
    Tree count (.map entries)

mutual

def normal : Value → Value
  | .uint n => unsigned n
  | .array items => .array (normalItems items)
  | .map entries => .map (normalEntries entries)
  | .nil => .nil
  | .bool b => .bool b
  | .int i => .int i
  | .float32 bits => .float32 bits
  | .float64 bits => .float64 bits
  | .str s => .str s
  | .bin b => .bin b
  | .ext type data => .ext type data
  | .raw encoded => .raw encoded

def normalItems : List Value → List Value
  | [] => []
  | v :: items => normal v :: normalItems items

def normalEntries : List (Value × Value) → List (Value × Value)
  | [] => []
  | (k, v) :: entries => (normal k, normal v) :: normalEntries entries

end

theorem normalItems_eq (items : List Value) : normalItems items = items.map normal :=
  eq_map rfl (fun _ _ => rfl) items

theorem normalEntries_eq (entries : List (Value × Value)) :
    normalEntries entries = entries.map fun e => (normal e.1, normal e.2) :=
  eq_map rfl (fun _ _ => rfl) entries

theorem pack_unsigned (n : UInt64) : pack false (unsigned n) = packUint n.toNat := by
  rw [unsigned]
  split
  · rename_i hn
    have hint : (Int64.ofNat n.toNat).toInt = n.toNat := Int64.toInt_ofNat_of_lt (by omega)
    rw [pack, hint, packInt, if_pos (by omega), packUint, if_pos hn, intBytes]
    congr 1
    omega
  · rw [pack]

theorem reads_of_leaf (h : ∀ fuel, Reads (unpackValue (fuel + 1)) s v) (hle : s.length ≤ fuel) :
    Reads (unpackValue fuel) s v := by
  have hpos := Reads.length_pos (h 0)
  obtain ⟨n, rfl⟩ := Nat.exists_eq_succ_of_ne_zero (show fuel ≠ 0 by omega)
  exact h n

theorem reads_key {k : Value} (h : k.IsKey) (fuel : Nat) :
    Reads (unpackValue (fuel + 1)) (pack false k) (normal k) ∧ mapKey (normal k) = pure (normal k) := by
  cases k with
  | str s => exact ⟨reads_str h, rfl⟩
  | int i => exact ⟨reads_int i, rfl⟩
  | uint n =>
    refine ⟨reads_uint n, ?_⟩
    rw [normal, unsigned]
    split <;> rfl
  | _ => cases h

theorem normal_key {k : Value} (h : k.IsKey) :
    (∃ s, normal k = .str s) ∨ (∃ i, normal k = .int i) ∨ ∃ n, normal k = .uint n := by
  cases k with
  | str s => exact .inl ⟨s, rfl⟩
  | int i => exact .inr (.inl ⟨i, rfl⟩)
  | uint n =>
    rw [normal, unsigned]
    split
    · exact .inr (.inl ⟨_, rfl⟩)
    · exact .inr (.inr ⟨n, rfl⟩)
  | _ => cases h

theorem pack_normal_key {k : Value} (h : k.IsKey) : pack false (normal k) = pack false k := by
  cases k with
  | str s | int i => rfl
  | uint n => exact pack_unsigned n
  | _ => cases h

theorem keyEqual_normal {k k' : Value} (h : k.IsKey) (h' : k'.IsKey) (hne : pack false k ≠ pack false k') :
    keyEqual (normal k) (normal k') = false := by
  rw [← pack_normal_key h, ← pack_normal_key h'] at hne
  obtain ⟨s, hk⟩ | ⟨i, hk⟩ | ⟨n, hk⟩ := normal_key h
  all_goals
    obtain ⟨s', hk'⟩ | ⟨i', hk'⟩ | ⟨n', hk'⟩ := normal_key h'
    all_goals
      rw [hk, hk'] at hne ⊢
      first
        | rfl
        | exact beq_false_of_ne fun heq => hne (by rw [heq])

theorem reads_float64 (bits : UInt64) :
    Reads (unpackValue (fuel + 1)) (0xcb :: beBytes 8 bits.toNat) (.float64 bits) := by
  have hread := (reads_readUint (k := 8) (by decide) bits.toNat_lt).map fun n => Value.float64 (UInt64.ofNat n)
  rw [UInt64.ofNat_toNat] at hread
  exact reads_value hread

theorem arrayHeader_pos (l : Nat) : 0 < (arrayHeader l).length := by
  rw [arrayHeader]
  split_ifs <;> simp

theorem mapHeader_pos (l : Nat) : 0 < (mapHeader l).length := by
  rw [mapHeader]
  split_ifs <;> simp

/-- What comes after a header takes less fuel. -/
theorem exists_fuel {α : Type} {header : Bytes} {code : α → Bytes} {as : List α} (hpos : 0 < header.length)
    (h : (header ++ as.flatMap code).length ≤ fuel) : ∃ n, fuel = n + 1 ∧ ∀ a ∈ as, (code a).length ≤ n := by
  rw [length_append] at h
  obtain ⟨n, rfl⟩ := Nat.exists_eq_succ_of_ne_zero (show fuel ≠ 0 by omega)
  refine ⟨n, rfl, fun a ha => ?_⟩
  have hle := length_le_flatMap_of_mem code ha
  omega

theorem fuel_of_array (h : (pack false (.array items)).length ≤ fuel) :
    ∃ n, fuel = n + 1 ∧ ∀ v ∈ items, (pack false v).length ≤ n := by
  rw [pack, packItems_eq] at h
  exact exists_fuel (arrayHeader_pos _) h

theorem fuel_of_map (h : (pack false (.map entries)).length ≤ fuel) :
    ∃ n, fuel = n + 1 ∧ ∀ e ∈ entries, (pack false e.1).length ≤ n ∧ (pack false e.2).length ≤ n := by
  rw [pack, packEntries_eq, if_neg Bool.false_ne_true, flatMap_map] at h
  obtain ⟨n, hn, hle⟩ := exists_fuel (mapHeader_pos _) h
  refine ⟨n, hn, fun e he => ?_⟩
  have hboth := hle e he
  rw [length_append] at hboth
  dsimp only at hboth
  omega

theorem reads_tree (h : Tree (· < 2 ^ 32) v) (fuel : Nat) (hfuel : (pack false v).length ≤ fuel) :
    Reads (unpackValue fuel) (pack false v) (normal v) := by
  induction h generalizing fuel with
  | nil => exact reads_of_leaf (fun _ => reads_value (reads_pure _)) hfuel
  | bool b => cases b <;> exact reads_of_leaf (fun _ => reads_value (reads_pure _)) hfuel
  | int i => exact reads_of_leaf (fun _ => reads_int i) hfuel
  | uint n => exact reads_of_leaf (fun _ => reads_uint n) hfuel
  | float64 bits => exact reads_of_leaf (fun _ => reads_float64 bits) hfuel
  | str hs => exact reads_of_leaf (fun _ => reads_str hs) hfuel
  | bin hb => exact reads_of_leaf (fun _ => reads_bin hb) hfuel
  | array hcount hitems ih =>
    obtain ⟨n, rfl, hle⟩ := fuel_of_array hfuel
    rw [normal, normalItems_eq]
    exact reads_array hcount fun v hv => ih v hv n (hle v hv)
  | map hcount hkeys hdistinct hvalues ih =>
    obtain ⟨n, rfl, hle⟩ := fuel_of_map hfuel
    rw [normal, normalEntries_eq]
    refine reads_entries hcount (fun e he => ⟨?_, (reads_key (hkeys e he) 0).2⟩) ?_ fun e he => ih e he n (hle e he).2
    · exact reads_of_leaf (fun fuel => (reads_key (hkeys e he) fuel).1) (hle e he).1
    · refine (pairwise_map.mp hdistinct).imp_of_mem fun he he' hne => ?_
      exact keyEqual_normal (hkeys _ he) (hkeys _ he') hne

theorem unpack_tree (h : Tree (· < 2 ^ 32) v) : unpack (pack false v) = .ok (normal v) := by
  have hread := reads_tree h ((pack false v).length + 1) (Nat.le_succ _) []
  rw [append_nil] at hread
  rw [unpack, hread]
  rfl

/-- `Unpack` of what `Pack` writes gives the value back and leaves the rest. -/
theorem unpackReader_pack {v : Value} (h : Tree (· < 2 ^ 32) v) (rest : Bytes) :
    unpackReader (pack false v ++ rest) = .ok (normal v, rest) := by
  refine reads_tree h _ ?_ rest
  rw [List.length_append]
  omega

theorem unpackReader_overlong (h : items.length = 2 ^ 32) :
    unpackReader (pack false (.array items)) = .ok (.array [], items.flatMap (pack false)) := by
  have hheader : arrayHeader items.length = 0xdd :: beBytes 4 0 := by
    rw [h]
    decide
  have hempty : ∀ fuel, Reads (unpackArray (unpackValue fuel) 0) [] (.array []) := fun fuel =>
    .remaining_bind fun n _ => (reads_ensure _ (Nat.zero_le n)).bind (reads_pure _)
  have hread : ∀ fuel, Reads (unpackValue (fuel + 1)) (0xdd :: (beBytes 4 0 ++ [])) (.array []) := fun fuel =>
    reads_value ((reads_readUint (by decide) (by decide)).bind (hempty fuel))
  rw [pack, packItems_eq, hheader]
  exact hread _ _

end

namespace Sample

def tree : Value :=
  .map [(.str [97], .array [.int (-1), .uint 5, .uint 200, .map [(.int 7, .nil), (.uint 200, .bool true)]]),
    (.int 5, .float64 0x7ff8000000000000), (.int (-9223372036854775808), .bin [0xc0]), (.uint 0xffffffffffffffff, .str [])]

theorem tree_tree : Tree (· < 2 ^ 32) tree := by
  have hinner : Tree (· < 2 ^ 32) (.map [(.int 7, .nil), (.uint 200, .bool true)]) := by
    refine .map (by decide) (fun e he => ?_) (by decide +kernel) fun e he => ?_
    · simp only [mem_cons, not_mem_nil, or_false] at he
      obtain rfl | rfl := he
      all_goals trivial
    · simp only [mem_cons, not_mem_nil, or_false] at he
      obtain rfl | rfl := he
      · exact .nil
      · exact .bool true
  have harray : Tree (· < 2 ^ 32)
      (.array [.int (-1), .uint 5, .uint 200, .map [(.int 7, .nil), (.uint 200, .bool true)]]) := by
    refine .array (by decide) fun v hv => ?_
    simp only [mem_cons, not_mem_nil, or_false] at hv
    obtain rfl | rfl | rfl | rfl := hv
    · exact .int _
    · exact .uint _
    · exact .uint _
    · exact hinner
  refine .map (by decide) (fun e he => ?_) (by decide +kernel) fun e he => ?_
  · simp only [mem_cons, not_mem_nil, or_false] at he
    obtain rfl | rfl | rfl | rfl := he
    · exact show 1 < 2 ^ 32 by decide
    all_goals trivial
  · simp only [mem_cons, not_mem_nil, or_false] at he
    obtain rfl | rfl | rfl | rfl := he
    · exact harray
    · exact .float64 _
    · exact .bin (by decide)
    · exact .str (by decide)

end Sample

theorem tree_read_back : unpackReader (pack false Sample.tree ++ [0xc1]) = .ok (normal Sample.tree, [0xc1]) :=
  unpackReader_pack Sample.tree_tree [0xc1]

/-- An array of so many elements is read back as an empty one. -/
theorem overlong_truncated : Tree (fun _ => True) (.array (List.replicate (2 ^ 32) .nil)) ∧
    unpack (pack false (.array (List.replicate (2 ^ 32) .nil))) = .ok (.array []) ∧
    normal (.array (List.replicate (2 ^ 32) .nil)) ≠ .array [] := by
  refine ⟨.array trivial fun v hv => ?_, ?_, fun h => ?_⟩
  · rw [List.eq_of_mem_replicate hv]
    exact .nil
  · rw [unpack, ← unpackReader, unpackReader_overlong List.length_replicate]
    rfl
  · rw [normal, normalItems_eq, Value.array.injEq, List.map_eq_nil_iff] at h
    have hlength := congrArg List.length h
    rw [List.length_replicate] at hlength
    cases hlength

end Reticulum.Msgpack
