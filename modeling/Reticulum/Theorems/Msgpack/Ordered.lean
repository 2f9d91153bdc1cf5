import Reticulum.Msgpack.Ordered
import Reticulum.Theorems.Msgpack

/-! # Reading and writing ordered maps

An array as a key becomes its encoding. -/

namespace Reticulum.Msgpack

open Parse List

/-- A value in its shortest encoding: small numbers are not unsigned, lengths have room, no map is a key. -/
inductive Canonical : Value → Prop
  | nil : Canonical .nil
  | bool (b : Bool) : Canonical (.bool b)
  | int (i : Int64) : Canonical (.int i)
  | uint {n : UInt64} (hn : 127 < n.toNat) : Canonical (.uint n)
  | float32 (bits : UInt32) : Canonical (.float32 bits)
  | float64 (bits : UInt64) : Canonical (.float64 bits)
  | str {s : Bytes} (hs : s.length < 2 ^ 32) : Canonical (.str s)
  | bin {b : Bytes} (hb : b.length < 2 ^ 32) : Canonical (.bin b)
  | ext (type : Int8) {data : Bytes} (hdata : data.length < 2 ^ 32) : Canonical (.ext type data)
  | array {items : List Value} (hlen : items.length < 2 ^ 32) (hitems : ∀ v ∈ items, Canonical v) :
    Canonical (.array items)
  | map {entries : List (Value × Value)} (hlen : entries.length < 2 ^ 32) (hkeys : ∀ e ∈ entries, Canonical e.1)
    (hmaps : ∀ e ∈ entries, ∀ es, e.1 ≠ .map es) (hvalues : ∀ e ∈ entries, Canonical e.2) : Canonical (.map entries)

/-! ### What is read -/

section

variable {key : Value → Parser Error Value} {item : Parser Error Value} {fuel : Nat}
variable {s : Bytes} {v : Value} {b : UInt8}

theorem Reads.ordered_length_pos (h : Reads (unpackOrderedValue key fuel) s v) : 0 < s.length := by
  refine length_pos_iff.mpr ?_
  rintro rfl
  have hnil := h []
  cases fuel with
  | zero | succ fuel => cases hnil

theorem unpackOrderedAs_fixmap {l : Nat} (h : l < 16) :
    unpackOrderedAs key item (UInt8.ofNat (0x80 + l)) = unpackOrderedMap key item l := by
  have hb : (UInt8.ofNat (0x80 + l)).toNat = 0x80 + l := UInt8.toNat_ofNat_of_lt' (show 0x80 + l < 256 by omega)
  have hrange : 0x80 ≤ UInt8.ofNat (0x80 + l) ∧ UInt8.ofNat (0x80 + l) ≤ 0x8f := by
    rw [UInt8.le_iff_toNat_le, UInt8.le_iff_toNat_le, hb]
    exact ⟨Nat.le_add_right _ _, by simp; omega⟩
  rw [unpackOrderedAs, if_pos hrange, hb, Nat.add_sub_cancel_left]

theorem unpackOrderedAs_fixarray {l : Nat} (h : l < 16) :
    unpackOrderedAs key item (UInt8.ofNat (0x90 + l)) = unpackArray item l := by
  have hb : (UInt8.ofNat (0x90 + l)).toNat = 0x90 + l := UInt8.toNat_ofNat_of_lt' (show 0x90 + l < 256 by omega)
  have hne : ∀ {c : UInt8}, 0xa0 ≤ c.toNat → UInt8.ofNat (0x90 + l) ≠ c := by
    rintro c hc rfl
    omega
  have hrange : ¬(0x80 ≤ UInt8.ofNat (0x90 + l) ∧ UInt8.ofNat (0x90 + l) ≤ 0x8f) := by
    rw [UInt8.le_iff_toNat_le, UInt8.le_iff_toNat_le, hb]
    simp
    omega
  rw [unpackOrderedAs, if_neg hrange, if_neg (hne (by decide)), if_neg (hne (by decide)), unpackAs_fixarray h]

def Value.IsLeaf : Value → Prop
  | .array _ | .map _ => False
  | _ => True

theorem yields_unpackArray (l : Nat) : Yields (unpackArray item l) fun v => ¬v.IsLeaf := by
  refine Yields.after fun n => Yields.after fun _ => Yields.after fun items => yields_pure id

theorem yields_unpackMap (l : Nat) : Yields (unpackMap item l) fun v => ¬v.IsLeaf := by
  refine Yields.after fun n => Yields.after fun _ => Yields.after fun items => yields_pure id

theorem unpackAs_congr {item' : Parser Error Value} (hfix : ¬(0x80 ≤ b ∧ b ≤ 0x9f))
    (hcodes : b ∉ [0xdc, 0xdd, 0xde, 0xdf]) : unpackAs item' b = unpackAs item b := by
  simp only [mem_cons, not_mem_nil, or_false, not_or] at hcodes
  have hle : ∀ {c : UInt8}, ¬b ≤ 0x7f → c ≤ 0x9f → ¬b ≤ c := fun h7 hc hbc =>
    hfix ⟨by rw [UInt8.le_iff_toNat_le] at h7 ⊢; simp at h7 ⊢; omega, UInt8.le_trans hbc hc⟩
  unfold unpackAs
  by_cases h7 : b ≤ 0x7f
  · rw [if_pos h7, if_pos h7]
  · simp only [if_neg h7, if_neg (hle h7 (by decide : (0x8f : UInt8) ≤ 0x9f)),
      if_neg (hle h7 (by decide : (0x9f : UInt8) ≤ 0x9f)), if_neg hcodes.1, if_neg hcodes.2.1, if_neg hcodes.2.2.1, if_neg hcodes.2.2.2]

theorem unpackAs_not_leaf (h : 0x80 ≤ b ∧ b ≤ 0x9f ∨ b ∈ [0xdc, 0xdd, 0xde, 0xdf]) :
    Yields (unpackAs item b) fun v => ¬v.IsLeaf := by
  rcases h with ⟨hlow, hhigh⟩ | h
  · have h7 : ¬b ≤ 0x7f := by
      rw [UInt8.le_iff_toNat_le] at hlow ⊢
      simp at hlow ⊢
      omega
    rw [unpackAs, if_neg h7, if_pos hhigh]
    exact (yields_unpackMap _).ite (yields_unpackArray _)
  · simp only [mem_cons, not_mem_nil, or_false] at h
    rcases h with rfl | rfl | rfl | rfl
    · exact Yields.after fun l => yields_unpackArray l
    · exact Yields.after fun l => yields_unpackArray l
    · exact Yields.after fun l => yields_unpackMap l
    · exact Yields.after fun l => yields_unpackMap l

theorem unpackOrderedAs_of_leaf {rest : Bytes} {item' : Parser Error Value}
    (h : unpackAs item b s = .ok (v, rest)) (hv : v.IsLeaf) : unpackOrderedAs key item' b s = .ok (v, rest) := by
  have hcode : ¬(0x80 ≤ b ∧ b ≤ 0x9f ∨ b ∈ [0xdc, 0xdd, 0xde, 0xdf]) := fun hcode => unpackAs_not_leaf hcode s v rest h hv
  rw [not_or] at hcode
  obtain ⟨hfix, hcodes⟩ := hcode
  have hmap : ¬(0x80 ≤ b ∧ b ≤ 0x8f) := fun hb => hfix ⟨hb.1, UInt8.le_trans hb.2 (by decide)⟩
  rw [unpackOrderedAs, if_neg hmap, if_neg fun hb => hcodes (by simp [hb]), if_neg fun hb => hcodes (by simp [hb]),
    unpackAs_congr hfix hcodes]
  exact h

theorem reads_leaf (h : ∀ fuel, Reads (unpackValue (fuel + 1)) s v) (hv : v.IsLeaf)
    (hfuel : s.length ≤ fuel) : Reads (unpackOrderedValue key fuel) s v := by
  have hpos := Reads.length_pos (h 0)
  obtain ⟨n, rfl⟩ := Nat.exists_eq_succ_of_ne_zero (show fuel ≠ 0 by omega)
  intro rest
  have hread := h n rest
  cases s with
  | nil => cases hpos
  | cons b s => exact unpackOrderedAs_of_leaf hread hv

theorem reads_ext (type : Int8) {data : Bytes} (h : data.length < 2 ^ 32) :
    Reads (unpackValue (fuel + 1)) (packExt type data) (.ext type data) := by
  have hbody : Reads (unpackExt data.length) (type.toUInt8 :: data) (.ext type data) := by
    have hread : Reads (unpackExt data.length) (type.toUInt8 :: data) (.ext type.toUInt8.toInt8 data) :=
      (reads_byteAt Error.eof type.toUInt8).bind ((reads_take Error.unexpectedEOF data).bind_nil (reads_pure _))
    rwa [Int8.toInt8_toUInt8] at hread
  rw [packExt]
  split_ifs with h1 h2 h4 h8 h16 h256 h65536
  · rw [h1] at hbody
    exact reads_value hbody
  · rw [h2] at hbody
    exact reads_value hbody
  · rw [h4] at hbody
    exact reads_value hbody
  · rw [h8] at hbody
    exact reads_value hbody
  · rw [h16] at hbody
    exact reads_value hbody
  all_goals exact reads_value ((reads_readUint (by decide) (by omega)).bind hbody)

end

/-! ### Canonical values -/

section

variable {change : Value → Value} {v w : Value}
variable {k : Value}

theorem mapKeysItems_eq (items : List Value) : mapKeysItems change items = items.map (mapKeys change) :=
  eq_map rfl (fun _ _ => rfl) items

theorem mapKeysEntries_eq (entries : List (Value × Value)) :
    mapKeysEntries change entries = entries.map fun e => (change (mapKeys change e.1), mapKeys change e.2) :=
  eq_map rfl (fun _ _ => rfl) entries

theorem mapKeys_ne_map (h : ∀ es, v ≠ .map es) : ∀ es, mapKeys change v ≠ .map es := by
  intro es heq
  cases v with
  | map entries => exact h entries rfl
  | _ => cases heq

theorem reads_canonical {key : Value → Parser Error Value}
    (hkey : ∀ k, (∀ es, k ≠ .map es) → key k = pure (change k)) (h : Canonical v) (fuel : Nat)
    (hfuel : (pack false v).length ≤ fuel) : Reads (unpackOrderedValue key fuel) (pack false v) (mapKeys change v) := by
  induction h generalizing fuel with
  | nil => exact reads_leaf (fun _ => reads_value (reads_pure _)) trivial hfuel
  | bool b => cases b <;> exact reads_leaf (fun _ => reads_value (reads_pure _)) trivial hfuel
  | int i => exact reads_leaf (fun _ => reads_int i) trivial hfuel
  | @uint n hn =>
    have hunsigned : unsigned n = .uint n := if_neg (Nat.not_le.mpr hn)
    have hread : ∀ fuel, Reads (unpackValue (fuel + 1)) (packUint n.toNat) (.uint n) := fun fuel => by
      rw [← hunsigned]
      exact reads_uint n
    exact reads_leaf hread trivial hfuel
  | float32 bits =>
    refine reads_leaf (fun _ => reads_value ?_) trivial hfuel
    have hread := (reads_readUint (k := 4) (by decide) bits.toNat_lt).map fun n => Value.float32 (UInt32.ofNat n)
    rwa [UInt32.ofNat_toNat] at hread
  | float64 bits => exact reads_leaf (fun _ => reads_float64 bits) trivial hfuel
  | str hs => exact reads_leaf (fun _ => reads_str hs) trivial hfuel
  | bin hb => exact reads_leaf (fun _ => reads_bin hb) trivial hfuel
  | ext type hdata => exact reads_leaf (fun _ => reads_ext type hdata) trivial hfuel
  | array hlen hitems ih =>
    obtain ⟨n, rfl, hle⟩ := fuel_of_array hfuel
    rw [mapKeys, mapKeysItems_eq, pack, packItems_eq]
    refine reads_header hlen unpackOrderedAs_fixarray rfl rfl (reads_unpackArray fun v hv => ?_)
    have hread := ih v hv n (hle v hv)
    exact ⟨hread, Reads.ordered_length_pos hread⟩
  | @map entries hlen hkeys hmaps hvalues ihkeys ihvalues =>
    obtain ⟨n, rfl, hle⟩ := fuel_of_map hfuel
    have hreads : ∀ e ∈ entries, Reads (unpackOrderedValue key n) (pack false e.1) (mapKeys change e.1) ∧
        Reads (unpackOrderedValue key n) (pack false e.2) (mapKeys change e.2) :=
      fun e he => ⟨ihkeys e he n (hle e he).1, ihvalues e he n (hle e he).2⟩
    have hentry : ∀ e ∈ entries, Reads (unpackOrderedEntry key (unpackOrderedValue key n))
        (pack false e.1 ++ pack false e.2) (change (mapKeys change e.1), mapKeys change e.2) := by
      intro e he
      refine ((hreads e he).1.bind_nil (f := key) ?_).bind ((hreads e he).2.bind_nil (reads_pure _))
      rw [hkey _ (mapKeys_ne_map (hmaps e he))]
      exact reads_pure _
    rw [mapKeys, mapKeysEntries_eq, pack, packEntries_eq, if_neg Bool.false_ne_true, flatMap_map]
    refine reads_header hlen unpackOrderedAs_fixmap rfl rfl
      (@reads_times_entries _ entries _ _ (fun k => change (mapKeys change k)) (mapKeys change) .map hentry fun e he => ?_)
    exact ⟨Reads.ordered_length_pos (hreads e he).1, Reads.ordered_length_pos (hreads e he).2⟩

theorem orderedKey_eq (h : ∀ es, k ≠ .map es) : orderedKey k = pure (hashableKey k) := by
  cases k with
  | map es => exact absurd rfl (h es)
  | _ => rfl

theorem unpackOrdered_pack (h : Canonical v) (rest : Bytes) :
    unpackOrdered (pack false v ++ rest) = .ok (mapKeys hashableKey v) := by
  have hread := reads_canonical (fun _ => orderedKey_eq) h ((pack false v ++ rest).length + 1)
    (by rw [length_append]; omega) rest
  rw [unpackOrdered, hread]
  rfl

theorem unpackStrictOrdered_pack (h : Canonical v) : unpackStrictOrdered (pack false v) = some (mapKeys hashableKey v) := by
  have hread := reads_canonical (fun _ => orderedKey_eq) h ((pack false v).length + 1) (Nat.le_succ _) []
  rw [append_nil] at hread
  rw [unpackStrictOrdered, hread]

theorem map_eq_self_iff {α : Type} {f : α → α} {as : List α} : as.map f = as ↔ ∀ a ∈ as, f a = a := by
  conv_lhs => rhs; rw [← map_id as]
  exact map_inj_left

theorem mapKeys_eq_self (h : Canonical v) : mapKeys id v = v := by
  induction h with
  | array hlen hitems ih =>
    rw [mapKeys, mapKeysItems_eq, Value.array.injEq]
    exact map_eq_self_iff.mpr ih
  | @map entries hlen hkeys hmaps hvalues ihkeys ihvalues =>
    rw [mapKeys, mapKeysEntries_eq, Value.map.injEq]
    exact map_eq_self_iff.mpr fun e he => Prod.ext (ihkeys e he) (ihvalues e he)
  | _ => rfl

theorem pack_injective (hv : Canonical v) (hw : Canonical w) (h : pack false v = pack false w) : v = w := by
  have hread : ∀ {u}, Canonical u →
      unpackOrderedValue pure (pack false u).length (pack false u ++ []) = .ok (u, []) := by
    intro u hu
    have hread : Reads (unpackOrderedValue pure (pack false u).length) (pack false u) (mapKeys id u) :=
      reads_canonical (fun _ _ => rfl) hu _ le_rfl
    rw [mapKeys_eq_self hu] at hread
    exact hread []
  have hboth := (hread hv).symm.trans ((congrArg₂ _ (congrArg _ h) (congrArg₂ _ h rfl)).trans (hread hw))
  exact (Prod.mk.inj (Except.ok.inj hboth)).1

/-! ### Keys that are byte strings -/

def Value.isBin : Value → Bool
  | .bin _ => true
  | _ => false

mutual

def hasBinKey : Value → Bool
  | .array items => hasBinKeyItems items
  | .map entries => hasBinKeyEntries entries
  | _ => false

def hasBinKeyItems : List Value → Bool
  | [] => false
  | v :: items => hasBinKey v || hasBinKeyItems items

def hasBinKeyEntries : List (Value × Value) → Bool
  | [] => false
  | (k, v) :: entries => k.isBin || hasBinKey k || hasBinKey v || hasBinKeyEntries entries

end

theorem hasBinKeyItems_eq_false {items : List Value} :
    hasBinKeyItems items = false ↔ ∀ v ∈ items, hasBinKey v = false := by
  induction items with
  | nil => simp [hasBinKeyItems]
  | cons v items ih => simp [hasBinKeyItems, ih]

theorem hasBinKeyEntries_eq_false {entries : List (Value × Value)} : hasBinKeyEntries entries = false ↔
    ∀ e ∈ entries, (e.1.isBin = false ∧ hasBinKey e.1 = false) ∧ hasBinKey e.2 = false := by
  induction entries with
  | nil => simp [hasBinKeyEntries]
  | cons e entries ih => simp [hasBinKeyEntries, ih, and_assoc]

theorem canonical_stringKey (h : Canonical k) : Canonical (stringKey k) := by
  cases h with
  | bin hb => exact .str hb
  | _ => constructor <;> assumption

theorem stringKey_ne_map (h : ∀ es, k ≠ .map es) : ∀ es, stringKey k ≠ .map es := by
  intro es heq
  cases k with
  | map entries => exact h entries rfl
  | _ => cases heq

theorem canonical_stringKeys (h : Canonical v) : Canonical (mapKeys stringKey v) := by
  induction h with
  | @array items hlen hitems ih =>
    rw [mapKeys, mapKeysItems_eq]
    refine .array (by rwa [length_map]) fun u hu => ?_
    obtain ⟨u, hmem, rfl⟩ := mem_map.mp hu
    exact ih u hmem
  | @map entries hlen hkeys hmaps hvalues ihkeys ihvalues =>
    rw [mapKeys, mapKeysEntries_eq]
    refine .map (by rwa [length_map]) (fun e he => ?_) (fun e he => ?_) fun e he => ?_
    all_goals obtain ⟨e, hmem, rfl⟩ := mem_map.mp he
    · exact canonical_stringKey (ihkeys e hmem)
    · exact stringKey_ne_map (mapKeys_ne_map (hmaps e hmem))
    · exact ihvalues e hmem
  | _ => constructor <;> assumption

theorem stringKey_eq_iff : stringKey (mapKeys stringKey k) = k ↔ k.isBin = false ∧ mapKeys stringKey k = k := by
  cases k <;> simp [mapKeys, stringKey, Value.isBin]

theorem stringKeys_eq_iff (h : Canonical v) : mapKeys stringKey v = v ↔ hasBinKey v = false := by
  induction h with
  | @array items hlen hitems ih =>
    rw [mapKeys, mapKeysItems_eq, Value.array.injEq, hasBinKey, hasBinKeyItems_eq_false, map_eq_self_iff]
    exact forall₂_congr ih
  | @map entries hlen hkeys hmaps hvalues ihkeys ihvalues =>
    rw [mapKeys, mapKeysEntries_eq, Value.map.injEq, hasBinKey, hasBinKeyEntries_eq_false, map_eq_self_iff]
    refine forall₂_congr fun e he => Prod.ext_iff.trans (and_congr ?_ (ihvalues e he))
    exact stringKey_eq_iff.trans (and_congr_right fun _ => ihkeys e he)
  | _ => exact iff_of_true rfl rfl

/-- Written again, keys that are arrays are their encodings, and keys that are byte strings are strings. -/
theorem repack_read (h : Canonical v) : repack (mapKeys hashableKey v) = pack false (mapKeys stringKey v) := by
  induction h with
  | @array items hlen hitems ih =>
    simp only [repack, mapKeys, mapKeysItems_eq, pack, packItems_eq, length_map, flatMap_map] at ih ⊢
    exact congrArg _ (flatMap_congr fun v hv => ih v hv)
  | @map entries hlen hkeys hmaps hvalues ihkeys ihvalues =>
    simp only [repack, mapKeys, mapKeysEntries_eq, pack, packEntries_eq, length_map, map_map, flatMap_map,
      Bool.false_eq_true, if_false, Function.comp_apply]
    refine congrArg _ (flatMap_congr fun e he => congrArg₂ _ ?_ (ihvalues e he))
    have hkey := ihkeys e he
    generalize e.1 = k at hkey ⊢
    cases k with
    | array | map => exact hkey
    | _ => rfl
  | _ => rfl

theorem repack_read_eq_iff (h : Canonical v) : repack (mapKeys hashableKey v) = pack false v ↔ hasBinKey v = false := by
  rw [repack_read h, ← stringKeys_eq_iff h]
  exact ⟨pack_injective (canonical_stringKeys h) h, congrArg _⟩

end

end Reticulum.Msgpack
