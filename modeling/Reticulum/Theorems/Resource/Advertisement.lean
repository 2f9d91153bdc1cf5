import Reticulum.Resource.Basic
import Reticulum.Theorems.Msgpack

/-! # The receiver reads the advertisement that the sender wrote -/

namespace Reticulum

open Parse List Msgpack

theorem flatten_slices (size count : Nat) (b : Bytes) : (slices size count b).flatten = b.take (count * size) := by
  induction count with
  | zero => simp [slices]
  | succ count ih =>
    have hsucc : slices size (count + 1) b = slices size count b ++ [(b.drop (count * size)).take size] := by
      simp [slices, range_succ]
    rw [hsucc, flatten_append, ih, flatten_singleton, Nat.succ_mul, take_add]

theorem slices_flatten {size : Nat} {bs : List Bytes} (h : ∀ b ∈ bs, b.length = size) (rest : Bytes) :
    slices size bs.length (bs.flatten ++ rest) = bs := by
  induction bs with
  | nil => rfl
  | cons b bs ih =>
    have hb := h b mem_cons_self
    have hdrop : ∀ i, ((b :: bs).flatten ++ rest).drop ((i + 1) * size) = (bs.flatten ++ rest).drop (i * size) := by
      intro i
      rw [flatten_cons, append_assoc, Nat.succ_mul, Nat.add_comm, ← drop_drop, drop_left' hb]
    have hhead : (((b :: bs).flatten ++ rest).drop (0 * size)).take size = b := by
      rw [Nat.zero_mul, drop_zero, flatten_cons, append_assoc, take_left' hb]
    rw [slices, length_cons, range_succ_eq_map, map_cons, map_map, hhead]
    have hrest := ih fun c hc => h c (mem_cons_of_mem b hc)
    refine congrArg (b :: ·) (Eq.trans (map_congr_left fun i _ => ?_) hrest)
    rw [Function.comp_apply, hdrop]

theorem flatten_segments {sdu : Nat} (hsdu : 0 < sdu) (data : Bytes) : (segments sdu data).flatten = data := by
  rw [segments, flatten_slices]
  refine take_of_length_le ?_
  have hdiv := Nat.div_add_mod (data.length + sdu - 1) sdu
  have hmod := Nat.mod_lt (data.length + sdu - 1) hsdu
  rw [Nat.mul_comm]
  omega

theorem resourceSdu_pos (mtu mdu : Int) : 0 < resourceSdu mtu mdu := by
  rw [resourceSdu]
  split_ifs <;> omega

namespace ResourceAdvertisement

variable {adv : ResourceAdvertisement}

/-- What `Unpack` gives for a value of the advertisement. -/
def decoded : Msgpack.Value → Msgpack.Value
  | .uint n => Msgpack.unsigned n
  | v => v

structure Fits (adv : ResourceAdvertisement) : Prop where
  h : adv.h.length < 2 ^ 32
  r : adv.r.length < 2 ^ 32
  o : adv.o.length < 2 ^ 32
  q : adv.q.length < 2 ^ 32
  m : adv.m.length < 2 ^ 32

theorem length_key {e : Bytes × Value} (he : e ∈ adv.entries) : e.1.length = 1 := by
  simp only [entries, mem_cons, not_mem_nil, or_false] at he
  rcases he with rfl | rfl | rfl | rfl | rfl | rfl | rfl | rfl | rfl | rfl | rfl <;> rfl

theorem Fits.reads (hfits : adv.Fits) {fuel : Nat} {e : Bytes × Value} (he : e ∈ adv.entries) :
    Reads (Msgpack.unpackValue (fuel + 1)) (Msgpack.pack false e.2) (decoded e.2) := by
  simp only [entries, mem_cons, not_mem_nil, or_false] at he
  rcases he with rfl | rfl | rfl | rfl | rfl | rfl | rfl | rfl | rfl | rfl | rfl
  · exact reads_int _
  · exact reads_int _
  · exact reads_int _
  · exact reads_bin hfits.h
  · exact reads_bin hfits.r
  · exact reads_bin hfits.o
  · exact reads_int _
  · exact reads_int _
  · exact reads_bin hfits.q
  · exact reads_uint _
  · exact reads_bin hfits.m

theorem nodup_keys (adv : ResourceAdvertisement) : (adv.entries.map Prod.fst).Nodup := by
  simp only [entries, map_cons, map_nil]
  decide

section

variable {es : List (Bytes × Msgpack.Value)} (hnodup : (es.map Prod.fst).Nodup) {key : Bytes}
include hnodup

theorem getVal_of_mem {v : Value} (hmem : (key, v) ∈ es) :
    getVal (es.map fun e => (.str e.1, decoded e.2)) key = decoded v := by
  induction es with
  | nil => cases hmem
  | cons e es ih =>
    obtain ⟨hfresh, hnodup⟩ := nodup_cons.mp hnodup
    rcases mem_cons.mp hmem with rfl | hmem
    · simp [getVal, keyEqual_str]
    · have hne : e.1 ≠ key := by
        intro heq
        exact hfresh (mem_map.mpr ⟨(key, v), hmem, heq.symm⟩)
      rw [← ih hnodup hmem]
      simp [getVal, keyEqual_str, hne]

theorem getInt_of_mem {i : Int64} (hmem : (key, .int i) ∈ es) :
    getInt (es.map fun e => (.str e.1, decoded e.2)) key = i := by
  rw [getInt, getVal_of_mem hnodup hmem]
  rfl

theorem getBytes_of_mem {b : Bytes} (hmem : (key, .bin b) ∈ es) :
    getBytes (es.map fun e => (.str e.1, decoded e.2)) key = some b := by
  rw [getBytes, getVal_of_mem hnodup hmem]
  rfl

end

section

variable (adv : ResourceAdvertisement)

theorem flags_le : adv.flags ≤ 0x3f := by
  rw [flags]
  cases adv.encrypted <;> cases adv.compressed <;> cases adv.split <;> cases adv.isRequest <;>
    cases adv.isResponse <;> cases adv.hasMetadata <;> decide

theorem flags_bits :
    decide (adv.flags &&& 0x01 ≠ 0) = adv.encrypted ∧ decide (adv.flags &&& 0x02 ≠ 0) = adv.compressed ∧
      decide (adv.flags &&& 0x04 ≠ 0) = adv.split ∧ decide (adv.flags &&& 0x08 ≠ 0) = adv.isRequest ∧
      decide (adv.flags &&& 0x10 ≠ 0) = adv.isResponse ∧ decide (adv.flags &&& 0x20 ≠ 0) = adv.hasMetadata := by
  rw [flags]
  cases adv.encrypted <;> cases adv.compressed <;> cases adv.split <;> cases adv.isRequest <;>
    cases adv.isResponse <;> cases adv.hasMetadata <;> decide

theorem decoded_flags :
    decoded (.uint adv.flags.toUInt64) = .int (Int64.ofNat adv.flags.toNat) := by
  have hle := UInt8.le_iff_toNat_le.mp adv.flags_le
  have hnat : adv.flags.toUInt64.toNat = adv.flags.toNat := UInt8.toNat_toUInt64 _
  rw [decoded, unsigned, hnat, if_pos (hle.trans (by decide))]

theorem toUInt8_flags (f : UInt8) : (Int64.ofNat f.toNat).toUInt64.toUInt8 = f := by
  rw [Int64.toUInt64_ofNat', UInt64.toUInt8_ofNat']
  exact UInt8.ofNat_toNat

def CountAccepted : Prop :=
  ¬(adv.n < 0 ∨ adv.n.toInt > resourceMaxParts) ∧ ¬(adv.t > 0 ∧ adv.n > adv.t)

end

instance : Decidable adv.CountAccepted := inferInstanceAs (Decidable (_ ∧ _))

theorem unpack_pack (hfits : adv.Fits) {es : List (Bytes × Value)} (hes : es.Perm adv.entries) :
    unpack (pack es) = if adv.CountAccepted then some adv else none := by
  have hnodup := (hes.map Prod.fst).nodup_iff.mpr adv.nodup_keys
  have hlen : es.length < 2 ^ 32 := by
    rw [hes.length_eq]
    exact Nat.lt_of_le_of_lt (Nat.le_refl 11) (by decide)
  have hkeys : ∀ e ∈ es, e.1.length < 2 ^ 32 := by
    intro e he
    rw [length_key (hes.mem_iff.mp he)]
    decide
  have hread : Msgpack.unpack (pack es) = .ok (.map (es.map fun e => (.str e.1, decoded e.2))) :=
    unpack_of_reads fun _ => reads_map hlen hnodup hkeys fun _ he => hfits.reads (hes.mem_iff.mp he)
  have hmem : ∀ {e}, e ∈ adv.entries → e ∈ es := fun he => hes.mem_iff.mpr he
  have hf : getInt (es.map fun e => (.str e.1, decoded e.2)) [0x66] = Int64.ofNat adv.flags.toNat := by
    rw [getInt, getVal_of_mem hnodup (hmem (e := ([0x66], .uint adv.flags.toUInt64)) (by simp [entries])),
      decoded_flags]
  obtain ⟨h1, h2, h3, h4, h5, h6⟩ := adv.flags_bits
  rw [unpack, hread]
  simp only [getBytes_of_mem hnodup (hmem (e := ([0x68], .bin adv.h)) (by simp [entries])),
    getBytes_of_mem hnodup (hmem (e := ([0x72], .bin adv.r)) (by simp [entries])),
    getBytes_of_mem hnodup (hmem (e := ([0x6f], .bin adv.o)) (by simp [entries])),
    getBytes_of_mem hnodup (hmem (e := ([0x71], .bin adv.q)) (by simp [entries])),
    getBytes_of_mem hnodup (hmem (e := ([0x6d], .bin adv.m)) (by simp [entries])),
    getInt_of_mem hnodup (hmem (e := ([0x74], .int adv.t)) (by simp [entries])),
    getInt_of_mem hnodup (hmem (e := ([0x64], .int adv.d)) (by simp [entries])),
    getInt_of_mem hnodup (hmem (e := ([0x6e], .int adv.n)) (by simp [entries])),
    getInt_of_mem hnodup (hmem (e := ([0x69], .int adv.i)) (by simp [entries])),
    getInt_of_mem hnodup (hmem (e := ([0x6c], .int adv.l)) (by simp [entries])),
    hf, toUInt8_flags, h1, h2, h3, h4, h5, h6, CountAccepted]
  by_cases hn : adv.n < 0 ∨ adv.n.toInt > resourceMaxParts
  · simp [hn]
  · by_cases ht : adv.t > 0 ∧ adv.n > adv.t
    · simp [hn, ht]
    · simp [hn, ht]

theorem length_pack {es : List (Bytes × Value)} (hes : es.Perm adv.entries) (hh : adv.h.length = 32)
    (hr : adv.r.length = 4) (ho : adv.o.length = 32) (hi : adv.i = 1) (hl : adv.l = 1) :
    (pack es).length = 100 + (packInt adv.t.toInt).length + (packInt adv.d.toInt).length +
      (packInt adv.n.toInt).length + (packBin adv.q).length + (packBin adv.m).length := by
  have hsum : (pack es).length = (pack adv.entries).length := by
    simp only [pack, Msgpack.pack, packEntries_eq, if_neg Bool.false_ne_true, map_map, flatMap_map, length_append,
      length_map, length_flatMap, hes.length_eq]
    exact congrArg _ (hes.map _).sum_nat
  have hflags : (packUint adv.flags.toNat).length = 1 := by
    rw [packUint, if_pos ((UInt8.le_iff_toNat_le.mp adv.flags_le).trans (by decide)), length_beBytes]
  have hone : (packInt 1).length = 1 := rfl
  have hbin : ∀ b : Bytes, b.length < 256 → (packBin b).length = 2 + b.length := by
    intro b hb
    rw [packBin, if_pos hb, length_append, length_cons, length_beBytes]
  rw [hsum]
  simp [pack, entries, Msgpack.pack, packEntries, mapHeader, packStr, hbin, hh, hr, ho, hi, hl, hflags, hone]
  omega

end ResourceAdvertisement
end Reticulum
