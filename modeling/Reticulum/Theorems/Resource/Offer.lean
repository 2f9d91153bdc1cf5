import Reticulum.Theorems.Resource.Sender

/-! # What a new resource offers: its advertisement and its parts -/

namespace Reticulum

open List Option ResourceAdvertisement

open Msgpack (packInt packBin)

section

variable {z : Bzip2} {token : Token} {mtu mdu : Int} {iv randomHash data requestID : Bytes} {opts : ResourceOptions}
  {isResponse : Bool} {s : Resource} {es : List (Bytes × Msgpack.Value)}

theorem length_segments_le {sdu : Nat} (hsdu : 0 < sdu) (stream : Bytes) :
    (segments sdu stream).length ≤ stream.length := by
  rw [segments, slices, length_map, length_range]
  refine Nat.le_of_lt_succ ((Nat.div_lt_iff_lt_mul hsdu).mpr ?_)
  have hmul : stream.length ≤ stream.length * sdu := Nat.le_mul_of_pos_right _ hsdu
  rw [Nat.succ_mul]
  omega

theorem countAccepted_iff {adv : ResourceAdvertisement} {n size : Nat} (hn : adv.n = Int64.ofNat n)
    (hsize : adv.t = Int64.ofNat size) (hle : n ≤ size) (hlt : size < 2 ^ 63) :
    adv.CountAccepted ↔ n ≤ resourceMaxParts := by
  rw [CountAccepted, hn, hsize, Int64.lt_iff_toInt_lt, GT.gt, GT.gt, GT.gt, Int64.lt_iff_toInt_lt,
    Int64.lt_iff_toInt_lt, Int64.toInt_ofNat_of_lt hlt, Int64.toInt_ofNat_of_lt (hle.trans_lt hlt)]
  simp only [Int64.toInt_zero]
  omega

variable (hnew : newResource z token mtu mdu iv randomHash data opts = some s)
include hnew

theorem countAccepted_newResource (hsize : s.data.length < 2 ^ 63) :
    (s.setRequest requestID isResponse).advertisement.CountAccepted ↔ s.parts.length ≤ resourceMaxParts := by
  obtain ⟨payload, header, _, _, rfl⟩ := newResource_eq_some hnew
  rw [countAccepted_iff rfl rfl (length_segments_le (resourceSdu_pos mtu mdu) _) hsize]
  rw [outgoingResource, length_map]

section

variable (hrandom : randomHash.length = resourceRandomHashSize)
include hrandom

/-- The receiver reads the advertisement back, in any order of its fields, unless it has too many parts. -/
theorem advertisement_read_iff (hid : requestID.length < 2 ^ 32)
    (hsize : s.data.length < 2 ^ 63) (hes : es.Perm (s.setRequest requestID isResponse).advertisement.entries) :
    unpack (pack es) = some (s.setRequest requestID isResponse).advertisement ↔
      s.parts.length ≤ resourceMaxParts := by
  rw [unpack_pack (fits_advertisement hnew hrandom hid) hes, ← countAccepted_newResource hnew hsize]
  split_ifs with hcount
  · exact iff_of_true rfl hcount
  · exact iff_of_false id hcount

theorem length_advertisement (hes : es.Perm (s.setRequest requestID isResponse).advertisement.entries) :
    (pack es).length = 100 + (packInt s.size.toInt).length + (packInt s.uncompressedSize.toInt).length +
      (packInt (Int64.ofNat s.parts.length).toInt).length + (packBin requestID).length +
      (packBin (flatHashmap (hashmapSegment s.hashmap 0))).length := by
  obtain ⟨payload, header, _, _, rfl⟩ := newResource_eq_some hnew
  have hq : (if requestID = [] then none else some requestID).getD [] = requestID := by
    split_ifs with hid
    · exact hid.symm
    · rfl
  have hpack := length_pack hes (length_fullHash _) hrandom (length_fullHash _) rfl rfl
  rw [outgoingResource, length_map, ← hq]
  exact hpack

/-- An advertisement fits without a request ID; with one just when its three numbers leave room for it. -/
theorem advertisement_fits_iff (hes : es.Perm (s.setRequest requestID isResponse).advertisement.entries) :
    (pack es).length ≤ 431 ↔ requestID = [] ∨
      (packInt s.size.toInt).length + (packInt s.uncompressedSize.toInt).length +
        (packInt (Int64.ofNat s.parts.length).toInt).length + (packBin requestID).length +
        (packBin (flatHashmap (hashmapSegment s.hashmap 0))).length ≤ 331 := by
  have hint : ∀ i, (packInt i).length ≤ 9 := by
    intro i
    rw [packInt]
    split_ifs <;> simp [Msgpack.intBytes]
  have hflat := length_flatSegment_le (length_hashmap hnew) 0
  have hhashmap : (packBin (flatHashmap (hashmapSegment s.hashmap 0))).length ≤ 299 := by
    rw [packBin, length_append]
    split_ifs <;> simp <;> omega
  have hsize := hint s.size.toInt
  have hdata := hint s.uncompressedSize.toInt
  have hparts := hint (Int64.ofNat s.parts.length).toInt
  rw [length_advertisement hnew hrandom hes]
  rcases eq_or_ne requestID [] with rfl | hid
  · have hempty : (packBin []).length = 2 := rfl
    exact iff_of_true (by omega) (.inl rfl)
  · rw [or_iff_right hid]
    omega

end

theorem mapped_newResource : s.Mapped := by
  obtain ⟨payload, header, _, _, rfl⟩ := newResource_eq_some hnew
  intro part hpart
  obtain ⟨bytes, _, rfl⟩ := mem_map.mp hpart
  rfl

/-- Requests are answered with the parts they ask for just when parts with one map hash are far apart and equal. -/
theorem parts_served_iff :
    ((∀ i j, i < j → j < s.parts.length → j ≤ i + collisionGuardSize → s.partHash i ≠ s.partHash j) ∧
      ∀ sender, Resource.Serving s sender → sender.status ≠ .failed → ∀ known items names,
        (∀ i ∈ items, i < s.parts.length) →
        Resource.servedParts (sender.request (s.requestData known items names) fun _ => true).effects =
          items.map s.partData) ↔
      ∀ i j, i < j → j < s.parts.length → s.partHash i = s.partHash j →
        i + collisionGuardSize < j ∧ s.partData i = s.partData j := by
  constructor
  · rintro ⟨hnear, hserved⟩ i j hij hj heq
    refine ⟨Nat.lt_of_not_le fun hle => hnear i j hij hj hle heq, ?_⟩
    have halive : s.status ≠ .failed := by
      obtain ⟨payload, header, _, _, rfl⟩ := newResource_eq_some hnew
      nofun
    have hone := fun k hk => hserved s ⟨rfl, rfl, rfl, rfl⟩ halive 0 [k] false (by simpa using hk)
    have hsame : s.requestData 0 [i] false = s.requestData 0 [j] false := by
      simp [Resource.requestData, heq]
    have hdata := hone i (hij.trans hj)
    rw [hsame, hone j hj] at hdata
    exact (cons.inj hdata).1.symm
  · intro h
    refine ⟨fun i j hij hj hle heq => Nat.not_lt.mpr hle (h i j hij hj heq).1, ?_⟩
    intro sender hserving halive known items names hlt
    refine hserving.servedParts_request (mapped_newResource hnew) (fun i j hi hj heq => ?_) halive known hlt names
    rcases Nat.lt_trichotomy i j with hij | rfl | hij
    · exact (h i j hij hj heq).2
    · rfl
    · exact (h j i hij hi heq.symm).2.symm

end

namespace Sample

def twoParts : Option Resource :=
  newResource bzip2 token 39 0 [] randomHash [5, 6] { autoCompress := false }

theorem two_parts_read : ∃ s, twoParts = some s ∧ unpack (pack (s.setRequest [] false).advertisement.entries) =
      some (s.setRequest [] false).advertisement := by
  obtain ⟨s, hs, hsize, hle⟩ : ∃ s ∈ twoParts, s.data.length < 2 ^ 63 ∧ s.parts.length ≤ resourceMaxParts := by
    decide +kernel
  exact ⟨s, hs, (advertisement_read_iff hs rfl (by decide) hsize (.refl _)).mpr hle⟩

theorem two_parts_served : ∃ s, twoParts = some s ∧ ∀ sender, Resource.Serving s sender → sender.status ≠ .failed →
    Resource.servedParts (sender.request (s.requestData 0 [1] false) fun _ => true).effects = [s.partData 1] := by
  obtain ⟨s, hs, hlen, hne⟩ : ∃ s ∈ twoParts, s.parts.length = 2 ∧ s.partHash 0 ≠ s.partHash 1 := by decide +kernel
  refine ⟨s, hs, fun sender hserving halive => ((parts_served_iff hs).mpr ?_).2 sender hserving halive 0 [1] false ?_⟩
  · intro i j hij hj heq
    obtain ⟨rfl, rfl⟩ : i = 0 ∧ j = 1 := by omega
    exact absurd heq hne
  · simp [hlen]

/-- Two different parts with the same map hash 3551e28b: who asks for the second one gets the first. -/
theorem colliding_part_served : ∃ s,
    newResource bzip2 token 40 0 [] randomHash [0, 0, 10, 125, 0, 0, 249, 243] { autoCompress := false } = some s ∧
      2 < s.parts.length ∧ s.partHash 1 = s.partHash 2 ∧ s.partData 1 ≠ s.partData 2 ∧
      Resource.servedParts (s.request (s.requestData 0 [2] false) fun _ => true).effects = [s.partData 1] := by
  decide +kernel

theorem zeros_resource (mtu : Int) (n : Nat) : ∃ s,
    newResource bzip2 token mtu 0 [] randomHash (List.replicate n 0) {} = some s ∧
      s.size = Int64.ofNat s.data.length ∧ s.uncompressedSize = Int64.ofNat n ∧ s.data.length = n + 4 ∧
      s.parts.length = (n + 4 + resourceSdu mtu 0 - 1) / resourceSdu mtu 0 ∧ s.hashmap.length = s.parts.length := by
  refine ⟨_, rfl, rfl, ?_, ?_, ?_, ?_⟩ <;> simp [outgoingResource, segments, slices, token, randomHash]

theorem two_parts_advertised : ∃ s, twoParts = some s ∧
    (pack (s.setRequest [] false).advertisement.entries).length ≤ 431 := by
  obtain ⟨s, hs⟩ : ∃ s, twoParts = some s := ⟨_, rfl⟩
  exact ⟨s, hs, (advertisement_fits_iff hs rfl (.refl _)).mpr (.inl rfl)⟩

/-- Sixteen million bytes on a link with the usual MTU, for a request: one byte too many. -/
theorem large_request_too_long : ∃ s,
    newResource bzip2 token 500 0 [] randomHash (List.replicate 16000000 0) {} = some s ∧
      (pack (s.setRequest (List.replicate 16 0) false).advertisement.entries).length = 432 := by
  obtain ⟨s, hs, hsize, hdata, hlen, hparts, hhashmap⟩ := zeros_resource 500 16000000
  refine ⟨s, hs, ?_⟩
  have hflat := length_flatSegment (length_hashmap hs) 0
  rw [hhashmap, hparts] at hflat
  rw [length_advertisement hs rfl (.refl _), hsize, hdata, hlen, hparts, packBin, packBin, length_append,
    length_append, hflat]
  decide +kernel

/-- So many bytes in parts of one byte. -/
theorem many_parts_unread : ∃ s,
    newResource bzip2 token 37 0 [] randomHash (List.replicate (resourceMaxParts + 1) 0) {} = some s ∧
      unpack (pack (s.setRequest [] false).advertisement.entries) = none := by
  obtain ⟨s, hs, -, -, hlen, hparts, -⟩ := zeros_resource 37 (resourceMaxParts + 1)
  refine ⟨s, hs, ?_⟩
  rw [unpack_pack (fits_advertisement hs rfl (by decide)) (.refl _), if_neg]
  rw [countAccepted_newResource hs (hlen.trans_lt (by decide)), hparts]
  decide

end Sample
end Reticulum
