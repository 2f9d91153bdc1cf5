import Reticulum.Resource.Operations
import Reticulum.Theorems.Resource.Advertisement

/-! # What a sender puts into a resource and what its receiver makes of all parts -/

namespace Reticulum

open Parse List Option Msgpack

/-! ### Metadata -/

theorem lookup_foldl_insert {V : Type} {key : Bytes} : ∀ (es : List (Sigma fun _ : Bytes => V)) (t : Table V),
    es.NodupKeys → (es.foldl (fun t e => t.insert e.1 e.2) t).lookup key = (es.dlookup key).or (t.lookup key)
  | [], t, _ => rfl
  | e :: es, t, h => by
    obtain ⟨hfresh, hnodup⟩ := nodupKeys_cons.mp h
    rw [foldl_cons, lookup_foldl_insert es _ hnodup]
    by_cases hkey : key = e.1
    · subst hkey
      rw [dlookup_eq_none.mpr hfresh, AList.lookup_insert, dlookup_cons_eq es e.1 e.2]
      rfl
    · rw [AList.lookup_insert_ne hkey, dlookup_cons_ne _ _ hkey]

theorem metadataOf_metadata (metadata : Table Bytes) (key : Bytes) :
    (Resource.metadataOf (metadata.entries.map fun e => (.str e.1, .bin e.2))).lookup key = metadata.lookup key := by
  have hfold : Resource.metadataOf (metadata.entries.map fun e => (.str e.1, .bin e.2)) =
      metadata.entries.foldl (fun t e => t.insert e.1 e.2) ∅ := by
    rw [Resource.metadataOf, foldl_map]
  rw [hfold, lookup_foldl_insert _ _ metadata.nodupKeys, AList.lookup_empty, or_none]
  rfl

theorem pack_metadataValue (metadata : Table Bytes) :
    pack false (metadataValue metadata) = mapHeader metadata.entries.length ++
      metadata.entries.flatMap fun e => packStr e.1 ++ packBin e.2 := by
  rw [metadataValue, pack, packEntries_eq, if_neg Bool.false_ne_true, List.map_map, List.flatMap_map,
    length_map]
  rfl

theorem unpack_metadata {metadata : Table Bytes} (hsize : (pack false (metadataValue metadata)).length ≤ 0xffffff) :
    unpack (pack false (metadataValue metadata)) =
      .ok (.map (metadata.entries.map fun e => (.str e.1, .bin e.2))) := by
  have hbody : (metadata.entries.flatMap fun e => packStr e.1 ++ packBin e.2).length ≤ 0xffffff := by
    rw [pack_metadataValue, length_append] at hsize
    exact le_of_add_le_right hsize
  have hentry : ∀ e ∈ metadata.entries, e.1.length + e.2.length ≤ 0xffffff := by
    intro e he
    have hle := length_le_flatMap_of_mem (fun e : (_ : Bytes) × Bytes => packStr e.1 ++ packBin e.2) he
    replace hle := hle.trans hbody
    simp only [packStr, packBin, length_append] at hle
    omega
  have hcount : metadata.entries.length ≤ 0xffffff := by
    have hpos : ∀ e ∈ metadata.entries, 1 ≤ (packStr e.1 ++ packBin e.2).length := by
      intro e _
      simp only [packBin, length_append]
      split_ifs <;> simp only [length_cons] <;> omega
    have hle := mul_length_le_flatMap hpos
    omega
  have hread : ∀ fuel, Reads (unpackValue (fuel + 2))
      (pack false (.map ((metadata.entries.map fun e => (e.1, Value.bin e.2)).map
        fun e => (.str e.1, e.2))))
      (.map ((metadata.entries.map fun e => (e.1, Value.bin e.2)).map fun e => (.str e.1, id e.2))) := by
    intro fuel
    refine reads_map ?_ ?_ ?_ ?_
    · rw [length_map]
      omega
    · rw [List.map_map]
      exact metadata.nodupKeys
    · intro e he
      obtain ⟨e, hmem, rfl⟩ := mem_map.mp he
      have := hentry e hmem
      show e.1.length < 2 ^ 32
      omega
    · intro e he
      obtain ⟨e, hmem, rfl⟩ := mem_map.mp he
      have := hentry e hmem
      exact reads_bin (by omega)
  have hunpack := unpack_of_reads hread
  simp only [List.map_map] at hunpack
  exact hunpack

theorem mapHeader_eq_cons (l : Nat) : ∃ b rest, mapHeader l = b :: rest ∧ ¬b ≤ 0x39 := by
  rw [mapHeader]
  split_ifs with h0 h1
  · refine ⟨_, _, rfl, ?_⟩
    rw [UInt8.ofNat_le_iff (show 0x80 + l < 256 by omega)]
    exact Nat.not_le.mpr (Nat.lt_of_lt_of_le (by decide) (Nat.le_add_right 0x80 l))
  · exact ⟨_, _, rfl, by decide⟩
  · exact ⟨_, _, rfl, by decide⟩

theorem metadataBytes_cases {metadata : Table Bytes} {header : Bytes} (h : metadataBytes metadata = some header) :
    metadata.entries = [] ∧ header = [] ∨
      metadata.entries ≠ [] ∧ (pack false (metadataValue metadata)).length ≤ 0xffffff ∧
        header = beBytes 3 (pack false (metadataValue metadata)).length ++
          pack false (metadataValue metadata) := by
  simp only [metadataBytes] at h
  split_ifs at h with hempty hsize
  · cases h
    exact .inl ⟨isEmpty_iff.mp hempty, rfl⟩
  · cases h
    exact .inr ⟨fun hnil => hempty (isEmpty_iff.mpr hnil), Nat.le_of_not_gt hsize, rfl⟩

/-! ### Compression -/

namespace Bzip2

variable {z : Bzip2} {level : Int} {data compressed : Bytes} {limit : Nat}

theorem read_eq_none {a b c d : UInt8} {stream : Bytes} (hd : ¬d ≤ 0x39) (n : Nat) :
    z.read (a :: b :: c :: d :: stream) n = none := by
  unfold read
  split
  · next heq =>
    cases heq
    exact if_neg fun h => hd h.2
  · rfl

theorem Inverts.decompress (hz : z.Inverts) (hc : z.compress level data = some compressed) :
    z.decompress compressed limit = if data.length ≤ limit then .ok data else .error .tooLarge := by
  rw [Bzip2.decompress, hz level data compressed hc]
  rcases Nat.lt_or_ge limit data.length with hlt | hle
  · have hlen : (data.take (limit + 1)).length > limit := by
      rw [length_take]
      omega
    rw [if_neg (Nat.not_le.mpr hlt)]
    exact if_pos hlen
  · have htake : data.take (limit + 1) = data := take_of_length_le (by omega)
    rw [htake, if_pos hle]
    exact if_neg (Nat.not_lt.mpr hle)

theorem decompress_metadata {metadata : Table Bytes} (n : Nat) :
    z.decompress (beBytes 3 n ++ pack false (metadataValue metadata) ++ compressed) limit = .error .other := by
  obtain ⟨b, rest, hheader, hb⟩ := mapHeader_eq_cons metadata.entries.length
  rw [pack_metadataValue, hheader, Bzip2.decompress]
  have hread : ∀ stream, z.read (beBytes 3 n ++ (b :: stream)) (limit + 1) = none := fun _ => read_eq_none hb _
  rw [cons_append, append_assoc, cons_append, hread]

end Bzip2

theorem compressPayload_cases {z : Bzip2} {data : Bytes} {opts : ResourceOptions} {payload : Bytes × Bool}
    (h : compressPayload z data opts = some payload) :
    payload = (data, false) ∨ payload.2 = true ∧ z.compress opts.compressionLevel data = some payload.1 := by
  rw [compressPayload] at h
  split_ifs at h with hcompress
  · obtain ⟨compressed, hc, rfl⟩ := map_eq_some_iff.mp h
    split_ifs with hshorter
    · exact .inr ⟨rfl, hc⟩
    · exact .inl rfl
  · exact .inl (some.inj h).symm

/-! ### The two ends -/

section

variable {z : Bzip2} {token : Token} {mtu mdu : Int} {iv randomHash data : Bytes} {opts : ResourceOptions}
  {s : Resource}

theorem newResource_eq_some (h : newResource z token mtu mdu iv randomHash data opts = some s) :
    ∃ payload header, compressPayload z data opts.normalized = some payload ∧
      metadataBytes opts.metadata = some header ∧
      s = outgoingResource token (resourceSdu mtu mdu) iv randomHash data payload.1 header payload.2 opts.metadata := by
  obtain ⟨payload, hpayload, h⟩ := bind_eq_some_iff.mp h
  obtain ⟨header, hheader, h⟩ := bind_eq_some_iff.mp h
  exact ⟨payload, header, hpayload, hheader, (some.inj h).symm⟩

end

/-- The outcome is the sender's data and metadata, and the one packet sent is the expected proof. -/
structure Outcome.Delivers (o : Outcome) (s : Resource) (data : Bytes) (metadata : Table Bytes) (sent : Bool) : Prop where
  status : o.resource.status = .complete
  data : o.resource.data = data
  metadata : ∀ key, o.resource.metadata.lookup key = metadata.lookup key
  proof : ∀ context packet,
    .send context packet ∈ o.effects ↔ sent = true ∧ context = .resourcePrf ∧ packet = s.hash ++ s.expectedProof

namespace Resource

variable {z : Bzip2} {token : Token} {r : Resource} {metadata : Table Bytes}

/-- What the operations of a receiver leave as `Accept` set it. -/
structure Continues (r₀ r : Resource) : Prop where
  hash : r.hash = r₀.hash
  randomHash : r.randomHash = r₀.randomHash
  encrypted : r.encrypted = r₀.encrypted
  compressed : r.compressed = r₀.compressed
  metadata : r.metadata = r₀.metadata
  hasMetadata : r.hasMetadata = r₀.hasMetadata
  maxDecompressedSize : r.maxDecompressedSize = r₀.maxDecompressedSize

def Holds (r s : Resource) : Prop := r.parts.map (·.receivedData) = s.parts.map fun part => some part.data

theorem received_eq {parts : List ResourcePart} {bs : List Bytes}
    (h : parts.map (·.receivedData) = bs.map some) : received parts = some bs.flatten := by
  have hmap : (parts.mapM fun part : ResourcePart => part.receivedData) = some bs := by
    induction parts generalizing bs with
    | nil =>
      cases bs with
      | nil => rfl
      | cons b bs => cases h
    | cons part parts ih =>
      cases bs with
      | nil => cases h
      | cons b bs =>
        obtain ⟨hhead, htail⟩ := cons.inj h
        have hhead : part.receivedData = some b := hhead
        rw [mapM_cons, hhead, ih htail]
        rfl
  rw [received, hmap]
  rfl

theorem unwrap_eq (htoken : token.Inverts) {iv randomHash rest : Bytes}
    {sdu : Nat} (hsdu : 0 < sdu) (hrandom : randomHash.length = resourceRandomHashSize) (hencrypted : r.encrypted = true)
    (hparts : r.parts.map (·.receivedData) = (segments sdu (token.encrypt iv (randomHash ++ rest))).map some) :
    r.unwrap z token = r.inflate z rest := by
  have hlen : ¬(randomHash ++ rest).length < resourceRandomHashSize := by
    rw [length_append, hrandom]
    exact Nat.not_lt.mpr (Nat.le_add_right _ _)
  rw [unwrap, received_eq hparts, flatten_segments hsdu, hencrypted]
  simp only [if_true, htoken iv, if_neg hlen, drop_left' hrandom]

def inflateFailure : Bzip2.Failure → AssemblyFailure
  | .tooLarge => (.corrupt, true)
  | .other => (.failed, false)

theorem inflate_eq (h : r.compressed = true) (hlimit : r.maxDecompressedSize = 0) (data : Bytes) :
    r.inflate z data = (z.decompress data resourceAutoCompressMaxSize).mapError inflateFailure := by
  rw [inflate, if_neg (not_not.mpr h), if_pos hlimit]
  cases z.decompress data resourceAutoCompressMaxSize with
  | ok data => rfl
  | error failure => cases failure <;> rfl

theorem splitMetadata_eq {header : Bytes}
    (hheader : metadataBytes metadata = some header) (hhas : r.hasMetadata = !metadata.entries.isEmpty)
    (hmetadata : r.metadata = ∅) (data : Bytes) : (r.splitMetadata (header ++ data)).2 = data ∧
      ∀ key, (r.splitMetadata (header ++ data)).1.lookup key = metadata.lookup key := by
  rcases metadataBytes_cases hheader with ⟨hnil, rfl⟩ | ⟨hne, hsize, rfl⟩
  · have hnone : ¬(r.hasMetadata = true ∧ 3 ≤ data.length) := by
      rw [hhas, hnil]
      exact fun h => Bool.false_ne_true h.1
    rw [splitMetadata, nil_append, if_neg hnone, hmetadata]
    refine ⟨rfl, fun key => ?_⟩
    rw [AList.lookup_empty, AList.lookup, hnil, dlookup_nil]
  · obtain ⟨packed, hpacked⟩ : ∃ packed, packed = pack false (metadataValue metadata) := ⟨_, rfl⟩
    rw [← hpacked] at hsize ⊢
    have hlen : (beBytes 3 packed.length).length = 3 := length_beBytes _ _
    have hhas : r.hasMetadata = true := by
      rw [hhas, Bool.not_eq_true', Bool.eq_false_iff]
      exact fun h => hne (isEmpty_iff.mp h)
    have hthree : 3 ≤ (beBytes 3 packed.length ++ packed ++ data).length := by
      simp only [length_append, hlen]
      omega
    have hbound : 3 + packed.length ≤ (beBytes 3 packed.length ++ packed ++ data).length := by
      simp only [length_append, hlen]
      omega
    have hread : beNat ((beBytes 3 packed.length ++ packed ++ data).take 3) = packed.length := by
      rw [append_assoc, take_left' hlen, beNat_beBytes (by omega)]
    have hdrop : (beBytes 3 packed.length ++ packed ++ data).drop 3 = packed ++ data := by
      rw [append_assoc, drop_left' hlen]
    have hsplit : r.splitMetadata (beBytes 3 packed.length ++ packed ++ data) =
        (metadataOf (metadata.entries.map fun e => (.str e.1, .bin e.2)), data) := by
      simp only [splitMetadata, if_pos (And.intro hhas hthree), hread, if_pos hbound, hdrop, ← drop_drop,
        take_left, drop_left]
      rw [hpacked, unpack_metadata (hpacked ▸ hsize)]
    rw [hsplit]
    exact ⟨rfl, metadataOf_metadata metadata⟩

theorem assemble_of_unwrap_error {s : Resource} {e : AssemblyFailure}
    (h : r.unwrap z token = .error e) (hne : e.1 ≠ .complete) {data : Bytes} {sent : Bool} :
    ¬(r.assemble z token sent).Delivers s data metadata sent := by
  intro hdelivers
  have hstatus := hdelivers.status
  rw [assemble, h] at hstatus
  exact hne hstatus

theorem assemble_of_unwrap_ok {s : Resource}
    {header data : Bytes} (h : r.unwrap z token = .ok (header ++ data)) (hheader : metadataBytes metadata = some header)
    (hhas : r.hasMetadata = !metadata.entries.isEmpty) (hmetadata : r.metadata = ∅)
    (hhash : r.hash = fullHash (header ++ data ++ r.randomHash)) (hs : s.hash = r.hash)
    (hproof : s.expectedProof = fullHash (header ++ data ++ r.hash)) (sent : Bool) :
    (r.assemble z token sent).Delivers s data metadata sent := by
  obtain ⟨hdata, hlookup⟩ := splitMetadata_eq hheader hhas hmetadata data
  have hne : r.hash ≠ [] := by
    rw [hhash]
    exact fullHash_ne_nil _
  have heq : r.assemble z token sent = r.conclude (header ++ data) sent := by
    rw [assemble, h]
    exact if_neg (not_not.mpr hhash.symm)
  rw [heq]
  refine ⟨rfl, hdata, hlookup, fun context packet => ?_⟩
  have hpacket : s.hash ++ s.expectedProof = r.proof (header ++ data) := by
    rw [proof, hs, hproof]
  rw [hpacket, conclude]
  cases sent <;> cases r.callback <;> simp [hne]

/-! ### The sender's advertisement -/

theorem length_mapHash (randomHash data : Bytes) : (mapHash randomHash data).length = resourceMapHashLen :=
  rfl

end Resource

theorem length_flatSegment {hashmap : List (Option Bytes)} (h : ∀ o ∈ hashmap, (o.getD []).length = resourceMapHashLen)
    (segment : Nat) : (flatHashmap (hashmapSegment hashmap segment)).length =
      min hashmapMaxLen (hashmap.length - segment * hashmapMaxLen) * resourceMapHashLen := by
  have hlen : ∀ o ∈ hashmapSegment hashmap segment, (o.getD []).length = resourceMapHashLen := fun o ho =>
    h o (mem_of_mem_drop (mem_of_mem_take ho))
  rw [flatHashmap, length_flatMap, map_congr_left hlen, map_const', sum_replicate_nat, hashmapSegment, length_take,
    length_drop]

theorem length_flatSegment_le {hashmap : List (Option Bytes)} (h : ∀ o ∈ hashmap, (o.getD []).length = resourceMapHashLen)
    (segment : Nat) : (flatHashmap (hashmapSegment hashmap segment)).length ≤ 296 := by
  rw [length_flatSegment h]
  exact Nat.mul_le_mul_right resourceMapHashLen (Nat.min_le_left _ _)

section

variable {z : Bzip2} {token : Token} {mtu mdu : Int} {iv randomHash data : Bytes} {opts : ResourceOptions}
  {s r₀ : Resource} {requestID : Bytes} {isResponse callback progressCallback : Bool}
  {es : List (Bytes × Msgpack.Value)}

theorem length_hashmap (hnew : newResource z token mtu mdu iv randomHash data opts = some s) :
    ∀ o ∈ s.hashmap, (o.getD []).length = resourceMapHashLen := by
  obtain ⟨payload, header, _, _, rfl⟩ := newResource_eq_some hnew
  intro o ho
  obtain ⟨part, _, rfl⟩ := mem_map.mp ho
  exact Resource.length_mapHash _ _

theorem fits_advertisement (hnew : newResource z token mtu mdu iv randomHash data opts = some s)
    (hrandom : randomHash.length = resourceRandomHashSize) (hid : requestID.length < 2 ^ 32) :
    (s.setRequest requestID isResponse).advertisement.Fits := by
  have hflat := length_flatSegment_le (length_hashmap hnew) 0
  obtain ⟨payload, header, _, _, rfl⟩ := newResource_eq_some hnew
  refine ⟨?_, ?_, ?_, ?_, ?_⟩
  · exact (length_fullHash _).trans_lt (by decide)
  · exact hrandom.trans_lt (by decide)
  · exact (length_fullHash _).trans_lt (by decide)
  · show ((if requestID = [] then none else some requestID).getD []).length < 2 ^ 32
    split_ifs
    · decide
    · exact hid
  · exact hflat.trans_lt (by decide)

theorem accept_eq_some {adv : ResourceAdvertisement} (hfits : adv.Fits) (hes : es.Perm adv.entries) {r : Resource}
    (h : accept (ResourceAdvertisement.pack es) callback progressCallback = some r) : adv.CountAccepted ∧
      r = { adv.resource callback progressCallback with
        advertisementPacket := some (ResourceAdvertisement.pack es) } := by
  rw [accept, ResourceAdvertisement.unpack_pack hfits hes] at h
  split_ifs at h with hcount
  · exact ⟨hcount, (some.inj h).symm⟩
  · cases h

/-- Data and metadata come out just when sent uncompressed, or without metadata and within the limit. -/
theorem assemble_delivers_iff (hz : z.Inverts) (htoken : token.Inverts)
    (hrandom : randomHash.length = resourceRandomHashSize)
    (hnew : newResource z token mtu mdu iv randomHash data opts = some s) (hid : requestID.length < 2 ^ 32)
    (hes : es.Perm (s.setRequest requestID isResponse).advertisement.entries)
    (haccept : accept (ResourceAdvertisement.pack es) callback progressCallback = some r₀) {r : Resource}
    (hr : r₀.Continues r) (hholds : r.Holds s) (sent : Bool) :
    (r.assemble z token sent).Delivers s data opts.metadata sent ↔
      s.compressed = false ∨ opts.metadata.entries = [] ∧ data.length ≤ resourceAutoCompressMaxSize := by
  obtain ⟨_, rfl⟩ := accept_eq_some (fits_advertisement hnew hrandom hid) hes haccept
  obtain ⟨payload, header, hpayload, hheader, hs⟩ := newResource_eq_some hnew
  have hparts : r.parts.map (·.receivedData) = (segments (resourceSdu mtu mdu)
      (token.encrypt iv (randomHash ++ (header ++ payload.1)))).map some := by
    rw [hholds, hs, ← List.append_assoc]
    simp [outgoingResource]
  have hunwrap : r.unwrap z token = r.inflate z (header ++ payload.1) :=
    Resource.unwrap_eq htoken (resourceSdu_pos mtu mdu) hrandom (hr.encrypted.trans (hs ▸ rfl)) hparts
  have hcompressed : r.compressed = payload.2 := hr.compressed.trans (hs ▸ rfl)
  have hlimit : r.maxDecompressedSize = 0 := hr.maxDecompressedSize
  have hhas : r.hasMetadata = !opts.metadata.entries.isEmpty := hr.hasMetadata.trans (hs ▸ rfl)
  have hsame : s.hash = r.hash := hr.hash.symm
  have hhash : r.hash = fullHash (header ++ data ++ r.randomHash) := by
    rw [hr.hash, hr.randomHash, hs]
    rfl
  have hproof : s.expectedProof = fullHash (header ++ data ++ r.hash) := by
    rw [← hsame, hs]
    rfl
  have hdelivers : r.inflate z (header ++ payload.1) = .ok (header ++ data) →
      (r.assemble z token sent).Delivers s data opts.metadata sent := fun hok =>
    Resource.assemble_of_unwrap_ok (hunwrap.trans hok) hheader hhas hr.metadata hhash hsame hproof sent
  rw [show s.compressed = payload.2 from hs ▸ rfl]
  rcases compressPayload_cases hpayload with rfl | ⟨htrue, hc⟩
  · refine iff_of_true (hdelivers ?_) (Or.inl rfl)
    rw [Resource.inflate, hcompressed, if_pos Bool.false_ne_true]
  · have hr : r.compressed = true := hcompressed.trans htrue
    rw [htrue]
    rcases metadataBytes_cases hheader with ⟨hnil, rfl⟩ | ⟨hne, _, rfl⟩
    · rw [Resource.inflate_eq hr hlimit, List.nil_append, hz.decompress hc] at hunwrap hdelivers
      by_cases hle : data.length ≤ resourceAutoCompressMaxSize
      · rw [if_pos hle] at hdelivers
        exact iff_of_true (hdelivers rfl) (Or.inr ⟨hnil, hle⟩)
      · rw [if_neg hle] at hunwrap
        refine iff_of_false (Resource.assemble_of_unwrap_error hunwrap (by decide)) ?_
        rintro (h | ⟨_, h⟩)
        · cases h
        · exact hle h
    · rw [Resource.inflate_eq hr hlimit, Bzip2.decompress_metadata] at hunwrap
      refine iff_of_false (Resource.assemble_of_unwrap_error hunwrap (by decide)) ?_
      rintro (h | ⟨h, _⟩)
      · cases h
      · exact hne h

end

/-! ### Two transfers -/

namespace Resource

def holding (r s : Resource) : Resource :=
  { r with parts := s.parts.map fun part => { receivedData := some part.data, mapHash := part.mapHash } }

theorem holds_holding (r s : Resource) : (r.holding s).Holds s := by
  rw [Holds, holding, List.map_map]
  rfl

end Resource

/-- A compressor that shortens one string only. -/
def Bzip2.shortening (word : Bytes) : Bzip2 where
  compress _ data := some (0x42 :: 0x5a :: 0x68 :: 0x39 :: if data = word then [0] else 1 :: data)
  blocks _ stream n :=
    match stream with
    | 0 :: _ => some (word.take n)
    | _ :: data => some (data.take n)
    | [] => none

theorem Bzip2.shortening_inverts (word : Bytes) : (shortening word).Inverts := by
  rintro level data _ ⟨⟩ n
  by_cases hdata : data = word
  · rw [if_pos hdata, hdata]
    rfl
  · rw [if_neg hdata]
    rfl

namespace Sample

def token : Token := ⟨fun _ plaintext => plaintext, some⟩

def bzip2 : Bzip2 := .shortening (List.replicate 6 0x61)

def metadata : Table Bytes := (∅ : Table Bytes).insert [0x6b] [0x76]

def randomHash : Bytes := [1, 2, 3, 4]

def sender (autoCompress : Bool) : Option Resource :=
  newResource bzip2 token 500 0 [] randomHash (List.replicate 6 0x61) { autoCompress, metadata }

def receiver (s : Resource) : Option Resource :=
  (accept (ResourceAdvertisement.pack (s.setRequest [] false).advertisement.entries) true false).map (·.holding s)

theorem uncompressed_delivered : ∃ s r, sender false = some s ∧ receiver s = some r ∧
    (r.assemble bzip2 token true).Delivers s (List.replicate 6 0x61) metadata true := by
  obtain ⟨s, hs, hcompressed, r, hr, -⟩ : ∃ s ∈ sender false, s.compressed = false ∧ ∃ r ∈ receiver s, True := by
    decide +kernel
  obtain ⟨r₀, haccept, rfl⟩ := Option.map_eq_some_iff.mp hr
  have hid : ([] : Bytes).length < 2 ^ 32 := by decide
  exact ⟨s, _, hs, hr, (assemble_delivers_iff (Bzip2.shortening_inverts _) (fun _ _ => rfl) rfl hs hid (.refl _) haccept
    (r := r₀.holding s) ⟨rfl, rfl, rfl, rfl, rfl, rfl, rfl⟩ (r₀.holds_holding s) true).mpr (.inl hcompressed)⟩

/-- The receiver looks for a bzip2 header where the size of the metadata stands. -/
theorem compressed_metadata_lost : ∃ s r, sender true = some s ∧ receiver s = some r ∧
    (r.assemble bzip2 token true).resource.status = .failed := by
  obtain ⟨s, hs, r, hr, hstatus⟩ : ∃ s ∈ sender true, ∃ r ∈ receiver s,
      (r.assemble bzip2 token true).resource.status = .failed := by decide +kernel
  exact ⟨s, r, hs, hr, hstatus⟩

end Sample

end Reticulum
