import Reticulum.Packet

/-! # Frames that carry the same packet -/

namespace Reticulum

open List

theorem forall_uint8 {P : UInt8 → Prop} (h : ∀ n : Fin 256, P (UInt8.ofNat n)) (f : UInt8) : P f := by
  have hf := h ⟨f.toNat, f.toNat_lt⟩
  rwa [UInt8.ofNat_toNat] at hf

theorem packFlags_header (headerType : HeaderType) (c : Bool) (t : TransportType) (d : DestinationType) (p : PacketType) :
    HeaderType.ofFlags (packFlags headerType c t d p) = headerType ∧
      packFlags headerType c t d p &&& 0x80 = 0 := by
  cases headerType <;> cases c <;> cases t <;> cases d <;> cases p <;> decide

theorem ofFlags_and (f : UInt8) : DestinationType.ofFlags (f &&& 0b00001111) = .ofFlags f ∧
    PacketType.ofFlags (f &&& 0b00001111) = .ofFlags f ∧ HeaderType.ofFlags (f &&& 0b00001111) = .header1 ∧
    f &&& 0b00001111 &&& 0x80 = 0 ∧ f &&& 0b00001111 &&& 0b00001111 = f &&& 0b00001111 := by
  revert f
  refine forall_uint8 ?_
  decide +kernel

theorem packFlags_low (headerType : HeaderType) (c : Bool) (t : TransportType) (d : DestinationType) (p : PacketType) :
    packFlags headerType c t d p &&& 0b00001111 = packFlags .header1 false .broadcast d p := by
  cases headerType <;> cases c <;> cases t <;> cases d <;> cases p <;> decide

theorem packFlags_ofFlags (h : HeaderType) (c : Bool) (t : TransportType) (f : UInt8) :
    packFlags h c t (.ofFlags f) (.ofFlags f) &&& 0b00001111 = f &&& 0b00001111 := by
  have hlow : packFlags .header1 false .broadcast (.ofFlags f) (.ofFlags f) = f &&& 0b00001111 := by
    revert f
    refine forall_uint8 ?_
    decide +kernel
  rw [packFlags_low, hlow]

theorem or_forward (f : UInt8) :
    HeaderType.ofFlags (f ||| (HeaderType.header2.code <<< 6 ||| TransportType.forward.code <<< 4)) = .header2 ∧
      (f ||| (HeaderType.header2.code <<< 6 ||| TransportType.forward.code <<< 4)) &&& 0b00001111 = f &&& 0b00001111 ∧
      (f ||| (HeaderType.header2.code <<< 6 ||| TransportType.forward.code <<< 4)) &&& 0x80 = f &&& 0x80 := by
  revert f
  refine forall_uint8 ?_
  decide +kernel

namespace Packet

variable {p q : Packet} {raw frame transportID : Bytes}

def body (p : Packet) : Bytes := p.destinationHash ++ p.context :: p.data

def HasHeader (flags : UInt8) (transportID : Bytes) : Prop :=
  HeaderType.ofFlags flags = .header1 ∧ transportID = [] ∨
    HeaderType.ofFlags flags = .header2 ∧ transportID.length = truncatedHashLength

/-- The fields of a packet are where `Unpack` finds them. The hop count may have been raised since. -/
structure Framed (p : Packet) (transportID : Bytes) : Prop where
  raw : ∃ hop : UInt8, hop.toNat < pathfinderM ∧ p.raw = p.flags :: hop :: (transportID ++ p.body)
  length : p.destinationHash.length = truncatedHashLength
  headerType : p.headerType = .ofFlags p.flags
  destinationType : p.destinationType = .ofFlags p.flags
  packetType : p.packetType = .ofFlags p.flags
  header : HasHeader p.flags transportID

theorem eq_cons_cons (h : 3 ≤ raw.length) : raw = raw.getD 0 0 :: raw.getD 1 0 :: raw.drop 2 := by
  match raw, h with
  | _ :: _ :: _ :: _, _ => rfl

theorem body_unpackAt {offset : Nat} (id : Option Bytes) (h : offset + truncatedHashLength < raw.length) :
    (unpackAt raw offset id).body = raw.drop offset := by
  have hsplit := take_append_drop truncatedHashLength (raw.drop offset)
  rw [drop_drop, drop_eq_getElem_cons h, getElem_eq_getD 0] at hsplit
  exact hsplit

theorem length_take_drop {n m : Nat} (h : n + m ≤ raw.length) : ((raw.drop n).take m).length = m := by
  rw [length_take, length_drop]
  omega

theorem framed_of_unpack (h : unpack raw = some p) : p.raw = raw ∧ ∃ transportID, p.Framed transportID := by
  by_cases hbad : raw.length < 3 ∨ pathfinderM ≤ (raw.getD 1 0).toNat
  · rw [unpack, if_pos hbad] at h
    cases h
  rw [unpack, if_neg hbad] at h
  obtain ⟨hlong, hhops⟩ := not_or.mp hbad
  have hraw := eq_cons_cons (Nat.le_of_not_lt hlong)
  have hhop := Nat.lt_of_not_le hhops
  cases hheader : HeaderType.ofFlags (raw.getD 0 0) with
  | header1 =>
    rw [hheader] at h
    simp only at h
    split_ifs at h with hshort
    cases h
    refine ⟨rfl, [], ⟨_, hhop, ?_⟩, length_take_drop (by omega), rfl, rfl, rfl, Or.inl ⟨hheader, rfl⟩⟩
    rw [body_unpackAt none (by omega), nil_append]
    exact hraw
  | header2 =>
    rw [hheader] at h
    simp only at h
    split_ifs at h with hshort
    cases h
    refine ⟨rfl, (raw.drop 2).take truncatedHashLength, ⟨_, hhop, ?_⟩, length_take_drop (by omega), rfl, rfl, rfl,
      Or.inr ⟨hheader, length_take_drop (by omega)⟩⟩
    rw [body_unpackAt _ (by omega), Nat.add_comm, ← drop_drop, take_append_drop]
    exact hraw

theorem hops_of_unpack (h : unpack raw = some p) : p.hops < pathfinderM := by
  by_cases hbad : raw.length < 3 ∨ pathfinderM ≤ (raw.getD 1 0).toNat
  · rw [unpack, if_pos hbad] at h
    cases h
  rw [unpack, if_neg hbad] at h
  have hhop := Nat.lt_of_not_le (not_or.mp hbad).2
  split at h <;> split_ifs at h <;> obtain rfl := Option.some.inj h <;> exact hhop

theorem transportID_of_unpack (h : unpack raw = some p) (h1 : p.headerType = .header1) : p.transportID = none := by
  rw [unpack] at h
  split at h
  · cases h
  split at h <;> rename_i hheader <;> split_ifs at h <;> cases h
  · rfl
  · cases hheader.symm.trans h1

theorem unpack_of_header {flags hop : UInt8} {rest : Bytes} (hid : HasHeader flags transportID)
    (hhop : hop.toNat < pathfinderM) (hlen : truncatedHashLength < rest.length) :
    ∃ q, unpack (flags :: hop :: (transportID ++ rest)) = some q := by
  have hframe : (flags :: hop :: (transportID ++ rest)).length = 2 + transportID.length + rest.length := by
    simp only [length_cons, length_append]
    omega
  have hbad : ¬((flags :: hop :: (transportID ++ rest)).length < 3 ∨ pathfinderM ≤ hop.toNat) := by
    omega
  rw [unpack, if_neg (by exact hbad)]
  rw [getD_cons_zero]
  rcases hid with ⟨hheader, rfl⟩ | ⟨hheader, hid⟩ <;> rw [hheader]
  · exact ⟨_, if_neg (by rw [hframe, length_nil]; omega)⟩
  · exact ⟨_, if_neg (by rw [hframe]; omega)⟩

/-- A frame that carries the packet: the hop count and the transport header may be other ones. -/
structure Carries (p : Packet) (frame : Bytes) (flags hop : UInt8) (transportID : Bytes) : Prop where
  frame : frame = flags :: hop :: (transportID ++ p.body)
  low : flags &&& 0b00001111 = p.flags &&& 0b00001111
  unsealed : p.flags &&& 0x80 = 0 → flags &&& 0x80 = 0
  hop : p.hops < pathfinderM → hop.toNat < pathfinderM
  header : HasHeader flags transportID

def Carried (p : Packet) (frame : Bytes) : Prop := ∃ flags hop transportID, p.Carries frame flags hop transportID

structure SameAs (q p : Packet) : Prop where
  destinationHash : q.destinationHash = p.destinationHash
  destinationType : q.destinationType = p.destinationType
  packetType : q.packetType = p.packetType
  context : q.context = p.context
  data : q.data = p.data
  hash : q.getHash = p.getHash
  truncatedHash : q.getTruncatedHash = p.getTruncatedHash

def Preserved (p : Packet) (frame : Bytes) : Prop := ∃ q, unpack frame = some q ∧ q.SameAs p

namespace Framed

theorem getHashablePart (h : p.Framed transportID) : p.getHashablePart = (p.flags &&& 0b00001111) :: p.body := by
  obtain ⟨hop, -, hraw⟩ := h.raw
  have hheader := h.headerType
  rw [Packet.getHashablePart, hraw]
  rcases h.header with ⟨h1, rfl⟩ | ⟨h2, hid⟩
  · rw [hheader, h1]
    rfl
  · rw [hheader, h2]
    show _ :: (p.flags :: hop :: (transportID ++ p.body)).drop (truncatedHashLength + 2) = _
    rw [drop_succ_cons, drop_succ_cons, drop_left' hid]
    rfl

theorem sameAs {id : Bytes} (hq : q.Framed id) (hp : p.Framed transportID)
    (hlow : q.flags &&& 0b00001111 = p.flags &&& 0b00001111) (hbody : q.body = p.body) : q.SameAs p := by
  have hpart : q.getHashablePart = p.getHashablePart := by
    rw [hq.getHashablePart, hp.getHashablePart, hlow, hbody]
  obtain ⟨hdest, hrest⟩ := append_inj hbody (hq.length.trans hp.length.symm)
  obtain ⟨hcontext, hdata⟩ := cons.inj hrest
  refine ⟨hdest, ?_, ?_, hcontext, hdata, congrArg fullHash hpart, congrArg Reticulum.truncatedHash hpart⟩
  · rw [hq.destinationType, hp.destinationType, ← (ofFlags_and q.flags).1, hlow, (ofFlags_and p.flags).1]
  · rw [hq.packetType, hp.packetType, ← (ofFlags_and q.flags).2.1, hlow, (ofFlags_and p.flags).2.1]

theorem lt_length_body (h : p.Framed transportID) : truncatedHashLength < p.body.length := by
  rw [body, length_append, h.length, length_cons]
  omega

end Framed

theorem HasHeader.length_eq {flags : UInt8} {a b : Bytes} (ha : HasHeader flags a) (hb : HasHeader flags b) :
    a.length = b.length := by
  rcases ha with ⟨h1, rfl⟩ | ⟨h2, ha⟩ <;> rcases hb with ⟨h1', rfl⟩ | ⟨h2', hb⟩
  · rfl
  · rw [h1] at h2'
    cases h2'
  · rw [h2] at h1'
    cases h1'
  · exact ha.trans hb.symm

theorem framed_of_unpack_header {flags hop : UInt8} {rest : Bytes} (hid : HasHeader flags transportID)
    (h : unpack (flags :: hop :: (transportID ++ rest)) = some q) :
    q.flags = flags ∧ q.body = rest ∧ ∃ id, q.Framed id := by
  obtain ⟨hraw, id, hq⟩ := framed_of_unpack h
  obtain ⟨hop', -, hframe⟩ := hq.raw
  rw [hraw] at hframe
  obtain ⟨rfl, htail⟩ := cons.inj hframe
  obtain ⟨-, hrest⟩ := cons.inj htail
  obtain ⟨-, hbody⟩ := append_inj hrest (hid.length_eq hq.header)
  exact ⟨rfl, hbody.symm, id, hq⟩

theorem Carried.preserved (hp : p.Framed transportID) (h : p.Carried frame) (hhops : p.hops < pathfinderM) :
    p.Preserved frame := by
  obtain ⟨flags, hop, id, rfl, hlow, -, hhop, hid⟩ := h
  obtain ⟨q, hq⟩ := unpack_of_header hid (hhop hhops) hp.lt_length_body
  obtain ⟨hflags, hbody, id', hframed⟩ := framed_of_unpack_header hid hq
  exact ⟨q, hq, hframed.sameAs hp (by rw [hflags, hlow]) hbody⟩

def Truncated (p : Packet) (frame : Bytes) : Prop :=
  ∃ hop, frame = (p.flags &&& 0b00001111) :: hop :: p.context :: p.data

theorem Truncated.not_preserved (h : p.Truncated frame) : ¬p.Preserved frame := by
  rintro ⟨q, hq, hsame⟩
  obtain ⟨hop, rfl⟩ := h
  have hid : HasHeader (p.flags &&& 0b00001111) [] := Or.inl ⟨(ofFlags_and p.flags).2.2.1, rfl⟩
  obtain ⟨-, hbody, _, hframed⟩ := framed_of_unpack_header hid hq
  have hlen := congrArg length hbody
  rw [body, length_append, hframed.length, length_cons, length_cons, hsame.data] at hlen
  have : truncatedHashLength = 16 := rfl
  omega

end Packet
end Reticulum
