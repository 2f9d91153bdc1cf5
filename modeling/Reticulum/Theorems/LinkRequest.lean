import Reticulum.LinkRequest
import Reticulum.Theorems.LinkState
import Reticulum.Theorems.Transport

/-! # The identifier of a link

It is a hash of what the nodes on the way of a link request leave alone. -/

namespace Reticulum.Link

open List Option Packet TransportSystem

open TransportSystem (Cuts Event)

variable {p q q' : Packet} {transportID : Bytes}

def identified (p : Packet) : Bytes :=
  (p.flags &&& 0b00001111) :: (p.destinationHash ++ p.context :: p.data.take linkECPubSize)

theorem linkIDFromLR_eq (h : p.Framed transportID) (hlen : linkECPubSize ≤ p.data.length) :
    linkIDFromLR p = truncatedHash (identified p) := by
  have hsize : ((p.flags &&& 0b00001111) :: p.body).length - (p.data.length - linkECPubSize) =
      (p.destinationHash.length + (linkECPubSize + 1)) + 1 := by
    rw [body, length_cons, length_append, length_cons]
    omega
  rw [linkIDFromLR, h.getHashablePart, hsize, take_succ_cons, body, take_length_add_append, take_succ_cons]
  rfl

/-- The packet is a link request like the given one, up to the header and the signalling bytes. -/
structure RequestOf (p q : Packet) : Prop where
  unpacked : Packet.unpack q.raw = some q
  identified : identified q = identified p
  length : linkECPubSize ≤ q.data.length
  packetType : q.packetType = .linkRequest

theorem RequestOf.linkID (h : RequestOf p q) (hp : RequestOf p p) : linkIDFromLR q = linkIDFromLR p := by
  obtain ⟨-, _, hq⟩ := framed_of_unpack h.unpacked
  obtain ⟨-, _, hframed⟩ := framed_of_unpack hp.unpacked
  rw [linkIDFromLR_eq hq h.length, linkIDFromLR_eq hframed hp.length, h.identified]

/-- What nodes write of a link request that does not cut off the destination, with any signalling bytes. -/
inductive Travels (p : Packet) : Packet → Prop where
  | packed : Travels p p
  | written {ts : TransportSystem} {event : Event} {w : Write} {r : Packet} (h : Travels p event.packet)
    (hw : w ∈ ts.writes event) (hcut : ¬ts.Cuts event.packet w.site) (hr : Packet.unpack w.frame = some r) : Travels p r
  | signalled {signalling : Bytes} {r r' : Packet} (h : Travels p r)
    (hr : Packet.unpack (r.raw.take (r.raw.length - (r.data.length - linkECPubSize)) ++ signalling) = some r') :
    Travels p r'

theorem unpack_raw {raw : Bytes} (h : unpack raw = some q) : unpack q.raw = some q := by
  rw [(framed_of_unpack h).1, h]

theorem requestOf_of_written {ts : TransportSystem} {event : Event} {w : Write} (h : RequestOf p event.packet)
    (hw : w ∈ ts.writes event) (hcut : ¬ts.Cuts event.packet w.site) (hq : unpack w.frame = some q) :
    RequestOf p q := by
  have hsent := sent_of_writes h.unpacked hw
  obtain ⟨hops, heq⟩ := event.arrived_eq
  rw [heq] at hsent
  obtain ⟨flags, hop, id, hframe, hlow, -, -, hid⟩ := hsent.carried hcut
  rw [hframe] at hq
  obtain ⟨hflags, hbody, id', hframed⟩ := framed_of_unpack_header hid hq
  obtain ⟨-, id₀, hframed₀⟩ := framed_of_unpack h.unpacked
  have hsame : q.SameAs event.packet := hframed.sameAs hframed₀ (by rw [hflags, hlow]) hbody
  refine ⟨unpack_raw hq, ?_, hsame.data ▸ h.length, hsame.packetType.trans h.packetType⟩
  rw [← h.identified, identified, identified, hsame.destinationHash, hsame.context, hsame.data, hflags, hlow]

theorem requestOf_of_signalled {signalling : Bytes} (h : RequestOf p q)
    (hq : unpack (q.raw.take (q.raw.length - (q.data.length - linkECPubSize)) ++ signalling) = some q') :
    RequestOf p q' := by
  obtain ⟨-, id, hframed⟩ := framed_of_unpack h.unpacked
  obtain ⟨hop, -, hraw⟩ := hframed.raw
  have hlen := h.length
  -- the frame with the new bytes, taken apart
  have hframe : q.raw.take (q.raw.length - (q.data.length - linkECPubSize)) ++ signalling =
      q.flags :: hop :: (id ++ (q.destinationHash ++ q.context :: (q.data.take linkECPubSize ++ signalling))) := by
    have hsplit : q.raw = (q.flags :: hop :: (id ++ (q.destinationHash ++ q.context :: q.data.take linkECPubSize))) ++
        q.data.drop linkECPubSize := by
      rw [hraw, body, cons_append, cons_append, append_assoc, append_assoc, cons_append,
        take_append_drop]
    have hdrop : q.data.length - linkECPubSize = (q.data.drop linkECPubSize).length := length_drop.symm
    rw [hdrop, hsplit, length_append, Nat.add_sub_cancel, take_left]
    simp only [cons_append, append_assoc]
  rw [hframe] at hq
  obtain ⟨hflags, hbody, id', hframed'⟩ := framed_of_unpack_header hframed.header hq
  obtain ⟨hdest, hrest⟩ := append_inj hbody (hframed'.length.trans hframed.length.symm)
  obtain ⟨hcontext, hdata⟩ := cons.inj hrest
  have htake : q'.data.take linkECPubSize = q.data.take linkECPubSize := by
    rw [hdata, take_append_of_le_length (by rw [length_take]; omega), take_take, Nat.min_self]
  refine ⟨unpack_raw hq, ?_, ?_, ?_⟩
  · rw [← h.identified, identified, identified, hflags, hdest, hcontext, htake]
  · rw [hdata, length_append, length_take]
    omega
  · rw [hframed'.packetType, hflags, ← hframed.packetType]
    exact h.packetType

theorem requestOf_of_travels (hp : RequestOf p p) (h : Travels p q) : RequestOf p q := by
  induction h with
  | packed => exact hp
  | written _ hw hcut hq ih => exact requestOf_of_written ih hw hcut hq
  | signalled _ hq ih => exact requestOf_of_signalled ih hq

theorem unpack_of_header1 {flags hop : UInt8} {rest : Bytes} (hheader : HeaderType.ofFlags flags = .header1)
    (hhop : hop.toNat < pathfinderM) (hlen : truncatedHashLength < rest.length) :
    unpack (flags :: hop :: rest) = some (unpackAt (flags :: hop :: rest) 2 none) := by
  have hlength : (flags :: hop :: rest).length = rest.length + 2 := rfl
  have hbad : ¬((flags :: hop :: rest).length < 3 ∨ pathfinderM ≤ ((flags :: hop :: rest).getD 1 0).toNat) := by
    rintro (hshort | hhops)
    · omega
    · exact absurd hhop (Nat.not_lt.mpr hhops)
  rw [unpack, if_neg hbad, getD_cons_zero, hheader]
  exact if_neg (by omega)

theorem requestOf_requestPacket {destinationHash pubBytes sigPubBytes : Bytes} (signalling : Bytes)
    (hdest : destinationHash.length = truncatedHashLength) (hpub : pubBytes.length = 32)
    (hsig : sigPubBytes.length = 32) : RequestOf (requestPacket destinationHash pubBytes sigPubBytes signalling)
      (requestPacket destinationHash pubBytes sigPubBytes signalling) := by
  have hdata : (requestPacket destinationHash pubBytes sigPubBytes signalling).data =
      pubBytes ++ sigPubBytes ++ signalling := by
    show (destinationHash ++ 0 :: (pubBytes ++ sigPubBytes ++ signalling)).drop (truncatedHashLength + 1) = _
    rw [← drop_drop, drop_left' hdest]
    rfl
  have htype : PacketType.ofFlags (packFlags .header1 false .broadcast .single .linkRequest) = .linkRequest := by decide
  refine ⟨unpack_of_header1 rfl (by decide) ?_, rfl, ?_, ?_⟩
  · rw [length_append, length_cons, hdest]
    omega
  · have : linkECPubSize = 64 := rfl
    rw [hdata, length_append, length_append, hpub, hsig]
    omega
  · simp only [requestPacket, unpackAt, getD_cons_zero, htype]

theorem linkTable_of_request {ts : TransportSystem} {iface : Interface} {choice : InboundChoice}
    (hrequest : q.packetType = .linkRequest) {id : Bytes}
    (h : id ∈ (ts.processInboundPacket iface q choice).1.linkTable) : id ∈ ts.linkTable ∨ id = linkIDFromLR q := by
  have hreinsert : (ts.reinsertTransportID q).packetType = .linkRequest ∧
      linkIDFromLR (ts.reinsertTransportID q) = linkIDFromLR q := by
    rw [reinsertTransportID]
    split
    · exact ⟨hrequest, rfl⟩
    · exact ⟨hrequest, rfl⟩
  have hlocal : ∀ r : Packet, r.packetType = .linkRequest → (ts.localHandling iface r choice).1 = ts := fun r hr => by
    rw [localHandling, hr]
  dsimp only [processInboundPacket] at h
  split at h
  · exact .inl h
  split at h
  · cases hhandled : ts.transportHandling iface (ts.reinsertTransportID q) with
    | none =>
      rw [hhandled, getD_none, hlocal _ hreinsert.1] at h
      exact .inl h
    | some done =>
      rw [hhandled, getD_some] at h
      dsimp only [transportHandling] at hhandled
      split at hhandled
      · split at hhandled
        · cases hhandled
          exact .inl h
        · cases hhandled
          dsimp only [forwardByPath] at h
          rw [if_pos hreinsert.1, hreinsert.2] at h
          exact (AList.mem_insert _).mp h |>.symm
      · obtain ⟨writes, -, rfl⟩ := map_eq_some_iff.mp hhandled
        exact .inl h
  · rw [hlocal q hrequest] at h
    exact .inl h

theorem linkID_handshake (crypto : LinkCrypto) (l : Link) : (l.handshake crypto).1.linkID = l.linkID := by
  rw [handshake]
  repeat' split
  all_goals rfl

theorem linkID_of_validateRequest {crypto : LinkCrypto} {prv destinationKey : Bytes} {l : Link}
    (h : validateRequest crypto prv destinationKey q = some l) : l.linkID = linkIDFromLR q := by
  rw [validateRequest] at h
  split at h
  · cases h
  dsimp only at h
  split at h
  · cases h
  split at h
  · cases h
  · cases h
    exact linkID_handshake crypto _

theorem linkIDFromLR_arrive (q : Packet) (iface : Interface) : linkIDFromLR (q.arrive iface) = linkIDFromLR q := by
  obtain ⟨hops, heq⟩ := arrive_eq q iface
  rw [heq]
  rfl

/-- Initiator, relays and destination agree on the identifier, if no node cuts off the destination hash. -/
theorem linkID_agreed {destinationHash pubBytes sigPubBytes : Bytes} (signalling : Bytes)
    (hdest : destinationHash.length = truncatedHashLength) (hpub : pubBytes.length = 32) (hsig : sigPubBytes.length = 32)
    {q : Packet} (h : Travels (requestPacket destinationHash pubBytes sigPubBytes signalling) q) (iface : Interface) :
    linkIDFromLR q = linkIDFromLR (requestPacket destinationHash pubBytes sigPubBytes signalling) ∧
    (∀ (ts : TransportSystem) (choice : TransportSystem.InboundChoice),
      ∀ id ∈ (ts.processInboundPacket iface (q.arrive iface) choice).1.linkTable, id ∈ ts.linkTable ∨
        id = linkIDFromLR (requestPacket destinationHash pubBytes sigPubBytes signalling)) ∧
    ∀ (crypto : LinkCrypto) (prv destinationKey : Bytes) (l : Link),
      validateRequest crypto prv destinationKey (q.arrive iface) = some l →
        l.linkID = linkIDFromLR (requestPacket destinationHash pubBytes sigPubBytes signalling) := by
  have hp := requestOf_requestPacket signalling hdest hpub hsig
  have hq := requestOf_of_travels hp h
  have hid := hq.linkID hp
  refine ⟨hid, fun ts choice id hmem => ?_, fun crypto prv destinationKey l hl => ?_⟩
  · have htype : (q.arrive iface).packetType = .linkRequest := by
      obtain ⟨hops, heq⟩ := TransportSystem.arrive_eq q iface
      rw [heq]
      exact hq.packetType
    exact (linkTable_of_request htype hmem).imp_right fun heq => heq.trans ((linkIDFromLR_arrive q iface).trans hid)
  · rw [linkID_of_validateRequest hl, linkIDFromLR_arrive, hid]

namespace Sample

def request : Packet :=
  requestPacket TransportSystem.Sample.destination (List.replicate 32 6) (List.replicate 32 7)
    (signallingBytes true 500 .aes256cbc)

end Sample

theorem request_identified : ∃ w q,
    TransportSystem.Sample.relay.writes (.outbound Sample.request none fun _ => true) = [w] ∧
      Packet.unpack w.frame = some q ∧ q.headerType = .header2 ∧ linkIDFromLR q = linkIDFromLR Sample.request := by
  obtain ⟨w, q, hwrites, hsite, hq, hheader⟩ : ∃ w q,
      TransportSystem.Sample.relay.writes (.outbound Sample.request none fun _ => true) = [w] ∧ w.site = .outboundPath ∧
        Packet.unpack w.frame = some q ∧ q.headerType = .header2 := ⟨_, _, rfl, rfl, rfl, rfl⟩
  have htravels : Travels Sample.request q := by
    have hmem : w ∈ TransportSystem.Sample.relay.writes (.outbound Sample.request none fun _ => true) :=
      hwrites ▸ List.mem_singleton_self w
    refine Travels.written Travels.packed hmem (fun hcut => ?_) hq
    rw [hsite] at hcut
    cases hcut.1
  exact ⟨w, q, hwrites, hq, hheader, (linkID_agreed _ rfl rfl rfl htravels { id := 0 }).1⟩

/-- A shared instance that hides the hops of its clients makes a request for another destination of it. -/
theorem request_cut : ∃ w q, TransportSystem.Sample.shared.writes (.inbound Sample.request { id := 0 } {}) = [w] ∧
    Packet.unpack w.frame = some q ∧ q.packetType = .linkRequest ∧ linkIDFromLR q ≠ linkIDFromLR Sample.request ∧
    validateRequest Sample.toyCrypto [] [] q = none :=
  ⟨_, _, rfl, rfl, by decide +kernel, by decide +kernel, by decide +kernel⟩

end Reticulum.Link
