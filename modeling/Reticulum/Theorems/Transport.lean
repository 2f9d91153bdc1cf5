import Reticulum.Theorems.Ifac
import Reticulum.Transport.Egress

/-! What a transport node writes: the packet that it was given, with an access code where the place that writes adds
one. -/

namespace Reticulum

open List Option

variable {p : Packet} {frame transportID : Bytes}

theorem toNat_ofNat_hops {n : Nat} (h : n < pathfinderM) : (UInt8.ofNat n).toNat < pathfinderM := by
  rw [UInt8.toNat_ofNat']
  omega

namespace Packet.Framed

section

variable (h : p.Framed transportID)
include h

theorem carried_set {hop : UInt8} (hhop : p.hops < pathfinderM → hop.toNat < pathfinderM) :
    p.Carried (p.raw.set 1 hop) := by
  obtain ⟨hop', -, hraw⟩ := h.raw
  rw [hraw]
  exact ⟨p.flags, hop, transportID, rfl, rfl, id, hhop, h.header⟩

theorem carried_raw : p.Carried p.raw := by
  obtain ⟨hop, hhop, hraw⟩ := h.raw
  exact ⟨p.flags, hop, transportID, hraw, rfl, id, fun _ => hhop, h.header⟩

theorem carried_withHops : p.Carried p.withHops := h.carried_set toNat_ofNat_hops

theorem raw_header1 (h1 : p.headerType = .header1) : ∃ hop, p.raw = p.flags :: hop :: p.body := by
  obtain ⟨hop, -, hraw⟩ := h.raw
  rcases h.header with ⟨-, rfl⟩ | ⟨h2, -⟩
  · exact ⟨hop, hraw⟩
  · rw [h.headerType, h2] at h1
    cases h1

theorem drop_header1 (h1 : p.headerType = .header1) : p.raw.drop 2 = p.body := by
  obtain ⟨hop, hraw⟩ := h.raw_header1 h1
  rw [hraw]
  rfl

theorem drop_header2 (h2 : p.headerType = .header2) : p.raw.drop (truncatedHashLength + 2) = p.body := by
  obtain ⟨hop, -, hraw⟩ := h.raw
  rcases h.header with ⟨h1, -⟩ | ⟨-, hid⟩
  · rw [h.headerType, h1] at h2
    cases h2
  · rw [hraw, drop_succ_cons, drop_succ_cons, drop_left' hid]

theorem carried_strip (h2 : p.headerType = .header2) : p.Carried p.strip := by
  obtain ⟨-, -, h1, hseal, hlow⟩ := ofFlags_and p.flags
  refine ⟨_, _, [], ?_, hlow, fun _ => hseal, toNat_ofNat_hops, .inl ⟨h1, rfl⟩⟩
  rw [strip, h.drop_header2 h2]
  rfl

theorem truncated_strip (h1 : p.headerType = .header1) : p.Truncated p.strip := by
  refine ⟨UInt8.ofNat p.hops, ?_⟩
  rw [strip, Nat.add_comm, ← drop_drop, h.drop_header1 h1, body, drop_left' h.length]

theorem carried_insertHeader {hop : UInt8} {id rest : Bytes} (hrest : rest = p.body)
    (hid : id.length = truncatedHashLength) (hhop : p.hops < pathfinderM → hop.toNat < pathfinderM) :
    p.Carried (p.insertHeader hop id rest) := by
  obtain ⟨hheader, hseal⟩ := packFlags_header .header2 p.contextFlag .forward p.destinationType p.packetType
  refine ⟨_, hop, id, by rw [insertHeader, hrest], ?_, fun _ => hseal, hhop, .inr ⟨hheader, hid⟩⟩
  rw [h.destinationType, h.packetType, packFlags_ofFlags]

end

end Packet.Framed

namespace TransportSystem

variable {ts : TransportSystem}

theorem toNat_delta (ts : TransportSystem) : (UInt8.ofNat ts.localHopsDelta).toNat < pathfinderM :=
  toNat_ofNat_hops (Nat.lt_of_le_of_lt ts.delta_le (by decide))

theorem carried_mangleHops (h : p.Carried frame) : p.Carried (ts.mangleHops frame ts.localHopsDelta false) := by
  obtain ⟨flags, hop, id, rfl, hlow, hseal, -, hid⟩ := h
  exact ⟨flags, _, id, rfl, hlow, hseal, fun _ => ts.toNat_delta, hid⟩

theorem carried_mangleForwardedRaw (h : p.Carried frame) (a b : Bool) : p.Carried (ts.mangleForwardedRaw frame a b) := by
  rw [mangleForwardedRaw]
  split_ifs
  · exact h
  · exact carried_mangleHops h

theorem truncated_mangleForwardedRaw (h : p.Truncated frame) (a b : Bool) :
    p.Truncated (ts.mangleForwardedRaw frame a b) := by
  rw [mangleForwardedRaw]
  split_ifs
  · exact h
  · obtain ⟨hop, rfl⟩ := h
    exact ⟨_, rfl⟩

theorem toNat_insertHopByte (h : p.Framed transportID) (iface : Interface) :
    (ts.insertHopByte p iface).toNat < pathfinderM := by
  rw [insertHopByte]
  split_ifs
  · exact ts.toNat_delta
  · obtain ⟨hop, hhop, hraw⟩ := h.raw
    rw [hraw]
    exact hhop

theorem toNat_forwardedHopByte (p : Packet) (a b : Bool) (h : p.hops < pathfinderM) :
    (ts.forwardedHopByte p a b).toNat < pathfinderM := by
  rw [forwardedHopByte]
  split_ifs
  · exact toNat_ofNat_hops h
  · exact ts.toNat_delta
  · exact toNat_ofNat_hops h

theorem carried_disguiseBroadcastRaw (h : p.Framed transportID) (iface : Interface) :
    p.Carried (ts.disguiseBroadcastRaw p iface) := by
  rw [disguiseBroadcastRaw]
  split_ifs with hdelta
  · cases hinsert : (p.packetType = .announce && p.headerType = .header1 && ts.identity.isSome) with
    | false => exact carried_mangleHops h.carried_raw
    | true =>
      simp only [Bool.and_eq_true, decide_eq_true_eq] at hinsert
      obtain ⟨⟨-, h1⟩, hidentity⟩ := hinsert
      obtain ⟨hash, hhash⟩ := isSome_iff_exists.mp hidentity
      obtain ⟨hheader, hlow, hseal⟩ := or_forward p.flags
      obtain ⟨hop, hraw⟩ := h.raw_header1 h1
      rw [hraw]
      refine ⟨_, _, hash, ?_, hlow, fun h0 => hseal.trans h0, fun _ => ts.toNat_delta,
        .inr ⟨hheader, ts.length_identity hash hhash⟩⟩
      rw [mangleHops, hhash]
      rfl
  · exact h.carried_raw

theorem carried_reframe (h : p.Carried frame) : p.Carried (ts.reframeAnnounceForTransport frame) := by
  rw [reframeAnnounceForTransport]
  split
  · rename_i hash q hhash hq
    split_ifs with hannounce
    · exact h
    · obtain ⟨flags, hop, id, rfl, hlow, -, -, hid⟩ := h
      obtain ⟨hflags, hbody, id', hframed⟩ := Packet.framed_of_unpack_header hid hq
      obtain ⟨hheader, hseal⟩ := packFlags_header .header2 q.contextFlag .forward q.destinationType q.packetType
      have hhops := toNat_ofNat_hops (Packet.hops_of_unpack hq)
      refine ⟨_, UInt8.ofNat q.hops, hash, ?_, ?_, fun _ => hseal, fun _ => hhops,
        .inr ⟨hheader, ts.length_identity hash hhash⟩⟩
      · rw [Packet.insertHeader, ← hbody]
        rfl
      · rw [hframed.destinationType, hframed.packetType, packFlags_ofFlags, hflags, hlow]
  · exact h

def Cuts (ts : TransportSystem) (p : Packet) (site : EgressSite) : Prop :=
  site = .pathTable ∧ p.headerType = .header1 ∧ ts.localHopsDelta ≠ 0

end TransportSystem

/-- The places that pass a frame through `ApplyIFACOutbound`. -/
def EgressSite.appliesIfac : EgressSite → Bool
  | outboundAttached | outboundPath | outboundBroadcast | dispatch | pathResponse => true
  | rebroadcast | pathTable | linkTable | clientBroadcast | linkProof | clientProof | reverseProof | linkAttached => false

namespace TransportSystem

variable {ts : TransportSystem} {w : Write}
variable {iface : Interface} {uncapped : Interface → Bool} {event : Event}

structure Sent (ts : TransportSystem) (p : Packet) (w : Write) : Prop where
  sealed : w.site.appliesIfac = true → p.flags &&& 0x80 = 0 → applyIfacOutbound w.iface.ifac w.frame = some w.bytes
  plain : w.site.appliesIfac = false → w.bytes = w.frame
  cut : ts.Cuts p w.site → p.Truncated w.frame
  carried : ¬ts.Cuts p w.site → p.Carried w.frame

theorem sealable_of_carried (h : p.Carried frame) (hp : p.flags &&& 0x80 = 0) : Sealable frame := by
  obtain ⟨flags, hop, id, rfl, -, hseal, -, -⟩ := h
  exact ⟨flags, hop, _, rfl, by simp [Packet.body], hseal hp⟩

theorem sealable_of_truncated (h : p.Truncated frame) : Sealable frame := by
  obtain ⟨hop, rfl⟩ := h
  exact ⟨_, hop, _, rfl, nofun, (ofFlags_and p.flags).2.2.2.1⟩

theorem Sent.sealable (h : ts.Sent p w) (hp : p.flags &&& 0x80 = 0) : Sealable w.frame := by
  by_cases hcut : ts.Cuts p w.site
  · exact sealable_of_truncated (h.cut hcut)
  · exact sealable_of_carried (h.carried hcut) hp

theorem sent_direct {site : EgressSite} (hsite : site.appliesIfac = false)
    (hne : site ≠ .pathTable) (h : p.Carried frame) : ts.Sent p (.direct site iface frame) where
  sealed htrue := absurd (hsite.symm.trans htrue) (by decide)
  plain _ := rfl
  cut hcut := absurd hcut.1 hne
  carried _ := h

theorem sent_of_throughIfac {site : EgressSite} (hsite : site.appliesIfac = true)
    (h : p.Carried frame) (hw : w ∈ Write.throughIfac site iface frame) : ts.Sent p w := by
  obtain ⟨bytes, hbytes, rfl⟩ := mem_map.mp hw
  rw [mem_toList] at hbytes
  refine ⟨fun _ _ => hbytes, fun hfalse => ?_, fun hcut => ?_, fun _ => h⟩
  · exact absurd (hsite.symm.trans hfalse) (by decide)
  · obtain rfl : site = .pathTable := hcut.1
    cases hsite

section

variable (h : p.Framed transportID)
include h

theorem sent_of_outboundAttached (hw : w ∈ ts.outboundAttached p iface) : ts.Sent p w := by
  dsimp only [outboundAttached] at hw
  split at hw
  · cases hw
  have hcarried : p.Carried (ts.disguiseBroadcastRaw p iface) := carried_disguiseBroadcastRaw h iface
  split at hw <;> rename_i hifac <;> obtain rfl := mem_singleton.mp hw
  · refine ⟨fun _ hp => ?_, fun _ => rfl, (fun hcut => nomatch hcut.1), fun _ => hcarried⟩
    -- the error that is ignored here does not occur
    obtain ⟨bytes, hbytes, -⟩ := (sealable_of_carried hcarried hp).outbound iface.ifac
    rw [hbytes] at hifac
    cases hifac
  · exact ⟨fun _ _ => hifac, nofun, (fun hcut => nomatch hcut.1), fun _ => hcarried⟩

theorem sent_of_outboundPath {entry : PathEntry} (hw : w ∈ ts.outboundPath p entry iface) : ts.Sent p w := by
  dsimp only [outboundPath] at hw
  split at hw
  · cases hw
  rename_i h2
  refine sent_of_throughIfac rfl ?_ hw
  split_ifs with hinsert
  · have h1 : p.headerType = .header1 := by
      cases hheader : p.headerType
      · rfl
      · exact absurd hheader h2
    exact h.carried_insertHeader (h.drop_header1 h1) hinsert.1 fun _ => toNat_insertHopByte h iface
  · exact carried_mangleHops h.carried_raw
  · exact h.carried_raw

theorem sent_of_outboundBroadcast (hw : w ∈ ts.outboundBroadcast p uncapped) : ts.Sent p w := by
  obtain ⟨iface, -, hw⟩ := mem_flatMap.mp hw
  dsimp only at hw
  split_ifs at hw
  all_goals first | cases hw | exact sent_of_throughIfac rfl (carried_disguiseBroadcastRaw h iface) hw

theorem sent_of_outbound {attached : Option Interface} (hw : w ∈ ts.outbound p attached uncapped) : ts.Sent p w := by
  dsimp only [outbound] at hw
  split at hw
  · cases hw
  split at hw
  · cases hw
  split at hw
  · exact sent_of_outboundAttached h hw
  split at hw
  · split at hw
    · exact sent_of_outboundPath h hw
    · exact sent_of_outboundBroadcast h hw
  · exact sent_of_outboundBroadcast h hw

theorem sent_of_linkSend {link : LocalLink} (hw : w ∈ ts.linkSend link p uncapped) : ts.Sent p w := by
  rw [linkSend] at hw
  split at hw
  · cases hw
  split at hw
  · obtain rfl := mem_singleton.mp hw
    exact sent_direct rfl nofun h.carried_raw
  · exact sent_of_outbound h hw

end

section

variable (h : p.Framed transportID)
include h

theorem framed_reinsertTransportID : (ts.reinsertTransportID p).Framed transportID := by
  rw [reinsertTransportID]
  split_ifs
  · exact ⟨h.raw, h.length, h.headerType, h.destinationType, h.packetType, h.header⟩
  · exact h

omit h in
theorem sent_reinsertTransportID (h : ts.Sent (ts.reinsertTransportID p) w) : ts.Sent p w := by
  rw [reinsertTransportID] at h
  split_ifs at h
  · exact ⟨h.sealed, h.plain, h.cut, fun hcut => by
      obtain ⟨flags, hop, id, hframe, hlow, hseal, hhop, hid⟩ := h.carried hcut
      exact ⟨flags, hop, id, hframe, hlow, hseal, hhop, hid⟩⟩
  · exact h

theorem carried_nextHop (h2 : p.headerType = .header2) {nextHop : Bytes} (hlen : nextHop.length ≤ truncatedHashLength) :
    p.Carried (p.withHops.take 2 ++ nextHop ++ p.withHops.drop (2 + nextHop.length)) := by
  obtain ⟨hop, -, hraw⟩ := h.raw
  rcases h.header with ⟨h1, -⟩ | ⟨hflags, hid⟩
  · rw [h.headerType, h1] at h2
    cases h2
  refine ⟨p.flags, UInt8.ofNat p.hops, nextHop ++ transportID.drop nextHop.length, ?_, rfl, id, toNat_ofNat_hops,
    .inr ⟨hflags, ?_⟩⟩
  · rw [Packet.withHops, hraw, Nat.add_comm]
    show p.flags :: UInt8.ofNat p.hops :: (nextHop ++ (transportID ++ p.body).drop nextHop.length) = _
    rw [drop_append_of_le_length (by omega), append_assoc]
  · rw [length_append, length_drop]
    omega

theorem sent_of_forwardByPath {out : Interface} {entry : PathEntry}
    (hclient : p.headerType = .header1 → entry.hops = 0) (hw : w ∈ (ts.forwardByPath iface p entry out).2) :
    ts.Sent p w := by
  obtain rfl := mem_singleton.mp hw
  refine ⟨nofun, fun _ => rfl, fun hcut => ?_, fun hcut => ?_⟩
  · apply truncated_mangleForwardedRaw
    obtain ⟨-, h1, hdelta⟩ := hcut
    have hzero := hclient h1
    rw [forwardedRaw, if_neg (by omega), if_neg (by omega), if_pos hdelta]
    exact h.truncated_strip h1
  · apply carried_mangleForwardedRaw
    have hheader : p.headerType = .header1 ∨ p.headerType = .header2 := by
      cases p.headerType
      · exact .inl rfl
      · exact .inr rfl
    rcases hheader with h1 | h2
    · have hzero := hclient h1
      have hdelta : ¬ts.localHopsDelta ≠ 0 := fun hdelta => hcut ⟨rfl, h1, hdelta⟩
      rw [forwardedRaw, if_neg (by omega), if_neg (by omega), if_neg hdelta]
      exact h.carried_withHops
    · rw [forwardedRaw]
      split_ifs
      · exact carried_nextHop h h2 (length_take_le _ _)
      · exact h.carried_strip h2
      · exact h.carried_strip h2
      · exact h.carried_withHops

theorem sent_of_forwardByLink {writes : List Write}
    (hlink : ts.forwardByLink iface p = some writes) (hw : w ∈ writes) : ts.Sent p w := by
  rw [forwardByLink] at hlink
  split at hlink
  · cases hlink
  split at hlink
  · cases hlink
  split at hlink
  · cases hlink
    cases hw
  · obtain ⟨out, -, rfl⟩ := map_eq_some_iff.mp hlink
    obtain rfl := mem_singleton.mp hw
    exact sent_direct rfl nofun (h.carried_set (toNat_forwardedHopByte p _ _))

end

def Addressed (ts : TransportSystem) (p : Packet) : Prop :=
  p.headerType = .header1 → p.transportID ≠ none → ts.isForLocalClient p = true

section

variable (h : p.Framed transportID)
include h

theorem sent_of_transportHandling (haddressed : ts.Addressed p)
    {ts' : TransportSystem} {writes : List Write} (hhandled : ts.transportHandling iface p = some (ts', writes))
    (hw : w ∈ writes) : ts.Sent p w := by
  dsimp only [transportHandling] at hhandled
  split at hhandled
  · rename_i entry hpath
    split_ifs at hpath with hid
    split at hhandled
    · cases hhandled
      cases hw
    · rename_i out hout
      have hwrites : (ts.forwardByPath iface p entry out).2 = writes := congrArg Prod.snd (some.inj hhandled)
      refine sent_of_forwardByPath h (fun h1 => ?_) (hwrites ▸ hw)
      have hclient := haddressed h1 (isSome_iff_ne_none.mp hid.1)
      rw [isForLocalClient, hpath] at hclient
      simpa using hclient
  · obtain ⟨writes', hlink, heq⟩ := map_eq_some_iff.mp hhandled
    obtain ⟨-, rfl⟩ := Prod.mk.inj heq
    exact sent_of_forwardByLink h hlink hw

theorem sent_of_broadcastFromClient (hw : w ∈ ts.broadcastFromClient iface p) : ts.Sent p w := by
  rw [broadcastFromClient] at hw
  split_ifs at hw
  · obtain ⟨out, -, rfl⟩ := mem_map.mp hw
    exact sent_direct rfl nofun h.carried_raw
  · cases hw

theorem sent_of_relayLinkProof {valid : Bool}
    (hw : w ∈ ((ts.relayLinkProof iface p valid).getD (ts, [])).2) : ts.Sent p w := by
  rw [relayLinkProof] at hw
  cases hentry : ts.linkTable.lookup p.destinationHash with
  | none =>
    rw [hentry] at hw
    cases hw
  | some entry =>
    rw [hentry, map_some, getD_some] at hw
    dsimp only at hw
    split at hw
    · cases hw
    split at hw
    · cases hw
    · obtain rfl := mem_singleton.mp hw
      exact sent_direct rfl nofun (h.carried_set (toNat_forwardedHopByte p _ _))

theorem sent_of_forwardProof (hw : w ∈ ts.forwardProof iface p) : ts.Sent p w := by
  rw [forwardProof] at hw
  split at hw
  · obtain rfl := mem_singleton.mp hw
    exact sent_direct rfl nofun h.carried_withHops
  split at hw
  · cases hw
  · obtain rfl := mem_singleton.mp hw
    exact sent_direct rfl nofun (h.carried_set (toNat_forwardedHopByte p _ _))

theorem sent_of_forwardAnnounce {installed : Bool} (hw : w ∈ ts.forwardAnnounce iface p installed) : ts.Sent p w := by
  rcases mem_append.mp hw with hw | hw <;> split_ifs at hw
  · rw [forwardAnnounceToLocalClients] at hw
    split at hw
    · cases hw
    · rename_i hash hhash
      obtain ⟨client, -, hw⟩ := mem_flatMap.mp hw
      exact sent_of_throughIfac rfl (h.carried_insertHeader rfl (ts.length_identity hash hhash) toNat_ofNat_hops) hw
  · cases hw
  · obtain ⟨requester, -, hw⟩ := mem_flatMap.mp hw
    exact sent_of_throughIfac rfl (carried_reframe h.carried_withHops) hw
  · cases hw

theorem sent_of_localHandling {choice : InboundChoice}
    (hw : w ∈ (ts.localHandling iface p choice).2) : ts.Sent p w := by
  rw [localHandling] at hw
  split at hw
  · exact sent_of_forwardAnnounce h hw
  · split at hw
    · exact sent_of_relayLinkProof h hw
    · exact sent_of_forwardProof h hw
  · exact sent_of_broadcastFromClient h hw

end

theorem addressed_reinsertTransportID (h : p.headerType = .header1 → p.transportID = none) :
    ts.Addressed (ts.reinsertTransportID p) := by
  rw [reinsertTransportID]
  split_ifs with hinsert
  · exact fun _ _ => hinsert.2.1
  · exact fun h1 hne => absurd (h h1) hne

theorem sent_of_processInboundPacket (h : p.Framed transportID) (hid : p.headerType = .header1 → p.transportID = none)
    {choice : InboundChoice} (hw : w ∈ (ts.processInboundPacket iface p choice).2) : ts.Sent p w := by
  dsimp only [processInboundPacket] at hw
  split at hw
  · cases hw
  split at hw
  · have hframed : (ts.reinsertTransportID p).Framed transportID := framed_reinsertTransportID h
    cases hhandled : ts.transportHandling iface (ts.reinsertTransportID p) with
    | none =>
      rw [hhandled] at hw
      exact sent_reinsertTransportID (sent_of_localHandling hframed hw)
    | some done =>
      rw [hhandled] at hw
      exact sent_reinsertTransportID
        (sent_of_transportHandling hframed (addressed_reinsertTransportID hid) hhandled hw)
  · exact sent_of_localHandling h hw

theorem sent_of_sendRebroadcast (h : p.Framed transportID)
    (hw : w ∈ ts.sendRebroadcast iface p.withHops) : ts.Sent p w := by
  rw [sendRebroadcast] at hw
  split_ifs at hw
  · cases hw
  · obtain rfl := mem_singleton.mp hw
    exact sent_direct rfl nofun (carried_reframe h.carried_withHops)

theorem arrive_eq (p : Packet) (iface : Interface) : ∃ hops, p.arrive iface = { p with hops := hops } := by
  rw [Packet.arrive]
  split
  · exact ⟨p.hops, rfl⟩
  · exact ⟨p.hops, rfl⟩
  · exact ⟨p.hops + 1, rfl⟩

theorem Event.arrived_eq (event : Event) : ∃ hops, event.arrived = { event.packet with hops := hops } := by
  cases event with
  | inbound p iface choice => exact arrive_eq p iface
  | rebroadcast p source iface =>
    cases source with
    | none => exact ⟨p.hops, rfl⟩
    | some source => exact arrive_eq p source
  | outbound p _ _ | linkSend p _ _ | relayPathRequest p _ | answerPathRequest p _ => exact ⟨p.hops, rfl⟩

theorem framed_withHops (h : p.Framed transportID) (hops : Nat) : { p with hops := hops }.Framed transportID :=
  ⟨h.raw, h.length, h.headerType, h.destinationType, h.packetType, h.header⟩

theorem preserved_withHops (hops : Nat) : { p with hops := hops }.Preserved frame ↔ p.Preserved frame := by
  constructor <;> rintro ⟨q, hq, hs⟩ <;> exact ⟨q, hq, hs.destinationHash, hs.destinationType, hs.packetType,
    hs.context, hs.data, hs.hash, hs.truncatedHash⟩

theorem sent_of_writes (h : Packet.unpack event.packet.raw = some event.packet)
    (hw : w ∈ ts.writes event) : ts.Sent event.arrived w := by
  obtain ⟨-, transportID, hframed⟩ := Packet.framed_of_unpack h
  have harrived : event.arrived.Framed transportID := by
    obtain ⟨hops, heq⟩ := event.arrived_eq
    rw [heq]
    exact framed_withHops hframed hops
  have hid : event.arrived.headerType = .header1 → event.arrived.transportID = none := by
    obtain ⟨hops, heq⟩ := event.arrived_eq
    rw [heq]
    show event.packet.headerType = .header1 → event.packet.transportID = none
    exact Packet.transportID_of_unpack h
  cases event with
  | outbound p attached uncapped => exact sent_of_outbound harrived hw
  | linkSend p link uncapped => exact sent_of_linkSend harrived hw
  | inbound p iface choice => exact sent_of_processInboundPacket harrived hid hw
  | rebroadcast p source iface => exact sent_of_sendRebroadcast harrived hw
  | relayPathRequest p iface | answerPathRequest p iface => exact sent_of_throughIfac rfl harrived.carried_raw hw

/-- A frame is sealed, and read back, exactly if the writing place adds the code or the interface has none. -/
theorem sealed_iff_appliesIfac (h : Packet.unpack event.packet.raw = some event.packet)
    (hflag : event.packet.flags &&& 0x80 = 0) (hw : w ∈ ts.writes event) :
    (applyIfacOutbound w.iface.ifac w.frame = some w.bytes ∧ applyIfacInbound w.iface.ifac w.bytes = some w.frame) ↔
      w.site.appliesIfac = true ∨ w.iface.ifac = none := by
  have hsent := sent_of_writes h hw
  have hunsealed : event.arrived.flags &&& 0x80 = 0 := by
    obtain ⟨hops, heq⟩ := event.arrived_eq
    rw [heq]
    exact hflag
  obtain ⟨bytes, hout, hin, hne⟩ := (hsent.sealable hunsealed).outbound w.iface.ifac
  cases happlies : w.site.appliesIfac with
  | true =>
    refine ⟨fun _ => Or.inl rfl, fun _ => ?_⟩
    have hbytes := hsent.sealed happlies hunsealed
    obtain rfl := Option.some.inj (hout.symm.trans hbytes)
    exact ⟨hout, hin⟩
  | false =>
    have hbytes := hsent.plain happlies
    refine ⟨fun hsealed => ?_, fun hnone => ?_⟩
    · -- a sealed frame is longer than the plain one
      rw [hbytes, hout] at hsealed
      cases hifac : w.iface.ifac with
      | none => exact Or.inr rfl
      | some ifac => exact absurd (Option.some.inj hsealed.1) (hne (by rw [hifac]; rfl))
    · rcases hnone with hfalse | hnone
      · cases hfalse
      · rw [hnone] at hout hin ⊢
        cases hout
        rw [hbytes]
        exact ⟨rfl, hin⟩

namespace Sample

def ifac : Ifac where
  size := 1
  key := List.replicate 64 7
  sign _ := List.replicate 64 9
  pos := by decide
  le := by decide
  length_key := by decide
  length_sign _ := by decide

def identity : Bytes := List.replicate 16 3

def destination : Bytes := List.replicate 16 5

def guarded : Interface := { id := 1, ifac := some ifac }

def relay : TransportSystem where
  identity := some identity
  pathTable := AList.singleton destination { nextHop := List.replicate 16 4, hops := 2, interface := some guarded }
  length_identity := by simp [identity, truncatedHashLength]

def ownPacket : Packet := Packet.unpackAt (0 :: 0 :: (destination ++ [0, 42])) 2 none

def transported : Packet :=
  Packet.unpackAt (0x50 :: 0 :: (identity ++ destination ++ [0, 42])) 18 (some identity)

end Sample

theorem own_packet_sealed : ∃ w, Sample.relay.writes (.outbound Sample.ownPacket none fun _ => true) = [w] ∧
      applyIfacOutbound w.iface.ifac w.frame = some w.bytes ∧ applyIfacInbound w.iface.ifac w.bytes = some w.frame := by
  have hwrites : ∃ w, Sample.relay.writes (.outbound Sample.ownPacket none fun _ => true) = [w] ∧
      w.site.appliesIfac = true := ⟨_, rfl, rfl⟩
  obtain ⟨w, hw, happlies⟩ := hwrites
  refine ⟨w, hw, (@sealed_iff_appliesIfac Sample.relay w (.outbound Sample.ownPacket none fun _ => true)
    (by decide +kernel) (by decide) ?_).mpr (.inl happlies)⟩
  rw [hw]
  exact List.mem_singleton_self w

/-- A packet that is forwarded leaves without the code, and the next node drops it. -/
theorem transported_packet_unsealed :
    ∃ w, Sample.relay.writes (.inbound Sample.transported { id := 0 } {}) = [w] ∧ w.iface.ifac = some Sample.ifac ∧
      Packet.unpack Sample.transported.raw = some Sample.transported ∧ w.bytes = w.frame ∧
      applyIfacInbound w.iface.ifac w.bytes = none :=
  ⟨_, rfl, rfl, by decide +kernel, rfl, by decide +kernel⟩

/-- Below the hop limit, what is written for a packet unpacks to the packet, unless its destination hash is cut off. -/
theorem preserved_iff_not_cuts (h : Packet.unpack event.packet.raw = some event.packet)
    (hhops : event.arrived.hops < pathfinderM) (hw : w ∈ ts.writes event) :
    event.packet.Preserved w.frame ↔ ¬ts.Cuts event.packet w.site := by
  have hsent := sent_of_writes h hw
  obtain ⟨-, transportID, hframed⟩ := Packet.framed_of_unpack h
  obtain ⟨hops, heq⟩ := event.arrived_eq
  rw [heq] at hsent hhops
  refine ⟨fun hpreserved hcut => ?_, fun hcut => ?_⟩
  · exact (hsent.cut hcut).not_preserved ((preserved_withHops hops).mpr hpreserved)
  · exact (preserved_withHops hops).mp ((hsent.carried hcut).preserved (framed_withHops hframed hops) hhops)

namespace Sample

def shared : TransportSystem where
  identity := some identity
  localHopsDelta := 3
  pathTable := AList.singleton destination
    { nextHop := destination, hops := 0, interface := some { id := 2, kind := .spawnedClient } }
  length_identity := by simp [identity, truncatedHashLength]

def direct : Packet := Packet.unpackAt (0 :: 0 :: (destination ++ 0 :: List.replicate 20 42)) 2 none

end Sample

theorem transported_packet_preserved : ∃ w, Sample.relay.writes (.inbound Sample.transported { id := 0 } {}) = [w] ∧
      Sample.transported.Preserved w.frame := by
  have hwrites : ∃ w, Sample.relay.writes (.inbound Sample.transported { id := 0 } {}) = [w] := ⟨_, rfl⟩
  obtain ⟨w, hw⟩ := hwrites
  refine ⟨w, hw, (@preserved_iff_not_cuts Sample.relay w (.inbound Sample.transported { id := 0 } {})
    (by decide +kernel) (by decide) ?_).mpr fun hcut => absurd hcut.2.1 (by decide)⟩
  rw [hw]
  exact List.mem_singleton_self w

/-- The client gets the packet for another destination. -/
theorem direct_packet_cut : ∃ w, Sample.shared.writes (.inbound Sample.direct { id := 0 } {}) = [w] ∧
      Packet.unpack Sample.direct.raw = some Sample.direct ∧
      Sample.direct.destinationHash = List.replicate 16 5 ∧
      (Packet.unpack w.frame).map (fun q => (q.destinationHash, q.data)) =
        some (0 :: List.replicate 15 42, List.replicate 4 42) :=
  ⟨_, rfl, by decide +kernel, by decide +kernel, by decide +kernel⟩

end TransportSystem
end Reticulum
