import Reticulum.ChannelDelivery
import Reticulum.Theorems.ChannelReceive

/-! # What becomes of the messages that a peer sends over a channel

The link proves every packet before the channel looks at it. -/

namespace Reticulum.Delivery

open Channel Transitions ReorderBuffer List Option

variable {M : Type} {factories : UInt16 → Option (MessageFactory M)} {messages : Nat → Outgoing factories}
variable {handlers : List (MessageHandlerEntry M)} {w w' : Delivery M} {c : Channel M Nat} {n : Nat}
variable {a m : Nat} {ns : List Nat}

/-! ### Arrivals -/

def envelope (messages : Nat → Outgoing factories) (n : Nat) : Envelope M Nat :=
  ⟨UInt16.ofNat n, (messages n).message, some n⟩

theorem envelope_sequence (messages : Nat → Outgoing factories) (n : Nat) :
    (envelope messages n).sequence = UInt16.ofNat n := rfl

@[simp] theorem arrive_sent (messages : Nat → Outgoing factories) (w : Delivery M) (n : Nat) :
    (w.arrive messages n).sent = w.sent := rfl

structure Running (factories : UInt16 → Option (MessageFactory M)) (w : Delivery M) (c : Channel M Nat) : Prop where
  status : w.link.status ≠ .closed
  channel : w.link.channel = some c
  factories : c.messageFactories = factories

def Channel.drained (c : Channel M Nat) (ring : List (Envelope M Nat)) : Channel M Nat :=
  { c with rxRing := (contiguous c.nextRXSequence ring).2.1, nextRXSequence := (contiguous c.nextRXSequence ring).2.2 }

theorem arrive_cases (h : Running factories w c) (messages : Nat → Outgoing factories) (n : Nat) :
    ((invalidSequence c.nextRXSequence (UInt16.ofNat n) = true ∨
        emplaceEnvelope c.nextRXSequence (envelope messages n) c.rxRing = none) ∧
      Running factories (w.arrive messages n) c ∧ (w.arrive messages n).handed = w.handed) ∨
    ∃ ring, invalidSequence c.nextRXSequence (UInt16.ofNat n) = false ∧
      emplaceEnvelope c.nextRXSequence (envelope messages n) c.rxRing = some ring ∧
      Running factories (w.arrive messages n) (Channel.drained c ring) ∧
      (w.arrive messages n).handed = w.handed ++ (contiguous c.nextRXSequence ring).1 := by
  have hunpack : Envelope.unpack c.messageFactories (payload messages n) (some n) = some (envelope messages n) := by
    obtain ⟨factory, hfactory, hdata⟩ := (messages n).registered
    rw [h.factories]
    exact Envelope.unpack_pack (messages n).fits hfactory hdata
  have hlink : (w.arrive messages n).link =
      ⟨w.link.status.revive, some (c.receive (payload messages n) (some n)).1⟩ := by
    simp [arrive, ChannelLink.receive, h.status, h.channel]
  have hhanded : (w.arrive messages n).handed = w.handed ++ c.handed (payload messages n) (some n) := by
    simp [arrive, ChannelLink.handed, h.status, h.channel]
  have hrunning : ∀ {c' : Channel M Nat}, (c.receive (payload messages n) (some n)).1 = c' →
      c'.messageFactories = factories → Running factories (w.arrive messages n) c' := by
    rintro c' rfl hf
    refine ⟨?_, by rw [hlink], hf⟩
    rw [hlink]
    exact fun hclosed => h.status (LinkStatus.revive_eq_closed.mp hclosed)
  rcases receive_cases hunpack with ⟨hdrop, hreceive⟩ | ⟨ring, hvalid, hplaced, hreceive⟩
  · refine .inl ⟨hdrop, hrunning (by rw [hreceive]) h.factories, ?_⟩
    rw [hhanded, Channel.handed, hunpack]
    rcases hdrop with hdrop | hdrop
    · simp [hdrop]
    · simp [hdrop]
  · refine .inr ⟨ring, hvalid, hplaced, hrunning (by rw [hreceive]; rfl) h.factories, ?_⟩
    rw [hhanded, Channel.handed, hunpack]
    simp [hvalid, hplaced]

theorem running_start : Running factories (start factories handlers)
    { messageFactories := factories, messageHandlers := handlers } := ⟨nofun, rfl, rfl⟩

theorem running_arrive (h : Running factories w c) (messages : Nat → Outgoing factories) (n : Nat) :
    ∃ c', Running factories (w.arrive messages n) c' := by
  rcases arrive_cases h messages n with ⟨-, h', -⟩ | ⟨ring, -, -, h', -⟩
  · exact ⟨c, h'⟩
  · exact ⟨_, h'⟩

theorem step_cases {a : Event} (h : step messages w a = some w') :
    (a = .send ∧ w' = { w with sent := w.sent + 1 }) ∨ ∃ n < w.sent, a = .deliver n ∧ w' = w.arrive messages n := by
  cases a with
  | send => exact .inl ⟨rfl, (some.inj h).symm⟩
  | deliver n =>
    obtain ⟨hn, h⟩ := ite_none_right_eq_some.mp h
    exact .inr ⟨n, hn, rfl, (some.inj h).symm⟩

theorem running_step {a : Event} (h : Running factories w c) (hstep : step messages w a = some w') :
    ∃ c', Running factories w' c' := by
  rcases step_cases hstep with ⟨-, rfl⟩ | ⟨n, -, -, rfl⟩
  · exact ⟨c, h.status, h.channel, h.factories⟩
  · exact running_arrive h messages n

theorem running_of_reachable (h : Reachable (step messages) (start factories handlers) w) :
    ∃ c, Running factories w c :=
  h.invariant (fun w => ∃ c, Running factories w c) ⟨_, running_start⟩ fun _ _ _ ⟨_, hc⟩ hstep => running_step hc hstep

/-! ### Proved messages -/

def Kept (w : Delivery M) (n : Nat) : Prop :=
  (∃ e ∈ w.handed, e.packet = some n) ∨ ∃ c, w.link.channel = some c ∧ ∃ e ∈ c.rxRing, e.packet = some n

/-- The number is not below the awaited one, or in the window after a wrap, and not in the ring before its place. -/
def Welcome (w : Delivery M) (n : Nat) : Prop :=
  ∃ c, w.link.channel = some c ∧
    (c.nextRXSequence.toNat ≤ n % 65536 ∨ 65536 + n % 65536 ≤ c.nextRXSequence.toNat + 48) ∧
    ∀ e ∈ c.rxRing.takeWhile (fun e => decide ¬(UInt16.ofNat n < e.sequence ∧
      ¬c.nextRXSequence - UInt16.ofNat n > channelSeqMax / 2)), e.sequence ≠ UInt16.ofNat n

theorem invalidSequence_eq_false_iff {next q : UInt16} : invalidSequence next q = false ↔
    next.toNat ≤ q.toNat ∨ 65536 + q.toNat ≤ next.toNat + 48 := by
  have hnext := next.toNat_lt
  have hadd : (next + channelWindowMaxFast).toNat = (next.toNat + 48) % 65536 := by
    rfl
  simp only [invalidSequence, UInt16.lt_iff_toNat_lt, hadd]
  split_ifs with hlt hwrap
  · simp only [decide_eq_false_iff_not]
    omega
  · simp only [false_iff]
    omega
  · simp only [true_iff]
    omega

theorem emplaceEnvelope_eq_none_iff {P : Type} {next : UInt16} {env : Envelope M P} {ring : List (Envelope M P)} :
    emplaceEnvelope next env ring = none ↔
      ∃ e ∈ ring.takeWhile (fun e => decide ¬(env.sequence < e.sequence ∧ ¬next - env.sequence > channelSeqMax / 2)),
        e.sequence = env.sequence := by
  induction ring with
  | nil => simp [emplaceEnvelope]
  | cons x ring ih =>
    rw [emplaceEnvelope]
    by_cases heq : env.sequence = x.sequence
    · simp [heq]
    · rw [if_neg heq]
      by_cases hlt : env.sequence < x.sequence
      · by_cases hahead : next - env.sequence > channelSeqMax / 2
        · simp [hlt, hahead, ih, Ne.symm heq]
        · simp [hlt, hahead]
      · simp [hlt, ih, Ne.symm heq]

section

variable (h : Running factories w c)
include h

theorem kept_iff : Kept w n ↔ ∃ e ∈ w.handed ++ c.rxRing, e.packet = some n := by
  simp [Kept, h.channel, or_and_right, exists_or]

theorem kept_arrive_of_placed {ring : List (Envelope M Nat)}
    (hplaced : emplaceEnvelope c.nextRXSequence (envelope messages m) c.rxRing = some ring)
    (h' : Running factories (w.arrive messages m) (Channel.drained c ring))
    (hhanded : (w.arrive messages m).handed = w.handed ++ (contiguous c.nextRXSequence ring).1) :
    Kept (w.arrive messages m) n ↔ Kept w n ∨ n = m := by
  have hring : ∀ e, e ∈ ring ↔ e = envelope messages m ∨ e ∈ c.rxRing := fun e => by
    rw [(emplaceEnvelope_sublist hplaced).2.mem_iff, mem_cons]
  have hnew : (envelope messages m).packet = some n ↔ n = m := by
    rw [envelope, some.injEq, eq_comm]
  rw [kept_iff h, kept_iff h', hhanded, Channel.drained, append_assoc, contiguous_append]
  simp only [mem_append, hring, or_and_right, exists_or, exists_eq_left, hnew]
  rw [or_left_comm, or_comm]

theorem kept_of_dropped (h' : Running factories (w.arrive messages m) c)
    (hhanded : (w.arrive messages m).handed = w.handed) : Kept (w.arrive messages m) n ↔ Kept w n := by
  rw [kept_iff h, kept_iff h', hhanded]

theorem Kept.step {a : Event} (hkept : Kept w n) (hstep : step messages w a = some w') : Kept w' n := by
  rcases step_cases hstep with ⟨-, rfl⟩ | ⟨m, -, -, rfl⟩
  · exact hkept
  · rcases arrive_cases h messages m with ⟨-, h', hhanded⟩ | ⟨ring, -, hplaced, h', hhanded⟩
    · exact (kept_of_dropped h h' hhanded).mpr hkept
    · exact (kept_arrive_of_placed h hplaced h' hhanded).mpr (.inl hkept)

omit h in
theorem welcome_iff (messages : Nat → Outgoing factories) (h : Running factories w c) : Welcome w n ↔
    invalidSequence c.nextRXSequence (UInt16.ofNat n) = false ∧
      emplaceEnvelope c.nextRXSequence (envelope messages n) c.rxRing ≠ none := by
  simp only [Welcome, h.channel, some.injEq, exists_eq_left', invalidSequence_eq_false_iff, ne_eq,
    emplaceEnvelope_eq_none_iff, UInt16.toNat_ofNat', not_exists, not_and]
  rfl

theorem kept_arrive_iff : Kept (w.arrive messages n) n ↔ Kept w n ∨ Welcome w n := by
  rw [welcome_iff messages h]
  rcases arrive_cases h messages n with ⟨hdrop, h', hhanded⟩ | ⟨ring, hvalid, hplaced, h', hhanded⟩
  · rw [kept_of_dropped h h' hhanded, or_iff_left]
    rintro ⟨hvalid, hplaced⟩
    rcases hdrop with hdrop | hdrop
    · rw [hvalid] at hdrop
      cases hdrop
    · exact hplaced hdrop
  · rw [kept_arrive_of_placed h hplaced h' hhanded]
    simp [hvalid, hplaced]

theorem prove_mem_receive : .prove n ∈ (w.link.receive (some (payload messages n)) n).2 := by
  simp [ChannelLink.receive, h.status, h.channel]

end

/-- A message is kept once its proof is sent just when it was before or the channel has a place for it. -/
theorem proved_kept_iff (hw : Reachable (step messages) (start factories handlers) w) :
    (.prove n ∈ (w.link.receive (some (payload messages n)) n).2 →
      ∀ w', Reachable (step messages) (w.arrive messages n) w' → Kept w' n) ↔ Kept w n ∨ Welcome w n := by
  obtain ⟨c, hc⟩ := running_of_reachable hw
  constructor
  · intro h
    exact (kept_arrive_iff hc).mp (h (prove_mem_receive hc) _ (Reachable.refl _))
  · intro h _ w' hw'
    have hkeeps := hw'.invariant (fun w => (∃ c, Running factories w c) ∧ Kept w n)
      ⟨running_arrive hc messages n, (kept_arrive_iff hc).mpr h⟩ ?_
    · exact hkeeps.2
    · rintro w a w' ⟨⟨c, hc⟩, hkept⟩ hstep
      exact ⟨running_step hc hstep, hkept.step hc hstep⟩

/-! ### Messages in their order -/

/-- The channel has handed over the messages below `a` in their order, and the messages `ns` wait. -/
structure Holding (messages : Nat → Outgoing factories) (w : Delivery M) (c : Channel M Nat) (a : Nat)
    (ns : List Nat) : Prop where
  running : Running factories w c
  next : c.nextRXSequence = UInt16.ofNat a
  ring : c.rxRing = ns.map (envelope messages)
  handed : w.handed = (List.range a).map (envelope messages)

/-- The messages that wait are among the next 65536, each of them waits once, and all were sent. -/
structure Orderly (messages : Nat → Outgoing factories) (w : Delivery M) (c : Channel M Nat) (a : Nat)
    (ns : List Nat) : Prop extends Holding messages w c a ns where
  nodup : ns.Nodup
  ahead : ∀ m ∈ ns, a ≤ m ∧ m < a + 65536
  sent : a ≤ w.sent ∧ ∀ m ∈ ns, m < w.sent

def Waits (w : Delivery M) (n : Nat) : Prop := ∃ c, w.link.channel = some c ∧ ∃ e ∈ c.rxRing, e.packet = some n

/-- What arrives is one of the next 65536 messages, and a copy of a message that waits is not of the awaited one or of
    one more than 32768 ahead; or it was handed over before, with no wrap in between. -/
def InTurn (w : Delivery M) : Event → Prop
  | .send => True
  | .deliver n =>
    let a := w.handed.length
    (a ≤ n ∧ n < a + 65536 ∧ (Waits w n → a < n ∧ n ≤ a + 32768)) ∨
      (n < a ∧ n % 65536 < a % 65536 ∧ a % 65536 + 48 < 65536 + n % 65536)

theorem ofNat_eq_ofNat (hle : a ≤ m) (hlt : m < a + 65536) : UInt16.ofNat m = UInt16.ofNat a ↔ m = a := by
  rw [← UInt16.toNat_inj, UInt16.toNat_ofNat', UInt16.toNat_ofNat']
  omega

theorem ofNat_succ (a : Nat) : UInt16.ofNat a + 1 = UInt16.ofNat (a + 1) := by
  rw [UInt16.ofNat_add]
  rfl

theorem contiguous_map (messages : Nat → Outgoing factories) (hnodup : ns.Nodup) (hahead : ∀ m ∈ ns, a ≤ m ∧ m < a + 65536) :
    contiguous (UInt16.ofNat a) (ns.map (envelope messages)) =
      ((range' a ((release a ns).1 - a)).map (envelope messages), (release a ns).2.map (envelope messages),
        UInt16.ofNat (release a ns).1) := by
  induction ns generalizing a with
  | nil => simp [contiguous, release]
  | cons m ns ih =>
    obtain ⟨hm, hns⟩ := forall_mem_cons.mp hahead
    obtain ⟨hnot, hnodup⟩ := nodup_cons.mp hnodup
    have hseq : (envelope messages m).sequence = UInt16.ofNat a ↔ m = a := ofNat_eq_ofNat hm.1 hm.2
    rw [map_cons, contiguous, release]
    by_cases heq : m = a
    · subst heq
      have htail : ∀ k ∈ ns, m + 1 ≤ k ∧ k < m + 1 + 65536 := by
        intro k hk
        have hne : k ≠ m := fun h => hnot (h ▸ hk)
        have := hns k hk
        omega
      have hle := release_le (m + 1) ns
      have hcount : (release (m + 1) ns).1 - m = (release (m + 1) ns).1 - (m + 1) + 1 := by omega
      rw [if_pos (hseq.mpr rfl), if_pos rfl, ofNat_succ, ih hnodup htail, hcount, range'_succ, map_cons]
    · rw [if_neg (mt hseq.mp heq), if_neg heq]
      simp

theorem orderly_placed {ring : List (Envelope M Nat)} (h : Orderly messages w c a ns)
    (hle : a ≤ n) (hlt : n < a + 65536) (hsent : n < w.sent) (hnot : n ∉ ns)
    (hplaced : emplaceEnvelope c.nextRXSequence (envelope messages n) c.rxRing = some ring)
    (h' : Running factories (w.arrive messages n) (Channel.drained c ring))
    (hhanded : (w.arrive messages n).handed = w.handed ++ (contiguous c.nextRXSequence ring).1) :
    ∃ c' a' ns', Orderly messages (w.arrive messages n) c' a' ns' := by
  have hperm := (emplaceEnvelope_sublist hplaced).2
  rw [h.ring, ← map_cons] at hperm
  -- The ring holds the envelopes of some list of numbers, in the order that the placing left them in.
  obtain ⟨ms, hms, rfl⟩ : ∃ ms : List Nat, ms.Perm (n :: ns) ∧ ring = ms.map (envelope messages) := by
    refine ⟨ring.map fun e => e.packet.getD 0, ?_, ?_⟩
    · have := hperm.map fun e => e.packet.getD 0
      rwa [List.map_map, show ((fun e : Envelope M Nat => e.packet.getD 0) ∘ envelope messages) = id from rfl,
        List.map_id] at this
    · rw [List.map_map]
      conv_lhs => rw [← map_id ring]
      refine map_congr_left fun e he => ?_
      obtain ⟨m, -, rfl⟩ := mem_map.mp (hperm.mem_iff.mp he)
      rfl
  have hnodup : ms.Nodup := hms.nodup_iff.mpr (nodup_cons.mpr ⟨hnot, h.nodup⟩)
  have hall : ∀ m ∈ ms, (a ≤ m ∧ m < a + 65536) ∧ m < w.sent := by
    intro m hm
    rcases mem_cons.mp (hms.mem_iff.mp hm) with rfl | hm
    · exact ⟨⟨hle, hlt⟩, hsent⟩
    · exact ⟨h.ahead m hm, h.sent.2 m hm⟩
  have hcontiguous := contiguous_map messages hnodup fun m hm => (hall m hm).1
  have hsplit := release_append a ms
  have hgrow := release_le a ms
  generalize (release a ms).1 = b at *
  generalize (release a ms).2 = rest at *
  obtain ⟨-, hrest, hdisjoint⟩ := nodup_append.mp (hsplit ▸ hnodup)
  have hmem : ∀ {m}, (a ≤ m ∧ m < b) ∨ m ∈ rest → m ∈ ms := by
    rintro m (hm | hm)
    · rw [← hsplit]
      exact mem_append_left _ (mem_range'_1.mpr (by omega))
    · rw [← hsplit]
      exact mem_append_right _ hm
  refine ⟨Channel.drained c (ms.map (envelope messages)), b, rest, ⟨h', ?_, ?_, ?_⟩, hrest, fun m hm => ?_, ?_,
    fun m hm => ?_⟩
  · rw [Channel.drained, h.next, hcontiguous]
  · rw [Channel.drained, h.next, hcontiguous]
  · have hrange := range'_append_sub (Nat.zero_le a) hgrow
    rw [Nat.sub_zero, Nat.sub_zero] at hrange
    rw [hhanded, h.handed, h.next, hcontiguous, ← map_append, range_eq_range', hrange, range_eq_range']
  · obtain ⟨⟨hm₁, hm₂⟩, -⟩ := hall m (hmem (.inr hm))
    refine ⟨?_, by omega⟩
    by_contra hlow
    exact hdisjoint m (mem_range'_1.mpr (by omega)) m hm rfl
  · rcases Nat.eq_or_lt_of_le hgrow with rfl | hgrow
    · exact h.sent.1
    · have : b - 1 < w.sent := (hall (b - 1) (hmem (.inl (by omega)))).2
      change b ≤ w.sent
      omega
  · exact (hall m (hmem (.inr hm))).2

theorem orderly_arrive (h : Orderly messages w c a ns) (hsent : n < w.sent)
    (hturn : InTurn w (.deliver n)) : ∃ c' a' ns', Orderly messages (w.arrive messages n) c' a' ns' := by
  have hlength : w.handed.length = a := by rw [h.handed, length_map, length_range]
  simp only [InTurn, hlength] at hturn
  rcases arrive_cases h.running messages n with ⟨-, h', hhanded⟩ | ⟨ring, hvalid, hplaced, h', hhanded⟩
  · exact ⟨c, a, ns, ⟨h', h.next, h.ring, hhanded.trans h.handed⟩, h.nodup, h.ahead, h.sent⟩
  · rcases hturn with ⟨hle, hlt, hwaits⟩ | hold
    · refine orderly_placed h hle hlt hsent (fun hmem => ?_) hplaced h' hhanded
      have hwaiting : envelope messages n ∈ c.rxRing := by
        rw [h.ring]
        exact mem_map_of_mem hmem
      obtain ⟨hlow, hhigh⟩ := hwaits ⟨c, h.running.channel, _, hwaiting, rfl⟩
      have hahead : c.nextRXSequence - (envelope messages n).sequence > channelSeqMax / 2 := by
        rw [gt_iff_lt, UInt16.lt_iff_toNat_lt, UInt16.toNat_sub, h.next, envelope, UInt16.toNat_ofNat',
          UInt16.toNat_ofNat', show (channelSeqMax / 2).toNat = 32767 from rfl]
        omega
      cases (emplaceEnvelope_duplicate hahead ⟨_, hwaiting, rfl⟩).symm.trans hplaced
    · rw [invalidSequence_eq_false_iff, h.next, UInt16.toNat_ofNat', UInt16.toNat_ofNat'] at hvalid
      omega

theorem orderly_start : Orderly messages (start factories handlers)
    { messageFactories := factories, messageHandlers := handlers } 0 [] :=
  ⟨⟨running_start, rfl, rfl, rfl⟩, nodup_nil, nofun, Nat.le_refl _, nofun⟩

theorem orderly_step {e : Event} (h : Orderly messages w c a ns) (hturn : InTurn w e)
    (hstep : step messages w e = some w') : ∃ c' a' ns', Orderly messages w' c' a' ns' := by
  rcases step_cases hstep with ⟨-, rfl⟩ | ⟨n, hn, rfl, rfl⟩
  · exact ⟨c, a, ns, ⟨⟨h.running.status, h.running.channel, h.running.factories⟩, h.next, h.ring, h.handed⟩, h.nodup,
      h.ahead, Nat.le_succ_of_le h.sent.1, fun m hm => Nat.lt_succ_of_lt (h.sent.2 m hm)⟩
  · exact orderly_arrive h hn hturn

/-- Messages that arrive in turn are handed over as the first ones sent, each once and in order, past any wraps. -/
theorem handed_prefix_of_inTurn {as : List Event} (hturn : Keeps (step messages) InTurn (start factories handlers) as)
    (hrun : run (step messages) (start factories handlers) as = some w) :
    w.handed.map (fun e => (e.packet, e.message)) <+:
      (List.range w.sent).map fun n => (some n, (messages n).message) := by
  obtain ⟨c, a, ns, h⟩ := run_induction (fun w => ∃ c a ns, Orderly messages w c a ns)
    (fun _ _ _ hturn ⟨_, _, _, h⟩ hstep => orderly_step h hturn hstep) as ⟨_, _, _, orderly_start⟩ hturn hrun
  have hrange : List.range a <+: List.range w.sent := by
    have hsplit := range'_append_sub (Nat.zero_le a) h.sent.1
    rw [List.range_eq_range', List.range_eq_range']
    exact ⟨_, hsplit⟩
  rw [h.handed, List.map_map]
  exact hrange.map _

/-! ### Long runs -/

theorem holding_placed (h : Holding messages w c a ns) {ms : List Nat}
    (hvalid : invalidSequence (UInt16.ofNat a) (UInt16.ofNat n) = false)
    (hplaced : emplaceEnvelope (UInt16.ofNat a) (envelope messages n) (ns.map (envelope messages)) =
      some (ms.map (envelope messages))) :
    Running factories (w.arrive messages n) (Channel.drained c (ms.map (envelope messages))) ∧
      (w.arrive messages n).handed = w.handed ++ (contiguous (UInt16.ofNat a) (ms.map (envelope messages))).1 := by
  rcases arrive_cases h.running messages n with ⟨hdrop, -⟩ | ⟨ring, -, hring, h', hhanded⟩
  · rw [h.next, h.ring, hplaced, hvalid] at hdrop
    rcases hdrop with hdrop | hdrop <;> cases hdrop
  · rw [h.next, h.ring, hplaced] at hring
    cases hring
    rw [h.next] at hhanded
    exact ⟨h', hhanded⟩

theorem contiguous_stop {ms : List Nat} (hfront : ∀ m ∈ ms.head?, UInt16.ofNat m ≠ UInt16.ofNat a) :
    contiguous (UInt16.ofNat a) (ms.map (envelope messages)) = ([], ms.map (envelope messages), UInt16.ofNat a) := by
  cases ms with
  | nil => rfl
  | cons m ms => rw [map_cons, contiguous, envelope_sequence, if_neg (hfront m rfl)]

theorem holding_waiting (h : Holding messages w c a ns)
    (hvalid : invalidSequence (UInt16.ofNat a) (UInt16.ofNat n) = false)
    (hplaced : emplaceEnvelope (UInt16.ofNat a) (envelope messages n) (ns.map (envelope messages)) =
      some ((ns ++ [n]).map (envelope messages))) (hfront : ∀ m ∈ (ns ++ [n]).head?, UInt16.ofNat m ≠ UInt16.ofNat a) :
    ∃ c', Holding messages (w.arrive messages n) c' a (ns ++ [n]) := by
  obtain ⟨h', hhanded⟩ := holding_placed h hvalid hplaced
  have hstop : contiguous (UInt16.ofNat a) ((ns ++ [n]).map (envelope messages)) = _ := contiguous_stop hfront
  refine ⟨_, h', ?_, ?_, ?_⟩
  · rw [Channel.drained, h.next, hstop]
  · rw [Channel.drained, h.next, hstop]
  · rw [hhanded, hstop, append_nil, h.handed]

theorem emplace_awaited (hfront : ∀ m ∈ ns.head?, a % 65536 < m % 65536) :
    emplaceEnvelope (UInt16.ofNat a) (envelope messages a) (ns.map (envelope messages)) =
      some ((a :: ns).map (envelope messages)) := by
  refine emplaceEnvelope_front ?_ ?_
  · simp [envelope]
  · cases ns with
    | nil => simp
    | cons m ns =>
      rintro e ⟨⟩
      have := hfront m rfl
      rw [UInt16.lt_iff_toNat_lt, envelope, envelope, UInt16.toNat_ofNat', UInt16.toNat_ofNat']
      omega

theorem invalidSequence_self (q : UInt16) : invalidSequence q q = false :=
  invalidSequence_eq_false_iff.mpr (.inl (Nat.le_refl _))

theorem holding_awaited (h : Holding messages w c a ns)
    (hfront : ∀ m ∈ ns.head?, a % 65536 < m % 65536 ∧ (a + 1) % 65536 ≠ m % 65536) :
    ∃ c', Holding messages (w.arrive messages a) c' (a + 1) ns := by
  obtain ⟨h', hhanded⟩ := holding_placed h (invalidSequence_self _) (emplace_awaited fun m hm => (hfront m hm).1)
  have hstop : contiguous (UInt16.ofNat (a + 1)) (ns.map (envelope messages)) = _ := contiguous_stop fun m hm heq => by
    rw [← UInt16.toNat_inj, UInt16.toNat_ofNat', UInt16.toNat_ofNat'] at heq
    exact (hfront m hm).2 heq.symm
  have hone : contiguous (UInt16.ofNat a) ((a :: ns).map (envelope messages)) =
      ([envelope messages a], ns.map (envelope messages), UInt16.ofNat (a + 1)) := by
    rw [map_cons, contiguous, envelope_sequence, if_pos rfl, ofNat_succ, hstop]
  refine ⟨_, h', ?_, ?_, ?_⟩
  · rw [Channel.drained, h.next, hone]
  · rw [Channel.drained, h.next, hone]
  · rw [hhanded, hone, h.handed, range_succ, map_append, map_singleton]

theorem run_inOrder (k : Nat) : ∀ {w : Delivery M} {c : Channel M Nat} {a : Nat}, Holding messages w c a ns →
    a + k ≤ w.sent → (∀ i < k, ∀ m ∈ ns.head?, (a + i) % 65536 < m % 65536 ∧ (a + i + 1) % 65536 ≠ m % 65536) →
    ∃ w' c', run (step messages) w ((range' a k).map .deliver) = some w' ∧ w'.sent = w.sent ∧
      Holding messages w' c' (a + k) ns := by
  induction k with
  | zero => exact fun h _ _ => ⟨_, _, rfl, rfl, h⟩
  | succ k ih =>
    intro w c a h hsent hfront
    obtain ⟨c₁, h₁⟩ := holding_awaited h (hfront 0 (Nat.succ_pos k))
    obtain ⟨w', c', hrun, hsame, h'⟩ := ih h₁ (by rw [arrive_sent]; omega) fun i hi m hm => by
      have := hfront (i + 1) (Nat.succ_lt_succ hi) m hm
      omega
    refine ⟨w', c', ?_, hsame, ?_⟩
    · rw [range'_succ, map_cons, run_cons]
      exact ⟨_, if_pos (by omega), hrun⟩
    · rwa [Nat.add_right_comm] at h'

theorem run_sends (w : Delivery M) (k : Nat) :
    run (step messages) w (replicate k .send) = some { w with sent := w.sent + k } := by
  induction k generalizing w with
  | zero => rfl
  | succ k ih =>
    rw [replicate_succ, run_cons]
    refine ⟨_, rfl, ?_⟩
    rw [ih, Nat.add_right_comm, Nat.add_assoc]

theorem reachable_inOrder (messages : Nat → Outgoing factories) (handlers : List (MessageHandlerEntry M)) {s k : Nat}
    (hk : k ≤ s) : ∃ as w c, run (step messages) (start factories handlers) as = some w ∧ w.sent = s ∧
      Holding messages w c k [] := by
  have hstart : Holding messages { start factories handlers with sent := s } _ 0 [] :=
    ⟨⟨nofun, rfl, rfl⟩, rfl, rfl, rfl⟩
  obtain ⟨w, c, hrun, hsent, h⟩ := run_inOrder k hstart (by simpa using hk) (by simp)
  rw [Nat.zero_add] at h
  refine ⟨replicate s .send ++ (range' 0 k).map .deliver, w, c, ?_, hsent, h⟩
  rw [run_append]
  refine ⟨_, run_sends _ s, ?_⟩
  rwa [start, Nat.zero_add]

/-! ### A peer that numbers its messages past the wrap -/

def sampleFactories (msgType : UInt16) : Option (MessageFactory Bytes) := if msgType = 1 then some some else none

def sampleMessages (n : Nat) : Outgoing sampleFactories where
  msgType := 1
  data := beBytes 4 n
  message := beBytes 4 n
  fits := by simp
  registered := ⟨some, rfl, rfl⟩

/-- The message 65487 is late, and 65488 and 65489 wait. The message 65536 is proved, and the window check drops it: its
    number is 0, below the awaited one, and 65487 + 48 does not wrap. -/
theorem proved_message_lost : ∃ w, Reachable (step sampleMessages) (start sampleFactories []) w ∧ 65536 < w.sent ∧
    .prove 65536 ∈ (w.link.receive (some (payload sampleMessages 65536)) 65536).2 ∧
    ¬Kept (w.arrive sampleMessages 65536) 65536 := by
  obtain ⟨as, w, c, hrun, hsent, h⟩ :=
    reachable_inOrder sampleMessages [] (by decide : 65487 ≤ 65537)
  obtain ⟨c₁, h₁⟩ := holding_waiting (n := 65488) h rfl rfl (by simp)
  obtain ⟨c₂, h₂⟩ := holding_waiting (n := 65489) h₁ rfl rfl (by simp)
  refine ⟨(w.arrive sampleMessages 65488).arrive sampleMessages 65489, ⟨as ++ [.deliver 65488, .deliver 65489], ?_⟩,
    ?_, prove_mem_receive h₂.running, ?_⟩
  · rw [run_append]
    exact ⟨w, hrun, by simp [run, step, hsent]⟩
  · rw [arrive_sent, arrive_sent, hsent]
    decide
  · rw [kept_arrive_iff h₂.running, kept_iff h₂.running, h₂.handed, h₂.ring]
    rintro (⟨e, he, hn⟩ | ⟨c, hc, hwindow, -⟩)
    · rw [← List.map_append] at he
      obtain ⟨m, hm, rfl⟩ := List.mem_map.mp he
      cases Option.some.inj hn
      simp at hm
    · cases h₂.running.channel.symm.trans hc
      rw [h₂.next] at hwindow
      revert hwindow
      decide

/-- The first message, which is handed over at once. -/
theorem first_message_kept :
    Reachable (step sampleMessages) (start sampleFactories []) { start sampleFactories [] with sent := 1 } ∧
      ((.prove 0 ∈ (ChannelLink.receive (start sampleFactories []).link (some (payload sampleMessages 0)) 0).2 →
        ∀ w', Reachable (step sampleMessages)
          (arrive sampleMessages { start sampleFactories [] with sent := 1 } 0) w' → Kept w' 0) ↔
        Kept { start sampleFactories [] with sent := 1 } 0 ∨ Welcome { start sampleFactories [] with sent := 1 } 0) :=
  ⟨⟨[.send], rfl⟩, proved_kept_iff ⟨[.send], rfl⟩⟩

/-- After the wrap the message 65535 arrives once more and is taken for a new one. It waits until the number 65535 is
    awaited again, and is then handed over in the place of the message 131071. -/
theorem stale_duplicate_handed : ∃ as w, run (step sampleMessages) (start sampleFactories []) as = some w ∧
    ¬w.handed.map (fun e => (e.packet, e.message)) <+:
      (List.range w.sent).map fun n => (some n, (sampleMessages n).message) := by
  obtain ⟨as, w, c, hrun, hsent, h⟩ := reachable_inOrder sampleMessages [] (by decide : 65536 ≤ 131072)
  obtain ⟨c₁, h₁⟩ := holding_waiting (n := 65535) h rfl rfl (by simp)
  obtain ⟨w₂, c₂, hrun₂, hsent₂, h₂⟩ := run_inOrder 65534 h₁ (by rw [arrive_sent, hsent]; decide) (by
    rintro i hi m ⟨⟩
    omega)
  obtain ⟨h₃, hhanded⟩ := holding_placed h₂ (invalidSequence_self _) (emplace_awaited (by
    rintro m ⟨⟩
    decide))
  refine ⟨as ++ (.deliver 65535 :: (List.range' 65536 65534).map .deliver ++ [.deliver 131070]),
    w₂.arrive sampleMessages 131070, ?_, fun hprefix => ?_⟩
  · rw [run_append]
    refine ⟨w, hrun, ?_⟩
    rw [run_append]
    refine ⟨w₂, run_cons.mpr ⟨_, if_pos (by rw [hsent]; decide), hrun₂⟩, run_cons.mpr ⟨_, if_pos ?_, rfl⟩⟩
    rw [hsent₂, arrive_sent, hsent]
    decide
  · have htwo : (contiguous (UInt16.ofNat (65536 + 65534)) ([131070, 65535].map (envelope sampleMessages))).1 =
        [envelope sampleMessages 131070, envelope sampleMessages 65535] := rfl
    have hsent₃ : (w₂.arrive sampleMessages 131070).sent = 131071 + 1 := by rw [arrive_sent, hsent₂, arrive_sent, hsent]
    have hhanded₃ := hhanded.trans (congrArg (w₂.handed ++ ·) htwo)
    have hlength : w₂.handed.length = 131070 := by rw [h₂.handed, List.length_map, List.length_range]
    have hsame := hprefix.eq_of_length (by rw [hhanded₃, hsent₃]; simp [hlength])
    have hlast := congrArg (fun l => l.getLast?.map Prod.fst) hsame
    rw [hhanded₃, hsent₃, List.range_succ] at hlast
    simp [envelope] at hlast

/-- Two messages, the second one first and the first one twice. -/
theorem two_messages_in_turn :
    Keeps (step sampleMessages) InTurn (start sampleFactories []) [.send, .send, .deliver 1, .deliver 0, .deliver 0] ∧
      ∃ w, run (step sampleMessages) (start sampleFactories []) [.send, .send, .deliver 1, .deliver 0, .deliver 0] = some w ∧
        w.handed.map (fun e => (e.packet, e.message)) <+:
          (List.range w.sent).map fun n => (some n, (sampleMessages n).message) := by
  have hturn : Keeps (step sampleMessages) InTurn (start sampleFactories [])
      [.send, .send, .deliver 1, .deliver 0, .deliver 0] := by
    refine ⟨trivial, fun _ h => ?_⟩
    cases h
    refine ⟨trivial, fun _ h => ?_⟩
    cases h
    refine ⟨.inl ⟨by decide, by decide, fun _ => by decide⟩, fun _ h => ?_⟩
    cases h
    refine ⟨.inl ⟨by decide, by decide, ?_⟩, fun _ h => ?_⟩
    · rintro ⟨c, hc, e, he, hn⟩
      cases hc
      cases List.mem_singleton.mp he
      cases hn
    cases h
    exact ⟨.inr (by decide), fun _ _ => trivial⟩
  exact ⟨hturn, _, rfl, handed_prefix_of_inTurn hturn rfl⟩

end Reticulum.Delivery
