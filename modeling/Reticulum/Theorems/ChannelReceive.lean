import Reticulum.Theorems.ChannelRing

/-! # Receiving a block of messages out of order

The ring keeps an envelope above the awaited number behind everything that came before it. One arrival that is not
`Timely` leaves the ring out of order for good. -/

namespace Reticulum.Channel
open ReorderBuffer List

variable {M P : Type}

/-! ### What a run of calls does -/

def handledMessages (out : List (ChannelEffect M P)) : List (M × List UInt64) :=
  out.filterMap fun
    | .handle message handlers => some (message, handlers)
    | .prove _ => none

@[simp] theorem handledMessages_append (out out' : List (ChannelEffect M P)) :
    handledMessages (out ++ out') = handledMessages out ++ handledMessages out' := filterMap_append

@[simp] theorem handledMessages_prove (packets : List P) :
    handledMessages (packets.map (.prove : P → ChannelEffect M P)) = [] := by
  rw [handledMessages, filterMap_map]
  exact filterMap_eq_nil_iff.mpr fun _ _ => rfl

@[simp] theorem handledMessages_handle {α : Type} (f : α → M × List UInt64) (l : List α) :
    handledMessages (l.map fun a => (.handle (f a).1 (f a).2 : ChannelEffect M P)) = l.map f := by
  rw [handledMessages, filterMap_map]
  exact congrFun filterMap_eq_map l

def arrivals (factories : UInt16 → Option (MessageFactory M)) (s : UInt16) (calls : List (Bytes × Option P)) :
    List Nat :=
  calls.filterMap fun call =>
    (Envelope.unpack factories call.1 call.2).map fun env => offset s env.sequence

/-- The whole block was handed to the handlers, once per number and in order, and nothing is left over. -/
structure DeliversBlock (c : Channel M P) (s : UInt16) (n : Nat) (calls : List (Bytes × Option P)) : Prop where
  handled : ∃ envs : List (Envelope M P),
    envs.map (·.sequence) = (List.range n).map (fun i => s + UInt16.ofNat i) ∧
    (∀ e ∈ envs, ∃ call ∈ calls, Envelope.unpack c.messageFactories call.1 call.2 = some e) ∧
    handledMessages (c.receiveAll calls).2 =
      envs.map fun e => (e.message, handleMessage e.message c.messageHandlers)
  ring : (c.receiveAll calls).1.rxRing = []
  next : (c.receiveAll calls).1.nextRXSequence = s + UInt16.ofNat n

/-- The arrival of offset `a` after the offsets `seen` keeps the ring in order: a repeated number is not from before the
    wrap point `w` when all of those have arrived, and a new one is above all so far or the lowest missing. -/
def Timely (w : Nat) (seen : List Nat) (a : Nat) : Prop :=
  (a ∈ seen ∧ ¬(a < w ∧ ∀ i < w, i ∈ seen)) ∨
  (a ∉ seen ∧ ∀ b ∈ seen, b < a) ∨
  (a ∉ seen ∧ (∀ i < a, i ∈ seen) ∧ (w ≤ a ∨ ∃ b ∈ seen, a < b ∧ b < w))

/-! ### One call -/

def awaited (s : UInt16) (c : Channel M P) : Nat := offset s c.nextRXSequence

def offsets (s : UInt16) (ring : List (Envelope M P)) : List Nat := ring.map fun e => offset s e.sequence

def pending (s : UInt16) (c : Channel M P) : List Nat := offsets s c.rxRing

/-- The ring holds numbers of the block only, and the awaited one is at most the block's end. -/
structure InBlock (s : UInt16) (n : Nat) (c : Channel M P) : Prop where
  awaited_le : awaited s c ≤ n
  pending_lt : ∀ o ∈ pending s c, o < n

section Call
variable {c c' : Channel M P} {raw : Bytes} {packet : Option P} {env : Envelope M P} {s : UInt16} {n a : Nat}
  {ring : List (Envelope M P)}

theorem receive_cases (hu : Envelope.unpack c.messageFactories raw packet = some env) :
    ((invalidSequence c.nextRXSequence env.sequence = true ∨ emplaceEnvelope c.nextRXSequence env c.rxRing = none) ∧
      c.receive raw packet = (c, [])) ∨ ∃ ring, invalidSequence c.nextRXSequence env.sequence = false ∧
      emplaceEnvelope c.nextRXSequence env c.rxRing = some ring ∧
      c.receive raw packet =
        ({ c with
            rxRing := (contiguous c.nextRXSequence ring).2.1
            nextRXSequence := (contiguous c.nextRXSequence ring).2.2 },
          env.packet.toList.map .prove ++ (contiguous c.nextRXSequence ring).1.map fun e =>
            .handle e.message (handleMessage e.message c.messageHandlers)) := by
  unfold receive
  rw [hu]
  cases hi : invalidSequence c.nextRXSequence env.sequence with
  | true => exact .inl ⟨.inl rfl, by simp [hi]⟩
  | false =>
    cases he : emplaceEnvelope c.nextRXSequence env c.rxRing with
    | none => exact .inl ⟨.inr rfl, by simp [hi, he]⟩
    | some ring => exact .inr ⟨ring, rfl, rfl, by simp [hi, he]⟩

/-- A call brings the envelope with offset `a` of the block, and `c'` is the channel after it. -/
structure Receives (s : UInt16) (n : Nat) (c : Channel M P) (raw : Bytes) (packet : Option P) (env : Envelope M P)
    (a : Nat) (c' : Channel M P) : Prop where
  block : n ≤ 48
  unpack : Envelope.unpack c.messageFactories raw packet = some env
  offset_eq : offset s env.sequence = a
  lt : a < n
  result : (c.receive raw packet).1 = c'

/-- The envelope passes the window check and finds its place in the ring. -/
structure Placed (c : Channel M P) (env : Envelope M P) (ring : List (Envelope M P)) : Prop where
  valid : invalidSequence c.nextRXSequence env.sequence = false
  emplaced : emplaceEnvelope c.nextRXSequence env c.rxRing = some ring

theorem Receives.cases (h : Receives s n c raw packet env a c') :
    (invalidSequence c.nextRXSequence env.sequence = true ∨ emplaceEnvelope c.nextRXSequence env c.rxRing = none) ∧
      c' = c ∨ ∃ ring, Placed c env ring := by
  rcases receive_cases h.unpack with ⟨hdrop, heq⟩ | ⟨ring, hv, he, -⟩
  · exact .inl ⟨hdrop, by rw [← h.result, heq]⟩
  · exact .inr ⟨ring, hv, he⟩

theorem Receives.factories (h : Receives s n c raw packet env a c') :
    c'.messageFactories = c.messageFactories ∧ c'.messageHandlers = c.messageHandlers := by
  rw [← h.result]
  rcases receive_cases h.unpack with ⟨-, heq⟩ | ⟨ring, -, -, heq⟩ <;> rw [heq] <;> exact ⟨rfl, rfl⟩

section

variable (hp : Placed c env ring)
include hp

theorem Placed.mem {e : Envelope M P} : e ∈ ring ↔ e = env ∨ e ∈ c.rxRing := by
  rw [(emplaceEnvelope_sublist hp.emplaced).2.mem_iff, mem_cons]

theorem Placed.mem_offsets {o : Nat} : o ∈ offsets s ring ↔ o = offset s env.sequence ∨ o ∈ pending s c := by
  rw [offsets, ((emplaceEnvelope_sublist hp.emplaced).2.map _).mem_iff, map_cons, mem_cons, pending, offsets]

section

variable (h : Receives s n c raw packet env a c')
include h

theorem Placed.receive : c'.rxRing = (contiguous c.nextRXSequence ring).2.1 ∧
      c'.nextRXSequence = (contiguous c.nextRXSequence ring).2.2 := by
  rw [← h.result]
  unfold Channel.receive
  simp [h.unpack, hp.valid, hp.emplaced]

theorem Placed.released (hb : InBlock s n c) : awaited s c' = (release (awaited s c) (offsets s ring)).1 ∧
      pending s c' = (release (awaited s c) (offsets s ring)).2 ∧ ∀ o ∈ offsets s ring, o < n := by
  have hmem : ∀ o ∈ offsets s ring, o < n := by
    intro o ho
    rcases hp.mem_offsets.mp ho with rfl | ho
    · exact h.offset_eq ▸ h.lt
    · exact hb.pending_lt o ho
  have hrel := contiguous_release s c.nextRXSequence ring fun e he =>
    (hmem _ (mem_map_of_mem he)).trans_le h.block
  obtain ⟨hring, hnext⟩ := hp.receive h
  refine ⟨?_, ?_, hmem⟩
  · rw [awaited, hnext]
    exact congrArg Prod.fst hrel
  · rw [pending, hring]
    exact congrArg Prod.snd hrel

theorem Placed.ordered (hb : InBlock s n c)
    (hord : Ordered (awaited s c') (pending s c')) : Ordered (awaited s c) (offsets s ring) := by
  obtain ⟨h1, h2, -⟩ := hp.released h hb
  rw [h1, h2] at hord
  exact ordered_of_release hord

end

end

section

variable (h : Receives s n c raw packet env a c')
include h

theorem Receives.inBlock (hb : InBlock s n c) : InBlock s n c' := by
  rcases h.cases with ⟨-, rfl⟩ | ⟨ring, hp⟩
  · exact hb
  · obtain ⟨h1, h2, hmem⟩ := hp.released h hb
    have happ := release_append (awaited s c) (offsets s ring)
    rw [← h1, ← h2] at happ
    constructor
    · by_contra hgt
      have hlast : n ∈ range' (awaited s c) (awaited s c' - awaited s c) := by
        have := hb.awaited_le
        rw [mem_range'_1]
        omega
      exact Nat.lt_irrefl n (hmem n (happ ▸ mem_append_left _ hlast))
    · exact fun o ho => hmem o (happ ▸ mem_append_right _ ho)

theorem Receives.disordered (hb : InBlock s n c)
    (hbad : ¬Ordered (awaited s c) (pending s c)) : ¬Ordered (awaited s c') (pending s c') := by
  rcases h.cases with ⟨-, rfl⟩ | ⟨ring, hp⟩
  · exact hbad
  · exact fun hord => hbad ((hp.ordered h hb hord).of_sublist ((emplaceEnvelope_sublist hp.emplaced).1.map _))

theorem Receives.handled (hb : InBlock s n c) : ∃ envs : List (Envelope M P),
      offsets s envs = range' (awaited s c) (awaited s c' - awaited s c) ∧
      awaited s c ≤ awaited s c' ∧ (∀ e ∈ envs ++ c'.rxRing, e = env ∨ e ∈ c.rxRing) ∧
      handledMessages (c.receive raw packet).2 =
        envs.map fun e => (e.message, handleMessage e.message c.messageHandlers) := by
  have hresult := h.result
  rcases receive_cases h.unpack with ⟨-, heq⟩ | ⟨ring, hv, he, heq⟩
  · rw [heq] at hresult ⊢
    subst hresult
    exact ⟨[], by simp [offsets], Nat.le_refl _, fun e he => .inr he, rfl⟩
  · have hp : Placed c env ring := ⟨hv, he⟩
    obtain ⟨h1, h2, -⟩ := hp.released h hb
    have happ := contiguous_append c.nextRXSequence ring
    refine ⟨(contiguous c.nextRXSequence ring).1, ?_, ?_, fun e hmem => ?_, ?_⟩
    · -- Both splits of the ring end in the same offsets, so they begin with the same ones.
      have hsplit := release_append (awaited s c) (offsets s ring)
      have hmap := congrArg (offsets s) happ
      rw [offsets, map_append] at hmap
      rw [← h1, ← h2, pending, (hp.receive h).1, ← hmap] at hsplit
      exact (append_cancel_right hsplit).symm
    · rw [h1]
      exact release_le _ _
    · rw [(hp.receive h).1, happ] at hmem
      exact hp.mem.mp hmem
    · rw [heq, handledMessages_append, handledMessages_prove, nil_append]
      exact handledMessages_handle (fun e : Envelope M P => (e.message, handleMessage e.message c.messageHandlers)) _

end

end Call

/-! ### A ring in order -/

/-- The ring is in order without the awaited number, and what has arrived was delivered or is pending. -/
structure Holding (s : UInt16) (n : Nat) (seen : List Nat) (c : Channel M P) : Prop where
  inBlock : InBlock s n c
  ordered : Ordered (awaited s c) (pending s c)
  awaited_notMem : awaited s c ∉ pending s c
  mem_seen : ∀ o, o ∈ seen ↔ o < awaited s c ∨ o ∈ pending s c

/-- The ring stays in order if `p` holds, and is out of order if not. -/
def Sorts (s : UInt16) (n : Nat) (seen : List Nat) (c : Channel M P) (p : Prop) : Prop :=
  (p → Holding s n seen c) ∧ (¬p → ¬Ordered (awaited s c) (pending s c))

namespace Holding
variable {c c' : Channel M P} {raw : Bytes} {packet : Option P} {env : Envelope M P} {s : UInt16} {n a : Nat}
  {seen : List Nat} {ring : List (Envelope M P)}

section

variable (h : Holding s n seen c)
include h

theorem lt_pending {o : Nat} (ho : o ∈ pending s c) : awaited s c < o := by
  have hle := h.ordered.2 o ho
  have hne : o ≠ awaited s c := fun heq => h.awaited_notMem (heq ▸ ho)
  omega

theorem forall_seen_iff {k : Nat} : (∀ i < k, i ∈ seen) ↔ k ≤ awaited s c := by
  constructor
  · intro hall
    by_contra hlt
    rcases (h.mem_seen _).mp (hall (awaited s c) (by omega)) with hself | hself
    · exact Nat.lt_irrefl _ hself
    · exact h.awaited_notMem hself
  · intro hle i hi
    exact (h.mem_seen i).mpr (.inl (by omega))

theorem forall_seen_lt (ha : awaited s c ≤ a) : (∀ b ∈ seen, b < a) ↔ ∀ o ∈ pending s c, o < a := by
  simp only [h.mem_seen, or_imp, forall_and]
  exact and_iff_right fun b hb => hb.trans_le ha

theorem of_dropped (ha : a ∈ seen) : Holding s n (seen ++ [a]) c where
  __ := h
  mem_seen := fun o => by
    rw [mem_append, mem_singleton, or_iff_left_of_imp fun ho => ho ▸ ha, h.mem_seen o]

theorem of_placed (hr : Receives s n c raw packet env a c') (hp : Placed c env ring)
    (hord : Ordered (awaited s c) (offsets s ring)) : Holding s n (seen ++ [a]) c' := by
  obtain ⟨h1, h2, -⟩ := hp.released hr h.inBlock
  obtain ⟨hord', hnot⟩ := hord.released
  have happ := release_append (awaited s c) (offsets s ring)
  have hle := release_le (awaited s c) (offsets s ring)
  rw [← h1, ← h2] at hord' hnot happ
  refine ⟨hr.inBlock h.inBlock, hord', hnot, fun o => ?_⟩
  have hring : o ∈ offsets s ring ↔ o = a ∨ o ∈ pending s c := hr.offset_eq ▸ hp.mem_offsets
  rw [← happ, mem_append, mem_range'_1] at hring
  rw [mem_append, mem_singleton, h.mem_seen o, or_assoc, or_comm (b := o = a), ← hring, ← or_assoc]
  exact or_congr_left (by omega)

theorem head_le {e : Envelope M P} (hr : c.rxRing = e :: ring) {o : Nat}
    (ho : o ∈ pending s c) : offset s e.sequence ≤ o := by
  have hord := h.ordered.1
  unfold pending offsets at hord ho
  rw [hr, map_cons] at hord ho
  rcases mem_cons.mp ho with rfl | ho
  · exact Nat.le_refl _
  · exact Nat.le_of_lt ((pairwise_cons.mp hord).1 o ho)

theorem placed_of_le (hle : offset s env.sequence ≤ awaited s c)
    (hv : invalidSequence c.nextRXSequence env.sequence = false) : ∃ ring, Placed c env ring := by
  have hnew : ∀ e ∈ c.rxRing, e.sequence ≠ env.sequence := fun e he heq => by
    have := h.lt_pending (mem_map_of_mem he)
    rw [heq] at this
    omega
  obtain ⟨ring, he⟩ := Option.isSome_iff_exists.mp (emplaceEnvelope_isSome c.nextRXSequence hnew)
  exact ⟨ring, hv, he⟩

section

variable (hr : Receives s n c raw packet env a c')
include hr

theorem receive_old (hold : a < awaited s c) :
    Sorts s n (seen ++ [a]) c' ¬(a < wrapPoint s ∧ wrapPoint s ≤ awaited s c) := by
  obtain rfl := hr.offset_eq
  have hinv := invalidSequence_iff (s := s) (hr.lt.trans_le hr.block) (h.inBlock.awaited_le.trans hr.block)
  refine ⟨fun hw => ?_, fun hw hord => ?_⟩
  · rcases hr.cases with ⟨-, rfl⟩ | ⟨ring, hp⟩
    · exact h.of_dropped ((h.mem_seen _).mpr (.inl hold))
    · exact absurd (hinv.mpr ⟨hold, hw⟩) (ne_true_of_eq_false hp.valid)
  · obtain ⟨ring, hp⟩ := h.placed_of_le hold.le (eq_false_of_ne_true fun hi => hw (hinv.mp hi).2)
    have := (hp.ordered hr h.inBlock hord).2 _ (hp.mem_offsets.mpr (.inl rfl))
    omega

theorem receive_future (hfut : awaited s c < a) :
    Sorts s n (seen ++ [a]) c' (a ∈ seen ∨ a ∉ seen ∧ ∀ b ∈ seen, b < a) := by
  obtain rfl := hr.offset_eq
  have hlt := hr.lt.trans_le hr.block
  have hle := h.inBlock.awaited_le.trans hr.block
  have hv : invalidSequence c.nextRXSequence env.sequence = false :=
    eq_false_of_ne_true fun hi => Nat.lt_asymm hfut ((invalidSequence_iff (s := s) hlt hle).mp hi).1
  have hd := (wrapped_difference_iff (s := s) hlt hle).mpr hfut
  have hseen : offset s env.sequence ∈ seen ↔ offset s env.sequence ∈ pending s c := by
    rw [h.mem_seen]
    exact ⟨fun h' => h'.resolve_left (by omega), .inr⟩
  have placed : offset s env.sequence ∉ seen → Placed c env (c.rxRing ++ [env]) := fun hnot =>
    ⟨hv, emplaceEnvelope_future hd fun e he heq => hnot (hseen.mpr (mem_map.mpr ⟨e, he, by rw [heq]⟩))⟩
  have hmap : offsets s (c.rxRing ++ [env]) = pending s c ++ [offset s env.sequence] := by
    simp [offsets, pending]
  rw [h.forall_seen_lt hfut.le]
  refine ⟨?_, fun hnot hord => ?_⟩
  · rintro (hdup | ⟨hnew, hall⟩)
    · obtain ⟨e, he, heq⟩ := mem_map.mp (hseen.mp hdup)
      have hnone := emplaceEnvelope_duplicate hd ⟨e, he, offset_inj heq⟩
      rcases hr.cases with ⟨-, rfl⟩ | ⟨ring, hp⟩
      · exact h.of_dropped hdup
      · cases hnone.symm.trans hp.emplaced
    · refine h.of_placed hr (placed hnew) ?_
      rw [hmap]
      refine ⟨pairwise_append.mpr ⟨h.ordered.1, pairwise_singleton _ _, ?_⟩, fun o ho => ?_⟩
      · intro a ha b hb
        rw [mem_singleton.mp hb]
        exact hall a ha
      · rcases mem_append.mp ho with ho | ho
        · exact h.ordered.2 o ho
        · rw [mem_singleton.mp ho]
          exact hfut.le
  · obtain ⟨hnew, hsome⟩ := not_or.mp hnot
    have hpw := ((placed hnew).ordered hr h.inBlock hord).1
    rw [hmap, pairwise_append] at hpw
    exact hsome ⟨hnew, fun o ho => hpw.2.2 o ho _ mem_cons_self⟩

theorem receive_awaited (haw : a = awaited s c) : Sorts s n (seen ++ [a]) c'
    (pending s c = [] ∨ wrapPoint s ≤ awaited s c ∨ ∃ o ∈ pending s c, o < wrapPoint s) := by
  obtain rfl := hr.offset_eq
  have hseq := offset_inj haw
  have hn := hr.block
  have hv : invalidSequence c.nextRXSequence env.sequence = false := by
    simp [invalidSequence, hseq]
  have hd : ¬c.nextRXSequence - env.sequence > channelSeqMax / 2 := by
    rw [hseq, UInt16.sub_self]
    decide
  -- The head of the ring is above the awaited number, on this side of the wrap or beyond it.
  have hhead : ∀ {e ring}, c.rxRing = e :: ring → offset s e.sequence ∈ pending s c ∧
      (env.sequence < e.sequence ↔ ¬(awaited s c < wrapPoint s ∧ wrapPoint s ≤ offset s e.sequence)) := by
    intro e ring hring
    have hmem : offset s e.sequence ∈ pending s c := mem_map.mpr ⟨e, hring ▸ mem_cons_self, rfl⟩
    have hgt := h.lt_pending hmem
    have hen := h.inBlock.pending_lt _ hmem
    exact ⟨hmem, haw ▸ lt_iff_offset (s := s) (by omega) (by omega) (by omega)⟩
  constructor
  · intro hw
    have hfirst : ∀ e ∈ c.rxRing.head?, env.sequence < e.sequence := by
      intro e he
      obtain ⟨ring, hring⟩ := head?_eq_some_iff.mp he
      obtain ⟨hmem, hiff⟩ := hhead hring
      refine hiff.mpr fun hcross => ?_
      rcases hw with hnil | hw | ⟨o, ho, hw⟩
      · rw [hnil] at hmem; cases hmem
      · omega
      · have := h.head_le hring ho
        omega
    refine h.of_placed hr ⟨hv, emplaceEnvelope_front hd hfirst⟩ ?_
    rw [offsets, map_cons]
    exact ordered_cons.mpr ⟨Nat.le_of_eq haw.symm, h.ordered.1, fun o ho => by
      have := h.lt_pending ho
      omega⟩
  · intro hw hord
    simp only [not_or, not_exists, not_and, Nat.not_le, Nat.not_lt] at hw
    obtain ⟨hne, hbefore, hafter⟩ := hw
    obtain ⟨e, ring, hring⟩ : ∃ e ring, c.rxRing = e :: ring := by
      cases hc : c.rxRing with
      | nil => exact absurd (by simp [pending, offsets, hc]) hne
      | cons e ring => exact ⟨e, ring, rfl⟩
    obtain ⟨hmem, hiff⟩ := hhead hring
    have hgt := h.lt_pending hmem
    obtain ⟨ring', hp⟩ := h.placed_of_le haw.le hv
    obtain ⟨tail, rfl, htail⟩ :=
      emplaceEnvelope_behind (fun hl => hiff.mp hl ⟨hbefore, hafter _ hmem⟩) ring' (hring ▸ hp.emplaced)
    have hpw := (hp.ordered hr h.inBlock hord).1
    rw [offsets, map_cons, pairwise_cons] at hpw
    have := hpw.1 _ (mem_map_of_mem htail)
    omega

theorem receive_timely : Sorts s n (seen ++ [a]) c' (Timely (wrapPoint s) seen a) := by
  unfold Timely
  simp only [h.forall_seen_iff]
  rcases Nat.lt_trichotomy a (awaited s c) with hlow | heq | hhigh
  · have hmem : a ∈ seen := (h.mem_seen _).mpr (.inl hlow)
    simp only [hmem, not_true_eq_false, false_and, or_false, true_and]
    exact h.receive_old hr hlow
  · have hnot : a ∉ seen := fun hmem => by
      rcases (h.mem_seen _).mp hmem with h' | h'
      · omega
      · exact h.awaited_notMem (heq ▸ h')
    -- What has arrived above the awaited number is what is pending.
    have hcond : (pending s c = [] ∨ wrapPoint s ≤ awaited s c ∨ ∃ o ∈ pending s c, o < wrapPoint s) ↔
        ((∀ b ∈ seen, b < a) ∨ a ≤ awaited s c ∧ (wrapPoint s ≤ a ∨ ∃ b ∈ seen, a < b ∧ b < wrapPoint s)) := by
      simp only [heq, Nat.le_refl, true_and, h.forall_seen_lt (Nat.le_refl _), eq_nil_iff_forall_not_mem]
      refine or_congr (forall₂_congr fun o ho => ?_) (or_congr_right (exists_congr fun o => ?_))
      · exact iff_of_false id (Nat.lt_asymm (h.lt_pending ho))
      · rw [h.mem_seen]
        constructor
        · rintro ⟨ho, how⟩
          exact ⟨.inr ho, h.lt_pending ho, how⟩
        · rintro ⟨ho, hgt, how⟩
          exact ⟨ho.resolve_left (Nat.lt_asymm hgt), how⟩
    simp only [hnot, not_false_eq_true, false_and, true_and, false_or]
    rw [← hcond]
    exact h.receive_awaited hr heq
  · have hkeep : ¬(a < wrapPoint s ∧ wrapPoint s ≤ awaited s c) := by omega
    simp only [hkeep, Nat.not_le.mpr hhigh, not_false_eq_true, and_true, false_and, and_false, or_false]
    exact h.receive_future hr hhigh

end

end

end Holding

/-! ### Whole runs -/

section Run
variable {s : UInt16} {n : Nat} {call : Bytes × Option P} {calls : List (Bytes × Option P)} {c : Channel M P}

def BlockCalls (factories : UInt16 → Option (MessageFactory M)) (s : UInt16) (n : Nat)
    (calls : List (Bytes × Option P)) : Prop :=
  ∀ call ∈ calls, ∃ env, Envelope.unpack factories call.1 call.2 = some env ∧ offset s env.sequence < n

theorem receiveAll_cons (c : Channel M P) (call : Bytes × Option P) (rest : List (Bytes × Option P)) :
    (c.receiveAll (call :: rest)).1 = ((c.receive call.1 call.2).1.receiveAll rest).1 ∧
      (c.receiveAll (call :: rest)).2 =
        (c.receive call.1 call.2).2 ++ ((c.receive call.1 call.2).1.receiveAll rest).2 := ⟨rfl, rfl⟩

theorem BlockCalls.receives (hcalls : BlockCalls c.messageFactories s n (call :: calls)) (hn : n ≤ 48) :
    ∃ env, Receives s n c call.1 call.2 env (offset s env.sequence) (c.receive call.1 call.2).1 ∧
      BlockCalls (c.receive call.1 call.2).1.messageFactories s n calls := by
  obtain ⟨env, hu, hlt⟩ := hcalls call mem_cons_self
  have hr : Receives s n c call.1 call.2 env (offset s env.sequence) _ := ⟨hn, hu, rfl, hlt, rfl⟩
  refine ⟨env, hr, ?_⟩
  rw [hr.factories.1]
  exact fun x hx => hcalls x (mem_cons_of_mem call hx)

theorem receiveAll_disordered (hn : n ≤ 48) (hb : InBlock s n c)
    (hcalls : BlockCalls c.messageFactories s n calls) (hbad : ¬Ordered (awaited s c) (pending s c)) :
    ¬Ordered (awaited s (c.receiveAll calls).1) (pending s (c.receiveAll calls).1) := by
  induction calls generalizing c with
  | nil => exact hbad
  | cons call rest ih =>
    obtain ⟨env, hr, hrest⟩ := hcalls.receives hn
    exact ih (hr.inBlock hb) hrest (hr.disordered hb hbad)

theorem forall_split_cons {p : List Nat → Nat → Prop} {seen xs : List Nat} {x : Nat} :
    (∀ before a after, x :: xs = before ++ a :: after → p (seen ++ before) a) ↔
      p seen x ∧ ∀ before a after, xs = before ++ a :: after → p (seen ++ [x] ++ before) a := by
  constructor
  · refine fun h => ⟨append_nil seen ▸ h [] x xs rfl, fun before a after heq => ?_⟩
    rw [← append_cons]
    exact h (x :: before) a after (heq ▸ rfl)
  · rintro ⟨hfirst, hrest⟩ before a after heq
    cases before with
    | nil =>
      cases heq
      rwa [append_nil]
    | cons b before =>
      obtain ⟨rfl, htail⟩ := cons.inj heq
      rw [append_cons]
      exact hrest before a after htail

/-- Over a run the ring ends in order, holding what has arrived, exactly when every arrival is timely. -/
theorem receiveAll_timely (hn : n ≤ 48) {seen : List Nat}
    (h : Holding s n seen c) (hcalls : BlockCalls c.messageFactories s n calls) :
    Sorts s n (seen ++ arrivals c.messageFactories s calls) (c.receiveAll calls).1 (∀ before a after,
      arrivals c.messageFactories s calls = before ++ a :: after → Timely (wrapPoint s) (seen ++ before) a) := by
  induction calls generalizing c seen with
  | nil => exact ⟨fun _ => by simpa [arrivals, receiveAll] using h, fun hnot => absurd (by simp [arrivals]) hnot⟩
  | cons call rest ih =>
    obtain ⟨env, hr, hrest⟩ := hcalls.receives hn
    have harr : arrivals c.messageFactories s (call :: rest) =
        offset s env.sequence :: arrivals c.messageFactories s rest := by
      simp [arrivals, hr.unpack]
    obtain ⟨hgood, hbad⟩ := h.receive_timely hr
    rw [harr, append_cons, forall_split_cons]
    by_cases hfirst : Timely (wrapPoint s) seen (offset s env.sequence)
    · have hrun := ih (hgood hfirst) hrest
      rw [hr.factories.1] at hrun
      exact ⟨fun hall => hrun.1 hall.2, fun hnot => hrun.2 fun hall => hnot ⟨hfirst, hall⟩⟩
    · have hrun := receiveAll_disordered hn (hr.inBlock h.inBlock) hrest (hbad hfirst)
      exact ⟨fun hall => absurd hall.1 hfirst, fun _ => hrun⟩

/-- Over a run the messages of the numbers up to the awaited one are handed over, in order. -/
theorem receiveAll_handled (hn : n ≤ 48) (hb : InBlock s n c) (hcalls : BlockCalls c.messageFactories s n calls) :
    ∃ envs : List (Envelope M P),
      offsets s envs = range' (awaited s c) (awaited s (c.receiveAll calls).1 - awaited s c) ∧
      awaited s c ≤ awaited s (c.receiveAll calls).1 ∧
      (∀ e ∈ envs, e ∈ c.rxRing ∨
        ∃ call ∈ calls, Envelope.unpack c.messageFactories call.1 call.2 = some e) ∧
      handledMessages (c.receiveAll calls).2 =
        envs.map fun e => (e.message, handleMessage e.message c.messageHandlers) := by
  induction calls generalizing c with
  | nil => exact ⟨[], by simp [receiveAll, offsets], Nat.le_refl _, by simp, rfl⟩
  | cons call rest ih =>
    obtain ⟨env, hr, hrest⟩ := hcalls.receives hn
    obtain ⟨envs, hoff, hle, hfrom, hmsg⟩ := hr.handled hb
    obtain ⟨hfact, hhand⟩ := hr.factories
    obtain ⟨envs', hoff', hle', hfrom', hmsg'⟩ := ih (hr.inBlock hb) hrest
    rw [(receiveAll_cons c call rest).1, (receiveAll_cons c call rest).2]
    have source : ∀ e ∈ envs ++ (c.receive call.1 call.2).1.rxRing, e ∈ c.rxRing ∨
        ∃ x ∈ call :: rest, Envelope.unpack c.messageFactories x.1 x.2 = some e := fun e he => by
      rcases hfrom e he with rfl | he
      · exact .inr ⟨call, mem_cons_self, hr.unpack⟩
      · exact .inl he
    refine ⟨envs ++ envs', ?_, Nat.le_trans hle hle', fun e he => ?_, ?_⟩
    · rw [offsets, map_append]
      exact (congrArg₂ (· ++ ·) hoff hoff').trans (range'_append_sub hle hle')
    · rcases mem_append.mp he with he | he
      · exact source e (mem_append_left _ he)
      · rcases hfrom' e he with he | ⟨x, hx, hxe⟩
        · exact source e (mem_append_right _ he)
        · exact .inr ⟨x, mem_cons_of_mem call hx, hfact ▸ hxe⟩
    · rw [handledMessages_append, hmsg, hmsg', hhand, map_append]

/-- At most 48 numbers that arrive in full on an empty ring are delivered exactly when every arrival is timely. -/
theorem deliversBlock_iff_timely (hring : c.rxRing = []) (hnext : c.nextRXSequence = s)
    (hn : n ≤ channelWindowMaxFast.toNat) (hcalls : BlockCalls c.messageFactories s n calls)
    (hall : ∀ o < n, o ∈ arrivals c.messageFactories s calls) : DeliversBlock c s n calls ↔
      ∀ before a after, arrivals c.messageFactories s calls = before ++ a :: after →
        Timely (wrapPoint s) before a := by
  have hn48 : n ≤ 48 := hn
  have hzero : awaited s c = 0 := by simp [awaited, hnext]
  have hnil : pending s c = [] := by simp [pending, offsets, hring]
  have hb : InBlock s n c := ⟨by omega, by simp [hnil]⟩
  have hstart : Holding s n [] c :=
    ⟨hb, by rw [hnil]; exact ordered_nil _, by simp [hnil], fun o => by simp [hzero, hnil]⟩
  obtain ⟨hgood, hbad⟩ := receiveAll_timely hn48 hstart hcalls
  constructor
  · intro hd
    refine not_not.mp (mt hbad (not_not.mpr ?_))
    have hempty : pending s (c.receiveAll calls).1 = [] := by simp [pending, offsets, hd.ring]
    rw [hempty]
    exact ordered_nil _
  · intro ht
    have hend := hgood ht
    -- Everything has arrived, so the awaited number is the block's end and nothing is above it.
    have hawaited : awaited s (c.receiveAll calls).1 = n :=
      Nat.le_antisymm hend.inBlock.awaited_le (hend.forall_seen_iff.mp hall)
    have hpending : pending s (c.receiveAll calls).1 = [] := by
      refine List.eq_nil_iff_forall_not_mem.mpr fun o ho => ?_
      have := hend.inBlock.pending_lt o ho
      have := hend.lt_pending ho
      omega
    obtain ⟨envs, hoff, -, hfrom, hmsg⟩ := receiveAll_handled hn48 hb hcalls
    refine ⟨⟨envs, ?_, fun e he => ?_, hmsg⟩, List.map_eq_nil_iff.mp hpending, eq_add_of_offset hawaited⟩
    · rw [hzero, hawaited, Nat.sub_zero, ← List.range_eq_range'] at hoff
      rw [← hoff, offsets, List.map_map]
      exact List.map_congr_left fun e _ => eq_add_of_offset rfl
    · refine (hfrom e he).resolve_left fun hin => ?_
      rw [hring] at hin
      cases hin

end Run

def sampleChannel (s : UInt16) : Channel Bytes Unit where
  nextRXSequence := s
  messageFactories := fun msgType => if msgType = 0x0101 then some some else none
  messageHandlers := [⟨1, fun _ => true⟩]

def sampleCall (q : UInt16) : Bytes × Option Unit := ([0x01, 0x01] ++ putUint16 q ++ [0, 0], none)

/-- Numbers 0, 1 and 2 in reverse order: 2 and 1 stay in the ring and are never handled. -/
theorem reversed_block_not_delivered :
    (sampleChannel 0).rxRing = [] ∧ (sampleChannel 0).nextRXSequence = 0 ∧ 3 ≤ channelWindowMaxFast.toNat ∧
    BlockCalls (sampleChannel 0).messageFactories 0 3 [sampleCall 2, sampleCall 1, sampleCall 0] ∧
    (∀ o < 3, o ∈ arrivals (sampleChannel 0).messageFactories 0 [sampleCall 2, sampleCall 1, sampleCall 0]) ∧
    ¬DeliversBlock (sampleChannel 0) 0 3 [sampleCall 2, sampleCall 1, sampleCall 0] := by
  refine ⟨rfl, rfl, by decide, ?_, by decide, fun h => ?_⟩
  · simp only [BlockCalls, List.forall_mem_cons]
    exact ⟨⟨_, rfl, by decide⟩, ⟨_, rfl, by decide⟩, ⟨_, rfl, by decide⟩, by simp⟩
  · have hleft : ((sampleChannel 0).receiveAll [sampleCall 2, sampleCall 1, sampleCall 0]).1.rxRing.map
        (·.sequence) = [2, 1] := by decide
    rw [h.ring] at hleft
    cases hleft

/-- Numbers 65535, 1 and 0 arrive on a channel that awaits 65535: the block wraps and is delivered. -/
theorem wrapped_block_delivered :
    DeliversBlock (sampleChannel 65535) 65535 3 [sampleCall 65535, sampleCall 1, sampleCall 0] := by
  refine (deliversBlock_iff_timely (s := 65535) rfl rfl (by decide) ?_ (by decide)).mpr fun before a after h => ?_
  · simp only [BlockCalls, List.forall_mem_cons]
    exact ⟨⟨_, rfl, by decide⟩, ⟨_, rfl, by decide⟩, ⟨_, rfl, by decide⟩, by simp⟩
  · have harr : arrivals (sampleChannel 65535).messageFactories 65535
        [sampleCall 65535, sampleCall 1, sampleCall 0] = [0, 2, 1] := by decide
    have hw : wrapPoint 65535 = 1 := by decide
    rw [harr] at h
    rw [hw]
    rcases before with _ | ⟨b₀, _ | ⟨b₁, _ | ⟨b₂, before⟩⟩⟩
    · simp only [List.nil_append, List.cons.injEq] at h
      simp [Timely]
    · simp only [List.cons_append, List.nil_append, List.cons.injEq] at h
      obtain ⟨rfl, rfl, -⟩ := h
      simp [Timely]
    · simp only [List.cons_append, List.nil_append, List.cons.injEq] at h
      obtain ⟨rfl, rfl, rfl, -⟩ := h
      simp [Timely]
    · simp at h

end Reticulum.Channel
