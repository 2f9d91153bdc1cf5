import Mathlib.Data.List.Nodup
import Mathlib.Data.List.Perm.Subperm
import Mathlib.Data.List.TakeDrop
import Reticulum.ChannelSend
import Reticulum.Theorems.ChannelRing

/-! # What the send ring of a channel holds -/

namespace Reticulum

open List Option Function ChannelSender

theorem Envelope.length_pack (msgType sequence : UInt16) (data : Bytes) :
    (Envelope.pack msgType sequence data).length = data.length + 6 := by
  simp only [Envelope.pack, putUint16, length_append, length_cons, length_nil]
  omega

namespace ChannelSender

open Transitions Function

variable {hash : Nat → Bytes} {c c' : ChannelSender} {env : Envelope Message Nat} {n m : Nat} {a : Action} {t : Transmission}
  {rtt : Rtt} {call : Call} {result : ChannelSender × List Call} {link : OutletLink} {rttSlow : Bool}

/-! ### The ring -/

theorem filterMap_eraseP_packet (q : Nat → Bool) (ring : List (Envelope Message Nat)) :
    (ring.eraseP fun env => env.packet.any q).filterMap (·.packet) = (ring.filterMap (·.packet)).eraseP q := by
  induction ring with
  | nil => rfl
  | cons env ring ih =>
    cases hp : env.packet with
    | none => simp [hp, ih]
    | some p => cases hq : q p <;> simp [hp, hq, ih]

theorem eraseP_eq_erase {q : Nat → Bool} {l : List Nat} (h : ∀ p ∈ l, q p = true ↔ p = n) : l.eraseP q = l.erase n := by
  induction l with
  | nil => rfl
  | cons p l ih =>
    obtain ⟨hp, hl⟩ := forall_mem_cons.mp h
    by_cases hpn : p = n
    · rw [eraseP_cons_of_pos (hp.mpr hpn), hpn, erase_cons_head]
    · rw [eraseP_cons_of_neg (fun hq => hpn (hp.mp hq)), ih hl, erase_cons_tail (by simpa using hpn)]

theorem adapt_eq (c : ChannelSender) (rtt : Rtt) : ∃ fast medium windowMax windowMin, c.adapt rtt =
    { c with fastRateRounds := fast, mediumRateRounds := medium, windowMax := windowMax, windowMin := windowMin } := by
  cases rtt with
  | zero | slow => exact ⟨_, _, _, _, rfl⟩
  | fast | medium =>
    simp only [adapt]
    split <;> exact ⟨_, _, _, _, rfl⟩

theorem packetDelivered_frame (hash : Nat → Bytes) (c : ChannelSender) (n : Nat) (rtt : Rtt) :
    (c.packetDelivered hash n rtt).packets = c.packets ∧ (c.packetDelivered hash n rtt).receipts = c.receipts ∧
      (c.packetDelivered hash n rtt).sending = c.sending ∧ (c.packetDelivered hash n rtt).returned = c.returned ∧
      (c.packetDelivered hash n rtt).nextSequence = c.nextSequence ∧ (c.packetDelivered hash n rtt).down = c.down := by
  unfold packetDelivered
  split
  · exact ⟨rfl, rfl, rfl, rfl, rfl, rfl⟩
  · dsimp only
    obtain ⟨_, _, _, _, hadapt⟩ := adapt_eq _ rtt
    rw [hadapt]
    exact ⟨rfl, rfl, rfl, rfl, rfl, rfl⟩

theorem tracked_emplace {next : UInt16} {ring : List (Envelope Message Nat)}
    (h : Channel.emplaceEnvelope next { env with packet := some n } c.txRing = some ring) :
    (ring.filterMap (·.packet)).Perm (n :: c.tracked) :=
  (Channel.emplaceEnvelope_sublist h).2.filterMap (·.packet)

/-! ### Steps -/

/-- The state after a part of a call and the parts that follow it. -/
def after (c : ChannelSender) (call : Call) (r : ChannelSender × List Call) : ChannelSender :=
  { r.1 with calls := r.2 ++ c.calls.erase call }

inductive Steps (hash : Nat → Bytes) (c : ChannelSender) : Action → ChannelSender → Prop where
  | send (message : Message) (hidle : c.sending = .idle) : Steps hash c (.send message) (c.reserve message)
  | outlet (t : Transmission) {env : Envelope Message Nat} (hs : c.sending = .reserved env) :
      Steps hash c (.outlet t) (c.transmit env t)
  | rollBack {env : Envelope Message Nat} (hs : c.sending = .refused env) : Steps hash c .commit (c.rollBack env)
  | commit {env : Envelope Message Nat} {n : Nat} (hs : c.sending = .sent env n) :
      Steps hash c .commit (c.commit env n)
  | call (call : Call) (rtt : Rtt) (t : Transmission) (hcall : call ∈ c.calls) :
      Steps hash c (.call call rtt t) (c.after call (c.perform hash rtt t call))
  | prove {n : Nat} {r : PacketReceipt} (hr : c.receipts n = some r) : Steps hash c (.prove n) (c.prove n r)
  | checkTimeout {n : Nat} {r : PacketReceipt} (hr : c.receipts n = some r) (culled : Bool) :
      Steps hash c (.checkTimeout n culled) (c.checkTimeout n r culled)
  | shutdown : Steps hash c .shutdown c.shutdown
  | link (link : OutletLink) : Steps hash c (.link link) { c with link }
  | receive (next : UInt16) : Steps hash c (.receive next) { c with nextRXSequence := next }

theorem steps_of_step (h : c.step hash a = some c') : Steps hash c a c' := by
  cases a with
  | send message =>
    obtain ⟨hidle, h⟩ := ite_none_right_eq_some.mp h
    cases h
    exact .send message hidle
  | outlet t =>
    simp only [step] at h
    split at h
    · cases h
      exact .outlet t ‹_›
    · cases h
  | commit =>
    simp only [step] at h
    split at h
    · cases h
      exact .rollBack ‹_›
    · cases h
      exact .commit ‹_›
    · cases h
  | call call rtt t =>
    obtain ⟨hcall, h⟩ := ite_none_right_eq_some.mp h
    cases h
    exact .call call rtt t hcall
  | prove n =>
    obtain ⟨r, hr, rfl⟩ := map_eq_some_iff.mp h
    exact .prove hr
  | checkTimeout n culled =>
    obtain ⟨r, hr, rfl⟩ := map_eq_some_iff.mp h
    exact .checkTimeout hr culled
  | shutdown =>
    cases h
    exact .shutdown
  | link link =>
    cases h
    exact .link link
  | receive next =>
    cases h
    exact .receive next

theorem reserve_result (c : ChannelSender) (message : Message) :
    (∃ data, c.isReadyToSend = true ∧ message.data = some data ∧ data.length + 6 ≤ c.link.mdu ∧
      c.reserve message =
        { c with
          nextSequence := c.nextSequence + 1
          sending := .reserved { sequence := c.nextSequence, message, packet := none } }) ∨
    ((c.isReadyToSend = true → ∀ data, message.data = some data → c.link.mdu < data.length + 6) ∧
      c.reserve message = c) := by
  unfold reserve
  cases hready : c.isReadyToSend with
  | false => exact .inr ⟨nofun, rfl⟩
  | true =>
    cases hdata : message.data with
    | none => exact .inr ⟨nofun, rfl⟩
    | some data =>
      rw [if_pos rfl]
      dsimp only
      rw [Envelope.length_pack]
      split_ifs with hbig
      · exact .inr ⟨fun _ d hd => some.inj hd ▸ hbig, rfl⟩
      · exact .inl ⟨data, rfl, rfl, Nat.not_lt.mp hbig, rfl⟩

/-- What the peer reads from an envelope: its factory gets the payload, here with the type it is registered for. -/
def readBack (raw : Bytes) : Option (Envelope (UInt16 × Bytes) Nat) :=
  Envelope.unpack (fun msgType => some fun data => some (msgType, data)) raw none

-- The length field keeps the low 16 bits of the length only.
theorem readBack_pack (msgType sequence : UInt16) (data : Bytes) :
    readBack (Envelope.pack msgType sequence data) = some ⟨sequence, (msgType, data.take (data.length % 65536)), none⟩ := by
  have hlength : (UInt16.ofNat data.length).toNat = data.length % 65536 := UInt16.toNat_ofNat'
  have hle : ¬data.length < data.length % 65536 := Nat.not_lt.mpr (Nat.mod_le _ _)
  simp only [readBack, Envelope.pack, putUint16, cons_append, nil_append, Envelope.unpack, beUint16_putUint16, hlength,
    if_neg hle]
  rfl

/-- An accepted message is read back just when it is shorter than 2^16. -/
theorem accepted_decodes_iff {message : Message} (hidle : c.sending = .idle)
    (hreserved : (c.reserve message).sending = .reserved env) : ∃ data, message.data = some data ∧
      (readBack (Envelope.pack message.msgType env.sequence data) =
        some ⟨c.nextSequence, (message.msgType, data), none⟩ ↔ data.length < 65536) := by
  rcases reserve_result c message with ⟨data, -, hdata, -, heq⟩ | ⟨-, heq⟩
  · rw [heq] at hreserved
    cases hreserved
    refine ⟨data, hdata, ?_⟩
    simp only [readBack_pack, Option.some.injEq, Envelope.mk.injEq, Prod.mk.injEq, true_and, and_true, take_eq_self_iff]
    omega
  · rw [heq, hidle] at hreserved
    cases hreserved

def claimed : Sending → Nat
  | .reserved _ | .sent .. => 1
  | .idle | .refused _ => 0

inductive Moves (hash : Nat → Bytes) (c : ChannelSender) : Action → ChannelSender → Prop where
  /-- Neither the packets nor the calls are touched. -/
  | calm {a : Action} (link : OutletLink) (nextSequence nextRXSequence : UInt16) (sending : Sending)
      (hsent : ∀ env n, sending = .sent env n → c.sending = .sent env n)
      (hroom : claimed sending ≤ claimed c.sending ∨ c.txRing.length < c.window) :
      Moves hash c a { c with link, nextSequence, nextRXSequence, sending }
  | transmit (t : Transmission) {env : Envelope Message Nat} (hs : c.sending = .reserved env) :
      Moves hash c (.outlet t)
        { c with
          receipts := Function.update c.receipts c.packets (if c.link.attachedInterface then none else some {})
          packets := c.packets + 1
          sending := .sent env c.packets }
  | commit {env : Envelope Message Nat} {n : Nat} (hs : c.sending = .sent env n) :
      Moves hash c .commit (c.commit env n)
  | call (call : Call) (rtt : Rtt) (t : Transmission) (hcall : call ∈ c.calls) :
      Moves hash c (.call call rtt t) (c.after call (c.perform hash rtt t call))
  | prove {n : Nat} {r : PacketReceipt} (hr : c.receipts n = some r) : Moves hash c (.prove n) (c.prove n r)
  | checkTimeout {n : Nat} {r : PacketReceipt} (hr : c.receipts n = some r) (culled : Bool) :
      Moves hash c (.checkTimeout n culled)
        { c.setReceipt n { r with status := if culled then .culled else .failed } with
          calls := if r.timeoutCallback then .packetTimeout n :: c.calls else c.calls }
  | shutdown : Moves hash c .shutdown c.shutdown

theorem moves_transmit (hs : c.sending = .reserved env) : Moves hash c (.outlet t) (c.transmit env t) := by
  unfold transmit OutletLink.send
  split
  · exact .calm _ _ _ _ nofun (.inl (Nat.zero_le _))
  · rename_i receipt hreceipt
    split at hreceipt
    · cases hreceipt
    · cases t with
      | error => cases hreceipt
      | nothing | sent =>
        dsimp only at hreceipt
        have hmade : receipt = if c.link.attachedInterface then none else some {} := by
          split at hreceipt <;> cases hreceipt <;> simp [*]
        rw [hmade]
        exact .transmit _ hs

theorem moves_of_step (h : c.step hash a = some c') : Moves hash c a c' := by
  cases steps_of_step h with
  | send message =>
    rcases reserve_result c message with ⟨data, hready, -, -, heq⟩ | ⟨-, heq⟩
    · rw [heq]
      exact .calm _ _ _ _ nofun (.inr (of_decide_eq_true (Bool.and_eq_true_iff.mp hready).2))
    · rw [heq]
      exact .calm c.link _ _ _ (fun _ _ hs => hs) (.inl le_rfl)
  | outlet t hs => exact moves_transmit hs
  | rollBack => exact .calm _ _ _ _ nofun (.inl (Nat.zero_le _))
  | commit hs => exact .commit hs
  | call call rtt t hcall => exact .call call rtt t hcall
  | prove hr => exact .prove hr
  | checkTimeout hr culled =>
    unfold checkTimeout
    split
    · exact .checkTimeout hr culled
    · exact .calm c.link _ _ _ (fun _ _ hs => hs) (.inl le_rfl)
  | shutdown => exact .shutdown
  | link | receive => exact .calm _ _ _ _ (fun _ _ hs => hs) (.inl le_rfl)

/-! ### Packets and receipts -/

def Watched (c : ChannelSender) (n : Nat) : Prop :=
  ∃ r, c.receipts n = some r ∧ r.deliveryCallback = true ∧ r.timeoutCallback = true

/-- Sent packets differ in their hashes, and receipts and calls are for sent packets. -/
structure Numbered (hash : Nat → Bytes) (c : ChannelSender) : Prop where
  distinct : Set.InjOn hash (Set.Iio c.packets)
  receipts : ∀ n r, c.receipts n = some r → n < c.packets
  calls : ∀ call ∈ c.calls, ∀ n, call.packet = some n → n < c.packets

/-- The ring and the finished sends hold each packet once. -/
structure Sound (c : ChannelSender) : Prop where
  nodup : c.tracked.Nodup
  tracked : ∀ n ∈ c.tracked, n < c.packets ∧ c.Watched n
  returned : c.returned.Nodup ∧ ∀ n ∈ c.returned, n < c.packets
  sending : ∀ env n, c.sending = .sent env n → n < c.packets ∧ n ∉ c.tracked ∧ n ∉ c.returned

theorem lookup_cases (hnum : Numbered hash c) (h : Sound c) (hn : n < c.packets) :
    (c.lookup hash n = none ∧ n ∉ c.tracked) ∨ (c.lookup hash n = some n ∧ n ∈ c.tracked) := by
  cases hp : c.lookup hash n with
  | none => exact .inl ⟨rfl, fun hmem => by simpa using find?_eq_none.mp hp n hmem⟩
  | some p =>
    have hmem : p ∈ c.tracked := mem_of_find?_eq_some hp
    have hhash : hash p = hash n := by simpa using find?_some hp
    obtain rfl := hnum.distinct (h.tracked p hmem).1 hn hhash
    exact .inr ⟨rfl, hmem⟩

theorem tracked_packetDelivered (hnum : Numbered hash c) (h : Sound c) (hn : n < c.packets) (rtt : Rtt) :
    (c.packetDelivered hash n rtt).tracked = c.tracked.erase n := by
  rcases lookup_cases hnum h hn with ⟨hlookup, hmem⟩ | ⟨hlookup, hmem⟩
  · rw [packetDelivered, hlookup, erase_of_not_mem hmem]
  · rw [packetDelivered, hlookup]
    dsimp only
    obtain ⟨_, _, _, _, hadapt⟩ := adapt_eq _ rtt
    rw [hadapt]
    simp only [tracked, filterMap_eraseP_packet]
    refine eraseP_eq_erase fun p hp => ?_
    rw [decide_eq_true_eq]
    exact ⟨hnum.distinct (h.tracked p hp).1 hn, congrArg hash⟩

variable {r : PacketReceipt}

theorem Watched.update (h : c.Watched n) (m : Nat) (hr : m = n → r.deliveryCallback = true ∧ r.timeoutCallback = true)
    (hreceipts : c'.receipts = update c.receipts m (some r)) : c'.Watched n := by
  by_cases hmn : m = n
  · exact ⟨r, by rw [hreceipts, hmn, update_self], hr hmn⟩
  · obtain ⟨r', hr', hcb⟩ := h
    exact ⟨r', by rw [hreceipts, update_of_ne (Ne.symm hmn), hr'], hcb⟩

theorem Sound.shrink (h : Sound c) (htracked : c'.tracked.Sublist c.tracked) (hpackets : c'.packets = c.packets)
    (hreturned : c'.returned = c.returned) (hsending : ∀ env n, c'.sending = .sent env n → c.sending = .sent env n)
    (hwatched : ∀ n ∈ c'.tracked, c.Watched n → c'.Watched n) : Sound c' where
  nodup := h.nodup.sublist htracked
  tracked n hn := by
    obtain ⟨hlt, hw⟩ := h.tracked n (htracked.subset hn)
    exact ⟨hpackets ▸ hlt, hwatched n hn hw⟩
  returned := by
    rw [hreturned, hpackets]
    exact h.returned
  sending env n hs := by
    obtain ⟨hlt, ht, hr⟩ := h.sending env n (hsending env n hs)
    exact ⟨hpackets ▸ hlt, fun hn => ht (htracked.subset hn), hreturned ▸ hr⟩

theorem Sound.setReceipt (h : Sound c) (r' : PacketReceipt) (hr : c.receipts n = some r)
    (hcb : r.deliveryCallback = true ∧ r.timeoutCallback = true →
      r'.deliveryCallback = true ∧ r'.timeoutCallback = true) : Sound (c.setReceipt n r') := by
  refine h.shrink (Sublist.refl _) rfl rfl (fun _ _ hs => hs) fun m _ hw => hw.update n ?_ rfl
  rintro rfl
  obtain ⟨r₁, hr₁, hcb₁⟩ := hw
  cases hr.symm.trans hr₁
  exact hcb hcb₁

theorem sound_newChannel : Sound (newChannel link rttSlow) := by
  cases rttSlow <;> exact ⟨nodup_nil, nofun, ⟨nodup_nil, nofun⟩, nofun⟩

theorem sound_commit (h : Sound c) (hs : c.sending = .sent env n) : Sound (c.commit env n) := by
  obtain ⟨hlt, ht, hret⟩ := h.sending env n hs
  have hreturned : (n :: c.returned).Nodup ∧ ∀ m ∈ n :: c.returned, m < c.packets :=
    ⟨nodup_cons.mpr ⟨hret, h.returned.1⟩, forall_mem_cons.mpr ⟨hlt, h.returned.2⟩⟩
  unfold commit
  split
  · exact ⟨h.nodup, h.tracked, hreturned, nofun⟩
  · rename_i receipt hr
    have hsound := h.setReceipt receipt.markSent.watch hr fun _ => ⟨rfl, rfl⟩
    split
    · exact hsound.shrink (Sublist.refl _) rfl rfl nofun fun _ _ hw => hw
    · rename_i ring hring
      have hperm := tracked_emplace hring
      refine ⟨hperm.nodup_iff.mpr (nodup_cons.mpr ⟨ht, h.nodup⟩), fun m hm => ?_, hreturned, nofun⟩
      rcases mem_cons.mp (hperm.mem_iff.mp hm) with rfl | hm
      · exact ⟨hlt, _, update_self .., rfl, rfl⟩
      · exact hsound.tracked m hm

inductive Performs (hash : Nat → Bytes) (c : ChannelSender) (rtt : Rtt) (call : Call) :
    ChannelSender × List Call → Prop where
  | delivered {n : Nat} (hcall : call = .packetDelivered n) : Performs hash c rtt call (c.packetDelivered hash n rtt, [])
  | counters {rest : List Call} (tries : Nat → Nat) (window windowMax : Nat) (down : Bool) (hwindow : window ≤ c.window)
      (hrest : ∀ call' ∈ rest, ∀ n, call'.packet = some n → call.packet = some n ∨ n ∈ c.tracked) :
      Performs hash c rtt call ({ c with tries, window, windowMax, down }, rest)
  | receipt {rest : List Call} {n : Nat} {r r' : PacketReceipt} (hr : c.receipts n = some r)
      (hproved : r'.proved = r.proved)
      (hcb : r.deliveryCallback = true ∧ r.timeoutCallback = true →
        r'.deliveryCallback = true ∧ r'.timeoutCallback = true)
      (hrest : ∀ call' ∈ rest, call'.packet = call.packet) : Performs hash c rtt call (c.setReceipt n r', rest)
  | shutdown : Performs hash c rtt call (c.shutdown, [])

theorem Performs.unchanged {rest : List Call} (hrest : ∀ call' ∈ rest, call'.packet = call.packet) :
    Performs hash c rtt call (c, rest) :=
  .counters c.tries c.window c.windowMax c.down le_rfl fun call' hcall' _ hn => .inl (hrest call' hcall' ▸ hn)

theorem performs (hash : Nat → Bytes) (c : ChannelSender) (rtt : Rtt) (t : Transmission) (call : Call) :
    Performs hash c rtt call (c.perform hash rtt t call) := by
  cases call with
  | packetDelivered n => exact .delivered rfl
  | packetTimeout n =>
    refine .unchanged fun call' hcall' => ?_
    split at hcall'
    · cases hcall'
    · rw [mem_singleton.mp hcall']
      rfl
  | expire n =>
    simp only [perform, expire]
    split
    · exact .unchanged nofun
    · rename_i p hp
      split
      · exact .counters _ _ _ _ le_rfl (by simp [Call.packet])
      · refine .counters _ _ _ _ ?_ ?_
        · split
          · exact Nat.sub_le _ _
          · exact le_rfl
        · intro call' hcall' m hm
          rw [mem_singleton.mp hcall'] at hm
          exact .inr (some.inj hm ▸ mem_of_find?_eq_some hp)
  | resend n =>
    cases t with
    | error => exact .unchanged nofun
    | nothing => exact .unchanged (by simp [Call.packet])
    | sent =>
      simp only [perform, resend]
      split
      · exact .unchanged (by simp [Call.packet])
      · rename_i hr
        exact .receipt hr rfl id (by simp [Call.packet])
  | rearm n =>
    simp only [perform, rearm]
    split
    · exact .unchanged nofun
    · rename_i hr
      refine .receipt hr rfl (fun _ => ⟨rfl, rfl⟩) fun call' hcall' => ?_
      split at hcall'
      · rw [mem_singleton.mp hcall']
        rfl
      · cases hcall'
  | shutdown => exact .shutdown

theorem Performs.frame (hnum : Numbered hash c) (h : Sound c) (hcall : call ∈ c.calls)
    (hperforms : Performs hash c rtt call result) :
    result.1.tracked.Sublist c.tracked ∧ result.1.packets = c.packets ∧ result.1.returned = c.returned ∧
      result.1.sending = c.sending := by
  cases hperforms with
  | @delivered n hdelivered =>
    obtain ⟨hpackets, -, hsending, hreturned, -⟩ := packetDelivered_frame hash c n rtt
    refine ⟨?_, hpackets, hreturned, hsending⟩
    rw [tracked_packetDelivered hnum h (hnum.calls _ hcall n (hdelivered ▸ rfl))]
    exact erase_sublist
  | counters | receipt => exact ⟨Sublist.refl _, rfl, rfl, rfl⟩
  | shutdown => exact ⟨nil_sublist _, rfl, rfl, rfl⟩

theorem Performs.watched (hperforms : Performs hash c rtt call result) (hn : n ∈ result.1.tracked) (h : c.Watched n) :
    result.1.Watched n := by
  obtain ⟨r, hr, hcb⟩ := h
  cases hperforms with
  | @delivered m => exact ⟨r, by rw [(packetDelivered_frame hash c m rtt).2.1, hr], hcb⟩
  | counters => exact ⟨r, hr, hcb⟩
  | @receipt _ m r' _ hr' _ hkept =>
    refine Watched.update ⟨r, hr, hcb⟩ m ?_ rfl
    rintro rfl
    cases hr.symm.trans hr'
    exact hkept hcb
  | shutdown => cases hn

theorem Performs.sound (hnum : Numbered hash c) (h : Sound c) (hcall : call ∈ c.calls)
    (hperforms : Performs hash c rtt call result) : Sound result.1 := by
  obtain ⟨htracked, hpackets, hreturned, hsending⟩ := hperforms.frame hnum h hcall
  exact h.shrink htracked hpackets hreturned (fun _ _ hs => hsending ▸ hs) fun _ => hperforms.watched

theorem Sound.calls (h : Sound c) (calls : List Call) : Sound { c with calls } :=
  h.shrink (Sublist.refl _) rfl rfl (fun _ _ hs => hs) fun _ _ hw => hw

theorem sound_step (hnum : Numbered hash c) (h : Sound c) (hstep : c.step hash a = some c') : Sound c' := by
  cases moves_of_step hstep with
  | calm _ _ _ _ hsent => exact h.shrink (Sublist.refl _) rfl rfl hsent fun _ _ hw => hw
  | transmit =>
    refine ⟨h.nodup, fun n hn => ?_, ⟨h.returned.1, fun n hn => Nat.lt_succ_of_lt (h.returned.2 n hn)⟩, ?_⟩
    · obtain ⟨hlt, r, hr, hcb⟩ := h.tracked n hn
      exact ⟨Nat.lt_succ_of_lt hlt, r, (update_of_ne (ne_of_lt hlt) ..).trans hr, hcb⟩
    · rintro env' n hs
      cases hs
      exact ⟨Nat.lt_succ_self _, fun hn => lt_irrefl _ (h.tracked _ hn).1, fun hn => lt_irrefl _ (h.returned.2 _ hn)⟩
  | commit hs => exact sound_commit h hs
  | call call rtt t hcall => exact ((performs hash c rtt t call).sound hnum h hcall).calls _
  | prove hr | checkTimeout hr =>
    refine (h.setReceipt _ hr ?_).calls _
    exact id
  | shutdown => exact h.shrink (nil_sublist _) rfl rfl (fun _ _ hs => hs) nofun

def Fresh (hash : Nat → Bytes) (c : ChannelSender) : Action → Prop
  | .outlet _ => ∀ n < c.packets, hash n ≠ hash c.packets
  | _ => True

instance (hash : Nat → Bytes) (c : ChannelSender) (a : Action) : Decidable (c.Fresh hash a) := by
  unfold Fresh
  split <;> infer_instance

theorem Numbered.keep (h : Numbered hash c) (hpackets : c'.packets = c.packets)
    (hreceipts : ∀ n, c.receipts n = none → c'.receipts n = none)
    (hcalls : ∀ call ∈ c'.calls, call ∈ c.calls ∨ ∀ n, call.packet = some n → n < c.packets) : Numbered hash c' where
  distinct := hpackets ▸ h.distinct
  receipts n r hr := by
    rw [hpackets]
    cases hc : c.receipts n with
    | none => simp [hreceipts n hc] at hr
    | some r' => exact h.receipts n r' hc
  calls call hcall n hn := by
    rw [hpackets]
    rcases hcalls call hcall with hold | hnew
    · exact h.calls call hold n hn
    · exact hnew n hn

theorem mem_calls_ite {p : Prop} [Decidable p] {call new : Call} {calls : List Call} :
    call ∈ (if p then new :: calls else calls) ↔ p ∧ call = new ∨ call ∈ calls := by
  split <;> simp [*]

theorem setReceipt_of_ne (h : m ≠ n) : (c.setReceipt n r).receipts m = c.receipts m := update_of_ne h ..

theorem setReceipt_eq_none {r' : PacketReceipt} (hr : c.receipts n = some r) :
    (c.setReceipt n r').receipts m = none ↔ c.receipts m = none := by
  by_cases hmn : m = n
  · simp [setReceipt, hmn, hr]
  · simp [setReceipt, hmn]

theorem proved_setReceipt (r' : PacketReceipt) (hr : c.receipts n = some r) (h : r'.proved = r.proved) :
    (c.setReceipt n r').proved = c.proved := by
  funext m
  by_cases hm : m = n
  · subst hm
    simp [proved, setReceipt, hr, h]
  · simp [proved, setReceipt, hm]

theorem shutdown_receipts (c : ChannelSender) (n : Nat) :
    (c.shutdown.receipts n = none ↔ c.receipts n = none) ∧ c.shutdown.proved n = c.proved n := by
  simp only [shutdown, proved]
  split
  · exact ⟨map_eq_none_iff, by cases c.receipts n <;> rfl⟩
  · exact ⟨Iff.rfl, rfl⟩

structure Performed (c : ChannelSender) (call : Call) (r : ChannelSender × List Call) : Prop where
  calls : ∀ call' ∈ r.2, ∀ n, call'.packet = some n → call.packet = some n ∨ n ∈ c.tracked
  receipts : ∀ n, r.1.receipts n = none ↔ c.receipts n = none
  proved : r.1.proved = c.proved

theorem Performs.performed (hperforms : Performs hash c rtt call result) : Performed c call result := by
  cases hperforms with
  | @delivered n =>
    obtain ⟨-, hreceipts, -⟩ := packetDelivered_frame hash c n rtt
    refine ⟨nofun, fun _ => by rw [hreceipts], funext fun m => ?_⟩
    rw [proved, hreceipts, proved]
  | counters _ _ _ _ _ hrest => exact ⟨hrest, fun _ => Iff.rfl, rfl⟩
  | receipt hr hproved _ hrest =>
    exact ⟨fun call' hcall' n hn => .inl (hrest call' hcall' ▸ hn), fun _ => setReceipt_eq_none hr,
      proved_setReceipt _ hr hproved⟩
  | shutdown => exact ⟨nofun, fun n => (shutdown_receipts c n).1, funext fun n => (shutdown_receipts c n).2⟩

theorem numbered_newChannel : Numbered hash (newChannel link rttSlow) := by
  cases rttSlow <;> exact ⟨nofun, nofun, nofun⟩

theorem numbered_step (hfresh : c.Fresh hash a) (h : Numbered hash c) (hsound : Sound c)
    (hstep : c.step hash a = some c') : Numbered hash c' := by
  have hcallback : ∀ {n : Nat} {p : Prop} [Decidable p] {new : Call}, n < c.packets → new.packet = some n →
      ∀ call ∈ (if p then new :: c.calls else c.calls), call ∈ c.calls ∨ ∀ n, call.packet = some n → n < c.packets := by
    intro n p _ new hn hnew call hcall
    rcases mem_calls_ite.mp hcall with ⟨-, rfl⟩ | hcall
    · exact .inr fun m hm => some.inj (hnew.symm.trans hm) ▸ hn
    · exact .inl hcall
  cases moves_of_step hstep with
  | calm => exact h.keep rfl (fun _ hn => hn) fun _ hcall => .inl hcall
  | transmit =>
    refine ⟨?_, ?_, fun call hcall n hn => Nat.lt_succ_of_lt (h.calls call hcall n hn)⟩
    · intro n hn m hm heq
      rcases Nat.lt_succ_iff_lt_or_eq.mp hn with hn | rfl
      · rcases Nat.lt_succ_iff_lt_or_eq.mp hm with hm | rfl
        · exact h.distinct hn hm heq
        · exact absurd heq (hfresh n hn)
      · rcases Nat.lt_succ_iff_lt_or_eq.mp hm with hm | rfl
        · exact absurd heq.symm (hfresh m hm)
        · rfl
    · intro n r hr
      by_cases hn : n = c.packets
      · exact hn ▸ Nat.lt_succ_self _
      · exact Nat.lt_succ_of_lt (h.receipts n r ((update_of_ne hn ..).symm.trans hr))
  | commit =>
    unfold commit
    split
    · exact h.keep rfl (fun _ hn => hn) fun _ hcall => .inl hcall
    · rename_i receipt hr
      split <;> exact h.keep rfl (fun _ => (setReceipt_eq_none hr).mpr) fun _ hcall => .inl hcall
  | call call rtt t hcall =>
    have hperforms := performs hash c rtt t call
    refine h.keep (hperforms.frame h hsound hcall).2.1 (fun n => (hperforms.performed.receipts n).mpr) ?_
    intro call' hcall'
    rcases mem_append.mp hcall' with hnew | hold
    · refine .inr fun n hn => ?_
      rcases hperforms.performed.calls call' hnew n hn with hn | hn
      · exact h.calls call hcall n hn
      · exact (hsound.tracked n hn).1
    · exact .inl (mem_of_mem_erase hold)
  | prove hr | checkTimeout hr =>
    exact h.keep rfl (fun _ => (setReceipt_eq_none hr).mpr) (hcallback (h.receipts _ _ hr) rfl)
  | shutdown =>
    refine h.keep rfl (fun n => (shutdown_receipts c n).1.mpr) fun _ hcall => .inl hcall

/-! ### Proofs -/

/-- A packet that is sent later has another number. -/
theorem proved_update (receipt : Option PacketReceipt) (h : n < c.packets) :
    proved { c with receipts := update c.receipts c.packets receipt } n = c.proved n := by
  simp [proved, update_of_ne (ne_of_lt h)]

theorem mem_calls_of_ne {call call' : Call} {rest : List Call} (h : call' ∈ c.calls) (hne : call' ≠ call) :
    call' ∈ rest ++ c.calls.erase call :=
  mem_append_right _ ((mem_erase_of_ne hne).mpr h)

/-- No proof arrives between `outlet.Send` and the part of `Send` that sets the callbacks. -/
def ProofAwaited (c : ChannelSender) : Action → Prop
  | .prove n =>
    match c.sending with
    | .sent _ m => m ≠ n
    | _ => True
  | _ => True

instance (c : ChannelSender) (a : Action) : Decidable (c.ProofAwaited a) := by
  unfold ProofAwaited
  split
  · split <;> infer_instance
  · infer_instance

/-- A proved packet in the ring is about to be taken out. -/
structure Prompt (c : ChannelSender) : Prop where
  sound : Sound c
  sending : ∀ env n, c.sending = .sent env n → c.proved n = false
  pending : ∀ n ∈ c.tracked, c.proved n = true → .packetDelivered n ∈ c.calls

theorem Prompt.shrink (h : Prompt c) (hsound : Sound c') (hproved : c'.proved = c.proved)
    (htracked : c'.tracked ⊆ c.tracked) (hsending : ∀ env n, c'.sending = .sent env n → c.sending = .sent env n)
    (hcalls : ∀ n ∈ c'.tracked, .packetDelivered n ∈ c.calls → .packetDelivered n ∈ c'.calls) : Prompt c' where
  sound := hsound
  sending env n hs := by
    rw [hproved]
    exact h.sending env n (hsending env n hs)
  pending n hn hp := hcalls n hn (h.pending n (htracked hn) (hproved ▸ hp))

theorem prompt_commit (h : Prompt c) (hs : c.sending = .sent env n) : Prompt (c.commit env n) := by
  have hsound := sound_commit h.sound hs
  have hunproved := h.sending env n hs
  unfold commit at hsound ⊢
  split at hsound
  · exact h.shrink hsound rfl (Subset.refl _) nofun fun _ _ hc => hc
  · rename_i receipt hr
    have hproved := proved_setReceipt receipt.markSent.watch hr rfl
    split at hsound
    · exact h.shrink hsound hproved (Subset.refl _) nofun fun _ _ hc => hc
    · rename_i ring hring
      refine ⟨hsound, nofun, fun m hm hp => ?_⟩
      replace hp : c.proved m = true := hproved ▸ hp
      rcases mem_cons.mp ((tracked_emplace hring).mem_iff.mp hm) with rfl | hm
      · rw [hunproved] at hp
        cases hp
      · exact h.pending m hm hp

theorem prompt_call (hnum : Numbered hash c) (h : Prompt c) (hcall : call ∈ c.calls)
    (hsound : Sound (c.after call (c.perform hash rtt t call))) : Prompt (c.after call (c.perform hash rtt t call)) := by
  have hperforms := performs hash c rtt t call
  obtain ⟨htracked, -, -, hsending⟩ := hperforms.frame hnum h.sound hcall
  refine h.shrink hsound hperforms.performed.proved htracked.subset (fun _ _ hs => hsending ▸ hs) ?_
  intro n hn hpending
  refine mem_calls_of_ne hpending ?_
  rintro rfl
  -- The call for this packet has just taken it out of the ring.
  have hn := tracked_packetDelivered hnum h.sound (hnum.calls _ hcall n rfl) rtt ▸ hn
  exact h.sound.nodup.not_mem_erase hn

theorem prompt_prove (h : Prompt c) (hr : c.receipts n = some r)
    (hcond : c.ProofAwaited (.prove n)) (hsound : Sound (c.prove n r)) : Prompt (c.prove n r) := by
  have hother : ∀ {m}, m ≠ n → (c.prove n r).proved m = c.proved m := by
    intro m hm
    simp [proved, prove, setReceipt, hm]
  refine ⟨hsound, fun env m hs => ?_, fun m hm hp => ?_⟩
  · have hs : c.sending = .sent env m := hs
    have hne : m ≠ n := by simpa [ProofAwaited, hs] using hcond
    rw [hother hne]
    exact h.sending env m hs
  · by_cases hmn : m = n
    · subst hmn
      obtain ⟨r', hr', hcb, -⟩ := (h.sound.tracked m hm).2
      cases hr.symm.trans hr'
      simp [prove, hcb]
    · exact mem_calls_ite.mpr (.inr (h.pending m hm (hother hmn ▸ hp)))

theorem prompt_step (hcond : c.ProofAwaited a) (hnum : Numbered hash c) (h : Prompt c)
    (hstep : c.step hash a = some c') : Prompt c' := by
  have hsound := sound_step hnum h.sound hstep
  cases moves_of_step hstep with
  | calm _ _ _ _ hsent => exact h.shrink hsound rfl (Subset.refl _) hsent fun _ _ hc => hc
  | transmit =>
    refine ⟨hsound, ?_, fun n hn hp => h.pending n hn (proved_update _ (h.sound.tracked n hn).1 ▸ hp)⟩
    rintro env' n hs
    cases hs
    simp only [proved, update_self]
    split <;> rfl
  | commit hs => exact prompt_commit h hs
  | call call rtt t hcall => exact prompt_call hnum h hcall hsound
  | prove hr => exact prompt_prove h hr hcond hsound
  | checkTimeout hr =>
    exact h.shrink hsound (proved_setReceipt _ hr rfl) (Subset.refl _) (fun _ _ hs => hs) fun _ _ hc =>
      mem_calls_ite.mpr (.inr hc)
  | shutdown =>
    have hproved := funext fun n => (shutdown_receipts c n).2
    exact h.shrink hsound hproved (nil_subset _) (fun _ _ hs => hs) nofun

theorem prompt_newChannel : Prompt (newChannel link rttSlow) := by
  refine ⟨sound_newChannel, ?_, ?_⟩ <;> cases rttSlow <;> exact nofun

/-- When every proof finds the callback of its receipt set, no proved packet keeps its place in the ring. -/
theorem quiet_unproved (hash : Nat → Bytes) (link : OutletLink) (rttSlow : Bool) (as : List Action) (c : ChannelSender)
    (hkeeps : Keeps (step hash) (fun c a => c.Fresh hash a ∧ c.ProofAwaited a) (newChannel link rttSlow) as)
    (hrun : run (step hash) (newChannel link rttSlow) as = some c) (hquiet : c.Quiet) :
    ∀ env ∈ c.txRing, ∀ n, env.packet = some n → c.proved n = false := by
  intro env henv n hn
  have hmem : n ∈ c.tracked := List.mem_filterMap.mpr ⟨env, henv, hn⟩
  obtain ⟨-, hprompt⟩ := run_induction (fun c => Numbered hash c ∧ Prompt c)
    (fun c a c' hcond h hstep => ⟨numbered_step hcond.1 h.1 h.2.sound hstep, prompt_step hcond.2 h.1 h.2 hstep⟩) as
    ⟨numbered_newChannel, prompt_newChannel⟩ hkeeps hrun
  cases hp : c.proved n with
  | false => rfl
  | true =>
    have hpending := hprompt.pending n hmem hp
    rw [hquiet.2] at hpending
    cases hpending

/-- The packets of the ring are different ones, whose receipts call back. -/
theorem tracked_watched {as : List Action} (hfresh : Keeps (step hash) (Fresh hash) (newChannel link rttSlow) as)
    (hrun : run (step hash) (newChannel link rttSlow) as = some c) :
    c.tracked.Nodup ∧ (∀ n ∈ c.tracked, c.Watched n) ∧ c.returned.Nodup := by
  obtain ⟨-, h⟩ := run_induction (fun c => Numbered hash c ∧ Sound c)
    (fun _ _ _ hfresh h hstep => ⟨numbered_step hfresh h.1 h.2 hstep, sound_step h.1 h.2 hstep⟩) as
    ⟨numbered_newChannel, sound_newChannel⟩ hfresh hrun
  exact ⟨h.nodup, fun n hn => (h.tracked n hn).2, h.returned.1⟩

section Samples
-- Sample packets have hashes of one byte.

def sampleHash (n : Nat) : Bytes := [UInt8.ofNat n]

def sampleLink : OutletLink := { status := .active, attachedInterface := false, mdu := 431 }

def sampleMessage : Message := { msgType := 0x0101, data := some [0x68, 0x69] }

def provedRun : List Action :=
  [.send sampleMessage, .outlet .sent, .commit, .prove 0, .call (.packetDelivered 0) .fast .sent]

/-- Three messages are sent, the first of which is proved and the second one sent again. -/
def busyRun : List Action :=
  (List.replicate 3 [Action.send sampleMessage, .outlet .sent, .commit]).flatten ++
    [.prove 0, .call (.packetDelivered 0) .fast .sent, .checkTimeout 1 false, .call (.packetTimeout 1) .fast .sent,
      .call (.expire 1) .fast .sent, .call (.resend 1) .fast .sent, .call (.rearm 1) .fast .sent]

theorem busyRun_watched : ∃ c, run (step sampleHash) (newChannel sampleLink false) busyRun = some c ∧
    c.tracked = [1, 2] ∧ c.returned = [2, 1, 0] ∧
    c.tracked.Nodup ∧ (∀ n ∈ c.tracked, c.Watched n) ∧ c.returned.Nodup :=
  ⟨_, rfl, rfl, rfl, @tracked_watched sampleHash _ sampleLink false busyRun (by decide +kernel) rfl⟩

theorem short_message_decodes : ∃ env, ((newChannel sampleLink false).reserve sampleMessage).sending = .reserved env ∧
    readBack (Envelope.pack sampleMessage.msgType env.sequence [0x68, 0x69]) = some ⟨0, (0x0101, [0x68, 0x69]), none⟩ := by
  obtain ⟨env, henv⟩ : ∃ env, ((newChannel sampleLink false).reserve sampleMessage).sending = .reserved env := ⟨_, rfl⟩
  obtain ⟨data, hdata, hiff⟩ := accepted_decodes_iff rfl henv
  cases henv
  cases hdata
  refine ⟨_, rfl, ?_⟩
  exact hiff.mpr (by decide)

def longMessage : Message := { msgType := 0x0101, data := some (List.replicate 65536 0) }

/-- Over a link with an MDU of 70000 bytes the peer reads an empty payload from a message of 65536 bytes. -/
theorem long_message_emptied : ((newChannel { sampleLink with mdu := 70000 } false).reserve longMessage).sending =
        .reserved ⟨0, longMessage, none⟩ ∧
      readBack (Envelope.pack 0x0101 0 (List.replicate 65536 0)) = some ⟨0, (0x0101, []), none⟩ := by
  constructor
  · rcases reserve_result (newChannel { sampleLink with mdu := 70000 } false) longMessage with ⟨-, -, -, -, heq⟩ | ⟨hbig, -⟩
    · rw [heq]
      rfl
    · exact absurd (hbig rfl _ rfl) (by rw [List.length_replicate]; decide)
  · rw [readBack_pack, List.length_replicate]
    rfl

theorem proved_message_collected : ∃ c,
    Keeps (step sampleHash) (fun c a => c.Fresh sampleHash a ∧ c.ProofAwaited a) (newChannel sampleLink false) provedRun ∧
      run (step sampleHash) (newChannel sampleLink false) provedRun = some c ∧ c.Quiet ∧
      ∀ env ∈ c.txRing, ∀ n, env.packet = some n → c.proved n = false :=
  have hkeeps : Keeps (step sampleHash) (fun c a => c.Fresh sampleHash a ∧ c.ProofAwaited a)
      (newChannel sampleLink false) provedRun := by decide
  ⟨_, hkeeps, rfl, ⟨rfl, rfl⟩, quiet_unproved sampleHash sampleLink false provedRun _ hkeeps rfl ⟨rfl, rfl⟩⟩

/-- The proof comes before `Send` has set the callback: the message stays in the ring, also past its timeout. -/
theorem early_proof_stranded : ∃ c, run (step sampleHash) (newChannel sampleLink false)
        [.send sampleMessage, .outlet .sent, .prove 0, .commit, .checkTimeout 0 false,
          .call (.packetTimeout 0) .fast .sent] = some c ∧
      c.Quiet ∧ (∃ env ∈ c.txRing, env.packet = some 0) ∧ c.proved 0 = true :=
  ⟨_, rfl, ⟨rfl, rfl⟩, ⟨_, List.mem_cons_self, rfl⟩, rfl⟩

end Samples

/-! ### The window -/

/-- The ring and what is being sent fit into the widest window. -/
structure Bounded (c : ChannelSender) : Prop where
  window : c.window ≤ c.widest
  room : c.txRing.length + claimed c.sending ≤ c.widest

theorem bounded_newChannel : Bounded (newChannel link rttSlow) := by
  cases rttSlow <;> exact ⟨Nat.le_refl _, Nat.zero_le _⟩

theorem bounded_packetDelivered (h : Bounded c) : Bounded (c.packetDelivered hash n rtt) := by
  unfold packetDelivered
  split
  · exact h
  · dsimp only
    obtain ⟨_, _, _, _, hadapt⟩ := adapt_eq _ rtt
    rw [hadapt]
    refine ⟨Nat.le_max_right _ _, ?_⟩
    exact (Nat.add_le_add_right (eraseP_sublist.length_le) _).trans (h.room.trans (Nat.le_max_left _ _))

theorem Performs.bounded (hperforms : Performs hash c rtt call result) (h : Bounded c) : Bounded result.1 := by
  cases hperforms with
  | delivered => exact bounded_packetDelivered h
  | counters _ _ _ _ hwindow => exact ⟨hwindow.trans h.window, h.room⟩
  | receipt => exact { h with }
  | shutdown => exact ⟨h.window, (Nat.add_le_add_right (Nat.zero_le _) _).trans h.room⟩

theorem bounded_commit (h : Bounded c) (hs : c.sending = .sent env n) : Bounded (c.commit env n) := by
  obtain ⟨hwindow, hroom⟩ := h
  rw [hs] at hroom
  unfold commit
  split
  · exact ⟨hwindow, (Nat.le_succ _).trans hroom⟩
  · split
    · exact ⟨hwindow, (Nat.le_succ _).trans hroom⟩
    · rename_i ring hring
      refine ⟨hwindow, ?_⟩
      dsimp only
      rw [(Channel.emplaceEnvelope_sublist hring).2.length_eq]
      exact hroom

theorem bounded_step (h : Bounded c) (hstep : c.step hash a = some c') : Bounded c' := by
  cases moves_of_step hstep with
  | calm _ _ _ sending _ hroom =>
    refine ⟨h.window, ?_⟩
    rcases hroom with hle | hlt
    · exact (Nat.add_le_add_left hle _).trans h.room
    · have hone : claimed sending ≤ 1 := by cases sending <;> simp [claimed]
      exact (Nat.add_le_add_left hone _).trans (Nat.le_trans hlt h.window)
  | transmit t hs =>
    obtain ⟨hwindow, hroom⟩ := h
    rw [hs] at hroom
    exact ⟨hwindow, hroom⟩
  | commit hs => exact bounded_commit h hs
  | call call rtt t =>
    exact { (performs hash c rtt t call).bounded h with }
  | prove | checkTimeout => exact { h with }
  | shutdown => exact ⟨h.window, (Nat.add_le_add_right (Nat.zero_le _) _).trans h.room⟩

/-- The window lies within its limits. -/
structure Windowed (c : ChannelSender) : Prop where
  min : 1 ≤ c.windowMin ∧ c.windowMin ≤ c.windowMax ∧ c.windowMax ≤ 48
  window : 1 ≤ c.window ∧ c.window ≤ c.windowMax
  widest : c.widest ≤ 48

theorem windowed_adapt (h : Windowed c) : Windowed (c.adapt rtt) := by
  cases rtt with
  | zero | slow => exact { h with }
  | fast | medium =>
    simp only [adapt]
    split
    · have hwindow := h.window
      exact ⟨by simp, ⟨hwindow.1, by dsimp only; omega⟩, h.widest⟩
    · exact { h with }

theorem windowed_packetDelivered (h : Windowed c) : Windowed (c.packetDelivered hash n rtt) := by
  unfold packetDelivered
  split
  · exact h
  · obtain ⟨hmin, hwindow, hwidest⟩ := h
    dsimp only
    apply windowed_adapt
    refine ⟨hmin, ?_, ?_⟩ <;> dsimp only <;> split <;> omega

theorem windowed_expire (h : Windowed c) : Windowed (c.expire hash n).1 := by
  unfold expire
  split
  · exact h
  · split
    · exact { h with }
    -- The window is narrowed whenever its limit is.
    · obtain ⟨hmin, hwindow, hwidest⟩ := h
      refine ⟨?_, ?_, hwidest⟩ <;> dsimp only <;> split_ifs <;> omega

theorem windowed_call (h : Windowed c) : Windowed (c.perform hash rtt t call).1 := by
  cases call with
  | packetDelivered n => exact windowed_packetDelivered h
  | expire n => exact windowed_expire h
  | packetTimeout | shutdown => exact { h with }
  | resend n =>
    cases t with
    | error | nothing => exact h
    | sent =>
      simp only [perform, resend]
      split <;> exact { h with }
  | rearm n =>
    simp only [perform, rearm]
    split <;> exact { h with }

theorem windowed_step (h : Windowed c) (hstep : c.step hash a = some c') : Windowed c' := by
  cases moves_of_step hstep with
  | calm | transmit | prove | checkTimeout | shutdown => exact { h with }
  | commit =>
    unfold commit
    split
    · exact { h with }
    · split <;> exact { h with }
  | call call rtt t =>
    exact { windowed_call h with }

/-- A step of the channel, or a call of one of its callbacks at any time. -/
def event (hash : Nat → Bytes) (c : ChannelSender) : Action ⊕ Call → Option ChannelSender
  | .inl a => c.step hash a
  | .inr call => some { c with calls := call :: c.calls }

/-- The window keeps to its limits in every reachable state. -/
theorem window_within_limits (hash : Nat → Bytes) (link : OutletLink) (rttSlow : Bool)
    (h : Reachable (event hash) (newChannel link rttSlow) c) :
    (1 ≤ c.windowMin ∧ c.windowMin ≤ c.windowMax ∧ c.windowMax ≤ 48) ∧ (1 ≤ c.window ∧ c.window ≤ c.windowMax) ∧
      c.txRing.length ≤ 48 := by
  obtain ⟨hbounded, hwindowed⟩ : Bounded c ∧ Windowed c := by
    refine h.invariant (fun c => Bounded c ∧ Windowed c) ⟨bounded_newChannel, ?_⟩ fun c a c' h hstep => ?_
    · cases rttSlow <;> exact ⟨by simp [newChannel], by simp [newChannel], by simp [newChannel]⟩
    · cases a with
      | inl a => exact ⟨bounded_step h.1 hstep, windowed_step h.2 hstep⟩
      | inr call =>
        cases hstep
        exact ⟨{ h.1 with }, { h.2 with }⟩
  exact ⟨hwindowed.min, hwindowed.window, (Nat.le_add_right _ _).trans (hbounded.room.trans hwindowed.widest)⟩

theorem timed_out_window_within_limits : ∃ c, Reachable (event sampleHash) (newChannel sampleLink false) c ∧
    c.window = 3 ∧ c.txRing.length = 1 ∧
    (1 ≤ c.windowMin ∧ c.windowMin ≤ c.windowMax ∧ c.windowMax ≤ 48) ∧ (1 ≤ c.window ∧ c.window ≤ c.windowMax) ∧
      c.txRing.length ≤ 48 :=
  have h : Reachable (event sampleHash) (newChannel sampleLink false) _ :=
    ⟨[.inl (.send sampleMessage), .inl (.outlet .sent), .inl .commit, .inr (.expire 0),
      .inl (.call (.expire 0) .fast .sent)], rfl⟩
  ⟨_, h, rfl, rfl, window_within_limits sampleHash sampleLink false h⟩

/-! ### Sequence numbers -/

/-- The number of the message that is sent, or of the next one, is the count of the sends that succeeded. -/
def Counted (c : ChannelSender) : Prop :=
  match c.sending with
  | .idle => c.nextSequence = UInt16.ofNat c.returned.length
  | .reserved env | .refused env | .sent env _ =>
    env.sequence = UInt16.ofNat c.returned.length ∧ c.nextSequence = env.sequence + 1

/-- A `Send` ends with success, or no message is counted and only a callback or a shutdown changes the ring. -/
def Counts (c : ChannelSender) (a : Action) (c' : ChannelSender) : Prop :=
  c'.returned = c.returned ∧ ((∀ call rtt t, a ≠ .call call rtt t) → a ≠ .shutdown → c'.txRing = c.txRing) ∨
    ∃ env n, c.sending = .sent env n ∧ env.sequence = UInt16.ofNat c.returned.length ∧ c'.returned = n :: c.returned

theorem Counted.keep (h : Counted c) (hsending : c'.sending = c.sending) (hnext : c'.nextSequence = c.nextSequence)
    (hreturned : c'.returned = c.returned) : Counted c' := by
  rwa [Counted, hsending, hnext, hreturned]

theorem Performs.counted (hperforms : Performs hash c rtt call result) (h : Counted c) :
    Counted result.1 ∧ result.1.returned = c.returned := by
  cases hperforms with
  | @delivered n =>
    obtain ⟨-, -, hsending, hreturned, hnext, -⟩ := packetDelivered_frame hash c n rtt
    exact ⟨h.keep hsending hnext hreturned, hreturned⟩
  | counters | receipt | shutdown => exact ⟨h, rfl⟩

theorem counted_step (h : Counted c) (hstep : c.step hash a = some c') : Counted c' ∧ Counts c a c' := by
  cases steps_of_step hstep with
  | send message hidle =>
    rcases reserve_result c message with ⟨data, -, -, -, heq⟩ | ⟨-, heq⟩
    · rw [heq]
      rw [Counted, hidle] at h
      exact ⟨⟨h, rfl⟩, .inl ⟨rfl, fun _ _ => rfl⟩⟩
    · rw [heq]
      exact ⟨h, .inl ⟨rfl, fun _ _ => rfl⟩⟩
  | outlet t hs =>
    rw [Counted, hs] at h
    unfold transmit
    split <;> exact ⟨h, .inl ⟨rfl, fun _ _ => rfl⟩⟩
  | rollBack hs =>
    rw [Counted, hs] at h
    exact ⟨h.1, .inl ⟨rfl, fun _ _ => rfl⟩⟩
  | @commit env n hs =>
    rw [Counted, hs] at h
    have hnext : c.nextSequence = UInt16.ofNat (c.returned.length + 1) := by
      rw [h.2, h.1, UInt16.ofNat_add]
      rfl
    unfold commit
    split
    · exact ⟨hnext, .inr ⟨env, n, hs, h.1, rfl⟩⟩
    · split
      · exact ⟨h.1, .inl ⟨rfl, fun _ _ => rfl⟩⟩
      · exact ⟨hnext, .inr ⟨env, n, hs, h.1, rfl⟩⟩
  | call call rtt t =>
    obtain ⟨hcounted, hreturned⟩ := (performs hash c rtt t call).counted h
    exact ⟨hcounted, .inl ⟨hreturned, fun hcall => absurd rfl (hcall call rtt t)⟩⟩
  | prove | link | receive => exact ⟨h, .inl ⟨rfl, fun _ _ => rfl⟩⟩
  | checkTimeout =>
    unfold checkTimeout
    split <;> exact ⟨h, .inl ⟨rfl, fun _ _ => rfl⟩⟩
  | shutdown => exact ⟨h, .inl ⟨rfl, fun _ hne => absurd rfl hne⟩⟩

/-- The numbers are consecutive, and a `Send` that fails leaves the next number and the ring alone. -/
theorem sends_contiguous (hash : Nat → Bytes) (link : OutletLink) (rttSlow : Bool)
    (hc : Reachable (event hash) (newChannel link rttSlow) c) (hstep : c.step hash a = some c') :
    (c'.sending = .idle → c'.nextSequence = UInt16.ofNat c'.returned.length) ∧ Counts c a c' := by
  have hcounted : Counted c := hc.invariant Counted (by cases rttSlow <;> rfl) fun c a c' h hstep => by
    cases a with
    | inl a => exact (counted_step h hstep).1
    | inr call =>
      cases hstep
      exact h
  obtain ⟨hcounted, heffect⟩ := counted_step hcounted hstep
  refine ⟨fun hidle => ?_, heffect⟩
  rwa [Counted, hidle] at hcounted

/-- A third message is sent, and one that the outlet refuses leaves the number to the next. -/
theorem later_sends_counted :
    (∃ c c', Reachable (event sampleHash) (newChannel sampleLink false) c ∧ c.step sampleHash .commit = some c' ∧
      c'.nextSequence = 3 ∧ c'.nextSequence = UInt16.ofNat c'.returned.length ∧ Counts c .commit c') ∧
    ∃ c c', Reachable (event sampleHash) (newChannel sampleLink false) c ∧ c.step sampleHash .commit = some c' ∧
      c.nextSequence = 3 ∧ c'.nextSequence = 2 ∧ c'.nextSequence = UInt16.ofNat c'.returned.length ∧
      Counts c .commit c' := by
  have hsent : Reachable (event sampleHash) (newChannel sampleLink false) _ :=
    ⟨[.inl (.send sampleMessage), .inl (.outlet .sent), .inl .commit, .inl (.send sampleMessage), .inl (.outlet .sent),
      .inl .commit, .inl (.send sampleMessage), .inl (.outlet .sent)], rfl⟩
  have hrefused : Reachable (event sampleHash) (newChannel sampleLink false) _ :=
    ⟨[.inl (.send sampleMessage), .inl (.outlet .sent), .inl .commit, .inl (.send sampleMessage), .inl (.outlet .sent),
      .inl .commit, .inl (.send sampleMessage), .inl (.outlet .error)], rfl⟩
  obtain ⟨hnext, hcounts⟩ := sends_contiguous (a := .commit) sampleHash sampleLink false hsent rfl
  obtain ⟨hnext', hcounts'⟩ := sends_contiguous (a := .commit) sampleHash sampleLink false hrefused rfl
  exact ⟨⟨_, _, hsent, rfl, rfl, hnext rfl, hcounts⟩, _, _, hrefused, rfl, rfl, rfl, hnext' rfl, hcounts'⟩

/-! ### Reliability -/

def Transmits (c : ChannelSender) : Action → Prop
  | .outlet _ => c.link.attachedInterface = false
  | .call (.resend _) _ t => t = .sent
  | _ => True

instance (c : ChannelSender) (a : Action) : Decidable (c.Transmits a) := by
  unfold Transmits
  split <;> infer_instance

/-- A timeout of the receipt leads to `packetTimeout`, or `packetTimeout` is about to resend the packet. -/
def Armed (c : ChannelSender) (n : Nat) : Prop :=
  (∃ r, c.receipts n = some r ∧ r.status = .sent) ∨
    .packetTimeout n ∈ c.calls ∨ .expire n ∈ c.calls ∨ .resend n ∈ c.calls

/-- The packet is in the ring, where `packetTimeout` finds it, and its receipt will call `packetTimeout`. -/
def Eligible (c : ChannelSender) (n : Nat) : Prop := n ∈ c.tracked ∧ c.Watched n ∧ c.Armed n

/-- What was sent and not proved is in the ring and is sent again. -/
structure Reliable (c : ChannelSender) : Prop where
  sound : Sound c
  receipt : ∀ env n, c.sending = .sent env n → c.receipts n ≠ none
  delivered : ∀ n, .packetDelivered n ∈ c.calls → c.proved n = true
  returned : c.down = false → ∀ n ∈ c.returned, n ∈ c.tracked ∨ n ∈ c.collected ∧ c.proved n = true
  armed : c.down = false → ∀ n ∈ c.tracked, c.proved n = false → c.Armed n

theorem Armed.keep (h : c.Armed n)
    (hreceipt : (∃ r, c.receipts n = some r ∧ r.status = .sent) → ∃ r, c'.receipts n = some r ∧ r.status = .sent)
    (hcalls : ∀ call ∈ c.calls, call = .packetTimeout n ∨ call = .expire n ∨ call = .resend n → call ∈ c'.calls) :
    c'.Armed n := by
  rcases h with h | h | h | h
  · exact .inl (hreceipt h)
  · exact .inr (.inl (hcalls _ h (.inl rfl)))
  · exact .inr (.inr (.inl (hcalls _ h (.inr (.inl rfl)))))
  · exact .inr (.inr (.inr (hcalls _ h (.inr (.inr rfl)))))

/-- A step that proves no packet keeps the channel reliable if it takes a packet out of the ring only for its proof. -/
theorem Reliable.of_step (h : Reliable c) (hsound : Sound c') (hproved : c'.proved = c.proved)
    (hreceipt : ∀ env n, c'.sending = .sent env n →
      c.sending = .sent env n ∧ (c'.receipts n = none → c.receipts n = none))
    (hdelivered : ∀ n, .packetDelivered n ∈ c'.calls → .packetDelivered n ∈ c.calls ∨ c.proved n = true)
    (hreturned : c'.down = false → c.down = false ∧ c'.returned = c.returned ∧ c.collected ⊆ c'.collected ∧
      ∀ n ∈ c.tracked, n ∈ c'.tracked ∨ n ∈ c'.collected ∧ c.proved n = true)
    (harmed : c'.down = false → ∀ n ∈ c'.tracked, c.proved n = false → n ∈ c.tracked ∧ (c.Armed n → c'.Armed n)) :
    Reliable c' := by
  refine ⟨hsound, fun env n hs => ?_, fun n hn => ?_, fun hd n hn => ?_, fun hd n hn hp => ?_⟩
  · obtain ⟨hs, hnone⟩ := hreceipt env n hs
    exact fun hn => h.receipt env n hs (hnone hn)
  · rw [hproved]
    exact (hdelivered n hn).elim (h.delivered n) id
  · obtain ⟨hd, heq, hcollected, htracked⟩ := hreturned hd
    rw [hproved]
    rcases h.returned hd n (heq ▸ hn) with ht | ⟨hc, hp⟩
    · exact htracked n ht
    · exact .inr ⟨hcollected hc, hp⟩
  · rw [hproved] at hp
    obtain ⟨hn, hkept⟩ := harmed hd n hn hp
    exact hkept (h.armed (hreturned hd).1 n hn hp)

theorem reliable_newChannel : Reliable (newChannel link rttSlow) := by
  refine ⟨sound_newChannel, ?_, ?_, ?_, ?_⟩ <;> cases rttSlow <;> exact nofun

theorem reliable_commit (h : Reliable c) (hs : c.sending = .sent env n) : Reliable (c.commit env n) := by
  have hsound := sound_commit h.sound hs
  have hsome := h.receipt env n hs
  unfold commit at hsound ⊢
  split at hsound
  · exact absurd ‹_› hsome
  · rename_i receipt hr
    have hproved := proved_setReceipt receipt.markSent.watch hr rfl
    have harmed : ∀ m ∈ c.tracked, c.Armed m → (c.setReceipt n receipt.markSent.watch).Armed m := by
      intro m hm harmed
      have hmn : m ≠ n := ne_of_mem_of_not_mem hm (h.sound.sending env n hs).2.1
      exact harmed.keep (setReceipt_of_ne hmn ▸ id) fun _ hc _ => hc
    split at hsound
    · exact h.of_step hsound hproved nofun (fun _ => .inl) (fun hd => ⟨hd, rfl, Subset.refl _, fun _ => .inl⟩)
        fun _ m hm _ => ⟨hm, harmed m hm⟩
    · rename_i ring hring
      have hmem : ∀ {m}, m ∈ ring.filterMap (·.packet) ↔ m = n ∨ m ∈ c.tracked := by
        intro m
        rw [(tracked_emplace hring).mem_iff, mem_cons]
      refine ⟨hsound, nofun, fun m hm => hproved ▸ h.delivered m hm, fun hd m hm => ?_, fun hd m hm hp => ?_⟩
      · rcases mem_cons.mp hm with rfl | hm
        · exact .inl (hmem.mpr (.inl rfl))
        · rcases h.returned hd m hm with ht | hc
          · exact .inl (hmem.mpr (.inr ht))
          · exact .inr (hproved ▸ hc)
      · rcases hmem.mp hm with rfl | hm
        · exact .inl ⟨_, update_self .., rfl⟩
        · exact harmed m hm (h.armed hd m hm (hproved ▸ hp))

theorem collected_packetDelivered (hnum : Numbered hash c) (h : Sound c) (hn : n < c.packets) (rtt : Rtt) :
    (n ∈ c.tracked → n ∈ (c.packetDelivered hash n rtt).collected) ∧
      c.collected ⊆ (c.packetDelivered hash n rtt).collected := by
  rcases lookup_cases hnum h hn with ⟨hlookup, hmem⟩ | ⟨hlookup, hmem⟩
  · rw [packetDelivered, hlookup]
    exact ⟨fun ht => absurd ht hmem, Subset.refl _⟩
  · rw [packetDelivered, hlookup]
    dsimp only
    obtain ⟨_, _, _, _, hadapt⟩ := adapt_eq _ rtt
    rw [hadapt]
    exact ⟨fun _ => mem_cons_self, subset_cons_self _ _⟩

theorem reliable_delivered (hnum : Numbered hash c) (h : Reliable c) (hcall : .packetDelivered n ∈ c.calls)
    (hsound : Sound (c.after (.packetDelivered n) (c.packetDelivered hash n rtt, []))) :
    Reliable (c.after (.packetDelivered n) (c.packetDelivered hash n rtt, [])) := by
  have hlt := hnum.calls _ hcall n rfl
  obtain ⟨-, hreceipts, hsending, hreturned, -, hdown⟩ := packetDelivered_frame hash c n rtt
  have htracked := tracked_packetDelivered hnum h.sound hlt rtt
  obtain ⟨hcollected, hsubset⟩ := collected_packetDelivered hnum h.sound hlt rtt
  have hproved := (performs hash c rtt .error (.packetDelivered n)).performed.proved
  refine h.of_step hsound hproved (fun env m hs => ⟨hsending ▸ hs, fun hnone => hreceipts ▸ hnone⟩)
    (fun m hm => .inl (mem_of_mem_erase hm)) (fun hd => ⟨hdown ▸ hd, hreturned, hsubset, fun m hm => ?_⟩)
    fun _ m hm _ => ⟨mem_of_mem_erase (htracked ▸ hm : m ∈ c.tracked.erase n), fun harmed => ?_⟩
  · by_cases hmn : m = n
    · subst hmn
      exact .inr ⟨hcollected hm, h.delivered m hcall⟩
    · have hkept : m ∈ c.tracked.erase n := (mem_erase_of_ne hmn).mpr hm
      exact .inl (htracked ▸ hkept)
  · refine harmed.keep (hreceipts ▸ id) fun call hc hretry => (mem_erase_of_ne ?_).mpr hc
    rcases hretry with rfl | rfl | rfl <;> simp

theorem reliable_prove (h : Reliable c) (hr : c.receipts n = some r)
    (hsound : Sound (c.prove n r)) : Reliable (c.prove n r) := by
  have hother : ∀ m ≠ n, (c.prove n r).receipts m = c.receipts m := fun m hm => update_of_ne hm ..
  have hself : (c.prove n r).proved n = true := by
    simp [proved, prove, setReceipt]
  have hproved : ∀ m, c.proved m = true → (c.prove n r).proved m = true := by
    intro m hm
    by_cases hmn : m = n
    · exact hmn ▸ hself
    · rw [proved, hother m hmn]
      exact hm
  refine ⟨hsound, fun env m hs => ?_, fun m hm => ?_, fun hd m hm => ?_, fun hd m hm hp => ?_⟩
  · by_cases hmn : m = n
    · simp [hmn, prove, setReceipt]
    · rw [hother m hmn]
      exact h.receipt env m hs
  · rcases mem_calls_ite.mp hm with ⟨-, heq⟩ | hm
    · cases heq
      exact hself
    · exact hproved m (h.delivered m hm)
  · rcases h.returned hd m hm with ht | ⟨hc, hp⟩
    · exact .inl ht
    · exact .inr ⟨hc, hproved m hp⟩
  · have hmn : m ≠ n := by
      rintro rfl
      rw [hself] at hp
      cases hp
    rw [proved, hother m hmn] at hp
    refine (h.armed hd m hm hp).keep ?_ fun call hc _ => mem_calls_ite.mpr (.inr hc)
    rw [hother m hmn]
    exact id

theorem Reliable.after (hnum : Numbered hash c) (h : Reliable c) {r : ChannelSender × List Call}
    (hcall : call ∈ c.calls) (hsound : Sound (c.after call (c.perform hash rtt t call)))
    (hperform : c.perform hash rtt t call = r) (hdelivered : ∀ n, .packetDelivered n ∈ r.2 → c.proved n = true)
    (hframe : r.1.down = false → c.down = false ∧ r.1.tracked = c.tracked ∧ r.1.collected = c.collected)
    (hreceipt : r.1.down = false → ∀ n, (∃ r', c.receipts n = some r' ∧ r'.status = .sent) →
      ∃ r', r.1.receipts n = some r' ∧ r'.status = .sent)
    (hretry : r.1.down = false → ∀ n ∈ c.tracked, c.proved n = false →
      call = .packetTimeout n ∨ call = .expire n ∨ call = .resend n → (c.after call r).Armed n) :
    Reliable (c.after call (c.perform hash rtt t call)) := by
  subst hperform
  have hperforms := performs hash c rtt t call
  obtain ⟨-, -, hreturned, hsending⟩ := hperforms.frame hnum h.sound hcall
  have hperformed := hperforms.performed
  refine h.of_step hsound hperformed.proved (fun env n hs => ⟨hsending ▸ hs, (hperformed.receipts n).mp⟩)
    (fun n hn => (mem_append.mp hn).symm.imp mem_of_mem_erase (hdelivered n)) (fun hd => ?_) fun hd n hn hp => ?_
  · obtain ⟨hd', htracked, hcollected⟩ := hframe hd
    exact ⟨hd', hreturned, fun _ hc => hcollected ▸ hc, fun _ hn => .inl (htracked ▸ hn)⟩
  · have hn : n ∈ c.tracked := (hframe hd).2.1 ▸ hn
    refine ⟨hn, fun harmed => ?_⟩
    by_cases hcall : call = .packetTimeout n ∨ call = .expire n ∨ call = .resend n
    · exact hretry hd n hn hp hcall
    · refine harmed.keep (hreceipt hd n) fun call' hc hcall' => mem_calls_of_ne hc ?_
      rintro rfl
      exact hcall hcall'

theorem sent_setReceipt {r' : PacketReceipt} (hr : c.receipts n = some r) (hsent : r.status = .sent → r'.status = .sent)
    (m : Nat) (h : ∃ r, c.receipts m = some r ∧ r.status = .sent) :
    ∃ r, (c.setReceipt n r').receipts m = some r ∧ r.status = .sent := by
  obtain ⟨r₁, hr₁, hs⟩ := h
  by_cases hmn : m = n
  · subst hmn
    cases hr.symm.trans hr₁
    exact ⟨r', update_self .., hsent hs⟩
  · exact ⟨r₁, (setReceipt_of_ne hmn).trans hr₁, hs⟩

theorem expire_cases (h : c.lookup hash n = some n) (rtt : Rtt) (t : Transmission) :
    c.perform hash rtt t (.expire n) = ({ c with down := true }, [.shutdown]) ∨
    ∃ tries window windowMax,
      c.perform hash rtt t (.expire n) = ({ c with tries := tries, window := window, windowMax := windowMax }, [.resend n]) := by
  rw [perform, expire, h]
  dsimp only
  split
  · exact .inl rfl
  · exact .inr ⟨_, _, _, rfl⟩

theorem reliable_call (hnum : Numbered hash c) (h : Reliable c) (hcall : call ∈ c.calls)
    (hcond : c.Transmits (.call call rtt t))
    (hsound : Sound (c.after call (c.perform hash rtt t call))) : Reliable (c.after call (c.perform hash rtt t call)) := by
  cases call with
  | packetDelivered n => exact reliable_delivered hnum h hcall hsound
  | packetTimeout n =>
    refine h.after hnum hcall hsound rfl (fun m hm => ?_) (fun hd => ⟨hd, rfl, rfl⟩) (fun _ _ => id) fun _ m _ hp => ?_
    · simp only [perform] at hm
      split at hm <;> simp at hm
    · rintro (heq | heq | heq) <;> cases heq
      exact .inr (.inr (.inl (by simp [after, perform, hp])))
  | expire n =>
    rcases lookup_cases hnum h.sound (hnum.calls _ hcall n rfl) with ⟨hlookup, hmem⟩ | ⟨hlookup, hmem⟩
    · have hperform : c.perform hash rtt t (.expire n) = (c, []) := by rw [perform, expire, hlookup]
      refine h.after hnum hcall hsound hperform nofun (fun hd => ⟨hd, rfl, rfl⟩) (fun _ _ => id) fun _ m hm _ => ?_
      rintro (heq | heq | heq) <;> cases heq
      exact absurd hm hmem
    · rcases expire_cases hlookup rtt t with hperform | ⟨tries, window, windowMax, hperform⟩
      · exact h.after hnum hcall hsound hperform (by simp) nofun nofun nofun
      · refine h.after hnum hcall hsound hperform (by simp) (fun hd => ⟨hd, rfl, rfl⟩) (fun _ _ => id) fun _ m _ _ => ?_
        rintro (heq | heq | heq) <;> cases heq
        exact .inr (.inr (.inr (by simp [after])))
  | resend n =>
    cases show t = .sent from hcond
    cases hr : c.receipts n with
    | none =>
      have hperform : c.perform hash rtt .sent (.resend n) = (c, [.rearm n]) := by rw [perform, resend, hr]
      refine h.after hnum hcall hsound hperform (by simp) (fun hd => ⟨hd, rfl, rfl⟩) (fun _ _ => id) fun _ m hm _ => ?_
      rintro (heq | heq | heq) <;> cases heq
      obtain ⟨r, hr', -⟩ := (h.sound.tracked n hm).2
      cases hr.symm.trans hr'
    | some receipt =>
      have hperform : c.perform hash rtt .sent (.resend n) = (c.setReceipt n receipt.markSent, [.rearm n]) := by
        rw [perform, resend, hr]
      refine h.after hnum hcall hsound hperform (by simp) (fun hd => ⟨hd, rfl, rfl⟩)
        (fun _ => sent_setReceipt hr fun _ => rfl) fun _ m _ _ => ?_
      rintro (heq | heq | heq) <;> cases heq
      exact .inl ⟨_, update_self .., rfl⟩
  | rearm n =>
    cases hr : c.receipts n with
    | none =>
      have hperform : c.perform hash rtt t (.rearm n) = (c, []) := by rw [perform, rearm, hr]
      exact h.after hnum hcall hsound hperform nofun (fun hd => ⟨hd, rfl, rfl⟩) (fun _ _ => id) (by simp)
    | some receipt =>
      have hperform : c.perform hash rtt t (.rearm n) =
          (c.setReceipt n receipt.watch, if receipt.proved then [.packetDelivered n] else []) := by
        rw [perform, rearm, hr]
      refine h.after hnum hcall hsound hperform (fun m hm => ?_) (fun hd => ⟨hd, rfl, rfl⟩)
        (fun _ => sent_setReceipt hr id) (by simp)
      dsimp only at hm
      split at hm
      · cases mem_singleton.mp hm
        simpa [proved, hr]
      · cases hm
  | shutdown => exact h.after hnum hcall hsound rfl nofun nofun nofun nofun

theorem reliable_step (hcond : c.Transmits a) (hnum : Numbered hash c) (h : Reliable c)
    (hstep : c.step hash a = some c') : Reliable c' := by
  have hsound := sound_step hnum h.sound hstep
  cases moves_of_step hstep with
  | calm _ _ _ _ hsent =>
    exact h.of_step hsound rfl (fun env n hs => ⟨hsent env n hs, id⟩) (fun _ => .inl)
      (fun hd => ⟨hd, rfl, Subset.refl _, fun _ => .inl⟩) fun _ n hn _ => ⟨hn, id⟩
  | transmit =>
    refine ⟨hsound, ?_, fun n hn => ?_, fun hd n hn => ?_, fun hd n hn hp => ?_⟩
    · rintro env' n hs
      cases hs
      simp [show c.link.attachedInterface = false from hcond]
    · exact (proved_update _ (hnum.calls _ hn n rfl)).trans (h.delivered n hn)
    · exact (proved_update _ (h.sound.returned.2 n hn)).symm ▸ h.returned hd n hn
    · have hlt := (h.sound.tracked n hn).1
      refine (h.armed hd n hn (proved_update _ hlt ▸ hp)).keep ?_ fun _ hc _ => hc
      dsimp only
      rw [update_of_ne (ne_of_lt hlt)]
      exact id
  | commit hs => exact reliable_commit h hs
  | call call rtt t hcall => exact reliable_call hnum h hcall hcond hsound
  | prove hr => exact reliable_prove h hr hsound
  | @checkTimeout n r hr culled =>
    have hproved := proved_setReceipt { r with status := if culled then .culled else .failed } hr rfl
    refine h.of_step hsound hproved (fun _ _ hs => ⟨hs, (setReceipt_eq_none hr).mp⟩) (fun m hm => ?_)
      (fun hd => ⟨hd, rfl, Subset.refl _, fun _ => .inl⟩) fun _ m hm _ => ⟨hm, fun harmed => ?_⟩
    · exact .inl ((mem_calls_ite.mp hm).resolve_left fun hnew => by cases hnew.2)
    · obtain ⟨r', hr', -, hcb⟩ := (h.sound.tracked m hm).2
      by_cases hmn : m = n
      · subst hmn
        cases hr.symm.trans hr'
        exact .inr (.inl (by simp [hcb]))
      · exact harmed.keep (setReceipt_of_ne hmn ▸ id) fun _ hc _ => mem_calls_ite.mpr (.inr hc)
  | shutdown =>
    exact h.of_step hsound (funext fun n => (shutdown_receipts c n).2)
      (fun _ n hs => ⟨hs, (shutdown_receipts c n).1.mp⟩) (fun _ => .inl) nofun nofun

/-- While the channel is not shut down, every message that was sent is in the ring or was taken out for its proof, and
    the unproved ones are no more than the largest window and can be sent again. -/
theorem sent_tracked (hash : Nat → Bytes) (link : OutletLink) (rttSlow : Bool) (as : List Action) (c : ChannelSender)
    (hkeeps : Keeps (step hash) (fun c a => c.Fresh hash a ∧ c.Transmits a) (newChannel link rttSlow) as)
    (hrun : run (step hash) (newChannel link rttSlow) as = some c) (hup : c.down = false) :
    (∀ n ∈ c.returned, n ∈ c.tracked ∨ n ∈ c.collected ∧ c.proved n = true) ∧
      (c.returned.filter fun n => !c.proved n).length ≤ c.widest ∧
      ∀ n ∈ c.returned, c.proved n = false → c.Eligible n := by
  obtain ⟨-, hreliable, hbounded⟩ := run_induction (fun c => Numbered hash c ∧ Reliable c ∧ Bounded c)
    (fun c a c' hcond h hstep => ⟨numbered_step hcond.1 h.1 h.2.1.sound hstep, reliable_step hcond.2 h.1 h.2.1 hstep,
      bounded_step h.2.2 hstep⟩) as
    ⟨numbered_newChannel, reliable_newChannel, bounded_newChannel⟩ hkeeps hrun
  have htracked : ∀ n ∈ c.returned, c.proved n = false → n ∈ c.tracked := by
    intro n hn hp
    rcases hreliable.returned hup n hn with ht | ⟨-, hp'⟩
    · exact ht
    · rw [hp] at hp'
      cases hp'
  refine ⟨hreliable.returned hup, ?_, fun n hn hp => ?_⟩
  · have hsub : (c.returned.filter fun n => !c.proved n) ⊆ c.tracked := by
      intro n hn
      obtain ⟨hn, hp⟩ := List.mem_filter.mp hn
      exact htracked n hn (by simpa using hp)
    calc (c.returned.filter fun n => !c.proved n).length
        ≤ c.tracked.length := (List.subperm_of_subset (hreliable.sound.returned.1.filter _) hsub).length_le
      _ ≤ c.txRing.length := List.length_filterMap_le _ _
      _ ≤ c.widest := (Nat.le_add_right _ _).trans hbounded.room
  · have ht := htracked n hn hp
    exact ⟨ht, (hreliable.sound.tracked n ht).2, hreliable.armed hup n ht hp⟩

def resentRun : List Action :=
  [.send sampleMessage, .outlet .sent, .commit, .checkTimeout 0 false, .call (.packetTimeout 0) .fast .sent,
    .call (.expire 0) .fast .sent, .call (.resend 0) .fast .sent, .call (.rearm 0) .fast .sent]

theorem resent_message_tracked : ∃ c,
    Keeps (step sampleHash) (fun c a => c.Fresh sampleHash a ∧ c.Transmits a) (newChannel sampleLink false) resentRun ∧
      run (step sampleHash) (newChannel sampleLink false) resentRun = some c ∧ c.down = false ∧
      (∀ n ∈ c.returned, n ∈ c.tracked ∨ n ∈ c.collected ∧ c.proved n = true) ∧
      (c.returned.filter fun n => !c.proved n).length ≤ c.widest ∧
      ∀ n ∈ c.returned, c.proved n = false → c.Eligible n :=
  have hkeeps : Keeps (step sampleHash) (fun c a => c.Fresh sampleHash a ∧ c.Transmits a)
      (newChannel sampleLink false) resentRun := by decide
  ⟨_, hkeeps, rfl, rfl, sent_tracked sampleHash sampleLink false resentRun _ hkeeps rfl rfl⟩

/-- Over a link with an attached interface five messages pass a window of four, and none is in the ring. Over another
    link a message that is resent while no interface takes it is not sent again. -/
theorem unsent_messages_untracked :
    (∃ c, run (step sampleHash) (newChannel { sampleLink with attachedInterface := true } false)
        (List.replicate 5 [Action.send sampleMessage, .outlet .sent, .commit]).flatten = some c ∧
      c.down = false ∧ c.returned = [4, 3, 2, 1, 0] ∧ c.tracked = [] ∧ c.collected = [] ∧ c.widest = 4 ∧
      ∀ n ∈ c.returned, c.proved n = false ∧ ¬c.Eligible n) ∧
    ∃ c, run (step sampleHash) (newChannel sampleLink false)
        [.send sampleMessage, .outlet .sent, .commit, .checkTimeout 0 false, .call (.packetTimeout 0) .fast .sent,
          .call (.expire 0) .fast .sent, .call (.resend 0) .fast .nothing, .call (.rearm 0) .fast .sent] = some c ∧
      c.down = false ∧ c.returned = [0] ∧ c.proved 0 = false ∧ c.Quiet ∧ ¬c.Eligible 0 := by
  refine ⟨⟨_, rfl, rfl, rfl, rfl, rfl, rfl, ?_⟩, ⟨_, rfl, rfl, rfl, rfl, ⟨rfl, rfl⟩, ?_⟩⟩
  · intro n hn
    refine ⟨?_, fun h => by cases h.1⟩
    revert n
    decide
  · rintro ⟨-, -, ⟨r, hr, hsent⟩ | hc | hc | hc⟩
    · cases hr
      cases hsent
    all_goals cases hc

end ChannelSender
end Reticulum
