import Reticulum.Outbox
import Reticulum.Theorems.ChannelDelivery
import Reticulum.Theorems.ChannelSend

/-! # What `Send` accepts -/

namespace Reticulum

open Transitions List Option Envelope

namespace Outbox

inductive Refuses (o : Outbox) (message : Message) : SendError → Prop where
  | notReady (verdict : o.verdicts.head? ≠ some .taken) : Refuses o message .notReady
  | outlet (verdict : o.verdicts.head? ≠ some .taken) : Refuses o message .outlet
  | pack (fails : message.data = none) : Refuses o message .pack
  | tooBig {data : Bytes} (packs : message.data = some data) (big : o.mdu < data.length + 6) : Refuses o message .tooBig

theorem send_cases (o : Outbox) (message : Message) :
    (∃ data verdicts, o.verdicts = .taken :: verdicts ∧ message.data = some data ∧ data.length + 6 ≤ o.mdu ∧
      o.send message =
        ({ o with
            nextSequence := o.nextSequence + 1
            sent := o.sent ++ [pack message.msgType o.nextSequence data]
            verdicts }, none)) ∨
    ∃ e, Refuses o message e ∧ o.send message = ({ o with verdicts := o.verdicts.tail }, some e) := by
  obtain ⟨mdu, nextSequence, sent, verdicts⟩ := o
  cases verdicts with
  | nil => exact .inr ⟨_, .notReady nofun, rfl⟩
  | cons verdict verdicts =>
    obtain ⟨msgType, data⟩ := message
    cases data with
    | none =>
      cases verdict with
      | notReady => exact .inr ⟨_, .notReady nofun, rfl⟩
      | refused | taken => exact .inr ⟨_, .pack rfl, rfl⟩
    | some data =>
      rcases Nat.lt_or_ge mdu (data.length + 6) with hbig | hfits
      · have hlong : (pack msgType nextSequence data).length > mdu := by rwa [length_pack]
        cases verdict with
        | notReady => exact .inr ⟨_, .notReady nofun, rfl⟩
        | refused | taken => exact .inr ⟨_, .tooBig rfl hbig, if_pos hlong⟩
      · have hshort : ¬(pack msgType nextSequence data).length > mdu := by
          exact Nat.not_lt.mpr hfits
        cases verdict with
        | notReady => exact .inr ⟨_, .notReady nofun, rfl⟩
        | refused => exact .inr ⟨_, .outlet nofun, (if_neg hshort).trans (if_pos rfl)⟩
        | taken => exact .inl ⟨data, verdicts, rfl, rfl, hfits, (if_neg hshort).trans (if_neg nofun)⟩

theorem Refuses.head?_ne {o : Outbox} {message : Message} {e : SendError} {data : Bytes} (h : Refuses o message e)
    (hdata : message.data = some data) (hfits : data.length + 6 ≤ o.mdu) : o.verdicts.head? ≠ some .taken := by
  cases h with
  | notReady verdict | outlet verdict => exact verdict
  | pack fails => rw [fails] at hdata; cases hdata
  | tooBig packs big =>
    rw [packs, some.injEq] at hdata
    exact absurd hfits (hdata ▸ Nat.not_le.mpr big)

end Outbox

namespace ChannelSender

variable {hash : Nat → Bytes} {c c' : ChannelSender} {t : Transmission} {message : Message}

/-- The verdict on a `Send` that no other call interrupts. An envelope that finds its number in the ring is refused. -/
def verdict (c : ChannelSender) (message : Message) (t : Transmission) : Verdict :=
  if c.isReadyToSend then
    match c.link.send t with
    | none => .refused
    | some none => .taken
    | some (some _) =>
      if (Channel.emplaceEnvelope c.nextRXSequence ⟨c.nextSequence, message, some c.packets⟩ c.txRing).isSome then .taken
      else .refused
  else .notReady

theorem commit_returns (hash : Nat → Bytes) (t : Transmission) (hready : c.isReadyToSend = true)
    (hreserve : c.reserve message =
      { c with nextSequence := c.nextSequence + 1, sending := .reserved ⟨c.nextSequence, message, none⟩ }) :
    ∃ c', run (step hash) (c.reserve message) [.outlet t, .commit] = some c' ∧
      (c.verdict message t = .taken ∧ c'.returned = c.packets :: c.returned ∧ c'.nextSequence = c.nextSequence + 1 ∨
        c.verdict message t = .refused ∧ c'.returned = c.returned) := by
  rw [hreserve]
  simp only [verdict, hready, if_true, run, step, transmit, bind_some]
  cases hsend : c.link.send t with
  | none => exact ⟨_, rfl, .inr ⟨rfl, rfl⟩⟩
  | some receipt =>
    cases receipt with
    | none =>
      refine ⟨_, rfl, .inl ⟨rfl, ?_⟩⟩
      simp [commit]
    | some receipt =>
      cases hplace : Channel.emplaceEnvelope c.nextRXSequence ⟨c.nextSequence, message, some c.packets⟩ c.txRing with
      | none =>
        refine ⟨_, rfl, .inr ⟨rfl, ?_⟩⟩
        simp [commit, hplace]
      | some ring =>
        refine ⟨_, rfl, .inl ⟨rfl, ?_⟩⟩
        simp [commit, hplace]

/-- `Send` of the outbox succeeds just when that of the channel returns. -/
theorem send_returns {o : Outbox} (hidle : c.sending = .idle) (hmdu : o.mdu = c.link.mdu)
    (hnext : o.nextSequence = c.nextSequence) (hverdict : o.verdicts.head? = some (c.verdict message t)) :
    (o.send message).2 = none ↔ ∃ c', run (step hash) c [.send message, .outlet t, .commit] = some c' ∧
      c'.returned = c.packets :: c.returned ∧ c'.nextSequence = (o.send message).1.nextSequence := by
  have hfirst : step hash c (.send message) = some (c.reserve message) := if_pos hidle
  rw [run, hfirst, bind_some]
  rcases o.send_cases message with ⟨data, _, htaken, hdata, hfits, hsend⟩ | ⟨e, hrefuses, hsend⟩
  · rw [htaken, head?_cons, some.injEq] at hverdict
    have hready : c.isReadyToSend = true := by
      by_contra hready
      rw [verdict, if_neg hready] at hverdict
      cases hverdict
    rcases reserve_result c message with ⟨-, -, -, -, hreserve⟩ | ⟨hnot, -⟩
    · obtain ⟨c', hc', ⟨-, hret, hseq⟩ | ⟨hv, -⟩⟩ := commit_returns hash t hready hreserve
      · refine iff_of_true (by rw [hsend]) ⟨c', hc', hret, ?_⟩
        rw [hseq, hsend, hnext]
      · cases hverdict.trans hv
    · exact absurd (hnot hready data hdata) (by rw [← hmdu]; omega)
  · refine iff_of_false (by rw [hsend]; exact some_ne_none e) ?_
    rintro ⟨c', hc', hcons, -⟩
    rcases reserve_result c message with ⟨data, hready, hdata, hfits, hreserve⟩ | ⟨-, hreserve⟩
    · obtain ⟨c₁, hc₁, ⟨hv, -⟩ | ⟨-, hret⟩⟩ := commit_returns hash t hready hreserve
      · exact hrefuses.head?_ne hdata (hmdu ▸ hfits) (hverdict.trans (congrArg some hv))
      · cases hc'.symm.trans hc₁
        exact cons_ne_self _ _ (hcons.symm.trans hret)
    · rw [hreserve] at hc'
      simp [run, step, hidle] at hc'

theorem first_send_returns : ∃ c', run (step sampleHash) (newChannel sampleLink false)
    [.send sampleMessage, .outlet .sent, .commit] = some c' ∧ c'.returned = [0] ∧ c'.nextSequence = 1 :=
  (send_returns (o := ⟨431, 0, [], [.taken]⟩) rfl rfl rfl rfl).mp rfl

end ChannelSender

namespace Channel

variable {M P : Type} {c : Channel M P} {raw : Bytes} {packet : Option P} {message : M}

theorem receive_next (hring : c.rxRing = [])
    (hu : unpack c.messageFactories raw packet = some ⟨c.nextRXSequence, message, packet⟩) :
    (c.receive raw packet).1 = { c with nextRXSequence := c.nextRXSequence + 1 } ∧
      handledMessages (c.receive raw packet).2 = [(message, handleMessage message c.messageHandlers)] := by
  rcases receive_cases hu with ⟨hdrop, -⟩ | ⟨ring, -, hplaced, h⟩
  · rw [hring, Delivery.invalidSequence_self] at hdrop
    rcases hdrop with hdrop | hdrop <;> cases hdrop
  · rw [hring, emplaceEnvelope, some.injEq] at hplaced
    rw [h, ← hplaced, handledMessages_append, handledMessages_prove, nil_append]
    simp [contiguous, handledMessages, hring]

end Channel

section Messages
variable {M : Type} {factories : UInt16 → Option (MessageFactory M)} {s : UInt16} {payloads payloads' : List Bytes}
  {ms ms' : List M}

/-- The payloads are those of the messages, numbered from `s` on. -/
inductive Conveys (factories : UInt16 → Option (MessageFactory M)) : UInt16 → List Bytes → List M → Prop where
  | nil {s : UInt16} : Conveys factories s [] []
  | cons {s : UInt16} {raw : Bytes} {message : M} {payloads : List Bytes} {messages : List M}
      (unpack : Envelope.unpack factories raw (none : Option Unit) = some ⟨s, message, none⟩)
      (rest : Conveys factories (s + 1) payloads messages) :
      Conveys factories s (raw :: payloads) (message :: messages)

namespace Conveys

theorem received_eq (h : Conveys factories s payloads ms) : received factories payloads = ms := by
  induction h with
  | nil => rfl
  | cons unpack _ ih => rw [received, filterMap_cons, unpack, ← received, ih]; rfl

theorem append (h : Conveys factories s payloads ms)
    (h' : Conveys factories (s + UInt16.ofNat payloads.length) payloads' ms') :
    Conveys factories s (payloads ++ payloads') (ms ++ ms') := by
  induction h with
  | nil =>
    rwa [length_nil, show UInt16.ofNat 0 = 0 from rfl, UInt16.add_zero] at h'
  | cons unpack _ ih =>
    refine cons unpack (ih ?_)
    rwa [length_cons, ← Delivery.ofNat_succ, UInt16.add_comm _ 1, ← UInt16.add_assoc] at h'

theorem unpack_packet {P : Type} {raw : Bytes} {message : M} (packet : Option P)
    (h : unpack factories raw (none : Option Unit) = some ⟨s, message, none⟩) :
    unpack factories raw packet = some ⟨s, message, packet⟩ := by
  unfold unpack at h ⊢
  split at h
  · simpa [bind_eq_some_iff] using h
  · cases h

/-- What is conveyed in order is handled in order. -/
theorem all_handled {P : Type} {c : Channel M P} (packets : Bytes → Option P)
    (h : Conveys c.messageFactories s payloads ms) (hring : c.rxRing = []) (hnext : c.nextRXSequence = s) :
    (Channel.handledMessages (c.receiveAll (payloads.map fun raw => (raw, packets raw))).2).map (·.1) = ms := by
  induction payloads generalizing c s ms with
  | nil =>
    cases h
    rfl
  | cons raw payloads ih =>
    cases h with
    | cons unpack rest =>
      obtain ⟨hstep, hhandled⟩ := Channel.receive_next hring (hnext ▸ unpack_packet (packets raw) unpack)
      have hrest := ih (c := (c.receive raw (packets raw)).1) (s := s + 1) (by rwa [hstep]) (by rw [hstep]; exact hring)
        (by rw [hstep, ← hnext])
      rw [map_cons, (Channel.receiveAll_cons _ _ _).2, Channel.handledMessages_append, map_append, hrest,
        hhandled]
      rfl

/-- Three messages across the wrap of the sequence numbers. -/
theorem wrapped_handled : (Channel.handledMessages (Channel.receiveAll
    { messageFactories := fun _ => some some, nextRXSequence := 65535 : Channel Bytes Unit }
    [(pack 1 65535 [7], none), (pack 1 0 [8], none), (pack 1 1 [9], none)]).2).map (·.1) = [[7], [8], [9]] :=
  all_handled (fun _ => none) (.cons rfl (.cons rfl (.cons rfl .nil))) rfl rfl

end Conveys

structure Outbox.Carries (factories : UInt16 → Option (MessageFactory M)) (o o' : Outbox) (ms : List M) : Prop where
  mdu : o'.mdu = o.mdu
  sent : ∃ payloads, o'.sent = o.sent ++ payloads ∧ Conveys factories o.nextSequence payloads ms ∧
    o'.nextSequence = o.nextSequence + UInt16.ofNat payloads.length

namespace Outbox.Carries

variable {o o' o'' : Outbox}

theorem refl (factories : UInt16 → Option (MessageFactory M)) (o : Outbox) : Carries factories o o [] :=
  ⟨rfl, [], (append_nil _).symm, .nil, (UInt16.add_zero _).symm⟩

theorem trans (h : Carries factories o o' ms) (h' : Carries factories o' o'' ms') :
    Carries factories o o'' (ms ++ ms') := by
  obtain ⟨payloads, hsent, hconveys, hnext⟩ := h.sent
  obtain ⟨payloads', hsent', hconveys', hnext'⟩ := h'.sent
  refine ⟨h'.mdu.trans h.mdu, payloads ++ payloads', ?_, hconveys.append (hnext ▸ hconveys'), ?_⟩
  · rw [hsent', hsent, append_assoc]
  · rw [hnext', hnext, length_append, UInt16.ofNat_add, UInt16.add_assoc]

theorem received_eq (h : Carries factories o o' ms) (ho : o.sent = []) : received factories o'.sent = ms := by
  obtain ⟨payloads, hsent, hconveys, -⟩ := h.sent
  rw [hsent, ho, nil_append, hconveys.received_eq]

/-- A registered message that its factory reads back is carried when accepted; otherwise nothing is. -/
theorem send {message : Message} {factory : MessageFactory M} {m : M} (o : Outbox)
    (hfactory : factories message.msgType = some factory)
    (hdata : ∀ data, message.data = some data → data.length < 65536 ∧ factory data = some m) :
    ((o.send message).2 = none ∧ Carries factories o (o.send message).1 [m]) ∨
      ∃ e, (o.send message).2 = some e ∧ o.Refuses message e ∧ Carries factories o (o.send message).1 [] := by
  rcases o.send_cases message with ⟨data, verdicts, -, hd, -, h⟩ | ⟨e, hrefuses, h⟩
  · obtain ⟨hlength, hm⟩ := hdata data hd
    rw [h]
    exact .inl ⟨rfl, rfl, _, rfl, .cons (unpack_pack hlength hfactory hm) .nil, rfl⟩
  · rw [h]
    exact .inr ⟨e, rfl, hrefuses, rfl, [], (append_nil _).symm, .nil, (UInt16.add_zero _).symm⟩

end Outbox.Carries

end Messages

end Reticulum
