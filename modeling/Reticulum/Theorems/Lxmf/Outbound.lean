import Reticulum.Lxmf.Outbound

/-! # What the router's steps do to the outbound messages -/

namespace Reticulum.Lxmf

open List OutboundMessage

namespace OutboundMessage

def terminal (m : OutboundMessage) : Bool :=
  match m.state with
  | .delivered | .failed | .cancelled | .rejected => true
  | .sent => m.method = some .propagated
  | .generating | .outbound | .sending | .paper => false

/-- In no terminal state, and with a method. -/
def Underway (m : OutboundMessage) : Prop := m.terminal = false ∧ m.method ≠ none

def request (m : OutboundMessage) : Option Method × Bool × Bool × Bool × Bool :=
  (m.desiredMethod, m.deferStamp, m.stamped, m.deferPropagationStamp, m.propagationStamped)

structure Alike (m m' : OutboundMessage) : Prop where
  method : m'.method = m.method
  request : m'.request = m.request
  packed : m'.propagationPackedLength = m.propagationPackedLength

/-- What sending makes of a message: it may be packed for the propagation node, and one for the node stays so. -/
structure Became (f : SendFacts) (m m' : OutboundMessage) : Prop where
  method : m.method = some .propagated → m'.method = some .propagated
  request : m'.request = m.request
  packed : m'.propagationPackedLength = m.propagationPackedLength ∨
    m.propagationPackedLength = 0 ∧ f.packPropagated = some m'.propagationPackedLength

section Became
variable {f : SendFacts} {m m' m'' : OutboundMessage}

theorem Alike.trans (h : Alike m m') (h' : Alike m' m'') : Alike m m'' :=
  ⟨h'.method.trans h.method, h'.request.trans h.request, h'.packed.trans h.packed⟩

theorem Alike.became (h : Alike m m' := by exact ⟨rfl, rfl, rfl⟩) : Became f m m' := ⟨h.method.trans, h.request, .inl h.packed⟩

theorem Became.refl : Became f m m := ⟨id, rfl, .inl rfl⟩

theorem Became.trans (h : Became f m m') (h' : Became f m' m'') : Became f m m'' := by
  refine ⟨fun hm => h'.method (h.method hm), h'.request.trans h.request, ?_⟩
  rcases h'.packed with hsame | ⟨hzero, hfact⟩
  · exact hsame ▸ h.packed
  · exact .inr ⟨h.packed.elim (fun hsame => hsame ▸ hzero) And.left, hfact⟩

theorem fail_alike : Alike m m.fail := by
  unfold fail
  split <;> exact ⟨rfl, rfl, rfl⟩

theorem fail_terminal : m.fail.terminal = true := by
  unfold fail
  split
  · rfl
  · next h => rw [terminal, not_not.mp h]

end Became
end OutboundMessage

def ReceiptKind.reached : ReceiptKind → MessageState
  | .propagated => .sent
  | .direct | .raw => .delivered

namespace OutboundRouter

open OutboundMessage (Alike Became fail_alike fail_terminal)

variable {r r' : OutboundRouter} {i j k : Nat} {m : OutboundMessage} {f : SendFacts} {fate : Fate}
variable {r'' : OutboundRouter} {facts : Nat → SendFacts} {fates : List (Nat × Fate)}
  {change : OutboundMessage → OutboundMessage} {messageID : Bytes} {complete : Bool} {receipt : Receipt}
  {resource : OutboundResource}

/-! ### The router's lists -/

def Deferred (r : OutboundRouter) (i : Nat) : Prop := i ∈ r.pendingDeferredStamps ∨ r.stamping = some i

def Waiting (r : OutboundRouter) (i : Nat) : Prop := i ∈ r.pendingOutbound ∨ r.Deferred i

instance : Decidable (r.Deferred i) := inferInstanceAs (Decidable (_ ∨ _))

instance : Decidable (r.Waiting i) := inferInstanceAs (Decidable (_ ∨ _))

def callsOf (r : OutboundRouter) (i : Nat) : Nat := (r.calls.map (·.1)).count i

def terminalState (r : OutboundRouter) (i : Nat) : Option MessageState :=
  (r.messages[i]?).bind fun m => if m.terminal then some m.state else none

theorem terminalState_eq_some {s : MessageState} :
    r.terminalState i = some s ↔ ∃ m, r.messages[i]? = some m ∧ m.terminal = true ∧ m.state = s := by
  rw [terminalState, Option.bind_eq_some_iff]
  refine exists_congr fun m => and_congr_right fun _ => ?_
  rw [Option.ite_none_right_eq_some, Option.some.injEq]

theorem terminalState_congr (h : r'.messages[i]? = r.messages[i]?) : r'.terminalState i = r.terminalState i := by
  rw [terminalState, terminalState, h]

/-- The messages that packets and resources will report on, and those of which a callback has been called. -/
def reports (r : OutboundRouter) : List Nat :=
  r.receipts.map (·.message) ++ r.resources.map (·.message) ++ r.calls.map (·.1)

def Touched (r : OutboundRouter) (i : Nat) : Prop := i ∈ r.pendingOutbound ∨ i ∈ r.reports

/-- A message is queued once, and untouched while it waits for its stamps. -/
structure WellFormed (r : OutboundRouter) : Prop where
  queue_nodup : r.pendingOutbound.Nodup
  deferred_nodup : r.pendingDeferredStamps.Nodup
  known : ∀ j, r.Deferred j ∨ r.Touched j → j < r.messages.length
  untouched : ∀ j, r.Deferred j → ¬r.Touched j

theorem callsOf_of_untouched (h : ¬r.Touched i) : r.callsOf i = 0 := by
  refine count_eq_zero_of_not_mem fun hcalls => h (.inr ?_)
  exact mem_append_right _ hcalls

/-- Messages wait for stamps as before or are new, and only messages that do not wait are touched. -/
theorem WellFormed.of_step (h : WellFormed r) (hqueue : r'.pendingOutbound.Nodup)
    (hnodup : r'.pendingDeferredStamps.Nodup) (hlength : r.messages.length ≤ r'.messages.length)
    (hdeferred : ∀ j, r'.Deferred j → r.Deferred j ∨ r.messages.length ≤ j ∧ j < r'.messages.length)
    (htouched : ∀ j, r'.Touched j →
      r.Touched j ∨ ¬r'.Deferred j ∧ (r.Deferred j ∨ r.messages.length ≤ j ∧ j < r'.messages.length)) :
    WellFormed r' where
  queue_nodup := hqueue
  deferred_nodup := hnodup
  known := by
    rintro j (hj | hj)
    · rcases hdeferred j hj with hold | ⟨_, hnew⟩
      · exact Nat.lt_of_lt_of_le (h.known j (.inl hold)) hlength
      · exact hnew
    · rcases htouched j hj with hold | ⟨_, hold | ⟨_, hnew⟩⟩
      · exact Nat.lt_of_lt_of_le (h.known j (.inr hold)) hlength
      · exact Nat.lt_of_lt_of_le (h.known j (.inl hold)) hlength
      · exact hnew
  untouched := by
    intro j hj ht
    rcases htouched j ht with hold | ⟨hnot, _⟩
    · rcases hdeferred j hj with hdef | ⟨hle, _⟩
      · exact h.untouched j hdef hold
      · exact absurd (h.known j (.inr hold)) (Nat.not_lt.mpr hle)
    · exact hnot hj

/-! ### Sending -/

def Grown {α : Type} (before after : List α) (p : α → Prop) : Prop := ∃ added, after = before ++ added ∧ ∀ x ∈ added, p x

section Grown
variable {α : Type} {before between after : List α} {p q : α → Prop}

theorem Grown.refl : Grown before before p := ⟨[], (append_nil _).symm, fun _ h => absurd h not_mem_nil⟩

theorem Grown.concat {x : α} (h : p x) : Grown before (before ++ [x]) p :=
  ⟨[x], rfl, fun _ hx => mem_singleton.mp hx ▸ h⟩

theorem Grown.imp (h : Grown before after p) (hpq : ∀ x, p x → q x) : Grown before after q := by
  obtain ⟨added, rfl, hadded⟩ := h
  exact ⟨added, rfl, fun x hx => hpq x (hadded x hx)⟩

theorem Grown.trans (h₁ : Grown before between p) (h₂ : Grown between after p) : Grown before after p := by
  obtain ⟨added₁, rfl, hadded₁⟩ := h₁
  obtain ⟨added₂, rfl, hadded₂⟩ := h₂
  refine ⟨added₁ ++ added₂, append_assoc _ _ _, fun x hx => ?_⟩
  exact (mem_append.mp hx).elim (hadded₁ x) (hadded₂ x)

theorem Grown.mem (h : Grown before after p) {x : α} (hx : x ∈ after) : x ∈ before ∨ p x := by
  obtain ⟨added, rfl, hadded⟩ := h
  exact (mem_append.mp hx).imp_right (hadded x)

end Grown

def FlagsRaised (r r' : OutboundRouter) : Prop :=
  ∃ raised, r'.resourceLinkPending = raised ++ r.resourceLinkPending ∧ raised.Nodup ∧
    ∀ h ∈ raised, h ∉ r.resourceLinkPending

theorem FlagsRaised.of_eq (h : r'.resourceLinkPending = r.resourceLinkPending) : FlagsRaised r r' :=
  ⟨[], h, nodup_nil, fun _ h => absurd h not_mem_nil⟩

theorem FlagsRaised.trans (h₁ : FlagsRaised r r') (h₂ : FlagsRaised r' r'') : FlagsRaised r r'' := by
  obtain ⟨raised₁, heq₁, hnodup₁, hnew₁⟩ := h₁
  obtain ⟨raised₂, heq₂, hnodup₂, hnew₂⟩ := h₂
  rw [heq₁] at heq₂ hnew₂
  refine ⟨raised₂ ++ raised₁, by rw [heq₂, append_assoc], hnodup₂.append hnodup₁ fun h h₂ h₁ => ?_, fun h hh => ?_⟩
  · exact hnew₂ h h₂ (mem_append_left _ h₁)
  · rcases mem_append.mp hh with hh | hh
    · exact fun hold => hnew₂ h hh (mem_append_right _ hold)
    · exact hnew₁ h hh

/-- What sending a message changes besides the message. Only a propagated message goes to the propagation node. -/
structure Sends (i : Nat) (propagated : Prop) (r r' : OutboundRouter) : Prop where
  messages : r'.messages = r.messages
  pendingDeferredStamps : r'.pendingDeferredStamps = r.pendingDeferredStamps
  stamping : r'.stamping = r.stamping
  calls : r'.calls = r.calls
  receipts : Grown r.receipts r'.receipts fun x => x.message = i ∧ (x.kind = .propagated → propagated)
  resources : Grown r.resources r'.resources fun x => x.message = i ∧ (x.propagated = true → propagated)
  transmissions : Grown r.transmissions r'.transmissions fun x => x.message = i ∧ (x.propagated = true → propagated)
  flags : FlagsRaised r r'

section Sends
variable {propagated : Prop}
variable {link : Option Nat} {sent : Bool}

theorem Sends.reports (h : Sends i propagated r r') : ∀ j ∈ r'.reports, j ∈ r.reports ∨ j = i := by
  intro j hj
  simp only [OutboundRouter.reports, mem_append, h.calls] at hj ⊢
  rcases hj with (hj | hj) | hj
  · obtain ⟨x, hx, rfl⟩ := mem_map.mp hj
    exact (h.receipts.mem hx).imp (fun hx => .inl (.inl (mem_map_of_mem hx))) And.left
  · obtain ⟨x, hx, rfl⟩ := mem_map.mp hj
    exact (h.resources.mem hx).imp (fun hx => .inl (.inr (mem_map_of_mem hx))) And.left
  · exact .inl (.inr hj)

theorem Sends.imp {propagated' : Prop} (h : Sends i propagated r r') (himp : propagated → propagated') :
    Sends i propagated' r r' :=
  { h with
    receipts := h.receipts.imp fun _ hx => ⟨hx.1, fun hp => himp (hx.2 hp)⟩
    resources := h.resources.imp fun _ hx => ⟨hx.1, fun hp => himp (hx.2 hp)⟩
    transmissions := h.transmissions.imp fun _ hx => ⟨hx.1, fun hp => himp (hx.2 hp)⟩ }

theorem Sends.of_links {linkMessage : Option Nat} {links : Table Nat} {fresh : Nat} : Sends i propagated r
      { r with
        outboundPropagationLink := link
        outboundPropagationLinkMessage := linkMessage
        directLinks := links
        freshLink := fresh } :=
  ⟨rfl, rfl, rfl, rfl, .refl, .refl, .refl, .of_eq rfl⟩

theorem Sends.refl : Sends i propagated r r := .of_links

theorem Sends.of_transmission (h : sent = true → propagated) :
    Sends i propagated r ({ r with outboundPropagationLinkMessage := link }.transmit i sent) :=
  ⟨rfl, rfl, rfl, rfl, .refl, .refl, .concat ⟨rfl, h⟩, .of_eq rfl⟩

theorem Sends.answered {handed made : Bool} {m₁ m₂ : OutboundMessage} {failure : SendFailure} {kind : ReceiptKind}
    (h : Sends i propagated r r') (hkind : kind = .propagated → propagated) : Sends i propagated r
      (if handed then if made then ({ r' with receipts := r'.receipts ++ [⟨i, kind⟩] }, m₁, none) else (r', m₂, none)
        else (r', m₂, some failure)).1 := by
  split_ifs
  · exact { h with receipts := h.receipts.trans (.concat ⟨rfl, hkind⟩) }
  · exact h
  · exact h

theorem Sends.of_resource (h : sent = true → propagated) : Sends i propagated r
      { r with
        outboundPropagationLinkMessage := link
        transmissions := r.transmissions ++ [⟨i, sent⟩]
        resources := r.resources ++ [⟨i, sent⟩] } :=
  ⟨rfl, rfl, rfl, rfl, .refl, .concat ⟨rfl, h⟩, .concat ⟨rfl, h⟩, .of_eq rfl⟩

end Sends

theorem sendMessagePacket_sends : Sends i (m.method = some .propagated) r (r.sendMessagePacket i m f).1 := by
  have hother : false = true → m.method = some .propagated := fun h => absurd h Bool.false_ne_true
  unfold sendMessagePacket
  by_cases hpropagated : m.method = some .propagated ∧ m.deliveryDestination ≠ none
  · rw [if_pos hpropagated]
    refine .answered ?_ fun _ => hpropagated.1
    split
    · exact .of_transmission fun _ => hpropagated.1
    · exact .of_links
  rw [if_neg hpropagated]
  by_cases hdirect : m.method = some .direct ∧ m.deliveryDestination ≠ none
  · rw [if_pos hdirect]
    refine .answered ?_ nofun
    split
    · exact .of_transmission hother
    · exact .refl
  rw [if_neg hdirect]
  by_cases hshort : (m.method = some .opportunistic ∨ m.method = some .direct) ∧ m.packedLength ≤ destinationLength
  · rw [if_pos hshort]
    exact .refl
  · rw [if_neg hshort]
    exact .answered (.of_transmission hother) nofun

theorem sendMessageResource_sends : Sends i (m.method = some .propagated) r (r.sendMessageResource i m f).1 := by
  have hother : false = true → m.method = some .propagated := fun h => absurd h Bool.false_ne_true
  unfold sendMessageResource
  by_cases hpropagated : m.method = some .propagated ∧ m.deliveryDestination ≠ none
  · rw [if_pos hpropagated]
    rcases f.resourceMade with _ | _
    · exact .of_links
    · exact .of_resource fun _ => hpropagated.1
  rw [if_neg hpropagated]
  by_cases hlink : m.destinationHash ∈ r.resourceLinks
  · rw [if_pos hlink]
    rcases f.resourceMade with _ | _
    · exact .refl
    · exact .of_resource hother
  rw [if_neg hlink]
  split_ifs with hpending
  · exact .refl
  · refine ⟨rfl, rfl, rfl, rfl, .refl, .refl, .refl, [m.destinationHash], rfl, nodup_singleton _, fun h hh => ?_⟩
    rw [mem_singleton.mp hh]
    exact hpending
  · exact .refl

/-- Sending sets no other state than `sending`. -/
def Sent (m m' : OutboundMessage) : Prop := m'.method = m.method ∧ (m'.state = m.state ∨ m'.state = .sending)

theorem Sent.underway {m' : OutboundMessage} (h : Sent m m') (hm : m.Underway) : m'.Underway := by
  obtain ⟨hmethod, hstate | hstate⟩ := h
  · simpa [Underway, terminal, hmethod, hstate] using hm
  · exact ⟨by simp [terminal, hstate], hmethod ▸ hm.2⟩

theorem sendMessagePacket_alike : Alike m (r.sendMessagePacket i m f).2.1 ∧ Sent m (r.sendMessagePacket i m f).2.1 := by
  unfold sendMessagePacket
  dsimp only
  split_ifs <;> exact ⟨⟨rfl, rfl, rfl⟩, rfl, by simp⟩

theorem sendMessageResource_alike :
    Alike m (r.sendMessageResource i m f).2.1 ∧ Sent m (r.sendMessageResource i m f).2.1 := by
  unfold sendMessageResource
  dsimp only
  split_ifs <;> exact ⟨⟨rfl, rfl, rfl⟩, rfl, by simp⟩

theorem packPropagated_became {m' : OutboundMessage} (h : packPropagated m f = some m') : Became f m m' ∧
    m'.state = m.state ∧ m'.method = m.method ∧ m'.deliveryDestination = m.deliveryDestination := by
  unfold packPropagated at h
  split at h
  · next hzero =>
    obtain ⟨length, hlength, rfl⟩ := Option.map_eq_some_iff.mp h
    exact ⟨⟨id, rfl, .inr ⟨hzero, hlength⟩⟩, rfl, rfl, rfl⟩
  · cases h
    exact ⟨.refl, rfl, rfl, rfl⟩

/-- What sending gives: the router, the message and the error. -/
structure Delivery (i : Nat) (f : SendFacts) (r : OutboundRouter) (m : OutboundMessage)
    (result : OutboundRouter × OutboundMessage × Option SendFailure) : Prop where
  sends : Sends i (result.2.1.method = some .propagated) r result.1
  became : Became f m result.2.1
  sent : Sent m result.2.1

theorem sendMessage_delivery : Delivery i f r m (r.sendMessage i m f) := by
  unfold sendMessage
  cases hpack : (if m.method = some .propagated then packPropagated m f else some m) with
  | none => exact ⟨.refl, .refl, rfl, .inl rfl⟩
  | some m' =>
    obtain ⟨hm, hstate, hmethod⟩ : Became f m m' ∧ m'.state = m.state ∧ m'.method = m.method := by
      split_ifs at hpack
      · obtain ⟨hbecame, hstate, hmethod, -⟩ := packPropagated_became hpack
        exact ⟨hbecame, hstate, hmethod⟩
      · cases hpack
        exact ⟨.refl, rfl, rfl⟩
    dsimp only
    split
    · obtain ⟨halike, hsent⟩ := sendMessageResource_alike (r := r) (i := i) (m := m') (f := f)
      exact ⟨sendMessageResource_sends.imp halike.method.trans, hm.trans halike.became, by rwa [Sent, hmethod, hstate] at hsent⟩
    · obtain ⟨halike, hsent⟩ := sendMessagePacket_alike (r := r) (i := i) (m := m') (f := f)
      exact ⟨sendMessagePacket_sends.imp halike.method.trans, hm.trans halike.became, by rwa [Sent, hmethod, hstate] at hsent⟩

/-- Whether a packet goes to the propagation node and has no receipt. -/
def Unreceipted (m : OutboundMessage) (f : SendFacts) : Prop :=
  m.method.or m.desiredMethod = some .propagated ∧ f.packetMade = true ∧ f.packetSent = true ∧ f.receipt = false

/-- A packet with a receipt, or a resource, is being sent to the propagation node. -/
theorem sendMessage_sending (hmethod : m.method = some .propagated) (hlink : m.deliveryDestination ≠ none)
    (hreceipt : ¬Unreceipted m f) (hsent : (r.sendMessage i m f).2.2 = none) :
    (r.sendMessage i m f).2.1.state = .sending := by
  have hreceipt : f.packetMade = true → f.packetSent = true → f.receipt = true := by
    simpa [Unreceipted, hmethod] using hreceipt
  unfold sendMessage at hsent ⊢
  rw [if_pos hmethod] at hsent ⊢
  cases hpack : packPropagated m f with
  | none => simp [hpack] at hsent
  | some m' =>
    obtain ⟨-, -, hmethod', hlink'⟩ := packPropagated_became hpack
    have hboth : m'.method = some .propagated ∧ m'.deliveryDestination ≠ none := ⟨hmethod'.trans hmethod, hlink' ▸ hlink⟩
    simp only [hpack] at hsent ⊢
    split_ifs at hsent ⊢
    · unfold sendMessageResource at hsent ⊢
      dsimp only at hsent ⊢
      rw [if_pos hboth] at hsent ⊢
      split_ifs at hsent ⊢
      rfl
    · unfold sendMessagePacket at hsent ⊢
      dsimp only at hsent ⊢
      rw [if_pos hboth] at hsent ⊢
      split_ifs at hsent ⊢ <;> simp_all

/-- The message fails, or stays in the queue. -/
def Ongoing (result : OutboundRouter × OutboundMessage × Fate) : Prop :=
  result.2.2 = .failed ∨ result.2.2 = .kept ∧ result.2.1.Underway

/-- What one round of the loop gives: a message that is not kept has reached a terminal state, and one that is has not. -/
structure Processed (i : Nat) (f : SendFacts) (r : OutboundRouter) (m : OutboundMessage)
    (result : OutboundRouter × OutboundMessage × Fate) : Prop where
  sends : Sends i (result.2.1.method = some .propagated) r result.1
  terminal : result.2.2 ≠ .kept → result.2.1.terminal = true
  became : Became f m result.2.1
  ongoing : m.Underway → ¬Unreceipted m f → Ongoing result

section Processed
variable {m' : OutboundMessage}

section

variable (h : Sends i (m'.method = some .propagated) r r')
include h

theorem Processed.kept (hm : Became f m m') (hunderway : m.Underway → ¬Unreceipted m f → m'.Underway) :
    Processed i f r m (r', m', .kept) :=
  ⟨h, fun hkept => absurd rfl hkept, hm, fun hm hf => .inr ⟨rfl, hunderway hm hf⟩⟩

theorem Processed.failed (hm : Became f m m') : Processed i f r m (r', m'.fail, .failed) :=
  ⟨h.imp fail_alike.method.trans, fun _ => fail_terminal, hm.trans fail_alike.became, fun _ _ => .inl rfl⟩

end

theorem Processed.before {result : OutboundRouter × OutboundMessage × Fate} (h : Processed i f r m' result)
    (hm : Became f m m') (hsame : m.Underway → m'.Underway ∧ (Unreceipted m' f → Unreceipted m f)) :
    Processed i f r m result :=
  ⟨h.sends, h.terminal, hm.trans h.became, fun hm hf => h.ongoing (hsame hm).1 fun h => hf ((hsame hm).2 h)⟩

end Processed

theorem sendOrRetry_processed {sent : OutboundMessage → OutboundMessage} (halike : ∀ m, Alike m (sent m))
    (hsent : ∀ m', Sent m m' → m'.Underway → (sent m').Underway) : Processed i f r m (r.sendOrRetry i m f sent) := by
  have hdelivery := sendMessage_delivery (r := r) (i := i) (m := m) (f := f)
  unfold sendOrRetry
  generalize r.sendMessage i m f = result at hdelivery ⊢
  obtain ⟨r', m', failure⟩ := result
  obtain ⟨hsends, hbecame, hstate⟩ := hdelivery
  rcases failure with _ | failure
  · exact .kept (hsends.imp (halike m').method.trans) (hbecame.trans (halike m').became)
      fun h _ => hsent m' hstate (hstate.underway h)
  · cases failure with
    | representationNotSupported => exact .failed hsends hbecame
    | linkPending | other => exact .kept hsends (hbecame.trans Alike.became) fun h _ => ⟨rfl, (hstate.underway h).2⟩

/-- A message that is not for the propagation node stays when it has been sent. -/
theorem sendOrRetry_sent {method : Method} (hm : m.method = some method) (hmethod : method ≠ .propagated) :
    Processed i f r m (r.sendOrRetry i m f fun m => { m with state := .sent }) := by
  refine sendOrRetry_processed (fun _ => ⟨rfl, rfl, rfl⟩) fun m' hsent hm' => ⟨?_, hm'.2⟩
  simp [OutboundMessage.terminal, hsent.1, hm, hmethod]

theorem processPropagated_processed (hmethod : m.method = some .propagated) :
    Processed i f r m (r.processPropagated i m f) := by
  unfold processPropagated
  split
  · exact .failed .refl .refl
  · rcases r.outboundPropagationLink with _ | link
    · dsimp only
      split_ifs
      · exact .kept .refl Alike.became fun h _ => h
      · exact .failed .refl Alike.became
      · exact .kept .of_links Alike.became fun h _ => h
      · exact .kept .of_links Alike.became fun h _ => h
      · exact .kept .refl Alike.became fun h _ => h
      · exact .kept .refl Alike.became fun h _ => h
    · cases f.linkStatus with
      | active =>
        dsimp only
        split
        · exact .kept .refl Alike.became fun h _ => h
        · have hdelivery := sendMessage_delivery (r := r) (i := i) (m := { m with deliveryDestination := some link }) (f := f)
          have hsending := sendMessage_sending (r := r) (i := i) (m := { m with deliveryDestination := some link }) (f := f)
            hmethod (Option.some_ne_none _)
          generalize r.sendMessage i { m with deliveryDestination := some link } f = result at hdelivery hsending ⊢
          obtain ⟨r', m', failure⟩ := result
          obtain ⟨hsends, hsent, hstate⟩ := hdelivery
          have hbecame : Became f m m' := ⟨hsent.method, hsent.request, hsent.packed⟩
          rcases failure with _ | failure
          · dsimp only
            split
            · next hother => exact .kept hsends (hbecame.trans Alike.became) fun _ hf => absurd (hsending hf rfl) hother
            · exact .kept hsends hbecame fun h _ => hstate.underway h
          · exact .kept hsends (hbecame.trans Alike.became) fun h _ => ⟨rfl, (hstate.underway h).2⟩
      | closed => exact .kept .of_links Alike.became fun h _ => h
      | pending | handshake | stale => exact .kept .refl Alike.became fun h _ => h

theorem processOpportunistic_processed (hmethod : m.method = some .opportunistic) :
    Processed i f r m (r.processOpportunistic i m f) := by
  unfold processOpportunistic
  split
  · exact .kept .refl Alike.became fun h _ => h
  · split
    · exact .kept .refl Alike.became fun h _ => h
    · split
      · exact .kept .refl Alike.became fun h _ => h
      · exact .before (sendOrRetry_sent hmethod nofun) Alike.became fun h => ⟨h, id⟩

theorem processDirect_processed : Processed i f r m (r.processDirect i m f) := by
  unfold processDirect
  split
  · exact .kept .refl Alike.became fun h _ => h
  · rcases r.directLinks.lookup m.destinationHash with _ | link
    · dsimp only
      split
      · exact .kept .of_links Alike.became fun h _ => h
      · exact .kept .refl Alike.became fun h _ => h
    · cases f.linkStatus with
      | active =>
        dsimp only
        split
        · exact .kept .refl Alike.became fun h _ => h
        · exact .before (sendOrRetry_processed (fun _ => ⟨rfl, rfl, rfl⟩) fun _ _ h => h) Alike.became
            fun h => ⟨⟨rfl, h.2⟩, id⟩
      | closed => exact .kept .of_links Alike.became fun h _ => h
      | pending | handshake | stale => exact .kept .refl Alike.became fun h _ => h

theorem attempt_processed : Processed i f r m (r.attempt i m f) := by
  unfold attempt
  dsimp only
  have hmethod : Became f m { m with method := some ((m.method.or m.desiredMethod).getD .direct) } := by
    refine ⟨fun hm => ?_, rfl, .inl rfl⟩
    rw [hm]
    rfl
  have hsame : m.Underway → { m with method := some ((m.method.or m.desiredMethod).getD .direct) } = m := by
    intro h
    obtain ⟨method, hm⟩ := Option.ne_none_iff_exists'.mp h.2
    have hsome : some ((m.method.or m.desiredMethod).getD .direct) = m.method := by rw [hm]; rfl
    rw [hsome]
  split
  · exact .kept .refl hmethod fun h _ => (hsame h).symm ▸ h
  · split
    · split
      · exact .kept .refl ⟨fun _ => rfl, rfl, .inl rfl⟩ fun _ _ => ⟨rfl, Option.some_ne_none _⟩
      · exact .failed .refl hmethod
    · refine .before ?_ hmethod fun h => (hsame h).symm ▸ ⟨h, id⟩
      cases (m.method.or m.desiredMethod).getD .direct with
      | propagated => exact processPropagated_processed rfl
      | opportunistic => exact processOpportunistic_processed rfl
      | direct => exact processDirect_processed
      | paper => exact sendOrRetry_sent rfl nofun

theorem processMessage_processed : Processed i f r m (r.processMessage i m f) := by
  unfold processMessage
  cases hstate : m.state with
  | sent =>
    dsimp only
    split
    · next hmethod =>
      have hm : m.terminal = true := by simp only [terminal, hstate, hmethod, decide_true]
      exact ⟨.refl, fun _ => hm, .refl, fun h => absurd (h.1.symm.trans hm) Bool.false_ne_true⟩
    · exact attempt_processed
  | delivered | failed =>
    have hm : m.terminal = true := by simp only [terminal, hstate]
    exact ⟨.refl, fun _ => hm, .refl, fun h => absurd (h.1.symm.trans hm) Bool.false_ne_true⟩
  | cancelled | rejected =>
    have hm : m.terminal = true := by simp only [terminal, hstate]
    exact ⟨.of_links, fun _ => hm, .refl, fun h => absurd (h.1.symm.trans hm) Bool.false_ne_true⟩
  | generating | outbound | sending | paper => exact attempt_processed

theorem processMessage_of_terminal (h : m.terminal = true) :
    (r.processMessage i m f).1.transmissions = r.transmissions ∧ (r.processMessage i m f).2.2 ≠ .kept := by
  unfold processMessage
  unfold terminal at h
  cases hstate : m.state with
  | sent =>
    rw [hstate] at h
    rw [if_pos (of_decide_eq_true h)]
    exact ⟨rfl, Fate.noConfusion⟩
  | delivered | failed | cancelled | rejected => exact ⟨rfl, Fate.noConfusion⟩
  | generating | outbound | sending | paper =>
    rw [hstate] at h
    cases h

/-! ### A pass over the queue -/

def fated (fate : Fate) (fates : List (Nat × Fate)) : List Nat := (fates.filter (·.2 = fate)).map (·.1)

def Propagated (r : OutboundRouter) (i : Nat) : Prop := ∃ m, r.messages[i]? = some m ∧ m.method = some .propagated

/-- What a propagation node confirms was sent to one. -/
structure Routed (r : OutboundRouter) : Prop where
  receipts : ∀ x ∈ r.receipts, x.kind = .propagated → r.Propagated x.message
  resources : ∀ x ∈ r.resources, x.propagated = true → r.Propagated x.message

/-- What the loop leaves of the messages of `queue`, each looked at once, as it was before; `called` are the calls. -/
structure Passed (facts : Nat → SendFacts) (r : OutboundRouter) (queue called : List Nat) (r' : OutboundRouter)
    (fates : List (Nat × Fate)) : Prop where
  pendingDeferredStamps : r'.pendingDeferredStamps = r.pendingDeferredStamps
  stamping : r'.stamping = r.stamping
  length : r'.messages.length = r.messages.length
  calls : r'.calls.map (·.1) = r.calls.map (·.1) ++ called
  reports : ∀ j ∈ r'.reports, j ∈ r.reports ∨ j ∈ queue
  others : ∀ j, j ∉ queue → r'.messages[j]? = r.messages[j]?
  order : fates.map (·.1) = queue
  processed : ∀ x ∈ fates, ∃ (r₁ : OutboundRouter) (m : OutboundMessage), r.messages[x.1]? = some m ∧
    r'.messages[x.1]? = some (r₁.processMessage x.1 m (facts x.1)).2.1 ∧ x.2 = (r₁.processMessage x.1 m (facts x.1)).2.2
  routed : r.Routed → r'.Routed
  transmissions : Grown r.transmissions r'.transmissions fun x =>
    x.message ∈ queue ∧ r.terminalState x.message = none ∧ (x.propagated = true → r'.Propagated x.message)
  flags : FlagsRaised r r'

section Passed

variable {queue called : List Nat} (h : Passed facts r queue called r' fates)
include h

theorem Passed.terminal {x : Nat × Fate} (hx : x ∈ fates) (hkept : x.2 ≠ .kept) : r'.terminalState x.1 ≠ none := by
  obtain ⟨r₁, m, -, hm', hfate⟩ := h.processed x hx
  exact Option.ne_none_iff_exists'.mpr
    ⟨_, terminalState_eq_some.mpr ⟨_, hm', processMessage_processed.terminal (hfate ▸ hkept), rfl⟩⟩

theorem Passed.removed {x : Nat × Fate} (hx : x ∈ fates) (hstate : r.terminalState x.1 ≠ none) : x.2 ≠ .kept := by
  obtain ⟨r₁, m, hm, -, hfate⟩ := h.processed x hx
  obtain ⟨s, hs⟩ := Option.ne_none_iff_exists'.mp hstate
  obtain ⟨m', hm', hterminal, -⟩ := terminalState_eq_some.mp hs
  obtain rfl := Option.some.inj (hm.symm.trans hm')
  exact hfate ▸ (processMessage_of_terminal hterminal).2

theorem Passed.became (hm : r.messages[j]? = some m) : ∃ m', r'.messages[j]? = some m' ∧ Became (facts j) m m' := by
  by_cases hj : j ∈ queue
  · obtain ⟨x, hx, rfl⟩ := mem_map.mp (h.order ▸ hj)
    obtain ⟨r₁, m₁, hm₁, hm', -⟩ := h.processed x hx
    obtain rfl := Option.some.inj (hm.symm.trans hm₁)
    exact ⟨_, hm', processMessage_processed.became⟩
  · exact ⟨m, (h.others j hj).trans hm, .refl⟩

theorem Passed.propagated (hj : r.Propagated j) : r'.Propagated j := by
  obtain ⟨m, hm, hmethod⟩ := hj
  obtain ⟨m', hm', hbecame⟩ := h.became hm
  exact ⟨m', hm', hbecame.method hmethod⟩

theorem Passed.deferred : r'.Deferred j ↔ r.Deferred j := by
  rw [Deferred, Deferred, h.pendingDeferredStamps, h.stamping]

end Passed

theorem processMessage_passed {m₀ : OutboundMessage} (hm : r.messages[i]? = some m₀)
    (hresult : r.processMessage i m₀ (facts i) = (r', m, fate)) :
    Passed facts r [i] (fated .notified [(i, fate)]) { r' with
      messages := r'.messages.set i m
      calls := if fate = .notified then r'.calls ++ [(i, .failed)] else r'.calls } [(i, fate)] := by
  have hquiet := processMessage_of_terminal (r := r) (i := i) (m := m₀) (f := facts i)
  obtain ⟨hsends, -, hbecame, -⟩ := hresult ▸ processMessage_processed (r := r) (i := i) (m := m₀) (f := facts i)
  have hreports := hsends.reports
  obtain ⟨hmessages, hdeferred, hstamping, hcalls, hreceipts, hresources, htransmissions, hflags⟩ := hsends
  dsimp only at hmessages hdeferred hstamping hcalls hreports hbecame
  rw [hresult] at hquiet
  have hlt : i < r.messages.length := (List.getElem?_eq_some_iff.mp hm).1
  have hself : (r'.messages.set i m)[i]? = some m := getElem?_set_self (hmessages ▸ hlt)
  have hother : ∀ j, j ≠ i → (r'.messages.set i m)[j]? = r.messages[j]? := fun j hj => by
    rw [getElem?_set_ne hj.symm, hmessages]
  refine ⟨hdeferred, hstamping, ?_, ?_, ?_, fun j hj => hother j (mem_singleton.not.mp hj), rfl, ?_, ?_, ?_, hflags⟩
  · rw [length_set, hmessages]
  · by_cases hfate : fate = .notified
    · simp [fated, hfate, hcalls]
    · simp [fated, hfate, hcalls]
  · intro j hj
    rw [mem_singleton]
    by_cases hfate : fate = .notified
    · have hj : j ∈ r'.reports ++ [i] := by simpa [OutboundRouter.reports, hfate] using hj
      rcases mem_append.mp hj with hj | hj
      · exact hreports j hj
      · exact .inr (mem_singleton.mp hj)
    · exact hreports j (by simpa [OutboundRouter.reports, hfate] using hj)
  · intro x hx
    obtain rfl := mem_singleton.mp hx
    exact ⟨r, m₀, hm, by rw [hresult]; exact hself, by rw [hresult]⟩
  · intro hrouted
    have hold : ∀ j, r.Propagated j → ∃ m', (r'.messages.set i m)[j]? = some m' ∧ m'.method = some .propagated := by
      rintro j ⟨m₁, hm₁, hmethod⟩
      by_cases hij : j = i
      · subst hij
        obtain rfl := Option.some.inj (hm.symm.trans hm₁)
        exact ⟨m, hself, hbecame.method hmethod⟩
      · exact ⟨m₁, (hother j hij).trans hm₁, hmethod⟩
    constructor
    · intro x hx hkind
      rcases hreceipts.mem hx with hx | ⟨rfl, hpropagated⟩
      · exact hold _ (hrouted.receipts x hx hkind)
      · exact ⟨m, hself, hpropagated hkind⟩
    · intro x hx hkind
      rcases hresources.mem hx with hx | ⟨rfl, hpropagated⟩
      · exact hold _ (hrouted.resources x hx hkind)
      · exact ⟨m, hself, hpropagated hkind⟩
  · cases hstate : m₀.terminal with
    | true =>
      rw [(hquiet hstate).1]
      exact .refl
    | false =>
      have hnone : r.terminalState i = none := by
        rw [terminalState, hm, Option.bind_some, hstate]
        rfl
      refine htransmissions.imp ?_
      rintro ⟨_, propagated⟩ ⟨rfl, hpropagated⟩
      exact ⟨mem_singleton_self _, hnone, fun hx => ⟨m, hself, hpropagated hx⟩⟩

theorem Passed.append {r₁ r₂ : OutboundRouter} {queue₁ queue₂ called₁ called₂ : List Nat}
    {fates₁ fates₂ : List (Nat × Fate)} (h₁ : Passed facts r queue₁ called₁ r₁ fates₁)
    (h₂ : Passed facts r₁ queue₂ called₂ r₂ fates₂) (hdisjoint : ∀ j ∈ queue₁, j ∉ queue₂) :
    Passed facts r (queue₁ ++ queue₂) (called₁ ++ called₂) r₂ (fates₁ ++ fates₂) where
  pendingDeferredStamps := h₂.pendingDeferredStamps.trans h₁.pendingDeferredStamps
  stamping := h₂.stamping.trans h₁.stamping
  length := h₂.length.trans h₁.length
  calls := by rw [h₂.calls, h₁.calls, append_assoc]
  reports := by
    intro j hj
    rw [mem_append, ← or_assoc]
    exact (h₂.reports j hj).imp_left (h₁.reports j)
  others := by
    intro j hj
    rw [mem_append, not_or] at hj
    exact (h₂.others j hj.2).trans (h₁.others j hj.1)
  order := by rw [map_append, h₁.order, h₂.order]
  processed := by
    intro x hx
    rcases mem_append.mp hx with hx | hx
    · rw [h₂.others x.1 (hdisjoint x.1 (h₁.order ▸ mem_map_of_mem hx))]
      exact h₁.processed x hx
    · rw [← h₁.others x.1 fun h => hdisjoint x.1 h (h₂.order ▸ mem_map_of_mem hx)]
      exact h₂.processed x hx
  routed := fun h => h₂.routed (h₁.routed h)
  transmissions := by
    refine (h₁.transmissions.imp ?_).trans (h₂.transmissions.imp ?_)
    · rintro x ⟨hx, hstate, hpropagated⟩
      exact ⟨mem_append_left _ hx, hstate, fun h => h₂.propagated (hpropagated h)⟩
    · rintro x ⟨hx, hstate, hpropagated⟩
      rw [terminalState_congr (h₁.others x.message fun h => hdisjoint x.message h hx)] at hstate
      exact ⟨mem_append_right _ hx, hstate, hpropagated⟩
  flags := h₁.flags.trans h₂.flags

theorem processAll_passed (facts : Nat → SendFacts) : ∀ (queue : List Nat) (r : OutboundRouter), queue.Nodup →
    (∀ j ∈ queue, j < r.messages.length) → Passed facts r queue (fated .notified (processAll facts r queue).2)
      (processAll facts r queue).1 (processAll facts r queue).2 := by
  intro queue
  induction queue with
  | nil =>
    intro r _ _
    exact ⟨rfl, rfl, rfl, (append_nil _).symm, fun _ => .inl, fun _ _ => rfl, rfl,
      fun _ h => absurd h not_mem_nil, id, .refl, .of_eq rfl⟩
  | cons i rest ih =>
    intro r hnodup hbound
    obtain ⟨hi, hrest⟩ := nodup_cons.mp hnodup
    obtain ⟨m, hm⟩ : ∃ m, r.messages[i]? = some m := ⟨_, getElem?_eq_getElem (hbound i mem_cons_self)⟩
    simp only [processAll, hm]
    generalize hresult : r.processMessage i m (facts i) = result
    have hone := processMessage_passed hm hresult
    have happend := hone.append (ih _ hrest fun j hj => ?_) fun j hj => mem_singleton.mp hj ▸ hi
    · rwa [fated, fated, ← map_append, ← filter_append] at happend
    · rw [hone.length]
      exact hbound j (mem_cons_of_mem i hj)

theorem count_fated (hnodup : (fates.map (·.1)).Nodup) (h : (i, fate) ∈ fates)
    (other : Fate) : (fated other fates).count i = if fate = other then 1 else 0 := by
  have hmem : i ∈ fated other fates ↔ fate = other := by
    simp only [fated, mem_map, mem_filter, decide_eq_true_eq]
    constructor
    · rintro ⟨x, ⟨hx, hother⟩, rfl⟩
      rw [← hother, inj_on_of_nodup_map hnodup hx h rfl]
    · rintro rfl
      exact ⟨(i, fate), ⟨h, rfl⟩, rfl⟩
  have hsub : (fated other fates).Nodup := hnodup.sublist (filter_sublist.map _)
  rw [hsub.count]
  exact if_congr hmem rfl rfl

theorem mem_fated (h : i ∈ fated fate fates) : i ∈ fates.map (·.1) := by
  obtain ⟨x, hx, rfl⟩ := mem_map.mp h
  exact mem_map_of_mem (mem_filter.mp hx).1

/-- What a pass leaves: the loop's result, without the messages that are not kept, and with the notices. -/
structure PassedQueue (facts : Nat → SendFacts) (r r' : OutboundRouter) (fates : List (Nat × Fate)) : Prop extends
    Passed facts r r.pendingOutbound (fated .notified fates ++ fated .failed fates) r' fates where
  pendingOutbound : r'.pendingOutbound = fated .kept fates

theorem processOutbound_passed (h : WellFormed r) (facts : Nat → SendFacts) :
    PassedQueue facts r (r.processOutbound facts) (r.fates facts) := by
  have hpassed := processAll_passed facts r.pendingOutbound r h.queue_nodup fun j hj => h.known j (.inr (.inl hj))
  unfold processOutbound fates
  generalize processAll facts r r.pendingOutbound = result at hpassed ⊢
  obtain ⟨r₁, fates⟩ := result
  have hfailed : ((fates.filter (·.2 = .failed)).map fun fate => (fate.1, Callback.failed)).map (·.1) =
      fated .failed fates := by
    rw [map_map]
    rfl
  refine ⟨⟨hpassed.pendingDeferredStamps, hpassed.stamping, hpassed.length, ?_, fun j hj => ?_, hpassed.others,
    hpassed.order, hpassed.processed, fun h => ⟨(hpassed.routed h).receipts, (hpassed.routed h).resources⟩,
    hpassed.transmissions, hpassed.flags⟩, rfl⟩
  · rw [map_append, hfailed, hpassed.calls, append_assoc]
  · have hj : j ∈ r₁.reports ++ fated .failed fates := by
      rw [reports, map_append, hfailed, ← append_assoc] at hj
      exact hj
    rcases mem_append.mp hj with hj | hj
    · exact hpassed.reports j hj
    · exact .inr (hpassed.order ▸ mem_fated hj)

/-- A message is called once for the pass when it is notified or has failed. -/
theorem PassedQueue.callsOf (h : PassedQueue facts r r' fates) (j : Nat) :
    r'.callsOf j = r.callsOf j + ((fated .notified fates).count j + (fated .failed fates).count j) := by
  rw [OutboundRouter.callsOf, OutboundRouter.callsOf, h.calls, count_append, count_append]

theorem PassedQueue.wellFormed (hpassed : PassedQueue facts r r' fates) (h : WellFormed r) : WellFormed r' := by
  refine h.of_step ?_ (hpassed.pendingDeferredStamps ▸ h.deferred_nodup) (Nat.le_of_eq hpassed.length.symm)
    (fun j hj => .inl (hpassed.deferred.mp hj)) fun j hj => .inl ?_
  · rw [hpassed.pendingOutbound]
    exact (hpassed.order ▸ h.queue_nodup).sublist (filter_sublist.map _)
  · rcases hj with hj | hj
    · rw [hpassed.pendingOutbound] at hj
      exact .inl (hpassed.order ▸ mem_fated hj)
    · exact (hpassed.reports j hj).symm

/-! ### Steps that keep the queues -/

structure SameQueues (r r' : OutboundRouter) : Prop where
  pendingOutbound : r'.pendingOutbound = r.pendingOutbound
  pendingDeferredStamps : r'.pendingDeferredStamps = r.pendingDeferredStamps
  stamping : r'.stamping = r.stamping
  length : r'.messages.length = r.messages.length
  reports : ∀ j ∈ r'.reports, j ∈ r.reports

section

variable (h : SameQueues r r')
include h

theorem SameQueues.trans (h' : SameQueues r' r'') : SameQueues r r'' :=
  ⟨h'.pendingOutbound.trans h.pendingOutbound, h'.pendingDeferredStamps.trans h.pendingDeferredStamps,
    h'.stamping.trans h.stamping, h'.length.trans h.length, fun j hj => h.reports j (h'.reports j hj)⟩

theorem SameQueues.deferred : r'.Deferred i ↔ r.Deferred i := by
  rw [Deferred, Deferred, h.pendingDeferredStamps, h.stamping]

theorem SameQueues.waiting : r'.Waiting i ↔ r.Waiting i := by
  rw [Waiting, Waiting, h.pendingOutbound, h.deferred]

theorem SameQueues.wellFormed (hwell : WellFormed r) : WellFormed r' := by
  refine hwell.of_step (h.pendingOutbound ▸ hwell.queue_nodup) (h.pendingDeferredStamps ▸ hwell.deferred_nodup)
    (Nat.le_of_eq h.length.symm) (fun j hj => .inl (h.deferred.mp hj)) fun j hj => .inl ?_
  exact hj.imp (fun hj => h.pendingOutbound ▸ hj) (h.reports j)

end

section Modify
variable {messages : List OutboundMessage} {p : OutboundMessage → Prop}

theorem modify_keeps (hp : ∀ m, p m → p (change m)) (h : ∃ m, messages[i]? = some m ∧ p m) :
    ∃ m, (messages.modify k change)[i]? = some m ∧ p m := by
  obtain ⟨m, hm, hpm⟩ := h
  by_cases hk : k = i
  · subst hk
    exact ⟨change m, by rw [getElem?_modify_eq, hm]; rfl, hp m hpm⟩
  · exact ⟨m, by rw [getElem?_modify_ne _ _ hk, hm], hpm⟩

theorem foldl_modify_keeps (hp : ∀ m, p m → p (change m)) (queue : List Nat) (messages : List OutboundMessage)
    (h : ∃ m, messages[i]? = some m ∧ p m) :
    ∃ m, (queue.foldl (fun messages i => messages.modify i change) messages)[i]? = some m ∧ p m :=
  foldlRecOn (motive := fun after : List OutboundMessage => ∃ m, after[i]? = some m ∧ p m) queue _ h
    fun _ h _ _ => modify_keeps hp h

theorem foldl_modify_length (queue : List Nat) :
    (queue.foldl (fun messages i => messages.modify i change) messages).length = messages.length :=
  foldlRecOn (motive := fun after : List OutboundMessage => after.length = messages.length) queue _ rfl
    fun _ h _ _ => (length_modify _ _ _).trans h

theorem foldl_modify_getElem? {queue : List Nat} (hi : i ∉ queue) :
    (queue.foldl (fun messages i => messages.modify i change) messages)[i]? = messages[i]? :=
  foldlRecOn (motive := fun after : List OutboundMessage => after[i]? = messages[i]?) queue _ rfl
    fun _ h _ hk => (getElem?_modify_ne _ _ (ne_of_mem_of_not_mem hk hi)).trans h

end Modify

def Unaltered (r r' : OutboundRouter) : Prop :=
  ∀ (j : Nat) (m : OutboundMessage), r.messages[j]? = some m → ∃ m', r'.messages[j]? = some m' ∧ Alike m m'

theorem Unaltered.of_eq (h : r'.messages = r.messages) : Unaltered r r' :=
  fun _ m hm => ⟨m, h ▸ hm, ⟨rfl, rfl, rfl⟩⟩

theorem Unaltered.of_modify (hchange : ∀ m, Alike m (change m)) (h : r'.messages = r.messages.modify k change) :
    Unaltered r r' := by
  intro j m hm
  rw [h]
  exact modify_keeps (fun m' hm' => hm'.trans (hchange m')) ⟨m, hm, ⟨rfl, rfl, rfl⟩⟩

theorem Unaltered.of_foldl {queue : List Nat} (hchange : ∀ m, Alike m (change m))
    (h : r'.messages = queue.foldl (fun messages i => messages.modify i change) r.messages) : Unaltered r r' := by
  intro j m hm
  rw [h]
  exact foldl_modify_keeps (fun m' hm' => hm'.trans (hchange m')) _ _ ⟨m, hm, ⟨rfl, rfl, rfl⟩⟩

theorem Unaltered.trans (h : Unaltered r r') (h' : Unaltered r' r'') : Unaltered r r'' := by
  intro j m hm
  obtain ⟨m₁, hm₁, halike₁⟩ := h j m hm
  obtain ⟨m₂, hm₂, halike₂⟩ := h' j m₁ hm₁
  exact ⟨m₂, hm₂, halike₁.trans halike₂⟩

theorem Unaltered.propagated (h : Unaltered r r') (hj : r.Propagated j) : r'.Propagated j := by
  obtain ⟨m, hm, hmethod⟩ := hj
  obtain ⟨m', hm', halike⟩ := h j m hm
  exact ⟨m', hm', halike.method.trans hmethod⟩

/-- Nothing is sent. -/
structure Still (r r' : OutboundRouter) : Prop where
  transmissions : r'.transmissions = r.transmissions
  receipts : r'.receipts ⊆ r.receipts
  resources : r'.resources ⊆ r.resources
  unaltered : Unaltered r r'
  grows : r.messages.length ≤ r'.messages.length

theorem Still.routed (h : Still r r') (hrouted : r.Routed) : r'.Routed :=
  ⟨fun x hx hkind => h.unaltered.propagated (hrouted.receipts x (h.receipts hx) hkind),
    fun x hx hkind => h.unaltered.propagated (hrouted.resources x (h.resources hx) hkind)⟩

theorem Still.of_eq (htransmissions : r'.transmissions = r.transmissions) (hreceipts : r'.receipts = r.receipts)
    (hresources : r'.resources = r.resources) (hmessages : r'.messages = r.messages) : Still r r' :=
  ⟨htransmissions, fun _ hx => hreceipts ▸ hx, fun _ hx => hresources ▸ hx, .of_eq hmessages,
    Nat.le_of_eq (congrArg length hmessages).symm⟩

/-- A step that changes only messages which the router still holds. -/
structure Harmless (r r' : OutboundRouter) : Prop extends SameQueues r r', Still r r' where
  calls : r'.calls = r.calls
  messages : ∀ i, ¬r.Waiting i → r'.messages[i]? = r.messages[i]?
  flags : r'.resourceLinkPending = r.resourceLinkPending

theorem Harmless.trans (h : Harmless r r') (h' : Harmless r' r'') : Harmless r r'' where
  toSameQueues := h.toSameQueues.trans h'.toSameQueues
  transmissions := h'.transmissions.trans h.transmissions
  receipts := Subset.trans h'.receipts h.receipts
  resources := Subset.trans h'.resources h.resources
  unaltered := h.unaltered.trans h'.unaltered
  grows := Nat.le_trans h.grows h'.grows
  calls := h'.calls.trans h.calls
  messages := by
    intro i hi
    rw [h'.messages i (h.waiting.not.mpr hi), h.messages i hi]
  flags := h'.flags.trans h.flags

section Harmless
variable {link linkMessage : Option Nat} {messages : List OutboundMessage}

theorem Harmless.of_messages (hlength : messages.length = r.messages.length)
    (hunaltered : Unaltered r { r with messages }) (hmessages : ∀ i, ¬r.Waiting i → messages[i]? = r.messages[i]?) :
    Harmless r { r with messages, outboundPropagationLink := link, outboundPropagationLinkMessage := linkMessage } :=
  ⟨⟨rfl, rfl, rfl, hlength, fun _ => id⟩, ⟨rfl, fun _ => id, fun _ => id, hunaltered, Nat.le_of_eq hlength.symm⟩, rfl,
    hmessages, rfl⟩

theorem Harmless.of_links {links : Table Nat} {resourceLinks : List Bytes} {propagationNode : Bool} {now : Time} :
    Harmless r { r with directLinks := links, resourceLinks, propagationNode, now } :=
  ⟨⟨rfl, rfl, rfl, rfl, fun _ => id⟩, .of_eq rfl rfl rfl rfl, rfl, fun _ _ => rfl, rfl⟩

end Harmless

theorem modifyMessage_sameQueues : SameQueues r (r.modifyMessage k change) :=
  ⟨rfl, rfl, rfl, length_modify _ _ _, fun _ => id⟩

theorem cancelFirst_harmless {cancelState : MessageState} {among : List Nat}
    (h : ∀ i ∈ among, r.Waiting i) : Harmless r (r.cancelFirst messageID cancelState among) := by
  unfold cancelFirst
  split
  · exact .of_links
  · next k hfind =>
    refine .of_messages (length_modify _ _ _) (.of_modify (fun m => ?_) rfl) fun i hi => ?_
    · exact ⟨rfl, rfl, rfl⟩
    · refine getElem?_modify_ne _ _ ?_
      rintro rfl
      exact hi (h k (mem_of_find?_eq_some hfind))

theorem cancelOutbound_harmless {cancelState : MessageState} : Harmless r (r.cancelOutbound messageID cancelState) := by
  have hdeferred : Harmless r (r.cancelFirst messageID cancelState r.pendingDeferredStamps) :=
    cancelFirst_harmless fun i hi => .inr (.inl hi)
  exact hdeferred.trans (cancelFirst_harmless fun i hi => hdeferred.waiting.mpr (.inl hi))

theorem propagationLinkClosed_harmless {link : Nat} : Harmless r (r.propagationLinkClosed link) := by
  unfold propagationLinkClosed
  split
  · refine .of_messages (foldl_modify_length _) (.of_foldl (fun m => ?_) rfl) fun i hi => ?_
    · split <;> exact ⟨rfl, rfl, rfl⟩
    · exact foldl_modify_getElem? fun h => hi (.inl h)
  · exact .of_links

theorem directLinkClosed_harmless {destinationHash : Bytes} {link : Nat} :
    Harmless r (r.directLinkClosed destinationHash link) := by
  unfold directLinkClosed
  split
  · exact .of_links
  · exact .of_links

theorem announced_harmless {concerns : OutboundMessage → Bool} : Harmless r (r.announced concerns) := by
  refine .of_messages (foldl_modify_length _) (.of_foldl (fun m => ?_) rfl) fun i hi => ?_
  · split <;> exact ⟨rfl, rfl, rfl⟩
  · exact foldl_modify_getElem? fun h => hi (.inl h)

/-! ### Reports -/

/-- A packet or a resource reports on a message: its state is set, and perhaps its callback is called. -/
structure Reports (k : Nat) (change : OutboundMessage → OutboundMessage) (calls : List Nat) (r r' : OutboundRouter) :
    Prop extends SameQueues r r', Still r r' where
  messages : r'.messages = r.messages.modify k change
  calls : r'.calls.map (·.1) = r.calls.map (·.1) ++ calls
  reported : k ∈ r.reports
  flags : r'.resourceLinkPending = r.resourceLinkPending

theorem Reports.callsOf_eq {calls : List Nat}
    (h : Reports k change calls r r') : r'.callsOf i = r.callsOf i + calls.count i := by
  rw [callsOf, callsOf, h.calls, count_append]

theorem forgetLinkMessage_eq : r.forgetLinkMessage i = { r with
      outboundPropagationLinkMessage :=
        if r.outboundPropagationLinkMessage = some i then none else r.outboundPropagationLinkMessage } := by
  unfold forgetLinkMessage
  split
  · rfl
  · rfl

theorem Reports.intro {receipts : List Receipt} {resources : List OutboundResource} {calls notices : List (Nat × Callback)}
    {link : Option Nat} (hchange : ∀ m, Alike m (change m)) (hk : k ∈ r.reports) (hreceipts : receipts ⊆ r.receipts)
    (hresources : resources ⊆ r.resources) (hcalls : calls = r.calls ++ notices) (hnotices : ∀ c ∈ notices, c.1 = k := by simp) :
    Reports k change (notices.map (·.1)) r
      { r with
        receipts, resources, calls
        messages := r.messages.modify k change
        outboundPropagationLinkMessage := link } := by
  subst hcalls
  refine ⟨⟨rfl, rfl, rfl, length_modify _ _ _, fun j hj => ?_⟩,
    ⟨rfl, hreceipts, hresources, .of_modify hchange rfl,
      Nat.le_of_eq (length_modify _ _ _).symm⟩, rfl, map_append, hk, rfl⟩
  simp only [reports, mem_append, map_append] at hj ⊢
  rcases hj with (hj | hj) | hj | hj
  · exact .inl (.inl (map_subset _ hreceipts hj))
  · exact .inl (.inr (map_subset _ hresources hj))
  · exact .inr hj
  · obtain ⟨c, hc, rfl⟩ := mem_map.mp hj
    rw [hnotices c hc]
    simpa only [reports, mem_append] using hk

theorem timedOut_alike {kind : ReceiptKind} {retryAt : Time} : Alike m (timedOut kind retryAt m) := by
  cases kind <;> simp only [timedOut] <;> split <;> exact ⟨rfl, rfl, rfl⟩

theorem concluded_alike {propagated : Bool} {retryAt : Time} : Alike m (concluded propagated complete retryAt m) := by
  unfold concluded
  split_ifs <;> exact ⟨rfl, rfl, rfl⟩

theorem setState_alike (state : MessageState) (m : OutboundMessage) : Alike m { m with state } := ⟨rfl, rfl, rfl⟩

theorem mem_reports_of_receipt (h : receipt ∈ r.receipts) : receipt.message ∈ r.reports :=
  mem_append_left _ (mem_append_left _ (mem_map_of_mem h))

theorem mem_reports_of_resource (h : resource ∈ r.resources) : resource.message ∈ r.reports :=
  mem_append_left _ (mem_append_right _ (mem_map_of_mem h))

theorem receiptDelivered_reports (h : receipt ∈ r.receipts) :
    Reports receipt.message (fun m => { m with state := receipt.kind.reached }) [receipt.message] r
      (r.receiptDelivered receipt) := by
  have hnotices : ∀ c ∈ [(receipt.message, Callback.delivery)], c.1 = receipt.message := by simp
  have hk := mem_reports_of_receipt h
  unfold receiptDelivered
  cases receipt.kind with
  | propagated =>
    dsimp only
    rw [forgetLinkMessage_eq]
    exact .intro (setState_alike _) hk erase_subset (Subset.refl _) rfl hnotices
  | direct | raw => exact .intro (setState_alike _) hk erase_subset (Subset.refl _) rfl hnotices

theorem receiptTimedOut_reports (h : receipt ∈ r.receipts) :
    Reports receipt.message (timedOut receipt.kind (r.now + deliveryRetryWait)) [] r (r.receiptTimedOut receipt) := by
  have hk := mem_reports_of_receipt h
  have halike : ∀ {kind} m, Alike m (timedOut kind (r.now + deliveryRetryWait) m) := fun _ => timedOut_alike
  unfold receiptTimedOut
  cases receipt.kind with
  | propagated =>
    dsimp only
    rw [forgetLinkMessage_eq]
    exact .intro halike hk erase_subset (Subset.refl _) (append_nil _).symm
  | direct | raw => exact .intro halike hk erase_subset (Subset.refl _) (append_nil _).symm

theorem resourceConcluded_delivers (h : resource ∈ r.resources) (hcomplete : (resource.propagated && complete) = true) :
    Reports resource.message (fun m => { m with state := .sent }) [resource.message] r
      (r.resourceConcluded resource complete) := by
  have hnotices : ∀ c ∈ [(resource.message, Callback.delivery)], c.1 = resource.message := by simp
  unfold resourceConcluded
  rw [if_pos hcomplete, forgetLinkMessage_eq]
  exact .intro (setState_alike _) (mem_reports_of_resource h) (Subset.refl _) erase_subset rfl hnotices

theorem resourceConcluded_restates (h : resource ∈ r.resources)
    (hcomplete : (resource.propagated && complete) = false) :
    Reports resource.message (concluded resource.propagated complete (r.now + deliveryRetryWait)) [] r
      (r.resourceConcluded resource complete) := by
  unfold resourceConcluded
  dsimp only
  rw [if_neg (ne_true_of_eq_false hcomplete)]
  split
  · rw [forgetLinkMessage_eq]
    exact .intro (fun _ => concluded_alike) (mem_reports_of_resource h) (Subset.refl _) erase_subset (append_nil _).symm
  · exact .intro (fun _ => concluded_alike) (mem_reports_of_resource h) (Subset.refl _) erase_subset (append_nil _).symm

/-! ### Messages come in and get their stamps -/

theorem handleOutbound_cases {f : HandleFacts} (h : r.handleOutbound m f = some r') : defers (accepted m f) = true ∧
        r' = { r with
          messages := r.messages ++ [accepted m f]
          pendingDeferredStamps := r.deleteDeferred m.messageID ++ [r.messages.length] } ∨
      defers (accepted m f) = false ∧
        r' = { r with
          messages := r.messages ++ [accepted m f]
          pendingOutbound := r.pendingOutbound ++ [r.messages.length] } := by
  unfold handleOutbound at h
  split at h
  · cases h
  · split at h
    · dsimp only at h
      split at h
      · next hdefers => exact .inl ⟨hdefers, (Option.some.inj h).symm⟩
      · next hdefers => exact .inr ⟨eq_false_of_ne_true hdefers, (Option.some.inj h).symm⟩
    · cases h

theorem nodup_concat {l : List Nat} (h : l.Nodup) (hk : k ∉ l) : (l ++ [k]).Nodup :=
  h.append (nodup_singleton k) (disjoint_singleton.mpr hk)

theorem mem_deleteDeferred :
    i ∈ r.deleteDeferred messageID ↔ i ∈ r.pendingDeferredStamps ∧ r.messageIDOf i ≠ some messageID := by
  rw [deleteDeferred, mem_filter, decide_eq_true_eq]

theorem deleteDeferred_sublist : (r.deleteDeferred messageID).Sublist r.pendingDeferredStamps :=
  filter_sublist

theorem handleOutbound_wellFormed {f : HandleFacts} (h : WellFormed r) (hstep : r.handleOutbound m f = some r') :
    WellFormed r' := by
  have hnew : ∀ j, j = r.messages.length →
      r.messages.length ≤ j ∧ j < (r.messages ++ [accepted m f]).length := by
    rintro j rfl
    rw [length_append]
    exact ⟨Nat.le_refl _, Nat.lt_succ_self _⟩
  have hlength : r.messages.length ≤ (r.messages ++ [accepted m f]).length :=
    (sublist_append_left _ _).length_le
  have hfresh : ¬(r.Deferred r.messages.length ∨ r.Touched r.messages.length) :=
    fun hn => Nat.lt_irrefl _ (h.known _ hn)
  rcases handleOutbound_cases hstep with ⟨_, rfl⟩ | ⟨_, rfl⟩
  · refine h.of_step h.queue_nodup ?_ hlength ?_ fun j hj => .inl hj
    · exact nodup_concat (h.deferred_nodup.sublist deleteDeferred_sublist)
        fun hn => hfresh (.inl (.inl (mem_deleteDeferred.mp hn).1))
    · rintro j (hj | hj)
      · rcases mem_append.mp hj with hj | hj
        · exact .inl (.inl (mem_deleteDeferred.mp hj).1)
        · exact .inr (hnew j (mem_singleton.mp hj))
      · exact .inl (.inr hj)
  · refine h.of_step ?_ h.deferred_nodup hlength (fun j hj => .inl hj) ?_
    · exact nodup_concat h.queue_nodup fun hn => hfresh (.inr (.inl hn))
    · rintro j (hj | hj)
      · rcases mem_append.mp hj with hj | hj
        · exact .inl (.inl hj)
        · obtain rfl := mem_singleton.mp hj
          exact .inr ⟨fun hn => hfresh (.inl hn), .inr (hnew _ rfl)⟩
      · exact .inl (.inr hj)

/-- The stamps are done with: the message is queued, or is terminal and its callback is called. -/
structure Releases (k : Nat) (queued called : List Nat) (r r' : OutboundRouter) : Prop where
  deferred : r.Deferred k
  released : ¬r'.Deferred k
  kept : ∀ j, r'.Deferred j → r.Deferred j
  sublist : r'.pendingDeferredStamps.Sublist r.pendingDeferredStamps
  length : r'.messages.length = r.messages.length
  others : ∀ j, j ≠ k → r'.messages[j]? = r.messages[j]?
  pendingOutbound : r'.pendingOutbound = r.pendingOutbound ++ queued
  calls : r'.calls.map (·.1) = r.calls.map (·.1) ++ called
  reports : r'.reports = r.reports ++ called
  which : queued = [k] ∧ called = [] ∧ r'.messages[k]? = r.messages[k]? ∨
    queued = [] ∧ called = [k] ∧ r'.terminalState k ≠ none

theorem Releases.wellFormed {queued called : List Nat} (h : Releases k queued called r r') (hwell : WellFormed r) :
    WellFormed r' := by
  have huntouched := hwell.untouched k h.deferred
  have hmem : ∀ j, j ∈ queued ∨ j ∈ called → j = k := by
    intro j hj
    rcases h.which with ⟨rfl, rfl, _⟩ | ⟨rfl, rfl, _⟩ <;> simpa using hj
  refine hwell.of_step ?_ (hwell.deferred_nodup.sublist h.sublist) (Nat.le_of_eq h.length.symm)
    (fun j hj => .inl (h.kept j hj)) fun j hj => ?_
  · rw [h.pendingOutbound]
    rcases h.which with ⟨rfl, _⟩ | ⟨rfl, _⟩
    · exact nodup_concat hwell.queue_nodup fun hk => huntouched (.inl hk)
    · rw [append_nil]
      exact hwell.queue_nodup
  · rw [Touched, h.pendingOutbound, h.reports, mem_append, mem_append] at hj
    rcases hj with (hj | hj) | hj | hj
    · exact .inl (.inl hj)
    · obtain rfl := hmem j (.inl hj)
      exact .inr ⟨h.released, .inl h.deferred⟩
    · exact .inl (.inr hj)
    · obtain rfl := hmem j (.inr hj)
      exact .inr ⟨h.released, .inl h.deferred⟩

theorem startStamps_cases (h : r.startStamps = some r') :
    ∃ k rest m, r.stamping = none ∧ r.pendingDeferredStamps = k :: rest ∧ r.messages[k]? = some m ∧
      (m.state = .cancelled ∧ r' = { r with pendingDeferredStamps := rest }.call k .failed ∨
        r' = { r with stamping := some k }) := by
  unfold startStamps at h
  split at h
  · next k rest hstamping hdeferred =>
    split at h
    · cases h
    · next m hm =>
      refine ⟨k, rest, m, hstamping, hdeferred, hm, ?_⟩
      split at h
      · next hcancelled => exact .inl ⟨hcancelled, (Option.some.inj h).symm⟩
      · exact .inr (Option.some.inj h).symm
  · cases h

theorem call_reports {callback : Callback} : (r.call k callback).reports = r.reports ++ [k] := by
  rw [reports, call, map_append, ← append_assoc]
  rfl

theorem cancelled_releases {rest : List Nat} (h : WellFormed r) (hstamping : r.stamping = none)
    (hdeferred : r.pendingDeferredStamps = k :: rest) (hterminal : r.terminalState k ≠ none) :
    Releases k [] [k] r ({ r with pendingDeferredStamps := rest }.call k .failed) := by
  refine ⟨.inl (hdeferred ▸ mem_cons_self), ?_, ?_, ?_, rfl, fun _ _ => rfl, (append_nil _).symm,
    map_append, call_reports, .inr ⟨rfl, rfl, hterminal⟩⟩
  · rintro (hk | hk)
    · exact (nodup_cons.mp (hdeferred ▸ h.deferred_nodup)).1 hk
    · cases hstamping.symm.trans hk
  · exact fun j => Or.imp_left fun hj => hdeferred ▸ mem_cons_of_mem k hj
  · rw [hdeferred]
    exact sublist_cons_self k rest

theorem finishStamps_cases {f : StampFacts} (h : r.finishStamps f = some r') :
    ∃ k m, r.stamping = some k ∧ r.messages[k]? = some m ∧
      (stampResult m f = .made ∧ r' = { r with
          stamping := none
          pendingDeferredStamps := r.deleteDeferred m.messageID
          pendingOutbound := r.pendingOutbound ++ [k] } ∨
        stampResult m f ≠ .made ∧ ∃ change : OutboundMessage → OutboundMessage, (change m).terminal = true ∧
          (∀ m, Alike m (change m)) ∧
          r' = ({ r with
            stamping := none
            pendingDeferredStamps := r.deleteDeferred m.messageID }.modifyMessage k change).call k .failed) := by
  unfold finishStamps at h
  split at h
  · cases h
  · next k hstamping =>
    split at h
    · cases h
    · next m hm =>
      refine ⟨k, m, hstamping, hm, ?_⟩
      cases hresult : stampResult m f with
      | made =>
        rw [hresult] at h
        exact .inl ⟨rfl, (Option.some.inj h).symm⟩
      | interrupted =>
        rw [hresult] at h
        dsimp only at h
        split at h
        · next hcancelled =>
          refine .inr ⟨nofun, id, by rw [id, terminal, hcancelled], fun _ => ⟨rfl, rfl, rfl⟩, ?_⟩
          rw [modifyMessage, modify_id]
          exact (Option.some.inj h).symm
        · exact .inr ⟨nofun, fail, fail_terminal, fun _ => fail_alike, (Option.some.inj h).symm⟩
      | failed =>
        rw [hresult] at h
        exact .inr ⟨nofun, fail, fail_terminal, fun _ => fail_alike, (Option.some.inj h).symm⟩

theorem finishStamps_releases {f : StampFacts} (hstep : r.finishStamps f = some r') :
    ∃ k m queued called, r.stamping = some k ∧ r.messages[k]? = some m ∧ r'.stamping = none ∧
      r'.pendingDeferredStamps = r.deleteDeferred m.messageID ∧ Releases k queued called r r' := by
  obtain ⟨k, m, hstamping, hm, hcases⟩ := finishStamps_cases hstep
  have hID : r.messageIDOf k = some m.messageID := by rw [messageIDOf, hm]; rfl
  have hreleased : ¬(k ∈ r.deleteDeferred m.messageID ∨ none = some k) :=
    fun hk => hk.elim (fun hk => (mem_deleteDeferred.mp hk).2 hID) nofun
  have hkept : ∀ j, j ∈ r.deleteDeferred m.messageID ∨ none = some j → r.Deferred j :=
    fun j hj => hj.elim (fun hj => .inl (mem_deleteDeferred.mp hj).1) nofun
  rcases hcases with ⟨-, rfl⟩ | ⟨-, change, hterminal, -, rfl⟩
  · refine ⟨k, m, [k], [], hstamping, hm, rfl, rfl, ?_⟩
    exact ⟨.inr hstamping, hreleased, hkept, deleteDeferred_sublist, rfl, fun _ _ => rfl, rfl,
      (append_nil _).symm, (append_nil _).symm, .inl ⟨rfl, rfl, rfl⟩⟩
  · refine ⟨k, m, [], [k], hstamping, hm, rfl, rfl, ?_⟩
    refine ⟨.inr hstamping, hreleased, hkept, deleteDeferred_sublist, length_modify _ _ _, ?_,
      (append_nil _).symm, map_append, call_reports, .inr ⟨rfl, rfl, ?_⟩⟩
    · exact fun j hj => getElem?_modify_ne _ _ (Ne.symm hj)
    · refine Option.ne_none_iff_exists'.mpr ⟨(change m).state, terminalState_eq_some.mpr ⟨change m, ?_, hterminal, rfl⟩⟩
      exact (getElem?_modify_eq _ _ _).trans (congrArg _ hm)

/-! ### One step -/

def Action.minor : Action → Bool
  | .handleOutbound .. | .processOutbound _ | .startStamps | .finishStamps _ | .resourceLinkEstablished _ => false
  | _ => true

theorem step_minor {a : Action} (hstep : r.step a = some r') (ha : a.minor = true) :
    Harmless r r' ∨ ∃ k change calls, Reports k change calls r r' := by
  cases a with
  | handleOutbound | processOutbound | startStamps | finishStamps | resourceLinkEstablished => cases ha
  | cancelOutbound messageID cancelState => exact .inl (Option.some.inj hstep ▸ cancelOutbound_harmless)
  | delivered receipt =>
    obtain ⟨hmem, heq⟩ := Option.ite_none_right_eq_some.mp hstep
    exact .inr ⟨_, _, _, Option.some.inj heq ▸ receiptDelivered_reports hmem⟩
  | timedOut receipt =>
    obtain ⟨hmem, heq⟩ := Option.ite_none_right_eq_some.mp hstep
    exact .inr ⟨_, _, _, Option.some.inj heq ▸ receiptTimedOut_reports hmem⟩
  | concluded resource complete =>
    obtain ⟨hmem, heq⟩ := Option.ite_none_right_eq_some.mp hstep
    cases hcomplete : resource.propagated && complete with
    | true => exact .inr ⟨_, _, _, Option.some.inj heq ▸ resourceConcluded_delivers hmem hcomplete⟩
    | false => exact .inr ⟨_, _, _, Option.some.inj heq ▸ resourceConcluded_restates hmem hcomplete⟩
  | propagationLinkClosed link => exact .inl (Option.some.inj hstep ▸ propagationLinkClosed_harmless)
  | directLinkClosed destinationHash link => exact .inl (Option.some.inj hstep ▸ directLinkClosed_harmless)
  | deliveryAnnounced | propagationAnnounced => exact .inl (Option.some.inj hstep ▸ announced_harmless)
  | resourceLinkClosed | setPropagationNode | tick => exact .inl (Option.some.inj hstep ▸ .of_links)

/-- A step other than a pass sends nothing, and only an established link clears a flag. -/
theorem step_still {a : Action} (hstep : r.step a = some r') (ha : ∀ facts, a ≠ .processOutbound facts) :
    Still r r' ∧ ((∀ h, a ≠ .resourceLinkEstablished h) → r'.resourceLinkPending = r.resourceLinkPending) := by
  cases hminor : a.minor with
  | true =>
    rcases step_minor hstep hminor with h | ⟨_, _, _, h⟩
    · exact ⟨h.toStill, fun _ => h.flags⟩
    · exact ⟨h.toStill, fun _ => h.flags⟩
  | false =>
    cases a with
    | processOutbound facts => exact absurd rfl (ha facts)
    | handleOutbound m f =>
      have hunaltered : ∀ (j : Nat) (m' : OutboundMessage), r.messages[j]? = some m' →
          ∃ m'', (r.messages ++ [accepted m f])[j]? = some m'' ∧ Alike m' m'' := by
        intro j m' hm'
        exact ⟨m', (List.getElem?_append_left (List.getElem?_eq_some_iff.mp hm').1).trans hm', rfl, rfl, rfl⟩
      have hlength : r.messages.length ≤ (r.messages ++ [accepted m f]).length :=
        (sublist_append_left _ _).length_le
      rcases handleOutbound_cases hstep with ⟨-, rfl⟩ | ⟨-, rfl⟩
      · exact ⟨⟨rfl, fun _ => id, fun _ => id, hunaltered, hlength⟩, fun _ => rfl⟩
      · exact ⟨⟨rfl, fun _ => id, fun _ => id, hunaltered, hlength⟩, fun _ => rfl⟩
    | startStamps =>
      obtain ⟨k, rest, m, -, -, -, ⟨-, rfl⟩ | rfl⟩ := startStamps_cases hstep
      · exact ⟨.of_eq rfl rfl rfl rfl, fun _ => rfl⟩
      · exact ⟨.of_eq rfl rfl rfl rfl, fun _ => rfl⟩
    | finishStamps f =>
      obtain ⟨k, m, -, -, ⟨-, rfl⟩ | ⟨-, change, -, halike, rfl⟩⟩ := finishStamps_cases hstep
      · exact ⟨.of_eq rfl rfl rfl rfl, fun _ => rfl⟩
      · refine ⟨⟨rfl, fun _ => id, fun _ => id, .of_modify halike rfl, ?_⟩, fun _ => rfl⟩
        exact Nat.le_of_eq (length_modify _ _ _).symm
    | resourceLinkEstablished destinationHash =>
      cases hstep
      exact ⟨.of_eq rfl rfl rfl rfl, fun h => absurd rfl (h destinationHash)⟩
    | _ => cases hminor

theorem startStamps_wellFormed (h : WellFormed r) (hstep : r.startStamps = some r') : WellFormed r' := by
  obtain ⟨k, rest, m, hstamping, hdeferred, hm, ⟨hcancelled, rfl⟩ | rfl⟩ := startStamps_cases hstep
  · have hterminal : m.terminal = true := by rw [OutboundMessage.terminal, hcancelled]
    exact (cancelled_releases h hstamping hdeferred
      (Option.ne_none_iff_exists'.mpr ⟨m.state, terminalState_eq_some.mpr ⟨m, hm, hterminal, rfl⟩⟩)).wellFormed h
  · refine h.of_step h.queue_nodup h.deferred_nodup (Nat.le_refl _) (fun j hj => .inl ?_) fun j hj => .inl hj
    refine hj.elim .inl fun hk => .inl ?_
    cases hk
    exact hdeferred ▸ mem_cons_self

theorem step_wellFormed {a : Action} (h : WellFormed r) (hstep : r.step a = some r') : WellFormed r' := by
  cases hminor : a.minor with
  | true => exact (step_minor hstep hminor).elim (·.wellFormed h) fun ⟨_, _, _, hr⟩ => hr.wellFormed h
  | false =>
    cases a with
    | handleOutbound m f => exact handleOutbound_wellFormed h hstep
    | processOutbound facts =>
      cases hstep
      exact (processOutbound_passed h facts).wellFormed h
    | startStamps => exact startStamps_wellFormed h hstep
    | finishStamps f =>
      obtain ⟨_, _, _, _, -, -, -, -, hreleases⟩ := finishStamps_releases hstep
      exact hreleases.wellFormed h
    | resourceLinkEstablished destinationHash =>
      have hsame : SameQueues r r' := Option.some.inj hstep ▸ ⟨rfl, rfl, rfl, rfl, fun _ => id⟩
      exact hsame.wellFormed h
    | _ => cases hminor

theorem step_routed {a : Action} (hwell : WellFormed r) (h : r.Routed) (hstep : r.step a = some r') : r'.Routed := by
  by_cases ha : ∃ facts, a = .processOutbound facts
  · obtain ⟨facts, rfl⟩ := ha
    cases hstep
    exact (processOutbound_passed hwell facts).routed h
  · exact (step_still hstep (not_exists.mp ha)).1.routed h

def start (now : Time) : OutboundRouter := { now }

theorem start_wellFormed {now : Time} : WellFormed (start now) := by
  have hempty : ∀ j, ¬((start now).Deferred j ∨ (start now).Touched j) := by simp [start, Deferred, Touched, reports]
  exact ⟨nodup_nil, nodup_nil, fun j hj => absurd hj (hempty j), fun j hj => absurd (.inl hj) (hempty j)⟩

theorem start_routed {now : Time} : (start now).Routed := ⟨by simp [start], by simp [start]⟩

end OutboundRouter
end Reticulum.Lxmf
