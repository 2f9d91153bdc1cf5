import Reticulum.Theorems.Lxmf.Agreement
import Reticulum.Theorems.Lxmf.Draft

/-! # Stamps at the recipient

A message that was packed before the router learned about the cost or the ticket goes without a stamp. -/

namespace Reticulum.Lxmf

open Msgpack Transitions Draft Place

namespace Outgoing

variable {s s' : Outgoing} {a : Action} {tickets : List Bytes}
variable {m : Draft} {as : List Action}

/-! ### Runs -/

/-- A message in a queue is packed, and deferred only for a stamp. -/
structure Sound (s : Outgoing) : Prop where
  sendable : s.draft.Sendable
  propagation : s.draft.propagationStamp ≠ [] → s.draft.deferPropagationStamp = false
  packed : s.place ≠ .application → s.draft.packed ≠ []
  deferred : s.place = .deferred →
    s.draft.deferStamp = true ∨ s.draft.propagated = true ∧ s.draft.deferPropagationStamp = true

theorem step_cases (h : s.step a = some s') : (∃ f, a = .pack f ∧ s' = ⟨(s.draft.pack f).2, s.place⟩) ∨
      (∃ f, a = .handleOutbound f ∧ s.place = .application ∧
        s' = ⟨(s.draft.handleOutbound f).1, (s.draft.handleOutbound f).2⟩) ∨
      ∃ f, a = .processDeferredStamps f ∧ s.place = .deferred ∧
        s' = ⟨(s.draft.processDeferredStamps f).1, (s.draft.processDeferredStamps f).2⟩ := by
  cases a with
  | pack f => exact .inl ⟨f, rfl, (Option.some.inj h).symm⟩
  | handleOutbound f =>
    rw [step] at h
    split_ifs at h with hplace
    exact .inr (.inl ⟨f, rfl, hplace, (Option.some.inj h).symm⟩)
  | processDeferredStamps f =>
    rw [step] at h
    split_ifs at h with hplace
    exact .inr (.inr ⟨f, rfl, hplace, (Option.some.inj h).symm⟩)

theorem step_same (h : s.step a = some s') : s.draft.Same s'.draft := by
  obtain ⟨f, -, rfl⟩ | ⟨f, -, -, rfl⟩ | ⟨f, -, -, rfl⟩ := step_cases h
  · exact same_pack f
  · exact same_handleOutbound f
  · exact same_processDeferredStamps f

theorem handleOutbound_queued (hm : m.Sendable) {f : OutboundFacts} (h : (m.handleOutbound f).2 ≠ .application) :
    (m.handleOutbound f).1.packed ≠ [] ∧ (m.handleOutbound f).2 = (m.handleOutbound f).1.queue := by
  rcases handleOutbound_cases (m := m) f with ⟨⟨m', -, hf⟩, -⟩ | ⟨⟨hpacked, -⟩, hf⟩ | ⟨⟨-, hsuccess⟩, hf⟩
  all_goals rw [hf] at h ⊢
  · exact absurd rfl h
  · obtain ⟨_, _, _, _, heq, -⟩ := withStampFacts_eq (m := m) f
    refine ⟨?_, rfl⟩
    rwa [heq]
  · exact ⟨pack_packed ((same_withStampFacts f).sendable hm) hsuccess, rfl⟩

theorem processDeferredStamps_queued (hm : m.Sendable) (hpacked : m.packed ≠ []) {f : DeferredFacts}
    (h : (m.processDeferredStamps f).2 ≠ .application) :
    (m.processDeferredStamps f).1.packed ≠ [] ∧ (m.processDeferredStamps f).2 = .outbound := by
  rcases processDeferredStamps_cases (m := m) f with hf | hf | ⟨hfirst, hsecond, hf⟩
  all_goals rw [hf] at h ⊢
  · exact absurd rfl h
  · exact absurd rfl h
  · have hstage := stage_makeStamp (m := m) f
    exact ⟨(stage_makePropagationStamp f).packed (hstage.same.sendable hm) (hstage.packed hm hpacked hfirst) hsecond, rfl⟩

theorem Sound.step (hs : s.Sound) (h : s.step a = some s') : s'.Sound := by
  have hsame := step_same h
  suffices hqueue : (s'.place ≠ .application → s'.draft.packed ≠ []) ∧ (s'.place = .deferred →
      s'.draft.deferStamp = true ∨ s'.draft.propagated = true ∧ s'.draft.deferPropagationStamp = true) from
    ⟨hsame.sendable hs.sendable, hsame.propagation hs.propagation, hqueue.1, hqueue.2⟩
  obtain ⟨f, -, rfl⟩ | ⟨f, -, -, rfl⟩ | ⟨f, -, hplace, rfl⟩ := step_cases h
  · by_cases hplace : s.place = .application
    · dsimp only
      rw [hplace]
      exact ⟨fun h => absurd rfl h, noConfusion⟩
    · rw [pack_of_packed (hs.packed hplace)]
      exact ⟨hs.packed, hs.deferred⟩
  · refine ⟨fun hplace => (handleOutbound_queued hs.sendable hplace).1, fun hplace => ?_⟩
    have hqueued : (s.draft.handleOutbound f).2 ≠ .application := fun heq => noConfusion (hplace.symm.trans heq)
    have hqueue := (handleOutbound_queued hs.sendable hqueued).2.symm.trans hplace
    rw [queue] at hqueue
    split_ifs at hqueue with hwaits
    rwa [Bool.or_eq_true, Bool.and_eq_true] at hwaits
  · have hpacked : s.draft.packed ≠ [] := hs.packed (hplace ▸ nofun)
    refine ⟨fun h => (processDeferredStamps_queued hs.sendable hpacked h).1, fun hdeferred => ?_⟩
    have hqueued : (s.draft.processDeferredStamps f).2 ≠ .application :=
      fun heq => noConfusion (hdeferred.symm.trans heq)
    have houtbound := (processDeferredStamps_queued hs.sendable hpacked hqueued).2
    exact noConfusion (hdeferred.symm.trans houtbound)

def Action.Known (tickets : List Bytes) (a : Action) : Prop :=
  ∀ f, a = .handleOutbound f → f.ticket.length = ticketLength → f.ticket ∈ tickets

theorem genuine_step (hs : s.Sound) (hg : s.draft.Genuine tickets) (ha : a.Known tickets) (h : s.step a = some s') :
    s'.draft.Genuine tickets := by
  obtain ⟨f, -, rfl⟩ | ⟨f, rfl, -, rfl⟩ | ⟨f, -, hplace, rfl⟩ := step_cases h
  · exact genuine_pack hs.sendable hg f
  · exact genuine_handleOutbound hs.sendable hg (ha f rfl)
  · have hpacked : s.draft.packed ≠ [] := hs.packed (hplace ▸ nofun)
    exact genuine_processDeferredStamps hs.sendable hg hpacked f

/-- A message for which a stamp is wanted is queued as it was packed before, without a stamp. -/
def Bypasses (s : Outgoing) : Action → Prop
  | .handleOutbound f => (s.draft.packed ≠ [] ∧ s.draft.taken f = true) ∧ (s.draft.withStampFacts f).queue = .outbound ∧
      (s.draft.withStampFacts f).Wanted ∧ s.draft.stamp = []
  | _ => False

def Unstamped (s : Outgoing) : Prop := s.place = .outbound ∧ s.draft.Wanted ∧ s.draft.stamp = []

theorem queue_outbound (h : m.queue = .outbound) : m.deferStamp = false := by
  rw [queue] at h
  split_ifs at h with hwaits
  rw [Bool.or_eq_true, not_or] at hwaits
  exact Bool.eq_false_iff.mpr hwaits.1

theorem unstamped_handleOutbound (hm : s.draft.Sendable) (f : OutboundFacts) :
    Unstamped ⟨(s.draft.handleOutbound f).1, (s.draft.handleOutbound f).2⟩ ↔ s.Bypasses (.handleOutbound f) := by
  rw [Unstamped, Bypasses]
  rcases handleOutbound_cases (m := s.draft) f with ⟨⟨m', -, h⟩, hnot⟩ | ⟨htaken, h⟩ | ⟨⟨hpacked, hsuccess⟩, h⟩
  all_goals rw [h]
  · exact iff_of_false (fun h => noConfusion h.1) fun h => Bool.false_ne_true ((hnot h.1.1).symm.trans h.1.2)
  · obtain ⟨_, _, _, _, heq, -⟩ := withStampFacts_eq (m := s.draft) f
    have hstamp : (s.draft.withStampFacts f).stamp = s.draft.stamp := by rw [heq]
    rw [hstamp, and_iff_right htaken]
  · -- The message is packed now, and its stamp is not deferred.
    refine iff_of_false (fun ⟨hplace, hwanted, hnil⟩ => ?_) fun h => h.1.1 hpacked
    have hdefer := (pack_frame f.pack).2.2.symm.trans (queue_outbound hplace)
    exact pack_stamp_ne_nil ((same_withStampFacts f).sendable hm) ((wanted_pack f.pack).mp hwanted)
      (fun h => absurd h (Bool.eq_false_iff.mp hdefer)) hsuccess hnil

theorem unstamped_step (hs : s.Sound) (h : s.step a = some s') : s'.Unstamped ↔ s.Unstamped ∨ s.Bypasses a := by
  obtain ⟨f, rfl, rfl⟩ | ⟨f, rfl, hplace, rfl⟩ | ⟨f, rfl, hplace, rfl⟩ := step_cases h
  · by_cases hplace : s.place = .outbound
    · have hpacked : s.draft.packed ≠ [] := hs.packed (hplace ▸ nofun)
      rw [pack_of_packed hpacked]
      exact (or_iff_left fun h => h).symm
    · exact iff_of_false (fun h => hplace h.1) fun h => h.elim (fun h => hplace h.1) fun h => h
  · have hbefore : ¬s.Unstamped := fun h => noConfusion (hplace.symm.trans h.1)
    rw [or_iff_right hbefore]
    exact unstamped_handleOutbound hs.sendable f
  · have hpacked : s.draft.packed ≠ [] := hs.packed (hplace ▸ nofun)
    refine iff_of_false (fun h => ?_) fun h => ?_
    · exact processDeferredStamps_stamp hs.sendable hs.propagation (hs.deferred hplace) h.1 h.2.1 h.2.2
    · rcases h with h | h
      · exact noConfusion (hplace.symm.trans h.1)
      · exact h

theorem unstamped_run (hs : s.Sound) (hplace : s.place = .application)
    (hrun : run step s as = some s') : s'.Unstamped ↔ Happens step Bypasses s as := by
  have hbefore : ¬s.Unstamped := fun h => noConfusion (hplace.symm.trans h.1)
  rw [run_iff_happens Sound Unstamped (fun s a s' hs h => hs.step h) (fun s a s' hs h => unstamped_step hs h) as hs hrun,
    or_iff_right hbefore]

theorem messageID_run (hrun : run step s as = some s') (hs : s.draft.Written) (hs' : s'.draft.Written) :
    s'.draft.messageID = s.draft.messageID := by
  have hsame : s.draft.Same s'.draft :=
    Reachable.invariant ⟨as, hrun⟩ (fun t => s.draft.Same t.draft) (.refl _) fun t a t' h hstep => h.trans (step_same hstep)
  rw [hs'.messageID, hs.messageID, hsame.id hs.isUndated]

def foundTickets : List Action → List Bytes
  | [] => []
  | .handleOutbound f :: as => f.ticket :: foundTickets as
  | _ :: as => foundTickets as

theorem keeps_known (h : ∀ t ∈ foundTickets as, t.length = ticketLength → t ∈ tickets) :
    Keeps step (fun _ a => a.Known tickets) s as := by
  induction as generalizing s with
  | nil => trivial
  | cons a as ih =>
    cases a with
    | handleOutbound f =>
      refine ⟨fun f' heq => ?_, fun s' _ => ih fun t ht => h t (List.mem_cons_of_mem _ ht)⟩
      cases heq
      exact h f.ticket List.mem_cons_self
    | pack f | processDeferredStamps f => exact ⟨fun f' heq => Action.noConfusion heq, fun s' _ => ih h⟩

theorem Sound.of_new (hm : m.Sendable) (hnew : m.IsNew) : Sound ⟨m, .application⟩ :=
  ⟨hm, fun h => absurd hnew.propagationStamp h, fun h => absurd rfl h, noConfusion⟩

theorem genuine_of_new (hm : m.Sendable) (hnew : m.IsNew)
    (htickets : ∀ t ∈ m.outboundTicket :: foundTickets as, t.length = ticketLength → t ∈ tickets)
    (hrun : run step ⟨m, .application⟩ as = some s) : s.Sound ∧ s.draft.Genuine tickets := by
  refine run_induction (fun s => s.Sound ∧ s.draft.Genuine tickets)
    (fun _ _ _ ha hs h => ⟨hs.1.step h, genuine_step hs.1 hs.2 ha h⟩) as ⟨.of_new hm hnew, ?_⟩
    (keeps_known fun t ht => htickets t (List.mem_cons_of_mem _ ht)) hrun
  exact ⟨fun h => absurd hnew.packed h, htickets _ List.mem_cons_self, fun h => absurd hnew.stamp h⟩

end Outgoing

/-! ### The recipient -/

namespace Draft

variable {m : Draft} {tickets : List Bytes}

def payload (m : Draft) (hm : m.Sendable) (hstamp : m.stamp.length < 2 ^ 32) : WirePayload where
  timestamp := .float64 m.timestamp
  title := .bin m.title
  content := .bin m.content
  fields := written m.fields
  stamp := if m.stamp = [] then none else some m.stamp
  timestamp_number := rfl
  title_bytes := rfl
  content_bytes := rfl
  fields_map := by
    have := hm.fields_map
    cases hfields : m.fields with
    | map entries => rfl
    | _ =>
      rw [hfields] at this
      cases this
  canonical v hv := by
    simp only [List.mem_cons, List.not_mem_nil, or_false] at hv
    rcases hv with rfl | rfl | rfl | rfl
    · exact .float64 _
    · exact .bin hm.title
    · exact .bin hm.content
    · exact canonical_written hm.fields
  stamp_length s hs := by
    split_ifs at hs
    · cases hs
    · cases hs
      exact hstamp

theorem wire_payload (hm : m.Sendable) (hstamp : m.stamp.length < 2 ^ 32) :
    (m.payload hm hstamp).wire = written (.array m.wirePayload) := by
  rw [written, writtenItems_eq, WirePayload.wire, wirePayload]
  by_cases hnil : m.stamp = []
  · simp [payload, basePayload, hnil, written]
  · simp [payload, basePayload, hnil, written]

theorem unpackMessageFromBytes_packed (hm : m.Sendable) (hstamp : m.stamp.length < 2 ^ 32) (hw : m.Written)
    (verify : (sourceHash signature signedPart : Bytes) → Bool) (isBlackholed : (sourceHash : Bytes) → Bool)
    (ticketField : Value → Option (Float × Bytes)) (method : Method) :
    ∃ r, unpackMessageFromBytes (payloadTransport verify isBlackholed ticketField) m.packed method = some r ∧
      r.messageID = m.id ∧ r.stamp = m.stamp := by
  obtain ⟨signature, hsignature, hpacked⟩ := hw.packed
  let e : Envelope := ⟨m.destinationHash, m.sourceHash, signature, hm.destinationHash, hm.sourceHash, hsignature⟩
  let p := m.payload hm hstamp
  have hmessage : m.packed = e.message p := by rw [hpacked, Envelope.message, wire_payload]
  have hhashed := (e.rehashed_eq_iff p).mpr (hasBinKey_written hm.fields)
  refine ⟨_, hmessage ▸ e.unpackMessageFromBytes_message p verify isBlackholed ticketField method, ?_, ?_⟩
  · exact congrArg fullHash hhashed
  · change (if m.stamp = [] then none else some m.stamp).getD [] = m.stamp
    split_ifs with hnil
    · exact hnil.symm
    · rfl

end Draft

namespace Message

variable {r : Message} {m : Draft} {cost : Int} {tickets : List Bytes}

theorem matchesTicket_nil (h : r.stamp = []) : r.matchesTicket tickets = false := by
  rw [matchesTicket, List.any_eq_false]
  intro ticket _
  have hne : r.stamp ≠ truncatedHash (ticket ++ r.messageID) := h ▸ (truncatedHash_ne_nil _).symm
  simp [hne]

theorem validateStamp_nil (h : r.stamp = []) : r.validateStamp cost tickets = none := by
  rw [validateStamp, matchesTicket_nil h, if_neg Bool.false_ne_true, if_pos h]

theorem validateStamp_isSome (hid : r.messageID = m.id) (hstamp : r.stamp ≠ []) (haccepts : m.Accepts tickets r.stamp)
    (hcost : ∀ c, m.stampCost = some c → c = cost) : (r.validateStamp cost tickets).isSome = true := by
  rw [validateStamp]
  split_ifs with hmatches
  · rfl
  · obtain ⟨-, ⟨ticket, hmem, hlength, heq⟩ | ⟨c, workblock, hc, hmax, hworkblock, hvalue⟩⟩ := haccepts
    · have hticket : ticket ≠ [] := fun h => by
        rw [h] at hlength
        cases hlength
      have hmatch : r.matchesTicket tickets = true := by
        rw [matchesTicket, List.any_eq_true]
        exact ⟨ticket, hmem, by simp [hticket, heq, hid, id_ne_nil]⟩
      exact absurd hmatch hmatches
    · obtain rfl := hcost c hc
      have hvalid : stampValid r.stamp c workblock = true := by
        rw [stampValid, if_neg (Int.not_lt.mpr hmax)]
        split_ifs
        · rfl
        · exact decide_eq_true hvalue
      rw [hid, hworkblock]
      simp [hvalid]

end Message

/-- The recipient accepts the stamp just when the message was not packed without one before it was handed over. -/
theorem stamp_validated_iff (verify : (sourceHash signature signedPart : Bytes) → Bool)
    (isBlackholed : (sourceHash : Bytes) → Bool) (ticketField : Value → Option (Float × Bytes)) (method : Method)
    {m : Draft} (hm : m.Sendable) (hnew : m.IsNew) {as : List Outgoing.Action} {s : Outgoing}
    (hrun : run Outgoing.step ⟨m, .application⟩ as = some s) (hplace : s.place = .outbound) {cost : Int}
    {tickets : List Bytes}
    (htickets : ∀ t ∈ m.outboundTicket :: Outgoing.foundTickets as, t.length = ticketLength → t ∈ tickets)
    (hcost : ∀ c, s.draft.stampCost = some c → c = cost) (hwanted : s.draft.Wanted) :
    (∀ bs cs s₁, as = bs ++ cs → run Outgoing.step ⟨m, .application⟩ bs = some s₁ → s₁.draft.packed ≠ [] →
      s₁.draft.messageID = s.draft.messageID) ∧
    ∃ r, unpackMessageFromBytes (payloadTransport verify isBlackholed ticketField) s.draft.packed method = some r ∧
      r.messageID = s.draft.messageID ∧
      ((r.validateStamp cost tickets).isSome = true ↔
        ¬Happens Outgoing.step Outgoing.Bypasses ⟨m, .application⟩ as) := by
  obtain ⟨hs, hg⟩ := Outgoing.genuine_of_new hm hnew htickets hrun
  have hwritten : s.draft.Written := hg.written (hs.packed (hplace ▸ nofun))
  constructor
  · rintro bs cs s₁ rfl hbs hpacked
    obtain ⟨s₂, hs₂, hcs⟩ := run_append.mp hrun
    obtain rfl := Option.some.inj (hs₂.symm.trans hbs)
    have hg₂ := (Outgoing.genuine_of_new hm hnew (fun t ht _ => ht) hbs).2
    exact (Outgoing.messageID_run hcs (hg₂.written hpacked) hwritten).symm
  · have hlength : s.draft.stamp.length < 2 ^ 32 := by
      by_cases hnil : s.draft.stamp = []
      · rw [hnil]
        decide
      · exact (hg.stamp hnil).2.1
    obtain ⟨r, hr, hid, hstamp⟩ :=
      Draft.unpackMessageFromBytes_packed hs.sendable hlength hwritten verify isBlackholed ticketField method
    refine ⟨r, hr, hid.trans hwritten.messageID.symm, ?_⟩
    have hunstamped : s.draft.stamp = [] ↔ Happens Outgoing.step Outgoing.Bypasses ⟨m, .application⟩ as := by
      rw [← Outgoing.unstamped_run (Outgoing.Sound.of_new hm hnew) rfl hrun]
      exact ⟨fun hnil => ⟨hplace, hwanted, hnil⟩, fun h => h.2.2⟩
    rw [← hunstamped]
    constructor
    · intro hvalid hnil
      rw [Message.validateStamp_nil (hstamp.trans hnil)] at hvalid
      cases hvalid
    · intro hne
      have haccepts := (hg.stamp hne).2
      rw [← hstamp] at hne haccepts
      exact Message.validateStamp_isSome hid hne haccepts hcost

namespace Sample

def packFacts : PackFacts where
  now := 1
  hashVisit := GoValue.straight
  wireVisit := GoValue.straight
  candidates := []
  sign _ := List.replicate 64 0
  now_pos := by decide
  candidates_length _ h := absurd h List.not_mem_nil
  sign_length _ := List.length_replicate

def letter : Draft := { destinationHash := List.replicate 16 1, sourceHash := List.replicate 16 2, content := [104, 105] }

theorem letter_sendable : letter.Sendable where
  destinationHash := rfl
  sourceHash := rfl
  title := by decide
  content := by decide
  fields_map := rfl
  fields := .map (by decide) (by simp) (by simp) (by simp) (by simp) (by simp)

def ticket : Bytes := List.replicate 16 3

def ticketed : List Outgoing.Action := [.handleOutbound { ticket, pack := packFacts }]

def packedFirst : List Outgoing.Action := .pack packFacts :: ticketed

theorem ticketed_validates : ∃ s r, run Outgoing.step ⟨letter, .application⟩ ticketed = some s ∧
    unpackMessageFromBytes (payloadTransport (fun _ _ _ => true) (fun _ => false) fun _ => none) s.draft.packed .direct =
      some r ∧ (r.validateStamp 8 [ticket]).isSome = true := by
  obtain ⟨s, hrun, hplace, hticket, hcost⟩ : ∃ s ∈ run Outgoing.step ⟨letter, .application⟩ ticketed,
      s.place = .outbound ∧ s.draft.outboundTicket = ticket ∧ s.draft.stampCost = none := by
    decide +kernel
  have hwanted : s.draft.Wanted := .inl (by rw [hticket]; rfl)
  have htickets : ∀ t ∈ letter.outboundTicket :: Outgoing.foundTickets ticketed, t.length = ticketLength → t ∈ [ticket] := by
    decide
  obtain ⟨-, r, hr, -, hvalid⟩ := stamp_validated_iff (fun _ _ _ => true) (fun _ => false) (fun _ => none) .direct
    letter_sendable ⟨rfl, rfl, rfl⟩ hrun hplace htickets (fun c hc => by rw [hcost] at hc; cases hc) hwanted
  refine ⟨s, r, hrun, hr, hvalid.mpr fun h => ?_⟩
  rcases h with h | ⟨s', -, h⟩
  · exact h.1.1 rfl
  · exact h

/-- The message goes to the queue as the application has packed it, and the recipient finds no stamp. -/
theorem packedFirst_unstamped : ∃ s r, run Outgoing.step ⟨letter, .application⟩ packedFirst = some s ∧
    s.place = .outbound ∧ s.draft.outboundTicket = ticket ∧
    unpackMessageFromBytes (payloadTransport (fun _ _ _ => true) (fun _ => false) fun _ => none) s.draft.packed .direct =
      some r ∧ r.stamp = [] ∧ r.validateStamp 8 [ticket] = none := by
  obtain ⟨s, hrun, hplace, hticket, hstamp⟩ : ∃ s ∈ run Outgoing.step ⟨letter, .application⟩ packedFirst,
      s.place = .outbound ∧ s.draft.outboundTicket = ticket ∧ s.draft.stamp = [] := by
    decide +kernel
  obtain ⟨hsound, hgenuine⟩ := Outgoing.genuine_of_new letter_sendable ⟨rfl, rfl, rfl⟩ (fun t ht _ => ht) hrun
  have hwritten := hgenuine.written (hsound.packed (by rw [hplace]; exact Place.noConfusion))
  have hlength : s.draft.stamp.length < 2 ^ 32 := by
    rw [hstamp]
    decide
  obtain ⟨r, hr, -, hnil⟩ := Draft.unpackMessageFromBytes_packed hsound.sendable hlength hwritten (fun _ _ _ => true)
    (fun _ => false) (fun _ => none) .direct
  exact ⟨s, r, hrun, hplace, hticket, hr, hnil.trans hstamp, Message.validateStamp_nil (hnil.trans hstamp)⟩

end Sample

end Reticulum.Lxmf
