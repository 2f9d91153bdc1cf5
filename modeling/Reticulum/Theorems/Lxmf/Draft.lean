import Reticulum.Lxmf.Draft
import Reticulum.Lxmf.Payload
import Reticulum.Theorems.Msgpack.Sorted

/-! # Packing and stamping

The ID of a message does not depend on its stamp. -/

namespace Reticulum.Lxmf

open Msgpack List Option

namespace Draft

variable {m m' : Draft} {tickets : List Bytes} {stamp : Bytes} {f : PackFacts}

structure Sendable (m : Draft) : Prop where
  destinationHash : m.destinationHash.length = destinationLength
  sourceHash : m.sourceHash.length = destinationLength
  title : m.title.length < 2 ^ 32
  content : m.content.length < 2 ^ 32
  fields_map : isPayloadMap m.fields = true
  fields : Msgpack.Sendable m.fields

structure IsNew (m : Draft) : Prop where
  stamp : m.stamp = []
  propagationStamp : m.propagationStamp = []
  packed : m.packed = []

def Wanted (m : Draft) : Prop := m.outboundTicket.length = ticketLength ∨ ∃ cost ∈ m.stampCost, 1 ≤ cost ∧ cost ≤ 256

def id (m : Draft) : Bytes :=
  fullHash (m.destinationHash ++ m.sourceHash ++ Msgpack.pack false (written (.array m.basePayload)))

theorem id_ne_nil : m.id ≠ [] := by
  intro h
  have := length_fullHash (m.destinationHash ++ m.sourceHash ++ Msgpack.pack false (written (.array m.basePayload)))
  rw [← id, h] at this
  cases this

/-! ### The content of a message -/

/-- Nothing changes what is hashed, once the message is dated; a stamp for the node ends its deferral. -/
structure Same (m m' : Draft) : Prop where
  destinationHash : m'.destinationHash = m.destinationHash
  sourceHash : m'.sourceHash = m.sourceHash
  title : m'.title = m.title
  content : m'.content = m.content
  fields : m'.fields = m.fields
  timestamp : m.isUndated = false → m'.timestamp = m.timestamp
  propagation : (m.propagationStamp ≠ [] → m.deferPropagationStamp = false) →
    m'.propagationStamp ≠ [] → m'.deferPropagationStamp = false

theorem Same.refl (m : Draft) : Same m m := ⟨rfl, rfl, rfl, rfl, rfl, fun _ => rfl, fun h => h⟩

theorem Same.isUndated (h : Same m m') (hm : m.isUndated = false) : m'.isUndated = false := by
  rw [Draft.isUndated, h.timestamp hm]
  exact hm

theorem Same.trans {m'' : Draft} (h : Same m m') (h' : Same m' m'') : Same m m'' where
  destinationHash := h'.destinationHash.trans h.destinationHash
  sourceHash := h'.sourceHash.trans h.sourceHash
  title := h'.title.trans h.title
  content := h'.content.trans h.content
  fields := h'.fields.trans h.fields
  timestamp hm := (h'.timestamp (h.isUndated hm)).trans (h.timestamp hm)
  propagation hm := h'.propagation (h.propagation hm)

theorem Same.id (h : Same m m') (hm : m.isUndated = false) : m'.id = m.id := by
  rw [Draft.id, Draft.id, basePayload, basePayload, h.destinationHash, h.sourceHash, h.title, h.content, h.fields,
    h.timestamp hm]

theorem Same.sendable (h : Same m m') (hm : m.Sendable) : m'.Sendable where
  destinationHash := h.destinationHash ▸ hm.destinationHash
  sourceHash := h.sourceHash ▸ hm.sourceHash
  title := h.title ▸ hm.title
  content := h.content ▸ hm.content
  fields_map := h.fields ▸ hm.fields_map
  fields := h.fields ▸ hm.fields

/-! ### Packing -/

theorem sendable_basePayload (hm : m.Sendable) : Msgpack.Sendable (.array m.basePayload) := by
  refine .array (by simp [basePayload]) fun v hv => ?_
  simp only [basePayload, mem_cons, not_mem_nil, or_false] at hv
  rcases hv with rfl | rfl | rfl | rfl
  · exact .float64 _
  · exact .bin hm.title
  · exact .bin hm.content
  · exact hm.fields

theorem same_identified (f : PackFacts) : Same m (m.identified f) where
  destinationHash := rfl
  sourceHash := rfl
  title := rfl
  content := rfl
  fields := rfl
  timestamp hm := by simp [identified, dated, hm]
  propagation h := h

theorem isUndated_identified (f : PackFacts) : (m.identified f).isUndated = false := by
  by_cases h : m.isUndated = true
  · have hnow : (m.identified f).timestamp = f.now := by simp [identified, dated, h]
    rw [isUndated, hnow]
    exact decide_eq_false f.now_pos
  · exact (same_identified f).isUndated (Bool.eq_false_iff.mpr h)

theorem messageID_identified (hm : m.Sendable) (f : PackFacts) : (m.identified f).messageID = (m.identified f).id := by
  change fullHash ((m.identified f).hashedPart f.hashVisit) = _
  rw [hashedPart, packSorted_eq (sendable_basePayload ((same_identified f).sendable hm)), id]

def packedWith (m : Draft) (f : PackFacts) (stamp : Bytes) : Draft :=
  { m.identified f with stamp, packed := { m.identified f with stamp }.encode f }

theorem pack_cases (f : PackFacts) : m.pack f = (false, m) ∨ m.packed = [] ∧ m.pack f = (false, m.identified f) ∨
      m.packed = [] ∧ ∃ stamp, (m.identified f).packedStamp f.candidates = some stamp ∧
        m.pack f = (f.finishes, m.packedWith f stamp) := by
  by_cases hpacked : m.packed = []
  · rw [pack, if_neg (not_not.mpr hpacked)]
    split_ifs
    · exact .inl rfl
    · dsimp only
      cases hstamp : (m.identified f).packedStamp f.candidates with
      | none => exact .inr (.inl ⟨hpacked, rfl⟩)
      | some stamp => exact .inr (.inr ⟨hpacked, stamp, rfl, rfl⟩)
  · exact .inl (by rw [pack, if_pos hpacked])

theorem pack_of_packed (h : m.packed ≠ []) (f : PackFacts) : m.pack f = (false, m) := by
  rw [pack, if_pos h]

theorem same_pack (f : PackFacts) : Same m (m.pack f).2 := by
  rcases pack_cases f with h | ⟨-, h⟩ | ⟨-, stamp, -, h⟩
  · exact h ▸ .refl m
  · exact h ▸ same_identified f
  · obtain ⟨h₁, h₂, h₃, h₄, h₅, h₆, h₇⟩ := same_identified (m := m) f
    exact h ▸ ⟨h₁, h₂, h₃, h₄, h₅, h₆, h₇⟩

/-! ### Stamps -/

variable {candidates : List Bytes}

theorem generateStamp_spec {material : Bytes} {cost : Int} {rounds : Nat}
    (h : generateStamp material cost rounds candidates = some stamp) (hcost : 0 ≤ cost) :
    cost ≤ 256 ∧ stamp ∈ candidates ∧
      ∃ workblock, stampWorkblock material rounds = some workblock ∧ cost ≤ stampValue workblock stamp := by
  rw [generateStamp, if_neg (Int.not_lt.mpr hcost)] at h
  split_ifs at h with hmax
  obtain ⟨workblock, hworkblock, hfind⟩ := bind_eq_some_iff.mp h
  have hvalue := find?_some hfind
  exact ⟨Int.not_lt.mp hmax, mem_of_find?_eq_some hfind, workblock, hworkblock, of_decide_eq_true hvalue⟩

def Accepts (m : Draft) (tickets : List Bytes) (stamp : Bytes) : Prop :=
  stamp.length < 2 ^ 32 ∧
    ((∃ ticket ∈ tickets, ticket.length = ticketLength ∧ stamp = truncatedHash (ticket ++ m.id)) ∨
      ∃ cost workblock, m.stampCost = some cost ∧ cost ≤ 256 ∧
        stampWorkblock m.id workblockExpandRounds = some workblock ∧ cost ≤ stampValue workblock stamp)

theorem Accepts.mono (h : m.Accepts tickets stamp) (hid : m'.id = m.id)
    (hcost : ∀ c, m.stampCost = some c → m'.stampCost = some c) : m'.Accepts tickets stamp := by
  rw [Accepts, hid]
  obtain ⟨hlength, hticket | ⟨cost, workblock, hc, hmax, hworkblock, hvalue⟩⟩ := h
  · exact ⟨hlength, .inl hticket⟩
  · exact ⟨hlength, .inr ⟨cost, workblock, hcost cost hc, hmax, hworkblock, hvalue⟩⟩

theorem truncatedHash_ne_nil (data : Bytes) : truncatedHash data ≠ [] := by
  intro h
  have := length_truncatedHash data
  rw [h] at this
  cases this

theorem getStamp_cases (hid : m.messageID ≠ []) (h : m.getStamp candidates = some stamp) :
    m.outboundTicket.length = ticketLength ∧ stamp = truncatedHash (m.outboundTicket ++ m.messageID) ∨
      m.outboundTicket.length ≠ ticketLength ∧ (m.stampCost = none ∧ stamp = [] ∨ ∃ cost, m.stampCost = some cost ∧
        (m.stamp ≠ [] ∧ stamp = m.stamp ∨ generateStamp m.messageID cost workblockExpandRounds candidates = some stamp)) := by
  rw [getStamp] at h
  by_cases hticket : m.outboundTicket.length = ticketLength
  · rw [if_pos ⟨hticket, hid⟩] at h
    exact .inl ⟨hticket, (some.inj h).symm⟩
  · refine .inr ⟨hticket, ?_⟩
    rw [if_neg fun hknown => hticket hknown.1] at h
    cases hraw : m.rawStampCost with
    | true => simp [hraw] at h
    | false =>
      rw [hraw, if_neg Bool.false_ne_true] at h
      cases hcost : m.stampCost with
      | none =>
        rw [hcost] at h
        exact .inl ⟨rfl, (some.inj h).symm⟩
      | some cost =>
        rw [hcost] at h
        refine .inr ⟨cost, rfl, ?_⟩
        by_cases hstamp : m.stamp ≠ []
        · exact .inl ⟨hstamp, (some.inj ((if_pos hstamp).symm.trans h)).symm⟩
        · exact .inr ((if_neg hstamp).symm.trans h)

theorem getStamp_accepts (hcandidates : ∀ c ∈ candidates, c.length = stampSize)
    (hid : m.messageID = m.id) (hticket : m.outboundTicket.length = ticketLength → m.outboundTicket ∈ tickets)
    (hold : m.stamp ≠ [] → m.Accepts tickets m.stamp) (h : m.getStamp candidates = some stamp) (hne : stamp ≠ []) :
    m.Accepts tickets stamp := by
  rcases getStamp_cases (hid ▸ id_ne_nil) h with
    ⟨hknown, rfl⟩ | ⟨-, ⟨-, hnil⟩ | ⟨cost, hcost, ⟨hstamp, rfl⟩ | hmade⟩⟩
  · refine ⟨?_, .inl ⟨_, hticket hknown, hknown, by rw [hid]⟩⟩
    rw [length_truncatedHash]
    decide
  · exact absurd hnil hne
  · exact hold hstamp
  · by_cases hneg : cost < 0
    · rw [generateStamp, if_pos hneg] at hmade
      exact absurd (some.inj hmade).symm hne
    · obtain ⟨hmax, hmem, workblock, hworkblock, hvalue⟩ := generateStamp_spec hmade (Int.not_lt.mp hneg)
      refine ⟨?_, .inr ⟨cost, workblock, hcost, hmax, hid ▸ hworkblock, hvalue⟩⟩
      rw [hcandidates stamp hmem]
      decide

theorem getStamp_ne_nil (hcandidates : ∀ c ∈ candidates, c.length = stampSize)
    (hid : m.messageID ≠ []) (hwanted : m.Wanted) (h : m.getStamp candidates = some stamp) : stamp ≠ [] := by
  rcases getStamp_cases hid h with ⟨-, rfl⟩ | ⟨hunknown, ⟨hnone, -⟩ | ⟨cost, hcost, ⟨hstamp, rfl⟩ | hmade⟩⟩
  · exact truncatedHash_ne_nil _
  · rcases hwanted with hticket | ⟨cost, hcost, -⟩
    · exact absurd hticket hunknown
    · rw [hnone] at hcost
      cases hcost
  · exact hstamp
  · rcases hwanted with hticket | ⟨cost', hcost', hmin, -⟩
    · exact absurd hticket hunknown
    · obtain rfl := some.inj (hcost.symm.trans hcost')
      obtain ⟨-, hmem, -⟩ := generateStamp_spec hmade (Int.le_trans (by decide) hmin)
      intro hnil
      have := hcandidates stamp hmem
      rw [hnil] at this
      cases this

theorem pack_success (h : (m.pack f).1 = true) :
    ∃ stamp, (m.identified f).packedStamp f.candidates = some stamp ∧ (m.pack f).2 = m.packedWith f stamp := by
  rcases pack_cases (m := m) f with hpack | ⟨-, hpack⟩ | ⟨-, stamp, hmade, hpack⟩
  all_goals rw [hpack] at h ⊢
  · cases h
  · cases h
  · exact ⟨stamp, hmade, rfl⟩

theorem pack_stamp_ne_nil (hm : m.Sendable) (hwanted : m.Wanted) (hstamp : m.deferStamp = true → m.stamp ≠ [])
    (h : (m.pack f).1 = true) : (m.pack f).2.stamp ≠ [] := by
  obtain ⟨stamp, hmade, hpack⟩ := pack_success h
  rw [hpack]
  rw [packedStamp] at hmade
  split_ifs at hmade with hdefer
  · cases hmade
    exact hstamp hdefer
  · have hid : (m.identified f).messageID ≠ [] := messageID_identified hm f ▸ id_ne_nil
    have hwanted' : (m.identified f).Wanted := hwanted
    exact getStamp_ne_nil f.candidates_length hid hwanted' hmade

/-! ### Sound messages -/

structure Written (m : Draft) : Prop where
  isUndated : m.isUndated = false
  messageID : m.messageID = m.id
  packed : ∃ signature : Bytes, signature.length = signatureLength ∧
    m.packed = m.destinationHash ++ m.sourceHash ++ signature ++ Msgpack.pack false (written (.array m.wirePayload))

structure Genuine (tickets : List Bytes) (m : Draft) : Prop where
  written : m.packed ≠ [] → m.Written
  ticket : m.outboundTicket.length = ticketLength → m.outboundTicket ∈ tickets
  stamp : m.stamp ≠ [] → m.isUndated = false ∧ m.Accepts tickets m.stamp

theorem sendable_wirePayload (hm : m.Sendable) (hlength : m.stamp.length < 2 ^ 32) :
    Msgpack.Sendable (.array m.wirePayload) := by
  obtain ⟨-, hbase⟩ : m.basePayload.length < 2 ^ 32 ∧ ∀ v ∈ m.basePayload, Msgpack.Sendable v := by
    cases sendable_basePayload hm with
    | array hlen hitems => exact ⟨hlen, hitems⟩
  rw [wirePayload]
  split_ifs
  · rw [append_nil]
    exact sendable_basePayload hm
  · refine .array (by simp [basePayload]) fun v hv => ?_
    rcases mem_append.mp hv with hv | hv
    · exact hbase v hv
    · obtain rfl := mem_singleton.mp hv
      exact .bin hlength

theorem genuine_identified (hg : m.Genuine tickets) (hpacked : m.packed = []) (f : PackFacts) :
    (m.identified f).Genuine tickets where
  written h := absurd hpacked h
  ticket := hg.ticket
  stamp h := by
    obtain ⟨hdated, haccepts⟩ := hg.stamp h
    exact ⟨isUndated_identified f, haccepts.mono ((same_identified f).id hdated) fun _ hc => hc⟩

theorem packedStamp_accepts (hm : m.Sendable) (hg : m.Genuine tickets) (hpacked : m.packed = [])
    (h : (m.identified f).packedStamp f.candidates = some stamp) (hne : stamp ≠ []) :
    (m.identified f).Accepts tickets stamp := by
  have hg' := genuine_identified hg hpacked f
  rw [packedStamp] at h
  split_ifs at h
  · cases h
    exact (hg'.stamp hne).2
  · exact getStamp_accepts f.candidates_length (messageID_identified hm f) hg'.ticket (fun hs => (hg'.stamp hs).2) h hne

theorem genuine_pack (hm : m.Sendable) (hg : m.Genuine tickets) (f : PackFacts) : (m.pack f).2.Genuine tickets := by
  rcases pack_cases (m := m) f with hpack | ⟨hpacked, hpack⟩ | ⟨hpacked, stamp, hmade, hpack⟩
  · rwa [hpack]
  · rw [hpack]
    exact genuine_identified hg hpacked f
  · rw [hpack]
    have hsame : Same (m.identified f) (m.packedWith f stamp) := { Same.refl (m.identified f) with }
    have hdated : (m.packedWith f stamp).isUndated = false := isUndated_identified f
    have haccepts : stamp ≠ [] → (m.packedWith f stamp).Accepts tickets stamp := fun hne =>
      (packedStamp_accepts hm hg hpacked hmade hne).mono (hsame.id (isUndated_identified f)) fun _ hc => hc
    have hlength : stamp.length < 2 ^ 32 := by
      by_cases hne : stamp = []
      · rw [hne]
        decide
      · exact (haccepts hne).1
    have hsendable := hsame.sendable ((same_identified f).sendable hm)
    refine ⟨fun _ => ⟨hdated, messageID_identified hm f, ?_⟩, hg.ticket, fun hne => ⟨hdated, haccepts hne⟩⟩
    exact ⟨f.sign _, f.sign_length _, congrArg _ (packSorted_eq (sendable_wirePayload hsendable hlength))⟩

theorem pack_frame (f : PackFacts) : (m.pack f).2.outboundTicket = m.outboundTicket ∧
    (m.pack f).2.stampCost = m.stampCost ∧ (m.pack f).2.deferStamp = m.deferStamp := by
  rcases pack_cases (m := m) f with h | ⟨-, h⟩ | ⟨-, stamp, -, h⟩
  all_goals rw [h]
  · exact ⟨rfl, rfl, rfl⟩
  · exact ⟨rfl, rfl, rfl⟩
  · exact ⟨rfl, rfl, rfl⟩

theorem wanted_pack (f : PackFacts) : (m.pack f).2.Wanted ↔ m.Wanted := by
  obtain ⟨hticket, hcost, -⟩ := pack_frame (m := m) f
  rw [Wanted, Wanted, hticket, hcost]

theorem pack_packed (hm : m.Sendable) (h : (m.pack f).1 = true) : (m.pack f).2.packed ≠ [] := by
  obtain ⟨stamp, -, hpack⟩ := pack_success h
  rw [hpack]
  intro hnil
  have hdestination : m.destinationHash = [] := by
    simp only [packedWith, encode, append_eq_nil_iff] at hnil
    exact hnil.1.1.1
  have hlength := hm.destinationHash
  rw [hdestination] at hlength
  cases hlength

/-! ### Handing the message to the router -/

variable (f : OutboundFacts)

theorem withStampFacts_eq : ∃ stampCost rawStampCost outboundTicket deferStamp,
    m.withStampFacts f = { m with stampCost, rawStampCost, outboundTicket, deferStamp } ∧
      (∀ c, m.stampCost = some c → stampCost = some c) ∧
      (outboundTicket = m.outboundTicket ∨ outboundTicket = f.ticket) := by
  refine ⟨_, _, _, _, rfl, fun c hc => ?_, ?_⟩
  · simp [hc]
  · split_ifs
    · exact .inr rfl
    · exact .inl rfl

theorem same_withStampFacts : Same m (m.withStampFacts f) := by
  obtain ⟨_, _, _, _, h, -⟩ := withStampFacts_eq (m := m) f
  exact h ▸ ⟨rfl, rfl, rfl, rfl, rfl, fun _ => rfl, fun h => h⟩

theorem genuine_withStampFacts (hg : m.Genuine tickets) {f : OutboundFacts}
    (hknown : f.ticket.length = ticketLength → f.ticket ∈ tickets) : (m.withStampFacts f).Genuine tickets := by
  obtain ⟨cost, _, ticket, _, h, hcost, hticket⟩ := withStampFacts_eq (m := m) f
  rw [h]
  refine ⟨fun hpacked => ?_, ?_, fun hstamp => ?_⟩
  · obtain ⟨h₁, h₂, h₃⟩ := hg.written hpacked
    exact ⟨h₁, h₂, h₃⟩
  · rcases hticket with rfl | rfl
    · exact hg.ticket
    · exact hknown
  · obtain ⟨hdated, haccepts⟩ := hg.stamp hstamp
    exact ⟨hdated, haccepts.mono rfl hcost⟩

/-- Whether there is a node for the message and the router takes it. -/
def taken (m : Draft) (f : OutboundFacts) : Bool := !(m.propagated && !f.propagationNode) && f.taken

def outcomes (m : Draft) (f : OutboundFacts) : List Draft :=
  [m, m.withStampFacts f, ((m.withStampFacts f).pack f.pack).2]

theorem handleOutbound_cases :
    (∃ m' ∈ m.outcomes f, m.handleOutbound f = (m', .application)) ∧ (m.packed ≠ [] → m.taken f = false) ∨
      (m.packed ≠ [] ∧ m.taken f = true) ∧ m.handleOutbound f = (m.withStampFacts f, (m.withStampFacts f).queue) ∨
      (m.packed = [] ∧ ((m.withStampFacts f).pack f.pack).1 = true) ∧ m.handleOutbound f =
        (((m.withStampFacts f).pack f.pack).2, ((m.withStampFacts f).pack f.pack).2.queue) := by
  obtain ⟨_, _, _, _, h, -⟩ := withStampFacts_eq (m := m) f
  have hsame : (m.withStampFacts f).packed = m.packed := by rw [h]
  rw [handleOutbound, outcomes, taken]
  by_cases hnode : (m.propagated && !f.propagationNode) = true
  · simp [hnode]
  · by_cases hpacked : m.packed = []
    · cases hsuccess : ((m.withStampFacts f).pack f.pack).1 <;> cases f.taken <;> simp [hsame, hnode, hsuccess, hpacked]
    · cases f.taken <;> simp [hsame, hnode, hpacked]

theorem handleOutbound_mem : (m.handleOutbound f).1 ∈ m.outcomes f := by
  rcases handleOutbound_cases (m := m) f with ⟨⟨m', hm', h⟩, -⟩ | ⟨-, h⟩ | ⟨-, h⟩
  all_goals rw [h]
  · exact hm'
  · simp [outcomes]
  · simp [outcomes]

theorem same_handleOutbound : Same m (m.handleOutbound f).1 := by
  have hfacts := same_withStampFacts (m := m) f
  refine forall_mem_cons.mpr ⟨.refl m, forall_mem_cons.mpr ⟨hfacts, ?_⟩⟩ _ (handleOutbound_mem f)
  exact forall_mem_singleton.mpr (hfacts.trans (same_pack f.pack))

theorem genuine_handleOutbound (hm : m.Sendable) (hg : m.Genuine tickets) {f : OutboundFacts}
    (hknown : f.ticket.length = ticketLength → f.ticket ∈ tickets) : (m.handleOutbound f).1.Genuine tickets := by
  have hfacts := genuine_withStampFacts hg hknown
  refine forall_mem_cons.mpr ⟨hg, forall_mem_cons.mpr ⟨hfacts, ?_⟩⟩ _ (handleOutbound_mem f)
  exact forall_mem_singleton.mpr (genuine_pack ((same_withStampFacts f).sendable hm) hfacts f.pack)

/-! ### Deferred stamps -/

def restamped (m : Draft) (stamp : Bytes) : Draft := { m with stamp, deferStamp := false }.resetPackedState

def propagationStamped (m : Draft) (propagationStamp : Bytes) : Draft :=
  { m with propagationStamp, deferPropagationStamp := false }.resetPackedState

variable (f : DeferredFacts)

theorem makeStamp_cases :
    (m.deferStamp = false ∨ m.stamp ≠ []) ∧ m.makeStamp f = (true, m) ∨ m.makeStamp f = (false, m) ∨
      ∃ stamp, m.getStamp f.candidates = some stamp ∧ stamp ≠ [] ∧ m.makeStamp f = (m.restamped stamp).pack f.first := by
  rw [makeStamp]
  split_ifs with h
  · simp only [Bool.or_eq_true, Bool.not_eq_true', decide_eq_true_eq] at h
    exact .inl ⟨h, rfl⟩
  · cases hmade : m.getStamp f.candidates with
    | none => exact .inr (.inl rfl)
    | some stamp =>
      by_cases hnil : stamp = []
      · exact .inr (.inl (if_pos hnil))
      · exact .inr (.inr ⟨stamp, rfl, hnil, if_neg hnil⟩)

theorem makePropagationStamp_cases :
    (m.propagated = false ∨ m.propagationStamp ≠ []) ∧ m.makePropagationStamp f = (true, m) ∨
      m.makePropagationStamp f = (false, m) ∨
      ∃ stamp, m.makePropagationStamp f = (m.propagationStamped stamp).pack f.second := by
  rw [makePropagationStamp]
  split_ifs with h
  · simp only [Bool.or_eq_true, Bool.not_eq_true', decide_eq_true_eq] at h
    exact .inl ⟨h, rfl⟩
  · cases f.propagationStamp with
    | none => exact .inr (.inl rfl)
    | some stamp =>
      by_cases hnil : stamp = []
      · exact .inr (.inl (if_pos hnil))
      · exact .inr (.inr ⟨stamp, if_neg hnil⟩)

theorem same_restamped : Same m (m.restamped stamp) := ⟨rfl, rfl, rfl, rfl, rfl, fun _ => rfl, fun h => h⟩

theorem same_propagationStamped : Same m (m.propagationStamped stamp) :=
  ⟨rfl, rfl, rfl, rfl, rfl, fun _ => rfl, fun _ _ => rfl⟩

/-- What making one of the stamps does to a message, which may have to be `ready`. -/
structure Stage (ready : Prop) (m : Draft) (r : Bool × Draft) : Prop where
  same : Same m r.2
  genuine : ∀ {tickets}, ready → m.Sendable → m.Genuine tickets → r.2.Genuine tickets
  packed : m.Sendable → m.packed ≠ [] → r.1 = true → r.2.packed ≠ []
  wanted : r.2.Wanted ↔ m.Wanted

theorem Stage.refl {ready : Prop} (success : Bool) : Stage ready m (success, m) :=
  ⟨.refl m, fun _ _ hg => hg, fun _ hpacked _ => hpacked, Iff.rfl⟩

theorem Stage.repack {ready : Prop} (hsame : Same m m') (hwanted : m'.Wanted ↔ m.Wanted)
    (hgenuine : ∀ {tickets}, ready → m.Genuine tickets → m'.Genuine tickets) (f : PackFacts) :
    Stage ready m (m'.pack f) where
  same := hsame.trans (same_pack f)
  genuine hready hm hg := genuine_pack (hsame.sendable hm) (hgenuine hready hg) f
  packed hm _ h := pack_packed (hsame.sendable hm) h
  wanted := (wanted_pack f).trans hwanted

theorem stage_makeStamp : Stage (m.packed ≠ []) m (m.makeStamp f) := by
  rcases makeStamp_cases (m := m) f with ⟨-, h⟩ | h | ⟨stamp, hmade, hne, h⟩
  all_goals rw [h]
  · exact .refl true
  · exact .refl false
  · refine .repack same_restamped Iff.rfl (fun hpacked hg => ⟨fun h => absurd rfl h, hg.ticket, fun _ => ?_⟩) f.first
    obtain ⟨hdated, hid, -⟩ := hg.written hpacked
    have haccepts := getStamp_accepts f.candidates_length hid hg.ticket (fun hs => (hg.stamp hs).2) hmade hne
    exact ⟨hdated, haccepts.mono rfl fun _ hc => hc⟩

theorem stage_makePropagationStamp : Stage True m (m.makePropagationStamp f) := by
  rcases makePropagationStamp_cases (m := m) f with ⟨-, h⟩ | h | ⟨stamp, h⟩
  all_goals rw [h]
  · exact .refl true
  · exact .refl false
  · refine .repack same_propagationStamped Iff.rfl (fun _ hg => ⟨fun h => absurd rfl h, hg.ticket, fun hs => ?_⟩) f.second
    obtain ⟨hdated, haccepts⟩ := hg.stamp hs
    exact ⟨hdated, haccepts.mono rfl fun _ hc => hc⟩

theorem processDeferredStamps_cases :
    m.processDeferredStamps f = ((m.makeStamp f).2, .application) ∨
      m.processDeferredStamps f = (((m.makeStamp f).2.makePropagationStamp f).2, .application) ∨
      (m.makeStamp f).1 = true ∧ ((m.makeStamp f).2.makePropagationStamp f).1 = true ∧
        m.processDeferredStamps f = (((m.makeStamp f).2.makePropagationStamp f).2, .outbound) := by
  rw [processDeferredStamps]
  rcases m.makeStamp f with ⟨_ | _, m₁⟩
  · exact .inl rfl
  · dsimp only
    rcases m₁.makePropagationStamp f with ⟨_ | _, m₂⟩
    · exact .inr (.inl rfl)
    · exact .inr (.inr ⟨rfl, rfl, rfl⟩)

theorem same_processDeferredStamps : Same m (m.processDeferredStamps f).1 := by
  have hfirst := (stage_makeStamp (m := m) f).same
  have hboth := hfirst.trans (stage_makePropagationStamp f).same
  rcases processDeferredStamps_cases (m := m) f with h | h | ⟨-, -, h⟩
  all_goals rw [h]
  · exact hfirst
  · exact hboth
  · exact hboth

theorem genuine_processDeferredStamps (hm : m.Sendable) (hg : m.Genuine tickets) (hpacked : m.packed ≠ [])
    (f : DeferredFacts) : (m.processDeferredStamps f).1.Genuine tickets := by
  have hfirst := (stage_makeStamp f).genuine hpacked hm hg
  have hboth := (stage_makePropagationStamp f).genuine trivial ((stage_makeStamp f).same.sendable hm) hfirst
  rcases processDeferredStamps_cases (m := m) f with h | h | ⟨-, -, h⟩
  all_goals rw [h]
  · exact hfirst
  · exact hboth
  · exact hboth

theorem makeStamp_stamp (hm : m.Sendable) (hwanted : m.Wanted) {f : DeferredFacts} (h : (m.makeStamp f).1 = true) :
    (m.makeStamp f).2.stamp ≠ [] ∨ m.deferStamp = false ∧ (m.makeStamp f).2 = m := by
  rcases makeStamp_cases (m := m) f with ⟨hdefer | hstamp, hfirst⟩ | hfirst | ⟨stamp, -, -, hfirst⟩
  · exact .inr ⟨hdefer, by rw [hfirst]⟩
  · rw [hfirst]
    exact .inl hstamp
  · rw [hfirst] at h
    cases h
  · rw [hfirst] at h ⊢
    exact .inl (pack_stamp_ne_nil (same_restamped.sendable hm) hwanted (fun hdefer => absurd hdefer Bool.false_ne_true) h)

theorem processDeferredStamps_stamp (hm : m.Sendable)
    (hpropagation : m.propagationStamp ≠ [] → m.deferPropagationStamp = false)
    (hdeferred : m.deferStamp = true ∨ m.propagated = true ∧ m.deferPropagationStamp = true) {f : DeferredFacts}
    (hplace : (m.processDeferredStamps f).2 = .outbound) (hwanted : (m.processDeferredStamps f).1.Wanted) :
    (m.processDeferredStamps f).1.stamp ≠ [] := by
  rcases processDeferredStamps_cases (m := m) f with h | h | ⟨hfirst, hsecond, h⟩
  · rw [h] at hplace
    cases hplace
  · rw [h] at hplace
    cases hplace
  · rw [h] at hwanted ⊢
    have hwanted₁ := (stage_makePropagationStamp f).wanted.mp hwanted
    have hmade := makeStamp_stamp hm ((stage_makeStamp f).wanted.mp hwanted₁) hfirst
    rcases makePropagationStamp_cases (m := (m.makeStamp f).2) f with ⟨hskip, hdone⟩ | hdone | ⟨stamp, hdone⟩
    · rw [hdone]
      rcases hmade with hstamp | ⟨hdefer, hsame⟩
      · exact hstamp
      · -- The message waits for its stamp for the node, and the second half makes it.
        rw [hsame] at hskip
        obtain ⟨hpropagated, hwaits⟩ := hdeferred.resolve_left (Bool.eq_false_iff.mp hdefer)
        rcases hskip with hskip | hskip
        · exact absurd hpropagated (Bool.eq_false_iff.mp hskip)
        · exact absurd hwaits (Bool.eq_false_iff.mp (hpropagation hskip))
    · rw [hdone] at hsecond
      cases hsecond
    · rw [hdone] at hsecond ⊢
      refine pack_stamp_ne_nil (same_propagationStamped.sendable ((stage_makeStamp f).same.sendable hm)) hwanted₁ ?_ hsecond
      intro hdefer
      rcases hmade with hstamp | ⟨hnot, hsame⟩
      · exact hstamp
      · rw [hsame] at hdefer
        exact absurd hdefer (Bool.eq_false_iff.mp hnot)

end Draft

end Reticulum.Lxmf
