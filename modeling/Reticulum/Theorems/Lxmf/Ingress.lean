import Reticulum.Lxmf.Ingress
import Reticulum.Theorems.Lxmf.Download

/-! # Each message is delivered at most once

A callback that is still to come belongs to an entry of the cache, and an entry allows one callback until it expires. -/

namespace Reticulum.Lxmf.Ingress

open List Option Stage

variable {hash : Bytes} {s s' : Shared} {stage : Stage} {input : Input}

/-! ### The account of a hash -/

def Stage.isCallback (hash : Bytes) : Stage → Bool
  | .callback message => message.hash = hash
  | _ => false

def Stage.message : Stage → Option Message
  | .handleInboundMessage message | .callback message => some message
  | _ => none

def pending (hash : Bytes) (stages : List Stage) : Nat := stages.countP (Stage.isCallback hash)

namespace Shared

def callsOf (s : Shared) (hash : Bytes) : Nat := (s.calls.map (·.hash)).count hash

def expiriesOf (s : Shared) (hash : Bytes) : Nat := (s.expired.map (·.id)).count hash

end Shared

def delivered (r : Router) (hash : Bytes) : Nat := (r.locallyDeliveredIDs.lookup hash).isSome.toNat

/-- A section pays for callbacks with a new entry, and for an entry that it deletes with an expiry. -/
structure Balanced (hash : Bytes) (s : Shared) (stage : Stage) (outcome : Outcome) : Prop where
  account : outcome.shared.callsOf hash + pending hash outcome.next + s.expiriesOf hash + delivered s.router hash ≤
    s.callsOf hash + pending hash [stage] + outcome.shared.expiriesOf hash + delivered outcome.shared.router hash
  started : pending hash outcome.started = 0
  /-- Hashes are not empty. -/
  hashes : ∀ message, .handleInboundMessage message ∈ outcome.next ++ outcome.started → message.hash ≠ []
  expired : ∀ e ∈ outcome.shared.expired, e ∈ s.expired ∨ e.now > e.deliveredAt + transientIDCacheExpiry

theorem Balanced.of_eq {outcome : Outcome} (hcalls : outcome.shared.calls = s.calls)
    (hexpired : outcome.shared.expired = s.expired)
    (hdelivered : delivered s.router hash ≤ delivered outcome.shared.router hash)
    (hpending : pending hash (outcome.next ++ outcome.started) = 0)
    (hhashes : ∀ message, .handleInboundMessage message ∈ outcome.next ++ outcome.started → message.hash ≠ []) :
    Balanced hash s stage outcome := by
  obtain ⟨hnext, hstarted⟩ : pending hash outcome.next = 0 ∧ pending hash outcome.started = 0 :=
    Nat.add_eq_zero_iff.mp (countP_append.symm.trans hpending)
  have hcallsOf : outcome.shared.callsOf hash = s.callsOf hash := by rw [Shared.callsOf, hcalls, Shared.callsOf]
  have hexpiriesOf : outcome.shared.expiriesOf hash = s.expiriesOf hash := by
    rw [Shared.expiriesOf, hexpired, Shared.expiriesOf]
  exact ⟨by omega, hstarted, hhashes, fun e he => .inl (hexpired ▸ he)⟩

theorem Balanced.of_stages {outcome : Outcome}
    (hdelivered : delivered s.router hash ≤ delivered outcome.shared.router hash := by exact le_rfl)
    (hstages : (outcome.next ++ outcome.started).all (·.message.isNone) = true := by rfl)
    (hcalls : outcome.shared.calls = s.calls := by rfl) (hexpired : outcome.shared.expired = s.expired := by rfl) :
    Balanced hash s stage outcome := by
  have hstages := all_eq_true.mp hstages
  refine .of_eq hcalls hexpired hdelivered (countP_eq_zero.mpr fun x hx => ?_) fun m hm => ?_
  · have hx := hstages x hx
    cases x with
    | callback m => cases hx
    | _ => exact Bool.false_ne_true
  · cases hstages _ hm

/-! ### Sections -/

theorem unpackMessageFromBytes_hash {ts : Transport} {data : Bytes} {method : Method} {message : Message}
    (h : unpackMessageFromBytes ts data method = some message) : message.hash ≠ [] := by
  unfold unpackMessageFromBytes at h
  split at h
  · cases h
  · obtain ⟨payload, -, h⟩ := bind_eq_some_iff.mp h
    cases h
    exact fullHash_ne_nil _

theorem delivered_markDelivered (r : Router) (id : Bytes) :
    delivered (r.markDelivered id) hash = if hash = id then 1 else delivered r hash := by
  unfold delivered Router.markDelivered
  split_ifs with hid
  · rw [hid, AList.lookup_insert]
    rfl
  · rw [AList.lookup_insert_ne hid]

theorem delivered_le_markDelivered (r : Router) (id : Bytes) : delivered r hash ≤ delivered (r.markDelivered id) hash := by
  rw [delivered_markDelivered]
  split_ifs
  · exact Bool.toNat_le _
  · exact le_rfl

theorem delivered_rememberTicket (r : Router) (message : Message) :
    delivered (r.rememberTicket message) hash = delivered r hash := by
  obtain ⟨store, hrouter⟩ := rememberTicket_eq r message
  rw [hrouter]
  rfl

theorem delivered_eq_zero {r : Router} (hhash : hash ≠ []) (h : ¬r.hasDeliveredTransientID hash = true) :
    delivered r hash = 0 := by
  rw [Router.hasDeliveredTransientID, decide_eq_true hhash, Bool.true_and] at h
  rw [delivered, eq_false_of_ne_true h]
  rfl

theorem takePropagated_balanced {lxmfData : Bytes} {allowDuplicate : Bool}
    {next : Option (Option Destination) → List Stage} (hnext : ∀ d, (next d).all (·.message.isNone) = true) :
    Balanced hash s stage (takePropagated s lxmfData allowDuplicate next) := by
  unfold takePropagated
  split_ifs
  · exact .of_stages
  · exact .of_stages
  · exact .of_stages le_rfl (by rw [append_nil, hnext])

theorem handleInboundMessage_balanced {message : Message} (hhash : message.hash ≠ []) :
    Balanced hash s (.handleInboundMessage message) ((handleInboundMessage message).exec s input) := by
  -- A new entry pays for one callback.
  have of_marked : ∀ (next : List Stage), (∀ x ∈ next, x = .callback message) → next.length ≤ 1 →
      ¬s.router.hasDeliveredTransientID message.hash = true → Balanced hash s (.handleInboundMessage message)
        { shared := s.setRouter ((s.router.markDelivered message.hash).rememberTicket message), next } := by
    intro next hnext hlength hnew
    have hpaid : pending hash next + delivered s.router hash ≤
        delivered ((s.router.markDelivered message.hash).rememberTicket message) hash := by
      rw [delivered_rememberTicket, delivered_markDelivered]
      split_ifs with hsame
      · rw [hsame, delivered_eq_zero hhash hnew]
        exact countP_le_length.trans hlength
      · refine le_of_eq (Nat.add_eq_right.mpr (countP_eq_zero.mpr fun x hx hcallback => ?_))
        rw [hnext x hx] at hcallback
        exact hsame (of_decide_eq_true hcallback).symm
    refine ⟨?_, rfl, fun m hm => ?_, fun _ he => .inl he⟩
    · change s.callsOf hash + pending hash next + s.expiriesOf hash + delivered s.router hash ≤
        s.callsOf hash + 0 + s.expiriesOf hash +
          delivered ((s.router.markDelivered message.hash).rememberTicket message) hash
      omega
    · dsimp only at hm
      rw [append_nil] at hm
      cases hnext _ hm
  dsimp only [exec]
  unfold Router.handleInboundMessage
  split_ifs with hblackholed hignored hdelivered hcallback
  · exact .of_stages
  · exact .of_stages
  · exact .of_stages
  · exact of_marked [.callback message] (fun _ => mem_singleton.mp) le_rfl hdelivered
  · exact of_marked [] (fun _ hx => absurd hx not_mem_nil) (Nat.zero_le 1) hdelivered

theorem cleanTransientIDCaches_balanced : Balanced hash s .cleanTransientIDCaches { shared := s.cleanTransientIDCaches } := by
  let old := s.router.locallyDeliveredIDs.entries.filter fun e => s.router.now > e.2 + transientIDCacheExpiry
  have hexpired : s.cleanTransientIDCaches.expired = s.expired ++ old.map fun e => ⟨e.1, e.2, s.router.now⟩ := rfl
  have hexpiries : s.cleanTransientIDCaches.expiriesOf hash = s.expiriesOf hash + (old.map (·.1)).count hash := by
    rw [Shared.expiriesOf, hexpired, List.map_append, List.count_append, List.map_map]
    rfl
  have hpaid : delivered s.router hash ≤ (old.map (·.1)).count hash + delivered s.cleanTransientIDCaches.router hash := by
    by_cases hold : hash ∈ old.map (·.1)
    · exact (Bool.toNat_le _).trans (Nat.le_add_right_of_le (count_pos_iff.mpr hold))
    · have hkept : s.cleanTransientIDCaches.router.locallyDeliveredIDs.lookup hash =
          s.router.locallyDeliveredIDs.lookup hash := by
        refine (lookup_foldl_erase _ _).trans (if_neg fun h => ?_)
        obtain ⟨e, he, h⟩ := any_eq_true.mp h
        obtain ⟨hlate, heq⟩ := of_decide_eq_true h
        exact hold (mem_map.mpr ⟨e, mem_filter.mpr ⟨he, decide_eq_true hlate⟩, heq⟩)
      rw [delivered, delivered, hkept]
      exact Nat.le_add_left _ _
  refine ⟨?_, rfl, fun m hm => absurd hm not_mem_nil, fun e he => ?_⟩
  · change s.callsOf hash + 0 + s.expiriesOf hash + delivered s.router hash ≤
      s.callsOf hash + 0 + s.cleanTransientIDCaches.expiriesOf hash + delivered s.cleanTransientIDCaches.router hash
    omega
  · rcases mem_append.mp (hexpired ▸ he) with he | he
    · exact .inl he
    · obtain ⟨x, hx, rfl⟩ := mem_map.mp he
      exact .inr (of_decide_eq_true (mem_filter.mp hx).2)

theorem exec_balanced (hhashes : ∀ message, stage = .handleInboundMessage message → message.hash ≠ []) :
    Balanced hash s stage (stage.exec s input) := by
  cases stage with
  | deliveryPacket data packet =>
    dsimp only [exec]
    split
    · exact .of_stages
    · split_ifs
      · exact .of_stages
      · exact .of_stages
  | handleInboundResourceData data =>
    dsimp only [exec]
    split_ifs
    · exact .of_stages
    · exact .of_stages
  | handlePropagatedInbound payload allowDuplicate =>
    dsimp only [exec]
    refine takePropagated_balanced fun d => ?_
    rcases d with _ | _ | d <;> rfl
  | ingestURI lxmfData allowDuplicate =>
    dsimp only [exec]
    refine takePropagated_balanced fun d => ?_
    rcases d with _ | _ | d
    · dsimp only
      split_ifs <;> rfl
    · rfl
    · rfl
  | ingestPropagationMessage lxmfData stampData fromPeer stampValue allowDuplicate =>
    dsimp only [exec]
    refine takePropagated_balanced fun d => ?_
    rcases d with _ | d
    · dsimp only
      split_ifs <;> rfl
    · rfl
  | cleanTransientIDCaches => exact cleanTransientIDCaches_balanced
  | elsewhere =>
    dsimp only [exec]
    split
    · exact .of_stages
    · exact .of_stages
  | unpack lxmfData method =>
    dsimp only [exec]
    split
    · exact .of_stages
    · next message hunpack =>
      refine .of_eq rfl rfl le_rfl rfl fun m hm => ?_
      obtain rfl := handleInboundMessage.inj (mem_singleton.mp hm)
      exact unpackMessageFromBytes_hash hunpack
  | decrypt payload =>
    dsimp only [exec]
    split
    · exact .of_stages
    · next message hopened =>
      obtain ⟨decrypted, -, hunpack⟩ := bind_eq_some_iff.mp hopened
      refine .of_eq rfl rfl le_rfl rfl fun m hm => ?_
      rcases mem_pair.mp hm with heq | heq
      · obtain rfl := handleInboundMessage.inj heq
        exact unpackMessageFromBytes_hash hunpack
      · cases heq
  | store destinationHash lxmfData stampData stampValue fromPeer =>
    have hids :=
      storePropagationMessageStamped_delivered s.router destinationHash lxmfData stampData stampValue fromPeer
    refine .of_stages (le_of_eq ?_)
    rw [delivered, ← hids]
    rfl
  | handleInboundMessage message => exact handleInboundMessage_balanced (hhashes message rfl)
  | callback message =>
    refine ⟨le_of_eq ?_, rfl, fun m hm => absurd hm not_mem_nil, fun _ he => .inl he⟩
    simp [exec, Shared.callsOf, Shared.expiriesOf, pending, isCallback, count_singleton]
  | markDelivered transientID => exact .of_stages (delivered_le_markDelivered _ _)

/-! ### Runs -/

variable {r : Router} {c c' : Threads.Config Shared (List Stage)}

structure Sound (r : Router) (hash : Bytes) (c : Threads.Config Shared (List Stage)) : Prop where
  account : c.shared.callsOf hash + pending hash c.threads.flatten + delivered r hash ≤
    c.shared.expiriesOf hash + delivered c.shared.router hash
  hashes : ∀ message, .handleInboundMessage message ∈ c.threads.flatten → message.hash ≠ []
  expired : ∀ e ∈ c.shared.expired, e.now > e.deliveredAt + transientIDCacheExpiry

theorem idle_sound : Sound r hash (idle r) :=
  ⟨le_rfl, fun _ hm => absurd hm not_mem_nil, fun _ he => absurd he not_mem_nil⟩

theorem pending_append (xs ys : List Stage) : pending hash (xs ++ ys) = pending hash xs + pending hash ys :=
  countP_append

theorem start_sound {stages : List Stage} (h : Sound r hash c) (hentry : system.entry stages = true) :
    Sound r hash { c with threads := stages :: c.threads } := by
  have hcall : ∀ x ∈ stages, x.isCall = true := all_eq_true.mp hentry
  have hnone : pending hash stages = 0 := by
    refine countP_eq_zero.mpr fun x hx => ?_
    have hx := hcall x hx
    cases x with
    | callback m => cases hx
    | _ => exact Bool.false_ne_true
  refine ⟨?_, fun m hm => ?_, h.expired⟩
  · rw [flatten_cons, pending_append, hnone, Nat.zero_add]
    exact h.account
  · rcases mem_append.mp hm with hm | hm
    · cases hcall _ hm
    · exact h.hashes m hm

theorem advance_sound {stages : List Stage} (h : Sound r hash c)
    (hstep : system.step c (.advance stages input) = some c') : Sound r hash c' := by
  obtain ⟨s', next, others, hexec, hthreads, rfl⟩ := Threads.System.step_advance_perm hstep
  rcases stages with _ | ⟨stage, rest⟩
  · cases hexec
  · cases hexec
    have hperm : c.threads.flatten.Perm (stage :: rest ++ others.flatten) := hthreads.flatten
    have hstage : ∀ m, stage = .handleInboundMessage m → m.hash ≠ [] := by
      rintro m rfl
      exact h.hashes m (hperm.mem_iff.mpr mem_cons_self)
    have hbalanced : Balanced hash (c.shared.setRouter { c.shared.router with now := input.now }) stage
        (stage.exec (c.shared.setRouter { c.shared.router with now := input.now }) input) := exec_balanced hstage
    generalize stage.exec _ input = outcome at hbalanced ⊢
    refine ⟨?_, fun m hm => ?_, fun e he => (hbalanced.expired e he).elim (h.expired e) id⟩
    · have hbefore : pending hash c.threads.flatten =
          pending hash [stage] + pending hash rest + pending hash others.flatten := by
        rw [← pending_append, ← pending_append]
        exact hperm.countP_eq _
      have hafter : pending hash ([outcome.next ++ rest, outcome.started] ++ others).flatten =
          pending hash outcome.next + pending hash rest +
            (pending hash outcome.started + pending hash others.flatten) := by
        rw [← pending_append, ← pending_append, ← pending_append]
        rfl
      have hsection : outcome.shared.callsOf hash + pending hash outcome.next + c.shared.expiriesOf hash +
          delivered c.shared.router hash ≤ c.shared.callsOf hash + pending hash [stage] +
            outcome.shared.expiriesOf hash + delivered outcome.shared.router hash := hbalanced.account
      have haccount := h.account
      have hstarted := hbalanced.started
      dsimp only
      omega
    · -- A message is new, or has been there before.
      have hm : .handleInboundMessage m ∈ (outcome.next ++ rest) ++ (outcome.started ++
          others.flatten) := hm
      have hold : ∀ x ∈ rest ++ others.flatten, x ∈ c.threads.flatten :=
        fun x hx => hperm.mem_iff.mpr (mem_cons_of_mem _ hx)
      simp only [mem_append] at hm hold
      rcases hm with (hm | hm) | hm | hm
      · exact hbalanced.hashes m (mem_append_left _ hm)
      · exact h.hashes m (hold _ (.inl hm))
      · exact hbalanced.hashes m (mem_append_right _ hm)
      · exact h.hashes m (hold _ (.inr hm))

theorem step_sound {a : Threads.Action (List Stage) Input} (h : Sound r hash c) (hstep : system.step c a = some c') :
    Sound r hash c' := by
  cases a with
  | start stages =>
    obtain ⟨hentry, rfl⟩ := Threads.System.step_start.mp hstep
    exact start_sound h hentry
  | advance stages input => exact advance_sound h hstep

/-- The callback is called for a hash at most once more than the hash has expired, never for an old one. -/
theorem delivered_at_most_once {as : List (Threads.Action (List Stage) Input)} (hash : Bytes)
    (hrun : system.run (idle r) as = some c) : c.shared.callsOf hash + delivered r hash ≤ c.shared.expiriesOf hash + 1 ∧
      ∀ e ∈ c.shared.expired, e.now > e.deliveredAt + transientIDCacheExpiry := by
  have hsound : Sound r hash c :=
    Transitions.Reachable.invariant ⟨as, hrun⟩ (Sound r hash) idle_sound fun _ _ _ h hstep => step_sound h hstep
  refine ⟨?_, hsound.expired⟩
  calc c.shared.callsOf hash + delivered r hash
      ≤ c.shared.callsOf hash + pending hash c.threads.flatten + delivered r hash := by gcongr; exact Nat.le_add_right _ _
    _ ≤ c.shared.expiriesOf hash + delivered c.shared.router hash := hsound.account
    _ ≤ c.shared.expiriesOf hash + 1 := Nat.add_le_add_left (Bool.toNat_le _) _

namespace Sample

def twice : List (Threads.Action (List Stage) Input) :=
  [.start [.handleInboundResourceData sampleData],
    .start [.deliveryPacket sampleData ⟨true, [], none⟩],
    .advance [.handleInboundResourceData sampleData] { now := 1 },
    .advance [.deliveryPacket sampleData ⟨true, [], none⟩] { now := 2 },
    .advance [.unpack sampleData .direct] { now := 3 },
    .advance [.unpack sampleData .direct] { now := 4 },
    .advance [.handleInboundMessage (sampleMessage .direct)] { now := 5 },
    .advance [.handleInboundMessage (sampleMessage .direct)] { now := 6 },
    .advance [.callback (sampleMessage .direct)] { now := 7 }]

theorem twice_delivered : ∃ c, system.run (idle sampleRouter) twice = some c ∧
    c.shared.callsOf (sampleMessage .direct).hash + delivered sampleRouter (sampleMessage .direct).hash ≤
      c.shared.expiriesOf (sampleMessage .direct).hash + 1 := by
  obtain ⟨c, hrun⟩ : ∃ c, system.run (idle sampleRouter) twice = some c :=
    Option.isSome_iff_exists.mp (by decide +kernel)
  exact ⟨c, hrun, (delivered_at_most_once (sampleMessage .direct).hash hrun).1⟩

end Sample

end Reticulum.Lxmf.Ingress
