import Reticulum.Lxmf.Download
import Reticulum.Theorems.Lxmf.Inbound

/-! # What the client lets a propagation node delete -/

namespace Reticulum.Lxmf
open Router Transitions List Option

variable {r : Router} {message : Message} {payload : Bytes} {id : Bytes}

/-! ### The calls of `handleInboundMessage` -/

/-- The message in the data, if the data are for a user of the router and can be decrypted and unpacked. -/
def Router.opens (r : Router) (payload : Bytes) : Option Message :=
  (r.deliveryDestinations.lookup (payload.take destinationLength)).bind fun destination =>
    r.openPropagated destination payload

theorem inboundCalls_handleInboundMessage (r : Router) (message : Message) (id : Option Bytes) :
    inboundCalls id (r.handleInboundMessage message).events = [⟨id, message⟩] := by
  unfold handleInboundMessage
  split_ifs <;> rfl

structure SameSetup (r r' : Router) : Prop where
  transport : r'.transport = r.transport
  deliveryDestinations : r'.deliveryDestinations = r.deliveryDestinations
  propagationEntries : r'.propagationEntries = r.propagationEntries

theorem SameSetup.opens_eq {r' : Router} (h : SameSetup r r') (payload : Bytes) : r'.opens payload = r.opens payload := by
  unfold Router.opens openPropagated
  rw [h.deliveryDestinations, h.transport]

section

variable (r : Router)

theorem rememberTicket_eq (message : Message) :
    ∃ store, r.rememberTicket message = { r with ticketStore := store } := by
  unfold rememberTicket
  repeat' split
  all_goals exact ⟨_, rfl⟩

theorem handleInboundMessage_router (message : Message) : (r.handleInboundMessage message).router = r ∨
      ∃ store, (r.handleInboundMessage message).router = { r.markDelivered message.hash with ticketStore := store } := by
  unfold handleInboundMessage
  split_ifs
  · exact .inl rfl
  · exact .inl rfl
  · exact .inl rfl
  all_goals exact .inr (rememberTicket_eq _ message)

theorem handlePropagatedInbound_cases (payload : Bytes) :
    ((payload.length < destinationLength ∨ r.isDuplicate (fullHash payload) = true) ∧
      (r.handlePropagatedInbound payload).router = r ∧ (r.handlePropagatedInbound payload).events = []) ∨
    (destinationLength ≤ payload.length ∧ r.isDuplicate (fullHash payload) = false ∧
      ((r.opens payload = none ∧ (r.handlePropagatedInbound payload).router = r.markProcessed (fullHash payload) ∧
          (r.handlePropagatedInbound payload).events = []) ∨
        ∃ message, r.opens payload = some message ∧
          (r.handlePropagatedInbound payload).router =
            ((r.markProcessed (fullHash payload)).handleInboundMessage message).router.markDelivered (fullHash payload) ∧
          (r.handlePropagatedInbound payload).events =
            ((r.markProcessed (fullHash payload)).handleInboundMessage message).events)) := by
  unfold handlePropagatedInbound handlePropagatedInboundAllowDuplicate
  by_cases hshort : payload.length < destinationLength
  · rw [if_pos hshort]
    exact .inl ⟨.inl hshort, rfl, rfl⟩
  · rw [if_neg hshort]
    dsimp only
    cases r.isDuplicate (fullHash payload) with
    | true => exact .inl ⟨.inr rfl, rfl, rfl⟩
    | false =>
      refine .inr ⟨Nat.le_of_not_lt hshort, rfl, ?_⟩
      have hlookup : (r.markProcessed (fullHash payload)).deliveryDestinations = r.deliveryDestinations := rfl
      have hopen : ∀ d, (r.markProcessed (fullHash payload)).openPropagated d payload = r.openPropagated d payload :=
        fun _ => rfl
      simp only [Bool.not_false, Bool.and_false, Bool.false_eq_true, if_false, hlookup, hopen, Router.opens]
      cases r.deliveryDestinations.lookup (payload.take destinationLength) with
      | none => exact .inl ⟨rfl, rfl, rfl⟩
      | some destination =>
        rw [bind_some]
        dsimp only
        cases r.openPropagated destination payload with
        | none => exact .inl ⟨rfl, rfl, rfl⟩
        | some message => exact .inr ⟨message, rfl, rfl, rfl⟩

theorem isDuplicate_markProcessed_iff (data id : Bytes) :
    (r.markProcessed (fullHash data)).isDuplicate id = true ↔ r.isDuplicate id = true ∨ id = fullHash data := by
  by_cases h : id = fullHash data
  · exact iff_of_true (h ▸ isDuplicate_markProcessed r data) (.inr h)
  · simp [isDuplicate, hasProcessedTransientID, markProcessed, AList.lookup_insert_ne h, h]

theorem handlePropagatedInbound_same (payload : Bytes) :
    SameSetup r (r.handlePropagatedInbound payload).router ∧
      ∀ id, (r.handlePropagatedInbound payload).router.isDuplicate id = true ↔
        r.isDuplicate id = true ∨ (destinationLength ≤ payload.length ∧ id = fullHash payload) := by
  rcases handlePropagatedInbound_cases r payload with
    ⟨hdropped, hrouter, -⟩ | ⟨hlength, -, ⟨-, hrouter, -⟩ | ⟨message, -, hrouter, -⟩⟩
  · rw [hrouter]
    refine ⟨⟨rfl, rfl, rfl⟩, fun id => ?_⟩
    rcases hdropped with hshort | hduplicate
    · simp [Nat.not_le.mpr hshort]
    · refine ⟨.inl, ?_⟩
      rintro (h | ⟨-, rfl⟩)
      · exact h
      · exact hduplicate
  · rw [hrouter]
    refine ⟨⟨rfl, rfl, rfl⟩, fun id => ?_⟩
    rw [isDuplicate_markProcessed_iff, and_iff_right hlength]
  · rw [hrouter]
    simp only [and_iff_right hlength, ← isDuplicate_markProcessed_iff]
    rcases handleInboundMessage_router (r.markProcessed (fullHash payload)) message with h | ⟨store, h⟩
    · rw [h]
      exact ⟨⟨rfl, rfl, rfl⟩, fun _ => Iff.rfl⟩
    · rw [h]
      exact ⟨⟨rfl, rfl, rfl⟩, fun _ => Iff.rfl⟩

theorem mem_inboundCalls_iff (payload : Bytes) (call : InboundCall) :
    call ∈ inboundCalls (some (fullHash payload)) (r.handlePropagatedInbound payload).events ↔
      destinationLength ≤ payload.length ∧ r.isDuplicate (fullHash payload) = false ∧
        ∃ message, r.opens payload = some message ∧ call = ⟨some (fullHash payload), message⟩ := by
  rcases handlePropagatedInbound_cases r payload with
    ⟨hdropped, -, hevents⟩ | ⟨hlength, hfresh, ⟨hopen, -, hevents⟩ | ⟨message, hopen, -, hevents⟩⟩
  · rw [hevents]
    refine iff_of_false (fun h => (nomatch h)) ?_
    rintro ⟨hlength, hfresh, -⟩
    rcases hdropped with hshort | hduplicate
    · exact Nat.not_lt.mpr hlength hshort
    · rw [hfresh] at hduplicate
      cases hduplicate
  · rw [hevents, hopen]
    refine iff_of_false (fun h => (nomatch h)) ?_
    rintro ⟨-, -, message, hmessage, -⟩
    cases hmessage
  · rw [hevents, inboundCalls_handleInboundMessage, hopen, mem_singleton]
    constructor
    · rintro rfl
      exact ⟨hlength, hfresh, message, rfl, rfl⟩
    · rintro ⟨-, -, message', hmessage, rfl⟩
      rw [some.inj hmessage]

/-! ### The acknowledgement of messages -/

theorem getEntries_value (payloads : List Bytes) :
    ∃ duplicates, (r.getEntries (payloads.map Msgpack.Value.bin)).value = .ok (duplicates, payloads.map fullHash) := by
  induction payloads generalizing r with
  | nil => exact ⟨0, rfl⟩
  | cons payload payloads ih =>
    obtain ⟨duplicates, h⟩ := ih (r.handlePropagatedInbound payload).router
    refine ⟨(r.handlePropagatedInbound payload).value.toNat + duplicates, ?_⟩
    rw [map_cons, getEntries]
    dsimp only [responseBytes]
    rw [h]
    rfl

def firstWithID (payloads : List Bytes) (id : Bytes) : Option Bytes :=
  payloads.find? fun payload => destinationLength ≤ payload.length ∧ fullHash payload = id

def Delivers (payloads : List Bytes) (id : Bytes) : Prop :=
  r.isDuplicate id = false ∧ ∃ payload message, firstWithID payloads id = some payload ∧ r.opens payload = some message

theorem getCalls_cons_iff (payload : Bytes) (payloads : List Bytes) (id : Bytes) :
    (∃ call ∈ Client.getCalls r ((payload :: payloads).map Msgpack.Value.bin), call.transientID = some id) ↔
      ((destinationLength ≤ payload.length ∧ fullHash payload = id) ∧ r.isDuplicate id = false ∧
        ∃ message, r.opens payload = some message) ∨
      ∃ call ∈ Client.getCalls (r.handlePropagatedInbound payload).router (payloads.map Msgpack.Value.bin),
        call.transientID = some id := by
  rw [map_cons, Client.getCalls]
  dsimp only [responseBytes]
  simp only [mem_append, mem_inboundCalls_iff]
  constructor
  · rintro ⟨call, ⟨hlength, hfresh, message, hopen, rfl⟩ | hcall, hid⟩
    · cases hid
      exact .inl ⟨⟨hlength, rfl⟩, hfresh, message, hopen⟩
    · exact .inr ⟨call, hcall, hid⟩
  · rintro (⟨⟨hlength, rfl⟩, hfresh, message, hopen⟩ | ⟨call, hcall, hid⟩)
    · exact ⟨_, .inl ⟨hlength, hfresh, message, hopen, rfl⟩, rfl⟩
    · exact ⟨call, .inr hcall, hid⟩

theorem getCalls_iff (payloads : List Bytes) (id : Bytes) :
    (∃ call ∈ Client.getCalls r (payloads.map Msgpack.Value.bin), call.transientID = some id) ↔
      Delivers r payloads id := by
  induction payloads generalizing r with
  | nil =>
    refine iff_of_false ?_ ?_
    · rintro ⟨_, h, -⟩
      cases h
    · rintro ⟨-, _, _, h, -⟩
      cases h
  | cons payload payloads ih =>
    obtain ⟨hsame, hduplicate⟩ := handlePropagatedInbound_same r payload
    rw [getCalls_cons_iff, ih]
    by_cases hfirst : destinationLength ≤ payload.length ∧ fullHash payload = id
    · have hfound : firstWithID (payload :: payloads) id = some payload := find?_cons_of_pos (by simpa using hfirst)
      -- What comes later with this ID is a duplicate.
      have hlater : ¬Delivers (r.handlePropagatedInbound payload).router payloads id := by
        rintro ⟨hfresh, -⟩
        rw [(hduplicate id).mpr (.inr ⟨hfirst.1, hfirst.2.symm⟩)] at hfresh
        cases hfresh
      constructor
      · rintro (⟨-, hfresh, message, hopen⟩ | h)
        · exact ⟨hfresh, payload, message, hfound, hopen⟩
        · exact absurd h hlater
      · rintro ⟨hfresh, payload', message, hfound', hopen⟩
        obtain rfl := some.inj (hfound.symm.trans hfound')
        exact .inl ⟨hfirst, hfresh, message, hopen⟩
    · have hfound : firstWithID (payload :: payloads) id = firstWithID payloads id :=
        find?_cons_of_neg (by simpa using hfirst)
      have hfresh : (r.handlePropagatedInbound payload).router.isDuplicate id = r.isDuplicate id := by
        rw [Bool.eq_iff_iff, hduplicate id]
        exact or_iff_left fun h => hfirst ⟨h.1, h.2.symm⟩
      rw [or_iff_right fun h => hfirst h.1, Delivers, Delivers, hfound, hfresh]
      simp only [hsame.opens_eq]

/-! ### The record of delivered messages -/

theorem storePropagationMessageStamped_delivered (destinationHash payload stampData : Bytes) (stampValue : Int)
    (fromPeer : Option Bytes) :
    (r.storePropagationMessageStamped destinationHash payload stampData stampValue fromPeer).router.locallyDeliveredIDs =
      r.locallyDeliveredIDs := by
  unfold storePropagationMessageStamped enqueuePeerDistribution
  simp only [fullHash_ne_nil, if_false]

theorem ingestPropagationMessage_delivered (lxmfData stampData : Bytes) (fromPeer : Option Bytes)
    (stampValue : Int) :
    (r.ingestPropagationMessage lxmfData stampData fromPeer stampValue).router.locallyDeliveredIDs =
      r.locallyDeliveredIDs := by
  unfold ingestPropagationMessage ingestPropagationMessageAllowDuplicate
  split
  · rfl
  · dsimp only
    split
    · rfl
    · split
      · rw [(handlePropagatedInbound_of_marked r lxmfData).2]
        rfl
      · split
        · rfl
        · exact storePropagationMessageStamped_delivered _ _ _ _ _ _

theorem ingestValidated_delivered (fromPeer : Option Bytes) (entries : List ValidatedPropagationMessage) :
    (r.ingestValidated fromPeer entries).router.locallyDeliveredIDs = r.locallyDeliveredIDs := by
  induction entries generalizing r with
  | nil => rfl
  | cons entry entries ih => exact (ih _).trans (ingestPropagationMessage_delivered r _ _ _ _)

end

variable {id : Bytes}

theorem lookup_foldl_erase {expired : Sigma (fun _ : Bytes => Time) → Prop} [DecidablePred expired]
    (entries : List (Sigma fun _ : Bytes => Time)) (table : Table Time) :
    (entries.foldl (fun kept e => if expired e then kept.erase e.1 else kept) table).lookup id =
      if entries.any fun e => expired e ∧ e.1 = id then none else table.lookup id := by
  induction entries generalizing table with
  | nil => simp
  | cons e entries ih =>
    rw [foldl_cons, ih, any_cons, Bool.decide_and]
    by_cases hexpired : expired e
    · by_cases hid : e.1 = id
      · subst hid
        simp [hexpired]
      · rw [if_pos hexpired, AList.lookup_erase_ne (Ne.symm hid), decide_eq_false hid, Bool.and_false, Bool.false_or]
    · rw [if_neg hexpired, decide_eq_false hexpired, Bool.false_and, Bool.false_or]

def Records (r r' : Router) (calls : List InboundCall) : Prop :=
  ∀ id, (r'.locallyDeliveredIDs.lookup id).isSome = true →
    (r.locallyDeliveredIDs.lookup id).isSome = true ∨
      ∃ call ∈ calls, call.transientID = some id ∨ call.message.hash = id

namespace Records

variable {r' r'' : Router} {calls calls' : List InboundCall}

theorem of_eq (h : r'.locallyDeliveredIDs = r.locallyDeliveredIDs) : Records r r' calls :=
  fun _ hid => .inl (h ▸ hid)

theorem trans (h : Records r r' calls) (h' : Records r' r'' calls') : Records r r'' (calls ++ calls') := by
  intro id hid
  rcases h' id hid with hid | ⟨call, hcall, hid⟩
  · rcases h id hid with hid | ⟨call, hcall, hid⟩
    · exact .inl hid
    · exact .inr ⟨call, mem_append_left _ hcall, hid⟩
  · exact .inr ⟨call, mem_append_right _ hcall, hid⟩

theorem markDelivered (h : Records r r' calls) {call : InboundCall} (hcall : call ∈ calls)
    (hid : call.transientID = some id ∨ call.message.hash = id) : Records r (r'.markDelivered id) calls := by
  intro id' hid'
  by_cases heq : id' = id
  · exact .inr ⟨call, hcall, heq ▸ hid⟩
  · refine h id' ?_
    rwa [Router.markDelivered, AList.lookup_insert_ne heq] at hid'

theorem handleInboundMessage (r : Router) (message : Message) (id : Option Bytes) :
    Records r (r.handleInboundMessage message).router [⟨id, message⟩] := by
  rcases handleInboundMessage_router r message with h | ⟨store, h⟩
  · rw [h]
    exact of_eq rfl
  · rw [h]
    exact (of_eq rfl : Records r r _).markDelivered (mem_singleton_self _) (.inr rfl)

theorem handlePropagatedInbound (r : Router) (payload : Bytes) : Records r (r.handlePropagatedInbound payload).router
      (inboundCalls (some (fullHash payload)) (r.handlePropagatedInbound payload).events) := by
  rcases handlePropagatedInbound_cases r payload with
    ⟨-, hrouter, -⟩ | ⟨-, -, ⟨-, hrouter, -⟩ | ⟨message, -, hrouter, hevents⟩⟩
  · rw [hrouter]
    exact of_eq rfl
  · rw [hrouter]
    exact of_eq rfl
  · rw [hrouter, hevents, inboundCalls_handleInboundMessage]
    exact (handleInboundMessage _ message _).markDelivered (mem_singleton_self _) (.inl rfl)

theorem ingestURIOutcome (r : Router) (lxmfData : Bytes) : Records r (r.ingestURIOutcome lxmfData false).router
      (inboundCalls (some (fullHash lxmfData)) (r.ingestURIOutcome lxmfData false).events) := by
  unfold Router.ingestURIOutcome
  split
  · exact of_eq rfl
  · dsimp only
    split
    · exact of_eq rfl
    · split
      · split
        · exact of_eq rfl
        · rename_i message _
          rw [inboundCalls_handleInboundMessage]
          exact (handleInboundMessage _ message _).markDelivered (mem_singleton_self _) (.inl rfl)
      · split
        · exact of_eq rfl
        · exact of_eq (storePropagationMessageStamped_delivered _ _ _ _ _ _)

theorem getEntries (r : Router) (entries : List Msgpack.Value) :
    Records r (r.getEntries entries).router (Client.getCalls r entries) := by
  induction entries generalizing r with
  | nil => exact of_eq rfl
  | cons entry entries ih =>
    rw [Router.getEntries, Client.getCalls]
    cases responseBytes entry with
    | none => exact of_eq rfl
    | some payload => exact (handlePropagatedInbound r payload).trans (ih _)

theorem cleanTransientIDCaches (r : Router) : Records r r.cleanTransientIDCaches [] :=
  fun id hid => by
    rw [Router.cleanTransientIDCaches, lookup_foldl_erase] at hid
    split_ifs at hid
    · cases hid
    · exact .inl hid

theorem messageGetResponse (c : Client) (response : Msgpack.Value) :
    ∃ calls, c.afterGet response = ⟨(c.router.messageGetResponse response).router, c.calls ++ calls⟩ ∧
      Records c.router (c.router.messageGetResponse response).router calls := by
  refine ⟨_, rfl, ?_⟩
  unfold Router.messageGetResponse
  rcases messageGetEntries response with (_ | panic) | entries
  · exact of_eq rfl
  · exact of_eq rfl
  · have hget := getEntries c.router entries
    dsimp only
    split
    · exact hget
    · exact append_nil (Client.getCalls c.router entries) ▸ hget.trans (cleanTransientIDCaches _)

theorem inbound (r : Router) (message : Message) :
    Records r (r.handleInboundMessage message).router (inboundCalls none (r.handleInboundMessage message).events) := by
  have hcalls := inboundCalls_handleInboundMessage r message none
  exact hcalls ▸ handleInboundMessage r message none

theorem deliveryPacket (r : Router) (data : Bytes) (packet : DeliveryPacket) :
    Records r (r.deliveryPacket data packet).router (inboundCalls none (r.deliveryPacket data packet).events) := by
  unfold Router.deliveryPacket
  split
  · exact of_eq rfl
  · split_ifs
    · exact of_eq rfl
    · split
      · exact of_eq rfl
      · exact inbound r _

theorem resource (r : Router) (data : Bytes) :
    Records r (r.handleInboundResourceData data).router (inboundCalls none (r.handleInboundResourceData data).events) := by
  unfold Router.handleInboundResourceData
  split_ifs
  · exact of_eq rfl
  · split
    · exact of_eq rfl
    · exact inbound r _

theorem propagationPacket (r : Router) (messages : List Bytes) :
    Records r (r.propagationPacket messages).router (inboundCalls none (r.propagationPacket messages).events) := by
  refine of_eq ?_
  unfold Router.propagationPacket
  split_ifs
  · rfl
  · exact ingestValidated_delivered _ _ _

end Records

namespace Client

variable {c c' : Client}

def Handed (c : Client) (id : Bytes) : Prop := ∃ call ∈ c.calls, call.transientID = some id

def Delivered (c : Client) (id : Bytes) : Prop := c.Handed id ∨ ∃ call ∈ c.calls, call.message.hash = id

def Recorded (c : Client) : Prop := ∀ id, (c.router.locallyDeliveredIDs.lookup id).isSome = true → c.Delivered id

theorem Recorded.extend {r : Router} {calls : List InboundCall} (hc : c.Recorded) (h : Records c.router r calls) :
    Recorded ⟨r, c.calls ++ calls⟩ := by
  intro id hid
  rcases h id hid with hid | ⟨call, hcall, hid | hid⟩
  · rcases hc id hid with ⟨call, hcall, hid⟩ | ⟨call, hcall, hid⟩
    · exact .inl ⟨call, mem_append_left _ hcall, hid⟩
    · exact .inr ⟨call, mem_append_left _ hcall, hid⟩
  · exact .inl ⟨call, mem_append_right _ hcall, hid⟩
  · exact .inr ⟨call, mem_append_right _ hcall, hid⟩

theorem Recorded.step {a : Action} (hc : c.Recorded) (hstep : c.step a = some c') : c'.Recorded := by
  cases a with
  | getResponse response =>
    obtain ⟨calls, hafter, hrecords⟩ := Records.messageGetResponse c response
    cases hstep
    exact hafter ▸ hc.extend hrecords
  | ingestURI lxmfData =>
    cases hstep
    exact hc.extend (.ingestURIOutcome _ _)
  | deliveryPacket data packet =>
    cases hstep
    exact hc.extend (.deliveryPacket _ _ _)
  | resource data =>
    cases hstep
    exact hc.extend (.resource _ _)
  | propagationPacket messages =>
    cases hstep
    exact hc.extend (.propagationPacket _ _)
  | propagationResource peer messages =>
    cases hstep
    exact hc.extend (.of_eq (ingestValidated_delivered _ _ _))
  | cleanCaches =>
    cases hstep
    exact append_nil c.calls ▸ hc.extend (.cleanTransientIDCaches c.router)
  | tick now =>
    cases hstep
    exact hc

/-! ### The list of messages -/

theorem listEntries_haves {r : Router} {options : DownloadOptions} (entries : List Msgpack.Value)
    (request : MessageGetRequest) (h : id ∈ (r.listEntries options request entries).haves) :
    id ∈ request.haves ∨ r.hasDeliveredTransientID id = true := by
  induction entries generalizing request with
  | nil => exact .inl h
  | cons entry entries ih =>
    rcases ih _ h with h | h
    · cases hknown : (responseBytes entry).filter r.hasDeliveredTransientID with
      | none =>
        rw [hknown] at h
        split_ifs at h <;> exact .inl h
      | some known =>
        rw [hknown] at h
        dsimp only at h
        split_ifs at h
        · exact .inl h
        · rcases mem_append.mp h with h | h
          · exact .inl h
          · rw [mem_singleton.mp h]
            exact .inr (filter_eq_some_iff.mp hknown).2
    · exact .inr h

theorem messageListResponse_haves {r : Router} {options : DownloadOptions} {response : Msgpack.Value}
    {request : MessageGetRequest} (h : r.messageListResponse options response = .ok (some request))
    (hid : id ∈ request.haves) : r.hasDeliveredTransientID id = true := by
  unfold messageListResponse at h
  split at h
  · split_ifs at h
    · cases h
    · split at h
      · cases h
      · cases h
        exact (listEntries_haves _ _ hid).resolve_left fun h => (nomatch h)
  · cases h

theorem messageGetResponse_value (r : Router) (payloads : List Bytes) :
    (r.messageGetResponse (.array (payloads.map .bin))).value = .ok (payloads.map fullHash) := by
  obtain ⟨duplicates, h⟩ := getEntries_value r payloads
  have hentries : messageGetEntries (.array (payloads.map .bin)) = .ok (payloads.map .bin) := rfl
  rw [messageGetResponse, hentries]
  dsimp only
  rw [h]

theorem handed_afterGet_iff (c : Client) (payloads : List Bytes) (id : Bytes) :
    (c.afterGet (.array (payloads.map .bin))).Handed id ↔ c.Handed id ∨ Delivers c.router payloads id := by
  have hcalls : (c.afterGet (.array (payloads.map .bin))).calls =
      c.calls ++ getCalls c.router (payloads.map .bin) := rfl
  rw [← getCalls_iff, Handed, Handed, hcalls]
  simp only [mem_append, or_and_right, exists_or]

/-- Received messages are all acknowledged, and handed over just when each was before or is new and opens. -/
theorem acknowledged_handed_iff {c₀ c : Client} {as : List Action} (hstart : c₀.Recorded)
    (hrun : run step c₀ as = some c) :
    (∀ options response request, c.router.messageListResponse options response = .ok (some request) →
      ∀ id ∈ request.haves, c.Delivered id) ∧ ∀ payloads : List Bytes, ∃ haves,
      (c.router.messageGetResponse (.array (payloads.map .bin))).value = .ok haves ∧
        ((∀ id ∈ haves, (c.afterGet (.array (payloads.map .bin))).Handed id) ↔
          ∀ payload ∈ payloads, c.Handed (fullHash payload) ∨ Delivers c.router payloads (fullHash payload)) := by
  have hrecorded : c.Recorded :=
    Reachable.invariant ⟨as, hrun⟩ Recorded hstart fun _ _ _ h hstep => h.step hstep
  refine ⟨fun options response request hlist id hid => ?_, fun payloads => ?_⟩
  · have hdelivered := messageListResponse_haves hlist hid
    rw [hasDeliveredTransientID, Bool.and_eq_true] at hdelivered
    exact hrecorded id hdelivered.2
  · refine ⟨_, messageGetResponse_value c.router payloads, ?_⟩
    simp only [List.forall_mem_map, handed_afterGet_iff]

end Client

theorem sample_recorded : Client.Recorded ⟨sampleRouter, []⟩ := fun _ h => (nomatch h)

/-- A message for the user is handed over and acknowledged. -/
theorem message_acknowledged : ∃ haves,
    (sampleRouter.messageGetResponse (.array ([sampleData].map .bin))).value = .ok haves ∧
      ∀ id ∈ haves, (Client.afterGet ⟨sampleRouter, []⟩ (.array ([sampleData].map .bin))).Handed id := by
  have hrun : run Client.step ⟨sampleRouter, []⟩ [] = some ⟨sampleRouter, []⟩ := rfl
  obtain ⟨haves, hvalue, hiff⟩ := (Client.acknowledged_handed_iff sample_recorded hrun).2 [sampleData]
  refine ⟨haves, hvalue, hiff.mpr fun payload hpayload => .inr ?_⟩
  rw [List.mem_singleton.mp hpayload]
  have hfirst : firstWithID [sampleData] (fullHash sampleData) = some sampleData :=
    List.find?_cons_of_pos (decide_eq_true ⟨by decide, rfl⟩)
  exact ⟨sample_isDuplicate _, sampleData, sampleMessage .propagated, hfirst, unpack_sampleData .propagated⟩

/-- A message that cannot be unpacked is acknowledged, and was not handed over. -/
theorem broken_acknowledged :
    (sampleRouter.messageGetResponse (.array ([sampleDestination].map .bin))).value = .ok [fullHash sampleDestination] ∧
      ¬(Client.afterGet ⟨sampleRouter, []⟩ (.array ([sampleDestination].map .bin))).Handed (fullHash sampleDestination) := by
  refine ⟨Client.messageGetResponse_value sampleRouter [sampleDestination], fun h => ?_⟩
  rcases (Client.handed_afterGet_iff ⟨sampleRouter, []⟩ [sampleDestination] _).mp h with
    ⟨_, hcall, -⟩ | ⟨-, payload, message, hfirst, hopen⟩
  · cases hcall
  · obtain rfl := List.mem_singleton.mp (List.mem_of_find?_eq_some hfirst)
    cases hopen

end Reticulum.Lxmf
