import Reticulum.Theorems.Lxmf.PeerStates

/-! # The books of a sync

The fields of the peer are shared by all offers, and the list of wanted messages comes from the remote. -/

namespace Reticulum.Lxmf
open SyncPoint SyncWorld Threads List

/-! ### The handled messages -/

def Stored (entries : Table PropagationEntry) (id : Bytes) : Prop := (entries.lookup id).isSome = true

def HandledIn (peer : Bytes) (entries : Table PropagationEntry) (id : Bytes) : Prop :=
  ∃ entry, entries.lookup id = some entry ∧ peer ∈ entry.handledBy

structure Marks (peer : Bytes) (entries entries' : Table PropagationEntry) (ids : List Bytes) : Prop where
  stored : ∀ id, Stored entries' id ↔ Stored entries id
  handled : ∀ id, HandledIn peer entries' id ↔ HandledIn peer entries id ∨ (id ∈ ids ∧ Stored entries id)

namespace Marks

variable {peer : Bytes} {entries entries' entries'' : Table PropagationEntry} {ids ids' : List Bytes}

theorem refl (peer : Bytes) (entries : Table PropagationEntry) : Marks peer entries entries [] :=
  ⟨fun _ => Iff.rfl, fun _ => by simp⟩

theorem trans (h : Marks peer entries entries' ids) (h' : Marks peer entries' entries'' ids') :
    Marks peer entries entries'' (ids ++ ids') where
  stored id := (h'.stored id).trans (h.stored id)
  handled id := by
    rw [h'.handled, h.handled, h.stored, mem_append, or_and_right, or_assoc]

theorem insert {id : Bytes} {entry entry' : PropagationEntry} (hentry : entries.lookup id = some entry)
    (h : peer ∈ entry'.handledBy ↔ peer ∈ entry.handledBy ∨ id ∈ ids) (hids : ∀ id' ∈ ids, id' = id) :
    Marks peer entries (entries.insert id entry') ids := by
  refine ⟨fun id' => ?_, fun id' => ?_⟩
  · by_cases heq : id' = id
    · subst heq
      simp [Stored, hentry]
    · simp [Stored, AList.lookup_insert_ne heq]
  · by_cases heq : id' = id
    · subst heq
      simp [HandledIn, Stored, hentry, h]
    · simp only [HandledIn, AList.lookup_insert_ne heq]
      exact (or_iff_left fun hid => heq (hids id' hid.1)).symm

theorem removeUnhandledMessage (peer : Bytes) (entries : Table PropagationEntry) (id : Bytes) :
    Marks peer entries (removeUnhandledMessage peer entries id) [] := by
  unfold Lxmf.removeUnhandledMessage
  cases h : entries.lookup id with
  | none => exact refl peer entries
  | some entry => exact insert h (by simp) (fun _ hid => (nomatch hid))

theorem addHandledMessage (peer : Bytes) (entries : Table PropagationEntry) (id : Bytes) :
    Marks peer entries (addHandledMessage peer entries id) [id] := by
  unfold Lxmf.addHandledMessage
  cases h : entries.lookup id with
  | none =>
    refine ⟨fun _ => Iff.rfl, fun id' => (or_iff_left ?_).symm⟩
    rintro ⟨hid, hstored⟩
    rw [Stored, mem_singleton.mp hid, h] at hstored
    cases hstored
  | some entry =>
    dsimp only
    split_ifs with hmem
    · refine ⟨fun _ => Iff.rfl, fun id' => (or_iff_left_of_imp ?_).symm⟩
      rintro ⟨hid, -⟩
      exact ⟨entry, mem_singleton.mp hid ▸ h, hmem⟩
    · exact insert h (by simp) (fun _ hid => mem_singleton.mp hid)

theorem foldl (f : Table PropagationEntry → Bytes → Table PropagationEntry) (mark : Bytes → List Bytes)
    (hf : ∀ entries id, Marks peer entries (f entries id) (mark id)) (list : List Bytes) (entries : Table PropagationEntry) :
    Marks peer entries (list.foldl f entries) (list.flatMap mark) := by
  induction list generalizing entries with
  | nil => exact refl peer entries
  | cons id list ih => exact (hf entries id).trans (ih _)

theorem markHandled (peer : Bytes) (entries : Table PropagationEntry) (ids : List Bytes) :
    Marks peer entries (markHandled peer entries ids) ids := by
  have h := foldl (fun entries id => Lxmf.removeUnhandledMessage peer (Lxmf.addHandledMessage peer entries id) id)
    (fun id => [id] ++ []) (fun entries id => (addHandledMessage peer entries id).trans
      (removeUnhandledMessage peer _ id)) ids entries
  rwa [show ids.flatMap (fun id => [id] ++ []) = ids by simp] at h

end Marks

/-! ### Offers -/

variable {w : SyncWorld}

def Oversize (w : SyncWorld) (id : Bytes) : Prop :=
  ∃ entry, w.propagationEntries.lookup id = some entry ∧
    w.peer.propagationTransferLimit.any (fun limit => Float.ofNat (entry.size + 16) > limit * 1000) = true

def tooLarge (w : SyncWorld) (unhandled : List Bytes) : List Bytes :=
  (applyLimits w.peer 24 ((collectPendingOfferEntries w unhandled).1.insertionSort fun a b => a.weight ≤ b.weight)).2

variable (w : SyncWorld)

def OfferResponse.declines : OfferResponse → Bytes → Bool
  | nothing, _ => true
  | wanted ids, id => id ∉ ids
  | _, _ => false

def marked (w : SyncWorld) : SyncPoint → List Bytes
  | syncOffer unhandled => tooLarge w unhandled
  | responding response offer _ => offer.filter response.declines
  | resourceConcluded _ true => w.peer.currentlyTransferringMessages.getD []
  | _ => []

/-- What a thread stands for: the request whose response it handles, and the messages that it has put into a resource. -/
structure SyncTag where
  request : Option Nat := none
  packed : List Bytes := []
deriving DecidableEq

/-- A thread of the peer, or another part of the router, after which these messages are stored. -/
inductive SyncThread where
  | peer (t : SyncPoint) (tag : SyncTag)
  | storeChanged (entries : List (Bytes × PropagationEntry))
deriving DecidableEq

structure SyncLedger where
  world : SyncWorld
  offers : List (Nat × List Bytes) := []
  transfers : List (Nat × List Bytes) := []

namespace SyncLedger

def isEntry : SyncThread → Bool
  | .storeChanged _ => true
  | .peer t tag => tag = {} &&
    match t with
    | sync | linkEstablished | linkClosed | offerResponse .. | requestFailed _ | resourceConcluded .. => true
    | _ => false

/-- A callback runs for a request that is open or a resource that has not been concluded. -/
def awaits (w : SyncWorld) : SyncPoint → Bool
  | offerResponse request _ | requestFailed request => request.any (· ∈ w.requests)
  | resourceConcluded resource _ => resource.any (· ∈ w.resources.map (·.id))
  | _ => true

def nextTag (w : SyncWorld) (tag : SyncTag) : SyncPoint → SyncTag
  | offerResponse request _ => { request }
  | startSyncTransfer wantedIDs =>
    { tag with packed := wantedIDs.filter fun id => (syncPayload w.propagationEntries id).isSome }
  | _ => tag

def made (w : SyncWorld) (ok : Bool) : Bool := w.peer.link.isSome && ok

def offersAfter (l : SyncLedger) (ok : Bool) : SyncPoint → List (Nat × List Bytes)
  | syncRequest ids => if made l.world ok then (l.world.fresh, ids) :: l.offers else l.offers
  | _ => l.offers

def transfersAfter (l : SyncLedger) (tag : SyncTag) (ok : Bool) : SyncPoint → List (Nat × List Bytes)
  | .newResource _ => if made l.world ok then (l.world.fresh, tag.packed) :: l.transfers else l.transfers
  | _ => l.transfers

def exec (l : SyncLedger) (t : SyncThread) (ok : Bool) : Option (SyncLedger × List SyncThread) :=
  match t with
  | .storeChanged entries =>
    let propagationEntries := entries.foldl (fun table (id, entry) => table.insert id entry) ∅
    some ({ l with world := { l.world with propagationEntries } }, [])
  | .peer t tag =>
    if awaits l.world t then
      let (world, next) := l.world.exec t ok
      some ({ world, offers := offersAfter l ok t, transfers := transfersAfter l tag ok t },
        next.map (.peer · (nextTag l.world tag t)))
    else none

def system : Threads.System SyncLedger SyncThread Bool where
  entry := isEntry
  exec := exec

inductive Reason (l : SyncLedger) (tag : SyncTag) : SyncPoint → Bytes → Prop where
  | declined {response : OfferResponse} {offer offered : List Bytes} {link : Option SyncLink} {request : Nat} {id : Bytes}
      (request_eq : tag.request = some request) (offered_in : (request, offered) ∈ l.offers) (mem : id ∈ offered)
      (declines : response.declines id = true) : Reason l tag (responding response offer link) id
  | oversize {unhandled : List Bytes} {id : Bytes} (oversize : Oversize l.world id) : Reason l tag (syncOffer unhandled) id
  | transferred {resource : Nat} {packed : List Bytes} {id : Bytes} (transferred : (resource, packed) ∈ l.transfers)
      (mem : id ∈ packed) : Reason l tag (resourceConcluded (some resource) true) id

/-- The step marks messages for a reason only, and transfers only messages of the last offer. -/
def Sound (c : Config SyncLedger SyncThread) : Action SyncThread Bool → Prop
  | .advance (.peer t tag) ok => ∀ l' next, c.shared.exec (.peer t tag) ok = some (l', next) →
      (∀ id, HandledIn c.shared.world.peer.destinationHash l'.world.propagationEntries id →
        HandledIn c.shared.world.peer.destinationHash c.shared.world.propagationEntries id ∨ Reason c.shared tag t id) ∧
      ∀ resource packed, l'.transfers = (resource, packed) :: c.shared.transfers →
        ∀ id ∈ packed, id ∈ c.shared.world.peer.lastOffer
  | _ => True

/-- The points from the request of an offer to the end of the work on its answer. -/
def working : SyncThread → Bool
  | .peer t _ =>
    match t with
    | syncRequest _ | responding .. | startSyncTransfer _ | .newResource _ | transferring _ => true
    | _ => false
  | .storeChanged _ => false

/-- One offer is worked off at a time, the remote asks for messages of the offer that it answers, these are still there,
    and a resource is complete only after its messages have been noted. -/
def Orderly (c : Config SyncLedger SyncThread) : Action SyncThread Bool → Prop
  | .advance (.peer (syncOffer _) _) _ =>
    c.shared.world.requests = [] ∧ c.shared.world.resources = [] ∧ ∀ t ∈ c.threads, working t = false
  | .advance (.peer (offerResponse (some request) (.wanted ids)) _) _ =>
    ∀ offered, (request, offered) ∈ c.shared.offers → ids ⊆ offered
  | .advance (.peer (startSyncTransfer wantedIDs) _) _ =>
    ∀ id ∈ wantedIDs, (syncPayload c.shared.world.propagationEntries id).isSome = true
  | .advance (.peer (resourceConcluded _ true) _) _ => ∀ wantedIDs tag, .peer (transferring wantedIDs) tag ∉ c.threads
  | _ => True

variable {l l' : SyncLedger} {t : SyncPoint} {tag : SyncTag} {ok : Bool} {next threads : List SyncThread}
variable {c c' : Config SyncLedger SyncThread}

theorem exec_peer (h : l.exec (.peer t tag) ok = some (l', next)) : awaits l.world t = true ∧
    l' = ⟨(l.world.exec t ok).1, offersAfter l ok t, transfersAfter l tag ok t⟩ ∧
    next = (l.world.exec t ok).2.map (.peer · (nextTag l.world tag t)) := by
  simp only [exec] at h
  split_ifs at h with hawaits
  cases h
  exact ⟨hawaits, rfl, rfl⟩

/-! ### How far the work on an offer has come -/

/-- What a thread works on is the last offer. -/
def About (l : SyncLedger) : SyncThread → Prop
  | .peer (syncRequest ids) _ => ids = l.world.peer.lastOffer
  | .peer (responding response offer _) tag => offer = l.world.peer.lastOffer ∧
    (∃ request, tag.request = some request ∧ (request, l.world.peer.lastOffer) ∈ l.offers) ∧
    ∀ ids, response = .wanted ids → ids ⊆ l.world.peer.lastOffer
  | .peer (startSyncTransfer wantedIDs) _ => wantedIDs ⊆ l.world.peer.lastOffer
  | .peer (.newResource wantedIDs) tag => tag.packed = wantedIDs ∧ wantedIDs ⊆ l.world.peer.lastOffer
  | _ => False

/-- With the threads that work: at most one of a request, a thread and a resource is under way. -/
inductive Stage (l : SyncLedger) : List SyncThread → Prop where
  | resting (requests : l.world.requests = [])
      (noted : ∀ resource ∈ l.world.resources, ∃ packed, (resource.id, packed) ∈ l.transfers ∧
        l.world.peer.currentlyTransferringMessages.getD [] ⊆ packed) : Stage l []
  | asked {request : Nat} (requests : l.world.requests = [request]) (resources : l.world.resources = [])
      (offered : (request, l.world.peer.lastOffer) ∈ l.offers) : Stage l []
  | busy {u : SyncThread} (requests : l.world.requests = []) (resources : l.world.resources = []) (about : About l u) :
      Stage l [u]
  | noting {wantedIDs : List Bytes} {tag : SyncTag} (requests : l.world.requests = [])
      (made : ∀ resource ∈ l.world.resources, (resource.id, wantedIDs) ∈ l.transfers) :
      Stage l [.peer (transferring wantedIDs) tag]

/-- The last offer and what is known of it stay, and requests and resources only end. -/
structure Settles (l l' : SyncLedger) : Prop where
  lastOffer : l'.world.peer.lastOffer = l.world.peer.lastOffer
  offers : l'.offers = l.offers
  transfers : l'.transfers = l.transfers
  requests : l'.world.requests.Sublist l.world.requests
  resources : l'.world.resources.Sublist l.world.resources
  noted : l'.world.peer.currentlyTransferringMessages.getD [] ⊆ l.world.peer.currentlyTransferringMessages.getD []

namespace Stage

variable {working' : List SyncThread}

theorem rest (requests : l.world.requests = []) (resources : l.world.resources = []) : Stage l [] :=
  .resting requests (by simp [resources])

theorem of_busy {u : SyncThread} (h : Stage l [u]) (hu : ∀ wantedIDs tag, u ≠ .peer (transferring wantedIDs) tag) :
    l.world.requests = [] ∧ l.world.resources = [] ∧ About l u := by
  cases h with
  | busy requests resources about => exact ⟨requests, resources, about⟩
  | noting => exact absurd rfl (hu _ _)

theorem settles (h : Stage l working') (hs : Settles l l') : Stage l' working' := by
  have hnone : ∀ {α : Type} {as bs : List α}, as.Sublist bs → bs = [] → as = [] :=
    fun hsub hnil => sublist_nil.mp (hnil ▸ hsub)
  cases h with
  | resting requests noted =>
    refine .resting (hnone hs.requests requests) fun resource hresource => ?_
    obtain ⟨packed, hpacked, hnoted⟩ := noted resource (hs.resources.subset hresource)
    exact ⟨packed, hs.transfers ▸ hpacked, Subset.trans hs.noted hnoted⟩
  | asked requests resources offered =>
    rcases sublist_singleton.mp (requests ▸ hs.requests) with hended | hopen
    · exact .rest hended (hnone hs.resources resources)
    · exact .asked hopen (hnone hs.resources resources) (by rwa [hs.lastOffer, hs.offers])
  | busy requests resources about =>
    refine .busy (hnone hs.requests requests) (hnone hs.resources resources) ?_
    unfold About at about ⊢
    rwa [hs.lastOffer, hs.offers]
  | noting requests made =>
    refine .noting (hnone hs.requests requests) fun resource hresource => ?_
    exact hs.transfers ▸ made resource (hs.resources.subset hresource)

theorem eq_of_perm {threads' : List SyncThread} (h : Stage l working') (hp : threads'.Perm working') :
    threads' = working' := by
  cases h <;> first | exact perm_nil.mp hp | exact perm_singleton.mp hp

theorem erase {u : SyncThread} (h : Stage l (threads.filter working)) (hu : u ∈ threads) (hidle : working u = false) :
    (threads.erase u).filter working = threads.filter working := by
  refine h.eq_of_perm (((perm_cons_erase hu).filter working).trans ?_).symm
  rw [filter_cons_of_neg (by simp [hidle])]

theorem alone {u : SyncThread} (h : Stage l (threads.filter working)) (hu : u ∈ threads) (hworks : working u = true) :
    Stage l [u] ∧ (threads.erase u).filter working = [] := by
  have hperm := ((perm_cons_erase hu).filter working).symm
  rw [filter_cons_of_pos hworks] at hperm
  rw [← h.eq_of_perm hperm] at h
  have hrest : (threads.erase u).filter working = [] := by
    generalize (threads.erase u).filter working = rest at h
    cases h <;> rfl
  exact ⟨hrest ▸ h, hrest⟩

end Stage

/-! ### One step -/

def InStage (c : Config SyncLedger SyncThread) : Prop := Stage c.shared (c.threads.filter working)

/-- A step of a thread that does not work on an offer. -/
theorem InStage.idle (h : InStage c) (ht : .peer t tag ∈ c.threads) (hidle : working (.peer t tag) = false)
    (hnext : ∀ u ∈ next, working u = false) (hs : Settles c.shared l') :
    InStage ⟨l', next ++ c.threads.erase (.peer t tag)⟩ := by
  rw [InStage, filter_append, filter_eq_nil_iff.mpr (by simpa using hnext), nil_append, h.erase ht hidle]
  exact h.settles hs

/-- A step of the thread that does. -/
theorem InStage.works {u : SyncThread} (h : InStage c) (hu : u ∈ c.threads) (hworks : working u = true)
    (hnext : Stage c.shared [u] → Stage l' (next.filter working)) : InStage ⟨l', next ++ c.threads.erase u⟩ := by
  obtain ⟨hstage, hrest⟩ := h.alone hu hworks
  rw [InStage, filter_append, hrest, append_nil]
  exact hnext hstage

theorem InStage.answer (h : InStage c) {request : Nat} {response : OfferResponse}
    (ht : .peer (offerResponse (some request) response) tag ∈ c.threads) (hopen : request ∈ c.shared.world.requests)
    (hwithin : ∀ ids, response = .wanted ids → ∀ offered, (request, offered) ∈ c.shared.offers → ids ⊆ offered) :
    Stage { c.shared with world := (c.shared.world.exec (offerResponse (some request) response) ok).1 }
      (.peer (responding response c.shared.world.peer.lastOffer c.shared.world.peer.link) { request := some request } ::
        (c.threads.erase (.peer (offerResponse (some request) response) tag)).filter working) := by
  rw [h.erase ht rfl]
  have hstage : Stage c.shared (c.threads.filter working) := h
  generalize c.threads.filter working = threads at hstage
  cases hstage with
  | asked requests resources offered =>
    obtain rfl := mem_singleton.mp (requests ▸ hopen)
    refine .busy ?_ resources ⟨rfl, ⟨request, rfl, offered⟩, fun ids hids => hwithin ids hids _ offered⟩
    simp [SyncWorld.exec, setState, endRequest, requests]
  | resting requests | busy requests | noting requests =>
    simp [requests] at hopen

/-- One section of a peer's thread, in an orderly run. -/
theorem InStage.advance (h : InStage c) (ht : .peer t tag ∈ c.threads) (ho : Orderly c (.advance (.peer t tag) ok))
    (hexec : c.shared.exec (.peer t tag) ok = some (l', next)) :
    InStage ⟨l', next ++ c.threads.erase (.peer t tag)⟩ := by
  obtain ⟨hawaits, rfl, rfl⟩ := exec_peer hexec
  cases t with
  | sync =>
    have hsame : (c.shared.world.exec sync ok).1 = c.shared.world ∧
        ∀ u ∈ (c.shared.world.exec sync ok).2, ∀ tag, working (.peer u tag) = false := by
      simp only [SyncWorld.exec]
      split_ifs
      · simp
      · split <;> simp [working]
    refine h.idle ht rfl (by simpa using fun u hu => hsame.2 u hu _) ?_
    rw [hsame.1]
    exact ⟨rfl, rfl, rfl, .refl _, .refl _, Subset.refl _⟩
  | linkEstablished | linkClosed | syncNewLink | syncEstablishing | syncSent _ | responseDone _ =>
    exact h.idle ht rfl (by simp [SyncWorld.exec, working]) ⟨rfl, rfl, rfl, .refl _, .refl _, Subset.refl _⟩
  | requestFailed request =>
    refine h.idle ht rfl (by simp [SyncWorld.exec]) ?_
    cases request with
    | none => cases hawaits
    | some request => exact ⟨rfl, rfl, rfl, filter_sublist, .refl _, Subset.refl _⟩
  | resourceConcluded resource complete =>
    cases complete with
    | true => exact h.idle ht rfl (by simp [SyncWorld.exec, working]) ⟨rfl, rfl, rfl, .refl _, .refl _, Subset.refl _⟩
    | false =>
      refine h.idle ht rfl (by simp [SyncWorld.exec]) ?_
      cases resource with
      | none => cases hawaits
      | some resource => exact ⟨rfl, rfl, rfl, .refl _, filter_sublist, nil_subset _⟩
  | concluding resource ids =>
    refine h.idle ht rfl ?_ ?_
    · simp only [SyncWorld.exec]
      split_ifs <;> simp [working]
    · cases resource with
      | none => exact ⟨rfl, rfl, rfl, .refl _, .refl _, nil_subset _⟩
      | some resource => exact ⟨rfl, rfl, rfl, .refl _, filter_sublist, nil_subset _⟩
  | syncOffer unhandled =>
    obtain ⟨hrequests, hresources, hidle⟩ := ho
    have hrest : (c.threads.erase (.peer (syncOffer unhandled) tag)).filter working = [] :=
      filter_eq_nil_iff.mpr fun u hu => by simp [hidle u (mem_of_mem_erase hu)]
    rw [InStage, filter_append, hrest, append_nil]
    simp only [SyncWorld.exec]
    split_ifs
    · exact .rest hrequests hresources
    · exact .busy hrequests hresources rfl
  | offerResponse request response =>
    cases request with
    | none => cases hawaits
    | some request =>
      refine h.answer ht (by simpa [awaits] using hawaits) ?_
      rintro ids rfl
      exact ho
  | syncRequest ids =>
    refine h.works ht rfl fun hstage => ?_
    obtain ⟨requests, resources, rfl⟩ := hstage.of_busy (by simp)
    simp only [SyncWorld.exec, offersAfter, made]
    split
    · exact .rest requests resources
    · rename_i hlink
      cases ok with
      | true => exact .asked (congrArg (cons _) requests) resources (by simp [hlink])
      | false => exact .rest requests resources
  | responding response offer link =>
    refine h.works ht rfl fun hstage => ?_
    obtain ⟨requests, resources, rfl, -, within⟩ := hstage.of_busy (by simp)
    cases response with
    | noIdentity =>
      simp only [SyncWorld.exec]
      split_ifs <;> exact .rest requests resources
    | noAccess | throttled | nothing => exact .rest requests resources
    | everything => exact .busy requests resources (Subset.refl _)
    | wanted ids => exact .busy requests resources (within ids rfl)
  | startSyncTransfer wantedIDs =>
    refine h.works ht rfl fun hstage => ?_
    obtain ⟨requests, resources, within⟩ := hstage.of_busy (by simp)
    simp only [SyncWorld.exec]
    split_ifs
    · exact .rest requests resources
    · exact .busy requests resources ⟨filter_eq_self.mpr ho, within⟩
  | newResource wantedIDs =>
    refine h.works ht rfl fun hstage => ?_
    obtain ⟨requests, resources, packed, within⟩ := hstage.of_busy (by simp)
    simp only [SyncWorld.exec, transfersAfter, made]
    split
    · exact .rest requests resources
    · rename_i hlink
      cases ok with
      | true => exact .noting requests (by simp [resources, packed, hlink])
      | false => exact .rest requests resources
  | transferring wantedIDs =>
    refine h.works ht rfl fun hstage => ?_
    cases hstage with
    | busy requests resources about => exact about.elim
    | noting requests made =>
      exact .resting requests fun resource hresource => ⟨wantedIDs, made resource hresource, Subset.refl _⟩

theorem InStage.step {a : Action SyncThread Bool} (h : InStage c) (ho : Orderly c a) (hstep : system.step c a = some c') :
    InStage c' := by
  cases a with
  | start u =>
    obtain ⟨hentry, rfl⟩ := System.step_start.mp hstep
    have hidle : working u = false := by
      cases u with
      | storeChanged _ => rfl
      | peer t tag => cases t <;> first | rfl | simp [system, isEntry] at hentry
    rw [InStage, filter_cons_of_neg (by simp [hidle])]
    exact h
  | advance u ok =>
    obtain ⟨hu, l', next, hexec, rfl⟩ := System.step_advance.mp hstep
    cases u with
    | storeChanged entries =>
      cases hexec
      rw [InStage, nil_append, h.erase hu rfl]
      exact h.settles ⟨rfl, rfl, rfl, .refl _, .refl _, Subset.refl _⟩
    | peer t tag => exact h.advance hu ho hexec

def offering : List (Action SyncThread Bool) :=
  [.start (.peer sync {}), .advance (.peer sync {}) true, .advance (.peer (syncOffer [[5]]) {}) true,
    .advance (.peer (syncRequest [[5]]) {}) true]

def responded (response : OfferResponse) : List (Action SyncThread Bool) :=
  offering ++ [.start (.peer (offerResponse (some 1) response) {}), .advance (.peer (offerResponse (some 1) response) {}) true,
    .advance (.peer (responding response [[5]] (some ⟨0, true, true⟩)) { request := some 1 }) true]

def transferred : List (Action SyncThread Bool) :=
  responded (.wanted [[5]]) ++ [.advance (.peer (startSyncTransfer [[5]]) { request := some 1 }) true,
    .advance (.peer (.newResource [[5]]) { request := some 1, packed := [[5]] }) true,
    .advance (.peer (transferring [[5]]) { request := some 1, packed := [[5]] }) true,
    .start (.peer (resourceConcluded (some 2) true) {}), .advance (.peer (resourceConcluded (some 2) true) {}) true]

end SyncLedger

end Reticulum.Lxmf
