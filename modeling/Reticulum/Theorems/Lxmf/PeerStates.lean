import Reticulum.Lxmf.Peer

/-! What will move a peer on from the state it is in. -/

namespace Reticulum.Lxmf
open SyncPoint SyncWorld Threads

/-- Each state in which the peer waits has something to wait for: a link, an open offer, a resource. -/
structure Attended (w : SyncWorld) : Prop where
  linkEstablishing : w.peer.state = .linkEstablishing →
    ∃ link, w.peer.link = some link ∧ link.establishCalled = true ∧ link.callbacks = true
  requestSent : w.peer.state = .requestSent → w.requests ≠ []
  resourceTransferring : w.peer.state = .resourceTransferring → ∃ resource ∈ w.resources, resource.advertised = true

/-- The steps that keep a peer attended: `Sync` does not get to the idle branch, every offer is accepted and not
    answered before `Sync` has set the state, and no transfer gets its resource. -/
def Careful (c : Config SyncWorld SyncPoint) : Action SyncPoint Bool → Prop
  | .advance sync ok => c.shared.peer.state = .idle → ok = false ∨
      unhandledMessages c.shared.propagationEntries c.shared.peer.destinationHash = [] ∨
      c.shared.peer.currentlyTransferringMessages ≠ none
  | .advance (syncRequest _) ok => ok = true
  | .advance (offerResponse (some request) _) _ => syncSent (some request) ∉ c.threads
  | .advance (requestFailed (some request)) _ => syncSent (some request) ∉ c.threads
  | .advance (.newResource _) ok => ok = false
  | _ => True

def Expects (w : SyncWorld) : SyncPoint → Prop
  | syncNewLink | syncEstablishing | syncSent none | transferring _ => False
  | syncSent (some request) => request ∈ w.requests
  | _ => True

variable {w w' : SyncWorld}

theorem Attended.of_state (h : w.peer.state ∈ [PeerState.idle, .linkReady, .responseReceived]) : Attended w := by
  simp only [List.mem_cons, List.not_mem_nil, or_false] at h
  rcases h with h | h | h <;> exact ⟨by simp [h], by simp [h], by simp [h]⟩

structure Frame (w w' : SyncWorld) : Prop where
  state : w'.peer.state = w.peer.state
  link : w'.peer.link = w.peer.link
  requests : w'.requests = w.requests
  resources : w'.resources = w.resources

theorem Attended.frame (h : Attended w) (hf : Frame w w') : Attended w' :=
  ⟨by rw [hf.state, hf.link]; exact h.linkEstablishing, by rw [hf.state, hf.requests]; exact h.requestSent,
    by rw [hf.state, hf.resources]; exact h.resourceTransferring⟩

theorem Expects.mono {t : SyncPoint} (h : Expects w t) (hsub : w.requests ⊆ w'.requests) : Expects w' t := by
  cases t with
  | syncSent request =>
    cases request with
    | none => exact h
    | some request => exact hsub h
  | _ => exact h

@[simp] theorem toIdle_state (w : SyncWorld) : w.toIdle.peer.state = .idle := rfl
@[simp] theorem toIdle_requests (w : SyncWorld) : w.toIdle.requests = w.requests := rfl
@[simp] theorem setState_state (w : SyncWorld) (s : PeerState) : (w.setState s).peer.state = s := rfl
@[simp] theorem setState_requests (w : SyncWorld) (s : PeerState) : (w.setState s).requests = w.requests := rfl
@[simp] theorem endResource_requests (w : SyncWorld) (resource : Option Nat) :
    (w.endResource resource).requests = w.requests := by
  cases resource <;> rfl

/-- The new state is attended, and the requests that were open are open. -/
structure Kept (w w' : SyncWorld) (next : List SyncPoint) : Prop where
  attended : Attended w'
  next : ∀ u ∈ next, Expects w' u
  requests : w.requests ⊆ w'.requests

variable {next : List SyncPoint}

theorem Kept.of_frame (h : Attended w) (hf : Frame w w') (hn : ∀ u ∈ next, Expects w' u) :
    Kept w w' next :=
  ⟨h.frame hf, hn, by rw [hf.requests]; exact fun _ => id⟩

theorem Kept.same (h : Attended w) (hn : ∀ u ∈ next, Expects w u) : Kept w w next :=
  .of_frame h ⟨rfl, rfl, rfl, rfl⟩ hn

theorem Kept.of_state (h : w'.peer.state ∈ [PeerState.idle, .linkReady, .responseReceived])
    (hr : w'.requests = w.requests) (hn : ∀ u ∈ next, Expects w' u) : Kept w w' next :=
  ⟨.of_state h, hn, by rw [hr]; exact fun _ => id⟩

theorem expects_singleton {u : SyncPoint} (h : Expects w u) : ∀ v ∈ [u], Expects w v := by
  simpa using h

theorem expects_nil : ∀ v ∈ ([] : List SyncPoint), Expects w v := by simp

theorem exec_responding (h : Attended w) (response : OfferResponse) (offer : List Bytes) (link : Option SyncLink)
    (ok : Bool) : Kept w (w.exec (responding response offer link) ok).1 (w.exec (responding response offer link) ok).2 := by
  cases response with
  | noIdentity =>
    simp only [exec]
    split
    · exact .same h expects_nil
    · exact .of_state (by simp) rfl (expects_singleton trivial)
  | noAccess | throttled => exact .same h expects_nil
  | nothing => exact .of_frame h ⟨rfl, rfl, rfl, rfl⟩ (expects_singleton trivial)
  | everything => exact .same h (expects_singleton trivial)
  | wanted ids => exact .of_frame h ⟨rfl, rfl, rfl, rfl⟩ (expects_singleton trivial)

theorem expects_endRequest {c : Config SyncWorld SyncPoint} {request : Option Nat} {w' : SyncWorld}
    (hc : ∀ id, request = some id → syncSent (some id) ∉ c.threads)
    (hw' : w'.requests = (c.shared.endRequest request).requests) {u : SyncPoint} (hu : u ∈ c.threads)
    (h : Expects c.shared u) : Expects w' u := by
  cases u with
  | syncSent sent =>
    cases sent with
    | none => exact h
    | some id =>
      change id ∈ w'.requests
      rw [hw']
      cases request with
      | none => exact h
      | some request =>
        have hne : id ≠ request := by
          rintro rfl
          exact hc id rfl hu
        simp only [endRequest, List.mem_filter, decide_eq_true_eq]
        exact ⟨h, by simpa using hne⟩
  | _ => exact h

theorem exec_careful {c : Config SyncWorld SyncPoint} {t : SyncPoint} {ok : Bool}
    (hc : Careful c (.advance t ok)) (h : Attended c.shared) (ht : Expects c.shared t) :
    Attended (c.shared.exec t ok).1 ∧ (∀ u ∈ (c.shared.exec t ok).2, Expects (c.shared.exec t ok).1 u) ∧
      ∀ u ∈ c.threads, Expects c.shared u → Expects (c.shared.exec t ok).1 u := by
  have hkept : Kept c.shared (c.shared.exec t ok).1 (c.shared.exec t ok).2 →
      Attended (c.shared.exec t ok).1 ∧ (∀ u ∈ (c.shared.exec t ok).2, Expects (c.shared.exec t ok).1 u) ∧
        ∀ u ∈ c.threads, Expects c.shared u → Expects (c.shared.exec t ok).1 u :=
    fun hk => ⟨hk.attended, hk.next, fun u _ hu => hu.mono hk.requests⟩
  cases t with
  | sync =>
    refine hkept ?_
    simp only [exec]
    split
    · exact .same h expects_nil
    · rename_i hg
      split
      · rename_i hs
        exact absurd (hc hs) hg
      · exact .same h (expects_singleton trivial)
      · exact .same h expects_nil
  | linkEstablished => exact hkept (.of_state (by simp [exec]) rfl (expects_singleton trivial))
  | linkClosed => exact hkept (.of_state (by simp [exec]) rfl expects_nil)
  | offerResponse request response =>
    refine ⟨.of_state (by simp [exec]), expects_singleton trivial, fun u hu => ?_⟩
    exact expects_endRequest (by rintro id rfl; exact hc) rfl hu
  | requestFailed request =>
    refine ⟨.of_state (by simp [exec]), expects_nil, fun u hu => ?_⟩
    exact expects_endRequest (by rintro id rfl; exact hc) rfl hu
  | startSyncTransfer wantedIDs =>
    refine hkept ?_
    simp only [exec]
    split
    · exact .of_state (by simp) rfl expects_nil
    · exact .same h (expects_singleton trivial)
  | resourceConcluded resource complete =>
    cases complete with
    | true => exact hkept (.of_frame h ⟨rfl, rfl, rfl, rfl⟩ (expects_singleton trivial))
    | false => exact hkept (.of_state (by simp [exec]) (by simp [exec]) expects_nil)
  | syncNewLink | syncEstablishing => exact ht.elim
  | syncOffer unhandled =>
    refine hkept ?_
    simp only [exec]
    split
    · exact .of_frame h ⟨rfl, rfl, rfl, rfl⟩ expects_nil
    · exact .of_frame h ⟨rfl, rfl, rfl, rfl⟩ (expects_singleton trivial)
  | syncRequest ids =>
    cases hc
    refine hkept ?_
    simp only [exec]
    split
    · exact .same h expects_nil
    · exact ⟨⟨h.linkEstablishing, fun _ => List.cons_ne_nil _ _, h.resourceTransferring⟩,
        expects_singleton List.mem_cons_self, List.subset_cons_self _ _⟩
  | syncSent request =>
    cases request with
    | none => exact ht.elim
    | some request =>
      refine hkept ⟨⟨by simp [exec], fun _ => List.ne_nil_of_mem ht, by simp [exec]⟩,
        expects_nil, fun _ => id⟩
  | responding response offer link => exact hkept (exec_responding h response offer link ok)
  | responseDone offer => exact hkept (.of_state (by simp [exec]) rfl expects_nil)
  | newResource wantedIDs =>
    cases hc
    refine hkept ?_
    simp only [exec]
    split
    · exact .same h expects_nil
    · exact .of_state (by simp) rfl expects_nil
  | transferring wantedIDs => exact ht.elim
  | concluding resource ids =>
    refine hkept (.of_state (by simp [exec]) (by simp [exec]) ?_)
    simp only [exec]
    split
    · exact expects_singleton trivial
    · exact expects_nil

/-- A peer stays attended in every run whose steps are careful. -/
theorem attended_of_careful (w : SyncWorld) (hw : Attended w) (as : List (Action SyncPoint Bool))
    (hk : system.Keeps Careful ⟨w, []⟩ as) (c : Config SyncWorld SyncPoint) (hr : system.run ⟨w, []⟩ as = some c) :
    Attended c.shared := by
  refine (Transitions.run_induction (fun c => Attended c.shared ∧ ∀ u ∈ c.threads, Expects c.shared u) ?_ as
    ⟨hw, by simp⟩ hk hr).1
  rintro c a c' hc ⟨h, hall⟩ hstep
  cases a with
  | start t =>
    obtain ⟨-, rfl⟩ := System.step_start.mp hstep
    refine ⟨h, List.forall_mem_cons.mpr ⟨?_, hall⟩⟩
    cases t <;> trivial
  | advance t ok =>
    obtain ⟨ht, w', next, hx, rfl⟩ := System.step_advance.mp hstep
    have hexec : c.shared.exec t ok = (w', next) := Option.some.inj hx
    obtain ⟨hattended, hnext, hothers⟩ := exec_careful hc h (hall t ht)
    rw [hexec] at hattended hnext hothers
    refine ⟨hattended, List.forall_mem_append.mpr ⟨hnext, fun u hu => ?_⟩⟩
    exact hothers u (List.mem_of_mem_erase hu) (hall u (List.mem_of_mem_erase hu))

def sampleEntries : Table PropagationEntry :=
  AList.singleton [5] {
    destinationHash := [1], payload := [1, 2], receivedAt := 0, order := 1, handledBy := [], unhandledBy := [[9]]
    file := none, size := 3, stampValue := 16 }

def newPeer : SyncWorld := { peer := { destinationHash := [9] }, propagationEntries := sampleEntries }

/-- The first `Sync` of a new peer leaves it waiting for a link that nobody establishes. -/
theorem first_sync_unattended : ∃ w, system.run ⟨newPeer, []⟩
    [.start sync, .advance sync true, .advance syncNewLink true, .advance syncEstablishing true] = some ⟨w, []⟩ ∧
    Attended newPeer ∧ ¬Attended w := by
  refine ⟨_, rfl, .of_state (by decide), fun h => ?_⟩
  obtain ⟨link, hl, he, -⟩ := h.linkEstablishing rfl
  cases hl
  cases he

def readyPeer : SyncWorld where
  peer := { destinationHash := [9], state := .linkReady, link := some ⟨0, true, true⟩ }
  propagationEntries := sampleEntries
  fresh := 1

def declinedOffer : List (Action SyncPoint Bool) :=
  [.start sync, .advance sync true, .advance (syncOffer [[5]]) true, .advance (syncRequest [[5]]) true,
    .advance (syncSent (some 1)) true, .start (offerResponse (some 1) .nothing),
    .advance (offerResponse (some 1) .nothing) true]

theorem declinedOffer_attended : Attended readyPeer ∧ system.Keeps Careful ⟨readyPeer, []⟩ declinedOffer ∧
    ∃ c, system.run ⟨readyPeer, []⟩ declinedOffer = some c ∧ Attended c.shared := by
  have hw : Attended readyPeer := .of_state (by decide)
  have hk : system.Keeps Careful ⟨readyPeer, []⟩ declinedOffer := by
    refine (Transitions.keeps_cons rfl).mpr ⟨trivial, ?_⟩
    refine (Transitions.keeps_cons rfl).mpr ⟨nofun, ?_⟩
    refine (Transitions.keeps_cons rfl).mpr ⟨trivial, ?_⟩
    refine (Transitions.keeps_cons rfl).mpr ⟨rfl, ?_⟩
    iterate 2 refine (Transitions.keeps_cons rfl).mpr ⟨trivial, ?_⟩
    refine (Transitions.keeps_cons rfl).mpr ⟨?_, trivial⟩
    change syncSent (some 1) ∉ [offerResponse (some 1) .nothing]
    decide
  exact ⟨hw, hk, _, rfl, attended_of_careful readyPeer hw declinedOffer hk _ rfl⟩

end Reticulum.Lxmf
