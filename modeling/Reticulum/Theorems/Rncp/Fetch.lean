import Reticulum.LinkState
import Reticulum.Rncp.Listen

/-! Who the files of a listener go to. -/

namespace Reticulum.Rncp
open LinkPoint Threads List LinkState

variable {t : LinkPoint} {f : Fetch} {ok : Bool}

def Fetch.Allowed (l : Listener) (fetch : Fetch) : Prop :=
  ∃ id ∈ l.allowedIdentityHashes, fetch.remoteIdentity = some id

def Authorised (l : Listener) (s : LinkState) : Prop := ∀ fetch ∈ s.read ++ s.sent, fetch.Allowed l

def LinkPoint.isCheck : LinkPoint → Bool
  | identified _ | teardown => true
  | _ => false

/-- The handler runs only on an active, identified link with no check under way, the remote side identifies only once the
    callback is set, and a link is made active only while it waits for that. -/
def Vetted (l : Listener) (c : Config LinkState LinkPoint) : Action LinkPoint Bool → Prop
  | .advance (respond _ _) _ => l.allowFetch = false ∨
      c.shared.status = .active ∧ c.shared.remoteIdentity.isSome ∧ ∀ t ∈ c.threads, t.isCheck = false
  | .advance (identified _) _ => c.shared.identifiedCallback = true
  | .advance (activate true) _ => c.shared.status.awaitsRTT = true
  | _ => True

variable {l : Listener} {s s' : LinkState} {c : Config LinkState LinkPoint}

def Rejecting (l : Listener) : LinkPoint → Prop
  | identified id => id ∉ l.allowedIdentityHashes
  | teardown => True
  | _ => False

def LinkPoint.fetch? : LinkPoint → Option Fetch
  | stat f | findLink f | readFile f | .newResource f | advertise f => some f
  | _ => none

structure Invariant (l : Listener) (c : Config LinkState LinkPoint) : Prop where
  checked : ∀ id, c.shared.remoteIdentity = some id → id ∉ l.allowedIdentityHashes →
    c.shared.status = .closed ∨ ∃ t ∈ c.threads, Rejecting l t
  serving : ∀ t ∈ c.threads, ∀ f, t.fetch? = some f → f.Allowed l
  authorised : Authorised l c.shared

theorem Rejecting.isCheck (h : Rejecting l t) : t.isCheck = true := by
  cases t with
  | identified id | teardown => rfl
  | _ => exact h.elim

structure Frame (s s' : LinkState) : Prop where
  remoteIdentity : s'.remoteIdentity = s.remoteIdentity
  closed : s.status = .closed → s'.status = .closed
  read : s'.read = s.read := by rfl
  sent : s'.sent = s.sent := by rfl

theorem Frame.refl (s : LinkState) : Frame s s where
  remoteIdentity := rfl
  closed := id

theorem Frame.answer (s : LinkState) (response : FetchResponse) : Frame s (s.answer response).1 where
  remoteIdentity := rfl
  closed := id

theorem Frame.closing (s : LinkState) : Frame s { s with status := .closed } where
  remoteIdentity := rfl
  closed _ := rfl

theorem Frame.authorised (hf : Frame s s') (h : Authorised l s) : Authorised l s' := by
  rw [Authorised, hf.read, hf.sent]
  exact h

/-- A rejected identity left on an open link is still being rejected, and what the threads serve is allowed. -/
structure Kept (l : Listener) (s s' : LinkState) (t : LinkPoint) (next : List LinkPoint) : Prop where
  remoteIdentity : s'.remoteIdentity = s.remoteIdentity
  closed : s.status = .closed → s'.status = .closed
  authorised : Authorised l s → Authorised l s'
  rejects : Rejecting l t → s'.status = .closed ∨ ∃ u ∈ next, Rejecting l u
  serving : ∀ u ∈ next, ∀ f, u.fetch? = some f → f.Allowed l

theorem fetch?_of_isEntry (h : t.isEntry = true) : t.fetch? = none := by
  cases t <;> first | rfl | cases h

theorem Invariant.start (h : Invariant l c) (he : t.isEntry = true) :
    Invariant l { c with threads := t :: c.threads } where
  checked id hid hbad := by
    rcases h.checked id hid hbad with hclosed | ⟨u, hu, hr⟩
    · exact .inl hclosed
    · exact .inr ⟨u, mem_cons_of_mem _ hu, hr⟩
  serving u hu f hf := by
    rcases mem_cons.mp hu with rfl | hu
    · cases (fetch?_of_isEntry he).symm.trans hf
    · exact h.serving u hu f hf
  authorised := h.authorised

theorem Invariant.advance {next : List LinkPoint} (h : Invariant l c) (hk : Kept l c.shared s' t next) :
    Invariant l ⟨s', next ++ c.threads.erase t⟩ where
  checked id hid hbad := by
    rw [hk.remoteIdentity] at hid
    rcases h.checked id hid hbad with hclosed | ⟨u, hu, hr⟩
    · exact .inl (hk.closed hclosed)
    · by_cases hut : u = t
      · subst hut
        rcases hk.rejects hr with hclosed | ⟨v, hv, hr⟩
        · exact .inl hclosed
        · exact .inr ⟨v, mem_append_left _ hv, hr⟩
      · exact .inr ⟨u, mem_append_right _ ((mem_erase_of_ne hut).mpr hu), hr⟩
  serving u hu f hf := by
    rcases mem_append.mp hu with hu | hu
    · exact hk.serving u hu f hf
    · exact h.serving u (mem_of_mem_erase hu) f hf
  authorised := hk.authorised h.authorised

theorem Invariant.identify (h : Invariant l c) (t : LinkPoint) (id : Bytes) :
    Invariant l ⟨{ c.shared with remoteIdentity := some id }, [identified id] ++ c.threads.erase t⟩ where
  checked id' hid hbad := by
    cases hid
    exact .inr ⟨identified id, mem_cons_self, hbad⟩
  serving u hu f hf := by
    rcases mem_cons.mp hu with rfl | hu
    · cases hf
    · exact h.serving u (mem_of_mem_erase hu) f hf
  authorised := h.authorised

theorem Kept.of_frame {next : List LinkPoint} (hf : Frame s s') (ht : ¬Rejecting l t)
    (hn : ∀ u ∈ next, u.fetch? = none) : Kept l s s' t next where
  __ := hf
  authorised := hf.authorised
  rejects h := absurd h ht
  serving u hu f hf := by
    rw [hn u hu] at hf
    cases hf

theorem Kept.serve {u : LinkPoint} (ht : ¬Rejecting l t) (hu : u.fetch? = some f) (hf : f.Allowed l) :
    Kept l s s t [u] where
  remoteIdentity := rfl
  closed := id
  authorised := id
  rejects h := absurd h ht
  serving v hv g hg := by
    cases mem_singleton.mp hv
    cases hu.symm.trans hg
    exact hf

abbrev KeptBy (l : Listener) (s : LinkState) (t : LinkPoint) (ok : Bool) : Prop :=
  Kept l s (s.exec l t ok).1 t (s.exec l t ok).2

theorem kept_dispatch (packet : LinkPacket) : KeptBy l s (dispatch packet) ok := by
  cases packet with
  | rtt valid =>
    refine .of_frame (.refl s) id fun u hu => ?_
    rw [exec, dispatched] at hu
    split at hu
    · cases mem_singleton.mp hu
      rfl
    · cases hu
  | identify identity =>
    refine .of_frame (.refl s) id fun u hu => ?_
    rw [exec, dispatched] at hu
    split at hu
    · cases hu
    · obtain ⟨id, -, rfl⟩ := mem_map.mp hu
      rfl
  | request request =>
    refine .of_frame (.refl s) id fun u hu => ?_
    rw [exec, dispatched] at hu
    split at hu
    · cases hu
    · cases mem_singleton.mp hu
      rfl
  | close => exact .of_frame (.closing s) id nofun
  | other => exact .of_frame (.refl s) id nofun

theorem kept_activate {valid : Bool} (hv : Vetted l c (.advance (activate valid) ok)) :
    KeptBy l c.shared (activate valid) ok := by
  cases valid with
  | false => exact .of_frame (.refl _) id (by simp [exec, LinkPoint.fetch?])
  | true =>
    refine .of_frame ⟨rfl, fun hclosed => ?_, rfl, rfl⟩ id fun u hu => ?_
    · change c.shared.status.awaitsRTT = true at hv
      rw [hclosed] at hv
      cases hv
    · simp only [exec, if_true] at hu
      split at hu
      · cases mem_singleton.mp hu
        rfl
      · cases hu

theorem kept_identified {identity : Bytes} (hauth : l.noAuth = false)
    (hv : Vetted l c (.advance (identified identity) ok)) : KeptBy l c.shared (identified identity) ok where
  remoteIdentity := rfl
  closed := id
  authorised := id
  rejects hbad := by
    have hset : c.shared.identifiedCallback = true := hv
    refine .inr ⟨teardown, ?_, trivial⟩
    simp only [exec]
    rw [if_pos ⟨hset, hbad, hauth⟩]
    exact mem_singleton_self _
  serving u hu f hf := by
    simp only [exec] at hu
    split at hu
    · cases mem_singleton.mp hu
      cases hf
    · cases hu

theorem kept_watchdog (ok : Bool) : KeptBy l s watchdog ok := by
  cases ok with
  | false => exact .of_frame (.refl s) id nofun
  | true =>
    simp only [KeptBy, exec, if_true]
    split
    · exact .of_frame (.refl s) id nofun
    · exact .of_frame (.closing s) id nofun
    · exact .of_frame (.closing s) id nofun
    · rename_i hs
      exact .of_frame ⟨rfl, fun hclosed => (by rw [hs] at hclosed; cases hclosed), rfl, rfl⟩ id nofun
    · exact .of_frame (.refl s) id (by simp [LinkPoint.fetch?])

theorem kept_handleRequest (request : Request) (ok : Bool) : KeptBy l s (handleRequest request) ok := by
  simp only [KeptBy, exec]
  split
  · refine .of_frame (.refl s) id fun u hu => ?_
    obtain ⟨handler, -, rfl⟩ := mem_map.mp hu
    rfl
  · exact .of_frame (.refl s) id nofun

theorem kept_respond {handler : RequestHandler} {data : Bytes} (h : Invariant l c)
    (hv : Vetted l c (.advance (respond handler data) ok)) : KeptBy l c.shared (respond handler data) ok := by
  simp only [KeptBy, exec]
  split
  · split
    · exact .of_frame (.answer _ _) id nofun
    · rename_i path hpath
      refine .serve id rfl ?_
      rcases hv with hoff | ⟨hactive, hsome, hquiet⟩
      · rw [Listener.fetchPath, if_pos hoff] at hpath
        cases hpath
      · obtain ⟨id, hid⟩ := Option.isSome_iff_exists.mp hsome
        refine ⟨id, ?_, hid⟩
        by_contra hbad
        rcases h.checked id hid hbad with hclosed | ⟨t, ht, hr⟩
        · rw [hactive] at hclosed
          cases hclosed
        · have hcheck := hr.isCheck
          rw [hquiet t ht] at hcheck
          cases hcheck
  · exact .of_frame (.refl _) id nofun

theorem Authorised.read (h : Authorised l s) (hf : f.Allowed l) : Authorised l { s with read := f :: s.read } := by
  intro g hg
  rcases mem_cons.mp hg with rfl | hg
  · exact hf
  · exact h g hg

theorem Authorised.sent (h : Authorised l s) (hf : f.Allowed l) : Authorised l { s with sent := f :: s.sent } := by
  intro g hg
  rcases mem_append.mp hg with hg | hg
  · exact h g (mem_append_left _ hg)
  · rcases mem_cons.mp hg with rfl | hg
    · exact hf
    · exact h g (mem_append_right _ hg)

theorem kept_readFile (ok : Bool) (hf : f.Allowed l) : KeptBy l s (readFile f) ok := by
  cases ok with
  | false => exact .of_frame (.answer s _) id nofun
  | true =>
    exact ⟨rfl, id, fun h => h.read hf, nofun, (Kept.serve (l := l) (s := s) (t := readFile f) id rfl hf).serving⟩

theorem kept_advertise (ok : Bool) (hf : f.Allowed l) : KeptBy l s (advertise f) ok :=
  ⟨rfl, id, fun h => h.sent hf, nofun, nofun⟩

theorem Invariant.exec (hauth : l.noAuth = false) (h : Invariant l c)
    (ht : t ∈ c.threads) (hv : Vetted l c (.advance t ok)) :
    Invariant l ⟨(c.shared.exec l t ok).1, (c.shared.exec l t ok).2 ++ c.threads.erase t⟩ := by
  have hserving := h.serving t ht
  cases t with
  | receive packet =>
    refine h.advance (.of_frame ⟨rfl, ?_, rfl, rfl⟩ id (by simp [exec, LinkPoint.fetch?]))
    exact LinkStatus.revive_eq_closed.mpr
  | handleRequest request => exact h.advance (kept_handleRequest request ok)
  | watchdog => exact h.advance (kept_watchdog ok)
  | teardown => exact h.advance ⟨rfl, fun _ => rfl, id, fun _ => .inl rfl, nofun⟩
  | dispatch packet => exact h.advance (kept_dispatch packet)
  | activate valid => exact h.advance (kept_activate hv)
  | established => exact h.advance (.of_frame ⟨rfl, id, rfl, rfl⟩ id nofun)
  | verified identity =>
    simp only [exec]
    split
    · exact h.identify _ identity
    · exact h.advance (.of_frame (.refl _) id (by simp [LinkPoint.fetch?]))
  | identified identity => exact h.advance (kept_identified hauth hv)
  | respond handler data => exact h.advance (kept_respond h hv)
  | stat f | findLink f | newResource f =>
    simp only [exec]
    split
    · exact h.advance (.serve id rfl (hserving f rfl))
    · exact h.advance (.of_frame (.answer ..) id nofun)
  | readFile f => exact h.advance (kept_readFile ok (hserving f rfl))
  | advertise f => exact h.advance (kept_advertise ok (hserving f rfl))

/-- In every run of vetted steps files go only to identities on the list of the listener. -/
theorem authorised_of_vetted (l : Listener) (hauth : l.noAuth = false) (established : Bool)
    (as : List (Action LinkPoint Bool)) (c : Config LinkState LinkPoint)
    (hk : (system l).Keeps (Vetted l) ⟨{ establishedCallback := established }, []⟩ as)
    (hr : (system l).run ⟨{ establishedCallback := established }, []⟩ as = some c) : Authorised l c.shared := by
  have hinit : Invariant l ⟨{ establishedCallback := established }, []⟩ := ⟨nofun, nofun, nofun⟩
  refine (Transitions.run_induction (Invariant l) ?_ as hinit hk hr).authorised
  intro c a c' hv h hstep
  cases a with
  | start t =>
    obtain ⟨he, rfl⟩ := System.step_start.mp hstep
    exact h.start he
  | advance t ok =>
    obtain ⟨ht, s', next, hx, rfl⟩ := System.step_advance.mp hstep
    have hexec : c.shared.exec l t ok = (s', next) := Option.some.inj hx
    have hnext := h.exec hauth ht hv
    rw [hexec] at hnext
    exact hnext

/-! ### The sections of the link -/

/-- The section of the link that a section here is. -/
inductive Runs : LinkPoint → Link.Point → Prop where
  | receive {packet : LinkPacket} {context : UInt8} {data : Bytes} : Runs (receive packet) (.receive context data)
  | activate : Runs (activate true) .finishRTT
  | close : Runs (dispatch .close) .teardown
  | teardown : Runs teardown .teardown
  | watchdog : Runs watchdog .watchdogStep

/-- The status moves as that of the link does in the same section, and in no other. -/
theorem exec_status {crypto : LinkCrypto} {link : Link} (hinitiator : link.initiator = false)
    (hstatus : link.status = s.status) :
    (∀ p, Runs t p → ∃ link' next, link.exec crypto p ok = some (link', next) ∧ link'.status = (s.exec l t ok).1.status) ∧
      ((∀ p, ¬Runs t p) → (s.exec l t ok).1.status = s.status) := by
  constructor
  · rintro p (_ | _ | _ | _ | _)
    · refine ⟨_, _, rfl, ?_⟩
      simp only [Link.noteInbound, hinitiator, hstatus, exec]
      split_ifs <;> simp_all [LinkStatus.revive]
    · exact ⟨_, _, rfl, rfl⟩
    iterate 2
      refine ⟨_, _, rfl, ?_⟩
      split_ifs with hclosed
      · exact hclosed
      · rfl
    · rw [Link.exec, exec, hstatus]
      cases ok <;> cases s.status <;> simp_all [Link.close]
  · intro hnone
    cases t with
    | receive => exact absurd .receive (hnone (.receive 0 []))
    | watchdog => exact absurd .watchdog (hnone _)
    | teardown => exact absurd .teardown (hnone _)
    | dispatch packet =>
      cases packet with
      | close => exact absurd .close (hnone _)
      | _ => rfl
    | activate valid =>
      cases valid with
      | true => exact absurd .activate (hnone _)
      | false => rfl
    | established | identified | advertise => rfl
    | respond =>
      simp only [exec]
      split
      · split <;> rfl
      · rfl
    | _ =>
      simp only [exec]
      split <;> rfl

/-! ### Two runs -/

def sampleListener : Listener where
  allowFetch := true
  jail := []
  noAuth := false
  allowedIdentityHashes := [[1]]

@[simp] theorem requestHandler_fetch : requestHandler (truncatedHash fetchRequestPath) = some fetchHandler :=
  if_pos rfl

/-- A request for the file `/f`. -/
def sampleRequest : Request := ⟨truncatedHash fetchRequestPath, [47, 102]⟩

def establish : List (Action LinkPoint Bool) :=
  [.start (receive (.rtt true)), .advance (receive (.rtt true)) true, .advance (dispatch (.rtt true)) true,
    .advance (activate true) true, .advance established true]

def serve (remote : Option Bytes) : List (Action LinkPoint Bool) :=
  [.start (handleRequest sampleRequest), .advance (handleRequest sampleRequest) true,
    .advance (respond fetchHandler [47, 102]) true, .advance (stat ⟨remote, [47, 102]⟩) true,
    .advance (findLink ⟨remote, [47, 102]⟩) true, .advance (readFile ⟨remote, [47, 102]⟩) true,
    .advance (.newResource ⟨remote, [47, 102]⟩) true, .advance (advertise ⟨remote, [47, 102]⟩) true]

def served (remote : Option Bytes) : LinkState where
  status := .active
  remoteIdentity := remote
  identifiedCallback := true
  read := [⟨remote, [47, 102]⟩]
  sent := [⟨remote, [47, 102]⟩]
  responses := [.sending]

def opened (remote : Option Bytes) : LinkState where
  status := .active
  remoteIdentity := remote
  identifiedCallback := true

theorem run_establish : Transitions.run (system sampleListener).step ⟨{}, []⟩ establish = some ⟨opened none, []⟩ := by
  simp [establish, Transitions.run, System.step, system, LinkPoint.isEntry, exec, LinkStatus.revive,
    LinkStatus.awaitsRTT, dispatched, opened]

theorem run_serve {remote : Option Bytes} (hallowed : fetchHandler.allows remote = true) :
    Transitions.run (system sampleListener).step ⟨opened remote, []⟩ (serve remote) = some ⟨served remote, []⟩ := by
  simp [serve, Transitions.run, System.step, system, LinkPoint.isEntry, exec, answer, sampleRequest,
    hallowed, Listener.fetchPath, sampleListener, opened, served]

/-- A link that never identifies gets the file. -/
theorem unidentified_link_served :
    (system sampleListener).run ⟨{}, []⟩ (establish ++ serve none) = some ⟨served none, []⟩ ∧
      ¬Authorised sampleListener (served none) := by
  refine ⟨?_, fun h => ?_⟩
  · exact Transitions.run_append.mpr ⟨_, run_establish, run_serve rfl⟩
  · obtain ⟨id, -, hid⟩ := h ⟨none, [47, 102]⟩ List.mem_cons_self
    cases hid

def identify (identity : Bytes) : List (Action LinkPoint Bool) :=
  [.start (receive (.identify (some identity))), .advance (receive (.identify (some identity))) true,
    .advance (dispatch (.identify (some identity))) true, .advance (verified identity) true,
    .advance (identified identity) true]

theorem run_identify {identity : Bytes} (hlisted : identity ∈ sampleListener.allowedIdentityHashes) :
    Transitions.run (system sampleListener).step ⟨opened none, []⟩ (identify identity) =
      some ⟨opened (some identity), []⟩ := by
  simp [identify, Transitions.run, System.step, system, LinkPoint.isEntry, exec, LinkStatus.revive,
    dispatched, opened, hlisted]

def authorisedRun : List (Action LinkPoint Bool) := establish ++ identify [1] ++ serve (some [1])

theorem identified_link_authorised :
    (system sampleListener).Keeps (Vetted sampleListener) ⟨{}, []⟩ authorisedRun ∧
    (system sampleListener).run ⟨{}, []⟩ authorisedRun = some ⟨served (some [1]), []⟩ ∧
      Authorised sampleListener (served (some [1])) := by
  have hr : (system sampleListener).run ⟨{}, []⟩ authorisedRun = some ⟨served (some [1]), []⟩ :=
    Transitions.run_append.mpr
      ⟨_, Transitions.run_append.mpr ⟨_, run_establish, run_identify (by decide)⟩, run_serve rfl⟩
  have hk : (system sampleListener).Keeps (Vetted sampleListener) ⟨{}, []⟩ authorisedRun := by
    simp [authorisedRun, establish, identify, serve, Transitions.Keeps, System.step, system, LinkPoint.isEntry,
      LinkState.exec, LinkState.dispatched, LinkState.answer, LinkStatus.revive, LinkStatus.awaitsRTT, sampleRequest,
      RequestHandler.allows, fetchHandler, Listener.fetchPath, sampleListener, Vetted, LinkPoint.isCheck]
  exact ⟨hk, hr, authorised_of_vetted sampleListener rfl true _ _ hk hr⟩

end Reticulum.Rncp
