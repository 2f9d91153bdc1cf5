import Reticulum.Request

/-! A request resolves once, unless its resource is concluded after it has been resolved. -/

namespace Reticulum.RequestReceipt

open Transitions

variable {ρ : Type} {rr rr' : RequestReceipt ρ}
variable {p : Point ρ} {next : List (Point ρ)}

def started (rr : RequestReceipt ρ) : Nat := rr.succeeded + rr.failed

def resolved (rr : RequestReceipt ρ) : Nat := if rr.status.Terminal then 1 else 0

structure HasCallbacks (rr : RequestReceipt ρ) : Prop where
  callback : rr.callback = true
  failedCallback : rr.failedCallback = true

def Final (rr rr' : RequestReceipt ρ) : Prop :=
  rr.status.Terminal → rr'.status = rr.status ∧ rr'.response = rr.response

theorem Final.trans {rr'' : RequestReceipt ρ} (h : Final rr rr') (h' : Final rr' rr'') : Final rr rr'' := by
  intro hterminal
  obtain ⟨hstatus, hresponse⟩ := h hterminal
  obtain ⟨hstatus', hresponse'⟩ := h' (hstatus ▸ hterminal)
  exact ⟨hstatus'.trans hstatus, hresponse'.trans hresponse⟩

theorem terminal_comm {status : RequestStatus} : (status = .ready ∨ status = .failed) ↔ status.Terminal := or_comm

theorem started_of_failed (hset : rr.failedCallback = true) :
    (rr.requestResourceConcluded false).started = rr.started + 1 := by
  have hcall : rr.requestResourceConcluded false =
      { rr with status := .failed, pending := false, failed := rr.failed + 1 } := if_pos hset
  rw [hcall]
  exact (Nat.add_assoc _ _ _).symm

variable [DecidableEq ρ]

def due (ps : List (Point ρ)) : Nat := ps.count .callFailed

/-- What a section does that starts one callback, or leaves one due, just when it resolves the request. -/
structure Section (p : Point ρ) (rr rr' : RequestReceipt ρ) (next : List (Point ρ)) : Prop where
  callbacks : HasCallbacks rr → HasCallbacks rr'
  final : Final rr rr'
  balance : HasCallbacks rr → rr'.started + due next + rr.resolved = rr.started + due [p] + rr'.resolved

theorem Section.of_same (hdue : due next = due [p] := by rfl) (hcallback : rr'.callback = rr.callback := by rfl)
    (hfailed : rr'.failedCallback = rr.failedCallback := by rfl) (hstatus : rr'.status = rr.status := by rfl)
    (hresponse : rr'.response = rr.response := by rfl) (hstarted : rr'.started = rr.started := by rfl) :
    Section p rr rr' next where
  callbacks h := ⟨hcallback.trans h.callback, hfailed.trans h.failedCallback⟩
  final _ := ⟨hstatus, hresponse⟩
  balance _ := by rw [hstarted, hdue, resolved, resolved, hstatus]

theorem Section.of_open (hopen : ¬rr.status.Terminal)
    (hcallback : rr'.callback = rr.callback) (hfailed : rr'.failedCallback = rr.failedCallback)
    (hbalance : HasCallbacks rr → rr'.started + due next = rr.started + due [p] + rr'.resolved) :
    Section p rr rr' next where
  callbacks h := ⟨hcallback.trans h.callback, hfailed.trans h.failedCallback⟩
  final h := absurd h hopen
  balance h := by rw [resolved.eq_def rr, if_neg hopen, Nat.add_zero, hbalance h]

theorem section_responseReceived (rr : RequestReceipt ρ) (response : ρ) (metadata : Option ρ) :
    Section (.responseReceived response metadata) rr (rr.responseReceived response metadata) [] := by
  rw [responseReceived]
  split
  · exact .of_same
  · rename_i hopen
    rw [terminal_comm] at hopen
    rw [startCallback]
    split
    · exact .of_open hopen rfl rfl fun _ => Nat.add_right_comm rr.succeeded 1 rr.failed
    · rename_i hunset
      exact .of_open hopen rfl rfl fun h => absurd h.callback hunset

theorem section_fail (rr : RequestReceipt ρ) (hp : p ≠ .callFailed) : Section p rr rr.fail.1 rr.fail.2 := by
  have hdue : due [p] = 0 := List.count_eq_zero.mpr fun h => hp (List.mem_singleton.mp h).symm
  rw [fail]
  split
  · exact .of_same hdue.symm
  · rename_i hopen
    rw [terminal_comm] at hopen
    refine .of_open hopen rfl rfl fun _ => ?_
    rw [hdue]
    rfl

theorem section_callFailed (rr : RequestReceipt ρ) : Section .callFailed rr rr.removePending.startFailedCallback [] := by
  rw [startFailedCallback]
  split
  · refine ⟨fun h => ⟨h.callback, h.failedCallback⟩, fun _ => ⟨rfl, rfl⟩, fun _ => ?_⟩
    exact congrArg (· + rr.resolved) (Nat.add_assoc rr.succeeded rr.failed 1).symm
  · rename_i hunset
    exact ⟨fun h => absurd h.failedCallback hunset, fun _ => ⟨rfl, rfl⟩, fun h => absurd h.failedCallback hunset⟩

theorem section_requestResourceConcluded (complete : Bool) (hopen : ¬rr.status.Terminal)
    (hnext : due next = 0) : Section .requestResourceConcluded rr (rr.requestResourceConcluded complete) next := by
  rw [requestResourceConcluded]
  split
  · exact .of_open hopen rfl rfl fun _ => by rw [hnext]; rfl
  · rw [startFailedCallback]
    split
    · exact .of_open hopen rfl rfl fun _ => by rw [hnext]; rfl
    · rename_i hunset
      exact .of_open hopen rfl rfl fun h => absurd h.failedCallback hunset

theorem section_responseResourceProgress (rr : RequestReceipt ρ) (resource : Option Nat) :
    Section (.responseResourceProgress resource) rr (rr.responseResourceProgress resource) [] := by
  rw [responseResourceProgress]
  split
  · exact .of_same
  · rename_i hopen
    exact .of_open (fun h => hopen (.inr h)) rfl rfl fun _ => rfl

theorem section_of_exec {input : Bool} (h : rr.exec p input = some (rr', next))
    (hopen : p = .requestResourceConcluded → ¬rr.status.Terminal) : Section p rr rr' next := by
  cases p with
  | dispatched =>
    rw [exec] at h
    split at h
    · rename_i hsent
      cases h
      exact .of_open (by rw [hsent]; decide) rfl rfl fun _ => rfl
    · cases h
      exact .of_same
  | handleResponse arrival =>
    obtain ⟨rfl, rfl⟩ := Prod.mk.inj (Option.some.inj h)
    cases input && rr.pending
    · exact .of_same
    · exact .of_same
  | matched arrival =>
    cases h
    cases rr.sizeOK arrival <;> cases arrival.updateSizes <;> exact .of_same
  | responseReceived response metadata =>
    cases h
    exact section_responseReceived rr response metadata
  | responseRejected | requestTimedOut =>
    obtain ⟨rfl, rfl⟩ := Prod.mk.inj (Option.some.inj h)
    exact section_fail rr nofun
  | callFailed =>
    cases h
    exact section_callFailed rr
  | requestResourceConcluded =>
    cases h
    exact section_requestResourceConcluded input (hopen rfl) (by cases input <;> rfl)
  | responseTimeoutJob =>
    cases h
    refine .of_same ?_
    split
    · rfl
    · cases input <;> rfl
  | recordResponseResourceSize readSize readTransferSize =>
    cases h
    exact .of_same
  | responseResourceProgress resource =>
    cases h
    exact section_responseResourceProgress rr resource

variable {c c' : Threads.Config (RequestReceipt ρ) (Point ρ)}

def Counted (c : Threads.Config (RequestReceipt ρ) (Point ρ)) : Prop :=
  c.shared.started + due c.threads = c.shared.resolved

def InTime (c : Threads.Config (RequestReceipt ρ) (Point ρ)) : Threads.Action (Point ρ) Bool → Prop
  | .advance .requestResourceConcluded _ => ¬c.shared.status.Terminal
  | _ => True

instance (c : Threads.Config (RequestReceipt ρ) (Point ρ)) : ∀ a, Decidable (InTime c a)
  | .advance .requestResourceConcluded _ => inferInstanceAs (Decidable (¬_))
  | .start _ => isTrue trivial
  | .advance .dispatched _ | .advance (.handleResponse _) _ | .advance (.matched _) _
  | .advance (.responseReceived _ _) _ | .advance .responseRejected _ | .advance .requestTimedOut _
  | .advance .callFailed _ | .advance .responseTimeoutJob _ | .advance (.recordResponseResourceSize _ _) _
  | .advance (.responseResourceProgress _) _ => isTrue trivial

/-- Just one of the two callbacks is started or due once resolved, and the status and response stay. -/
def ResolvesOnce (c : Threads.Config (RequestReceipt ρ) (Point ρ)) (as : List (Threads.Action (Point ρ) Bool)) : Prop :=
  Throughout system.step Counted (fun c c' => Final c.shared c'.shared) c as

theorem due_advance {ps : List (Point ρ)} (next : List (Point ρ)) (hp : p ∈ ps) :
    due (next ++ ps.erase p) + due [p] = due next + due ps := by
  have hperm : due ps = due [p] + due (ps.erase p) := by
    rw [due, (List.perm_cons_erase hp).count_eq, ← List.singleton_append, List.count_append]
    rfl
  rw [hperm, due, List.count_append]
  exact (Nat.add_assoc _ _ _).trans (congrArg _ (Nat.add_comm _ _))

theorem counted_step {a : Threads.Action (Point ρ) Bool} (hcallbacks : HasCallbacks c.shared) (hc : Counted c)
    (hstep : system.step c a = some c') (hcond : InTime c a) :
    (HasCallbacks c'.shared ∧ Counted c') ∧ Final c.shared c'.shared := by
  cases a with
  | start p =>
    obtain ⟨hentry, rfl⟩ := Threads.System.step_start.mp hstep
    refine ⟨⟨hcallbacks, ?_⟩, fun _ => ⟨rfl, rfl⟩⟩
    -- No thread starts at the point where the failed callback is called.
    have hne : p ≠ .callFailed := by
      rintro rfl
      cases hentry
    exact (congrArg _ (List.count_cons_of_ne hne)).trans hc
  | advance p input =>
    obtain ⟨hp, rr', next, hexec, rfl⟩ := Threads.System.step_advance.mp hstep
    have hopen : p = .requestResourceConcluded → ¬c.shared.status.Terminal := by
      rintro rfl
      exact hcond
    obtain ⟨hkeeps, hfinal, hbalance⟩ := section_of_exec hexec hopen
    refine ⟨⟨hkeeps hcallbacks, ?_⟩, hfinal⟩
    have hdue := due_advance next hp
    have hbalance := hbalance hcallbacks
    rw [Counted] at hc ⊢
    dsimp only
    omega

theorem inTime_of_step {a : Threads.Action (Point ρ) Bool} (hcallbacks : HasCallbacks c.shared) (hc : Counted c)
    (hstep : system.step c a = some c') (hc' : Counted c') (hfinal : Final c.shared c'.shared) : InTime c a := by
  cases a with
  | start p => trivial
  | advance p input =>
    cases p with
    | requestResourceConcluded =>
      intro hterminal
      obtain ⟨hp, rr', next, hexec, rfl⟩ := Threads.System.step_advance.mp hstep
      cases hexec
      have hstatus := (hfinal hterminal).1
      cases input with
      | true =>
        -- The receipt goes back to delivered.
        have hdelivered : c.shared.status = .delivered := hstatus.symm
        rw [hdelivered] at hterminal
        revert hterminal
        decide
      | false =>
        -- The failed callback is started beside the one that the request has had.
        have hdue : due (c.threads.erase .requestResourceConcluded) + 0 = 0 + due c.threads :=
          due_advance [] hp
        have hstarted := started_of_failed hcallbacks.failedCallback
        have hbefore := hc.trans (if_pos hterminal)
        have hafter : (c.shared.requestResourceConcluded false).started +
            due (c.threads.erase .requestResourceConcluded) = 1 :=
          hc'.trans (if_pos (hstatus ▸ hterminal))
        omega
    | _ => trivial

/-- A request resolves exactly once just when its resource is not concluded after it. -/
theorem resolvesOnce_iff_inTime {rr : RequestReceipt ρ} (hcallbacks : HasCallbacks rr) (hopen : ¬rr.status.Terminal)
    (hzero : rr.started = 0) (as : List (Threads.Action (Point ρ) Bool))
    {c : Threads.Config (RequestReceipt ρ) (Point ρ)} (hrun : run system.step ⟨rr, []⟩ as = some c) :
    ResolvesOnce ⟨rr, []⟩ as ↔ Keeps system.step InTime ⟨rr, []⟩ as := by
  have hcounted : Counted ⟨rr, []⟩ := hzero.trans (if_neg hopen).symm
  have hstep : ∀ (c : Threads.Config (RequestReceipt ρ) (Point ρ)) a c', HasCallbacks c.shared ∧ Counted c →
      system.step c a = some c' → InTime c a →
      (HasCallbacks c'.shared ∧ Counted c') ∧ Final c.shared c'.shared :=
    fun c a c' h => counted_step h.1 h.2
  constructor
  · exact Throughout.keeps _ hstep (fun c a c' h => inTime_of_step h.1 h.2) as ⟨hcallbacks, hcounted⟩ hrun
  · refine Throughout.of_keeps _ (fun c h => h.2) (fun c _ => ⟨rfl, rfl⟩) ?_ hstep ⟨hcallbacks, hcounted⟩
    exact fun c₁ c₂ c₃ h₁₂ h₂₃ => h₁₂.trans h₂₃

namespace Sample

def arrival : ResponseArrival Bytes where
  response := [1, 2, 3]
  metadata := none
  responseSize := 3
  responseTransferSize := 3
  checkSize := true
  updateSizes := true

def answered : List (Threads.Action (Point Bytes) Bool) :=
  [.start .dispatched, .advance .dispatched true, .start (.handleResponse arrival),
    .advance (.handleResponse arrival) true, .advance .responseTimeoutJob true, .advance (.matched arrival) true,
    .advance (.responseReceived [1, 2, 3] none) true, .advance .requestTimedOut true]

/-- The response to a request that was sent as a resource comes before the proof that the resource has arrived. -/
def overtaken : List (Threads.Action (Point Bytes) Bool) :=
  [.start (.handleResponse arrival), .advance (.handleResponse arrival) true, .advance (.matched arrival) true,
    .advance (.responseReceived [1, 2, 3] none) true, .start .requestResourceConcluded,
    .advance .requestResourceConcluded true, .advance .responseTimeoutJob true, .advance .requestTimedOut true,
    .advance .callFailed true]

def runs (as : List (Threads.Action (Point Bytes) Bool)) : Option (RequestStatus × Nat × Nat) :=
  (run system.step ⟨{}, []⟩ as).map fun c => (c.shared.status, c.shared.succeeded, c.shared.failed)

end Sample

theorem answered_once : ResolvesOnce ⟨{}, []⟩ Sample.answered := by
  obtain ⟨c, hrun⟩ : ∃ c, run system.step ⟨{}, []⟩ Sample.answered = some c :=
    Option.isSome_iff_exists.mp (by decide +kernel)
  exact (resolvesOnce_iff_inTime ⟨rfl, rfl⟩ (by decide) rfl _ hrun).mpr (by decide +kernel)

/-- The request is ready, then delivered and at last failed, with both callbacks started. -/
theorem overtaken_fails_too : Sample.runs (Sample.overtaken.take 5) = some (.ready, 1, 0) ∧
      Sample.runs (Sample.overtaken.take 6) = some (.delivered, 1, 0) ∧
      Sample.runs Sample.overtaken = some (.failed, 1, 1) := by
  decide +kernel

end Reticulum.RequestReceipt
