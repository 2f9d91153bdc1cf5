import Reticulum.Theorems.Resource.Status

/-! # How often the callback of a resource is started -/

namespace Reticulum

open Transitions

def ResourceStatus.Concluded (status : ResourceStatus) : Prop :=
  status = .complete ∨ status = .failed ∨ status = .corrupt

instance (status : ResourceStatus) : Decidable status.Concluded := inferInstanceAs (Decidable (_ ∨ _))

structure Watched where
  resource : Resource
  callbacks : Nat := 0

namespace Watched

open Resource (perform)

variable {z : Bzip2} {w : Watched}

def step (z : Bzip2) (w : Watched) (op : ResourceOperation) : Option Watched :=
  some {
    resource := (w.resource.perform z op).resource
    callbacks := w.callbacks + (w.resource.perform z op).effects.count .callback }

/-- The callback runs at most once, and has run when the resource is concluded. -/
structure Once (w : Watched) : Prop where
  atMost : w.callbacks ≤ 1
  reported : w.resource.status.Concluded → w.callbacks = 1

/-- A request for a missing segment, an update without hashes, a failed assembly, a watchdog that gives up. -/
def EndsSilently (z : Bzip2) (r : Resource) : ResourceOperation → Prop
  | .request requestData sends => r.Unanswerable requestData sends
  | .hashmapUpdate plaintext _ => r.awaitedHashes plaintext = some []
  | .assemble token _ => ¬r.Assembles z token
  | .watchdogStep expired sent => r.GivesUp expired sent
  | .receivePart _ | .requestNext _ | .validateProof _ | .cancel _ _ => False

/-- The operations that start the callback. -/
def Reports (z : Bzip2) (r : Resource) : ResourceOperation → Prop
  | .validateProof _ => ¬(r.status = .failed ∨ r.status = .complete)
  | .cancel _ _ => ¬r.status.Terminal
  | .assemble token _ => r.Assembles z token
  | .request _ _ | .receivePart _ | .hashmapUpdate _ _ | .requestNext _ | .watchdogStep _ _ => False

/-- The transfer does not end silently before the callback has been started, nor is it started again. -/
def Reported (z : Bzip2) (w : Watched) (op : ResourceOperation) : Prop :=
  if w.callbacks = 0 then ¬EndsSilently z w.resource op else ¬Reports z w.resource op

instance (z : Bzip2) (r : Resource) : (op : ResourceOperation) → Decidable (EndsSilently z r op)
  | .request requestData sends => inferInstanceAs (Decidable (r.Unanswerable requestData sends))
  | .hashmapUpdate plaintext _ => inferInstanceAs (Decidable (r.awaitedHashes plaintext = some []))
  | .assemble token _ => inferInstanceAs (Decidable (¬r.Assembles z token))
  | .watchdogStep expired sent => inferInstanceAs (Decidable (r.GivesUp expired sent))
  | .receivePart _ | .requestNext _ | .validateProof _ | .cancel _ _ => inferInstanceAs (Decidable False)

instance (z : Bzip2) (r : Resource) : (op : ResourceOperation) → Decidable (Reports z r op)
  | .validateProof _ => inferInstanceAs (Decidable (¬(r.status = .failed ∨ r.status = .complete)))
  | .cancel _ _ => inferInstanceAs (Decidable (¬r.status.Terminal))
  | .assemble token _ => inferInstanceAs (Decidable (r.Assembles z token))
  | .request _ _ | .receivePart _ | .hashmapUpdate _ _ | .requestNext _ | .watchdogStep _ _ =>
    inferInstanceAs (Decidable False)

instance (z : Bzip2) (w : Watched) (op : ResourceOperation) : Decidable (Reported z w op) :=
  inferInstanceAs (Decidable (if w.callbacks = 0 then ¬EndsSilently z w.resource op else ¬Reports z w.resource op))

theorem perform_reports_or_silent (r : Resource) (op : ResourceOperation) :
    Reports z r op ∧ (r.perform z op).Reports r ∨ ¬Reports z r op ∧ (r.perform z op).Silent r := by
  cases op with
  | request requestData sends =>
    refine .inr ⟨id, ?_⟩
    rcases r.request_status requestData sends with ⟨_, h, _⟩ | ⟨_, h, _⟩ <;> exact h
  | receivePart data => exact .inr ⟨id, (r.receivePart_status data).1⟩
  | hashmapUpdate plaintext sent => exact .inr ⟨id, (r.hashmapUpdate_status plaintext sent).1⟩
  | requestNext sent => exact .inr ⟨id, (r.requestNext_keeps sent).1⟩
  | watchdogStep expired sent => exact .inr ⟨id, (r.watchdogStep_status expired sent).1⟩
  | validateProof proofData =>
    rcases r.validateProof_status proofData with ⟨hover, h, _⟩ | ⟨halive, h, _⟩
    · exact .inr ⟨fun hr => hr hover, h⟩
    · exact .inl ⟨halive, h⟩
  | cancel linkActive sent =>
    rcases r.cancel_status linkActive sent with ⟨hover, h, _⟩ | ⟨halive, h, _⟩
    · exact .inr ⟨fun hr => hr hover, h⟩
    · exact .inl ⟨halive, h⟩
  | assemble token sent =>
    rcases r.assemble_status sent with ⟨hassembles, h, _⟩ | ⟨hassembles, h, _⟩
    · exact .inl ⟨hassembles, h⟩
    · exact .inr ⟨hassembles, h⟩

theorem count_callback (r : Resource) (hcallback : r.callback = true) (op : ResourceOperation) :
    (r.perform z op).resource.callback = true ∧
      (Reports z r op ∧ (r.perform z op).effects.count .callback = 1 ∨
        ¬Reports z r op ∧ (r.perform z op).effects.count .callback = 0) := by
  rcases perform_reports_or_silent (z := z) r op with ⟨hreports, hc, hcount⟩ | ⟨hreports, hc, hsilent⟩
  · rw [hcallback] at hc hcount
    exact ⟨hc, .inl ⟨hreports, hcount⟩⟩
  · exact ⟨hc.trans hcallback, .inr ⟨hreports, List.count_eq_zero.mpr hsilent⟩⟩

/-- A transfer that is not over ends with an operation that starts the callback or with one that ends it silently. -/
theorem concluded_perform_iff {r : Resource} (halive : ¬r.status.Concluded) (op : ResourceOperation) :
    (r.perform z op).resource.status.Concluded ↔ Reports z r op ∨ EndsSilently z r op := by
  obtain ⟨hcomplete, hfailed, hcorrupt⟩ := (not_or.mp halive).imp_right not_or.mp
  cases op with
  | request requestData sends =>
    refine Iff.trans ?_ (or_iff_right id).symm
    rcases r.request_status requestData sends with ⟨hignored, _, hstatus⟩ | ⟨_, _, h | h⟩
    · rw [perform, hstatus]
      refine iff_of_false halive ?_
      rw [hignored.resolve_left hfailed]
      exact fun h => absurd h.1 (by decide)
    · exact iff_of_true (.inr (.inl h.2.2)) h.1
    · refine iff_of_false ?_ h.1
      rcases h.2 with h | h <;> rw [perform, h] <;> decide
  | receivePart data =>
    refine iff_of_false ?_ (or_self_iff.mp ·)
    rw [perform, (r.receivePart_status data).2, if_neg hfailed]
    revert halive
    cases r.status <;> decide
  | hashmapUpdate plaintext sent =>
    refine Iff.trans ?_ (or_iff_right id).symm
    have hstatus := (r.hashmapUpdate_status plaintext sent).2
    rw [perform, hstatus, EndsSilently]
    cases r.awaitedHashes plaintext with
    | none => exact iff_of_false halive (by simp)
    | some hashes =>
      cases hashes with
      | nil => exact iff_of_true (.inr (.inl rfl)) rfl
      | cons hash hashes => exact iff_of_false (show ¬ResourceStatus.transferring.Concluded by decide) (by simp)
  | requestNext sent =>
    refine iff_of_false ?_ (or_self_iff.mp ·)
    rw [perform, (r.requestNext_keeps sent).2]
    exact halive
  | validateProof proofData =>
    rcases r.validateProof_status proofData with ⟨hover, _⟩ | ⟨hne, _, hstatus⟩
    · exact absurd hover (not_or.mpr ⟨hfailed, hcomplete⟩)
    · exact iff_of_true (hstatus.elim .inl fun h => .inr (.inl h)) (.inl hne)
  | cancel linkActive sent =>
    rcases r.cancel_status linkActive sent with ⟨hover, _, hstatus⟩ | ⟨hterminal, _, hstatus⟩
    · rw [perform, hstatus]
      exact iff_of_false halive fun h => h.elim (fun hr => hr hover) id
    · exact iff_of_true (.inr (.inl hstatus)) (.inl hterminal)
  | assemble token sent =>
    rcases r.assemble_status sent with ⟨hassembles, _, hstatus⟩ | ⟨hassembles, _, hstatus⟩
    · exact iff_of_true (.inl hstatus) (.inl hassembles)
    · exact iff_of_true (.inr hstatus) (.inr hassembles)
  | watchdogStep expired sent =>
    refine Iff.trans ?_ (or_iff_right id).symm
    obtain ⟨_, ⟨hgives, hstatus⟩ | ⟨hgives, hstatus⟩⟩ := r.watchdogStep_status expired sent
    · exact iff_of_true (.inr (.inl hstatus)) hgives
    · rw [perform, hstatus]
      exact iff_of_false halive hgives

theorem not_endsSilently {r : Resource} {op : ResourceOperation} (h : Reports z r op) : ¬EndsSilently z r op := by
  cases op with
  | assemble token sent => exact not_not.mpr h
  | validateProof proofData | cancel linkActive sent => exact id
  | request requestData sends => exact h.elim
  | receivePart data | hashmapUpdate plaintext sent | requestNext sent | watchdogStep expired sent => exact h.elim

structure Valid (w : Watched) : Prop where
  callback : w.resource.callback = true
  once : w.Once

theorem step_valid_iff (op : ResourceOperation) (hw : w.Valid) :
    ∃ w', step z w op = some w' ∧ (Reported z w op ↔ w'.Valid) := by
  obtain ⟨hcallback, hcount⟩ := count_callback (z := z) w.resource hw.callback op
  refine ⟨_, rfl, Iff.trans ?_ ⟨fun h => ⟨hcallback, h⟩, Valid.once⟩⟩
  rw [Reported]
  split_ifs with hzero
  · have halive : ¬w.resource.status.Concluded := by
      intro h
      rw [hw.once.reported h] at hzero
      cases hzero
    have hconcluded := concluded_perform_iff (z := z) halive op
    rcases hcount with ⟨hreports, hone⟩ | ⟨hreports, hnone⟩
    · have hsum : w.callbacks + (w.resource.perform z op).effects.count .callback = 1 := by rw [hzero, hone]
      exact iff_of_true (not_endsSilently hreports) ⟨hsum.le, fun _ => hsum⟩
    · have hsum : w.callbacks + (w.resource.perform z op).effects.count .callback = 0 := by rw [hzero, hnone]
      constructor
      · intro hsilent
        refine ⟨hsum.le.trans (Nat.zero_le 1), fun h => ?_⟩
        exact absurd (hconcluded.mp h) (not_or.mpr ⟨hreports, hsilent⟩)
      · intro honce hsilent
        have hone := honce.reported (hconcluded.mpr (.inr hsilent))
        exact absurd (hsum.symm.trans hone) Nat.zero_ne_one
  · have hone : w.callbacks = 1 := Nat.le_antisymm hw.once.atMost (Nat.pos_of_ne_zero hzero)
    rcases hcount with ⟨hreports, hagain⟩ | ⟨hreports, hnone⟩
    · refine iff_of_false (not_not.mpr hreports) fun honce => ?_
      have htwo := honce.atMost
      dsimp only at htwo
      rw [hone, hagain] at htwo
      exact absurd htwo (by decide)
    · have hsum : w.callbacks + (w.resource.perform z op).effects.count .callback = 1 := by rw [hone, hnone]
      exact iff_of_true hreports ⟨hsum.le, fun _ => hsum⟩

theorem callback_of_reachable {w' : Watched} (h : Reachable (step z) w w') (hcallback : w.resource.callback = true) :
    w'.resource.callback = true := by
  refine h.invariant (fun w => w.resource.callback = true) hcallback fun w op w' hc hstep => ?_
  cases hstep
  exact (count_callback w.resource hc op).1

/-- The callback is started at most once, and once if the transfer is over, just when the condition holds. -/
theorem once_throughout_iff (z : Bzip2) {r : Resource} (hcallback : r.callback = true)
    (hstart : ¬r.status.Concluded) (ops : List ResourceOperation) :
    (∀ as bs w, ops = as ++ bs → run (step z) { resource := r } as = some w → w.Once) ↔
      Keeps (step z) (Reported z) { resource := r } ops := by
  have hvalid : Valid { resource := r } := ⟨hcallback, Nat.zero_le 1, fun h => absurd h hstart⟩
  rw [keeps_iff_forall_states Valid (fun w op hw => step_valid_iff op hw) ops hvalid]
  constructor
  · intro h as bs w heq hrun
    exact ⟨callback_of_reachable ⟨as, hrun⟩ hcallback, h as bs w heq hrun⟩
  · exact fun h as bs w heq hrun => (h as bs w heq hrun).once

end Watched

namespace Sample

def watched (s : Resource) : Resource := ({ s with callback := true }.advertise true).resource

theorem proved_reported_once : ∃ s, sender false = some s ∧
    ∀ as bs w, [requestAll s, prove s, .cancel true true] = as ++ bs →
      run (Watched.step bzip2) { resource := watched s } as = some w → w.Once := by
  have hkeeps : (sender false).all fun s => decide (Keeps (Watched.step bzip2) (Watched.Reported bzip2)
      { resource := watched s } [requestAll s, prove s, .cancel true true]) := by decide +kernel
  obtain ⟨s, hs⟩ : ∃ s, sender false = some s := Option.isSome_iff_exists.mp (by decide +kernel)
  rw [hs] at hkeeps
  have hstart : ¬(watched s).status.Concluded := by
    rw [show (watched s).status = .advertised from rfl]
    decide
  exact ⟨s, hs, (Watched.once_throughout_iff bzip2 rfl hstart _).mpr (of_decide_eq_true hkeeps)⟩

def runReports (s : Resource) (ops : List ResourceOperation) : Option (ResourceStatus × Nat) :=
  (run (Watched.step bzip2) { resource := watched s } ops).map fun w => (w.resource.status, w.callbacks)

/-- The watchdog gives up after four retries and tells nobody; a request after the proof makes a second proof count. -/
theorem exhaustion_unreported :
    ((sender false).bind fun s => runReports s (List.replicate 5 (.watchdogStep true true))) = some (.failed, 0) ∧
      ((sender false).bind fun s => runReports s [requestAll s, prove s, requestAll s, prove s]) =
        some (.complete, 2) := by
  decide +kernel

end Sample
end Reticulum
