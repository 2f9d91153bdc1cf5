import Mathlib.Data.List.Basic

/-! # Runs of a transition function

A step may be refused. A run is a list of actions that are taken one after another, and `Keeps` says that every
action of it meets a condition in the state before it. -/

namespace Transitions

variable {σ ι : Type} {step : σ → ι → Option σ} {s s' : σ} {a : ι} {as bs : List ι}
variable {cond : σ → ι → Prop}

def run (step : σ → ι → Option σ) (s : σ) : List ι → Option σ
  | [] => some s
  | a :: as => (step s a).bind fun s' => run step s' as

/-- Every action of the run meets the condition, in the state before it. -/
def Keeps (step : σ → ι → Option σ) (cond : σ → ι → Prop) (s : σ) : List ι → Prop
  | [] => True
  | a :: as => cond s a ∧ ∀ s', step s a = some s' → Keeps step cond s' as

/-- Some action of the run is such an event, in the state before it. -/
def Happens (step : σ → ι → Option σ) (event : σ → ι → Prop) (s : σ) : List ι → Prop
  | [] => False
  | a :: as => event s a ∨ ∃ s', step s a = some s' ∧ Happens step event s' as

def Reachable (step : σ → ι → Option σ) (s s' : σ) : Prop := ∃ as, run step s as = some s'

theorem run_nil : run step s [] = some s' ↔ s' = s := by
  rw [run, Option.some.injEq, eq_comm]

theorem run_cons : run step s (a :: as) = some s' ↔ ∃ s₁, step s a = some s₁ ∧ run step s₁ as = some s' :=
  Option.bind_eq_some_iff

theorem keeps_cons (h : step s a = some s') : Keeps step cond s (a :: as) ↔ cond s a ∧ Keeps step cond s' as := by
  simp [Keeps, h]

instance Keeps.decidable {cond : σ → ι → Prop} [∀ s a, Decidable (cond s a)] :
    ∀ (s : σ) (as : List ι), Decidable (Keeps step cond s as)
  | _, [] => isTrue trivial
  | s, a :: as =>
    match h : step s a with
    | none => decidable_of_iff (cond s a) (by simp [Keeps, h])
    | some s' =>
      have : Decidable (Keeps step cond s' as) := Keeps.decidable s' as
      decidable_of_iff (cond s a ∧ Keeps step cond s' as) (keeps_cons h).symm

theorem run_append : run step s (as ++ bs) = some s' ↔ ∃ s₁, run step s as = some s₁ ∧ run step s₁ bs = some s' := by
  induction as generalizing s with
  | nil => simp [run]
  | cons a as ih =>
    simp only [List.cons_append, run_cons, ih]
    constructor
    · rintro ⟨s₁, h₁, s₂, h₂, h⟩
      exact ⟨s₂, ⟨s₁, h₁, h₂⟩, h⟩
    · rintro ⟨s₂, ⟨s₁, h₁, h₂⟩, h⟩
      exact ⟨s₁, h₁, s₂, h₂, h⟩

variable (inv : σ → Prop)

theorem run_induction (hstep : ∀ s a s', cond s a → inv s → step s a = some s' → inv s') :
    ∀ (as : List ι) {s s' : σ}, inv s → Keeps step cond s as → run step s as = some s' → inv s' := by
  intro as
  induction as with
  | nil =>
    intro s s' hi _ h
    cases Option.some.inj h
    exact hi
  | cons a as ih =>
    rintro s s' hi ⟨hc, hrest⟩ h
    obtain ⟨s₁, h₁, h⟩ := run_cons.mp h
    exact ih (hstep s a s₁ hc hi h₁) (hrest s₁ h₁) h

/-- A property that comes about by an event only, and stays, holds after a run just when the event happened. -/
theorem run_iff_happens (inv P : σ → Prop) {event : σ → ι → Prop} (hinv : ∀ s a s', inv s → step s a = some s' → inv s')
    (hstep : ∀ s a s', inv s → step s a = some s' → (P s' ↔ P s ∨ event s a)) :
    ∀ (as : List ι) {s s' : σ}, inv s → run step s as = some s' → (P s' ↔ P s ∨ Happens step event s as) := by
  intro as
  induction as with
  | nil =>
    intro s s' _ hrun
    rw [run_nil.mp hrun, Happens, or_false]
  | cons a as ih =>
    intro s s' hs hrun
    obtain ⟨s₁, h₁, hrun⟩ := run_cons.mp hrun
    have htail : (∃ s', step s a = some s' ∧ Happens step event s' as) ↔ Happens step event s₁ as := by simp [h₁]
    rw [ih (hinv s a s₁ hs h₁) hrun, hstep s a s₁ hs h₁, Happens, htail, or_assoc]

theorem Keeps.of_append : ∀ {as : List ι} {s : σ},
    Keeps step cond s (as ++ bs) → run step s as = some s' → Keeps step cond s' bs
  | [], _, h, hrun => run_nil.mp hrun ▸ h
  | a :: as, s, h, hrun => by
    obtain ⟨s₁, hstep, hrun⟩ := run_cons.mp hrun
    exact Keeps.of_append (h.2 s₁ hstep) hrun

theorem Keeps.append_left : ∀ {as : List ι} {s : σ}, Keeps step cond s (as ++ bs) → Keeps step cond s as
  | [], _, _ => trivial
  | _ :: _, _, h => ⟨h.1, fun s' hs => Keeps.append_left (h.2 s' hs)⟩

/-- The actions of a run meet a condition just when all its states have the property, if each step does. -/
theorem keeps_iff_forall_states
    (hstep : ∀ s a, inv s → ∃ s', step s a = some s' ∧ (cond s a ↔ inv s')) (as : List ι) (hs : inv s) :
    Keeps step cond s as ↔ ∀ bs cs s', as = bs ++ cs → run step s bs = some s' → inv s' := by
  constructor
  · rintro hkeeps bs cs s' rfl hrun
    refine run_induction inv (fun s a s' hcond hi h => ?_) bs hs hkeeps.append_left hrun
    obtain ⟨s₁, h₁, hiff⟩ := hstep s a hi
    exact Option.some.inj (h₁.symm.trans h) ▸ hiff.mp hcond
  · intro h
    induction as generalizing s with
    | nil => trivial
    | cons a as ih =>
      obtain ⟨s₁, h₁, hiff⟩ := hstep s a hs
      have hs₁ : inv s₁ := h [a] as s₁ rfl (run_cons.mpr ⟨s₁, h₁, rfl⟩)
      refine (keeps_cons h₁).mpr ⟨hiff.mpr hs₁, ih hs₁ fun bs cs s' heq hrun => ?_⟩
      exact h (a :: bs) cs s' (heq ▸ rfl) (run_cons.mpr ⟨s₁, h₁, hrun⟩)

def Throughout (step : σ → ι → Option σ) (good : σ → Prop) (rel : σ → σ → Prop) (s : σ) (as : List ι) : Prop :=
  ∀ bs cs s₁, as = bs ++ cs → run step s bs = some s₁ →
    good s₁ ∧ ∀ ds es s₂, cs = ds ++ es → run step s₁ ds = some s₂ → rel s₁ s₂

section Throughout

variable {good : σ → Prop} {rel : σ → σ → Prop} {cond : σ → ι → Prop}

theorem Throughout.tail (h : Throughout step good rel s (a :: as)) (hstep : step s a = some s') :
    Throughout step good rel s' as := by
  rintro bs cs s₁ rfl hrun
  exact h (a :: bs) cs s₁ rfl (run_cons.mpr ⟨s', hstep, hrun⟩)

theorem Throughout.of_keeps (hgood : ∀ s, inv s → good s) (hrefl : ∀ s, rel s s)
    (htrans : ∀ s₁ s₂ s₃, rel s₁ s₂ → rel s₂ s₃ → rel s₁ s₃)
    (hstep : ∀ s a s', inv s → step s a = some s' → cond s a → inv s' ∧ rel s s')
    (hs : inv s) (h : Keeps step cond s as) : Throughout step good rel s as := by
  rintro bs cs s₁ rfl hrun
  have hs₁ : inv s₁ := run_induction inv (fun s a s' hcond hi hs' => (hstep s a s' hi hs' hcond).1) bs hs
    h.append_left hrun
  refine ⟨hgood s₁ hs₁, ?_⟩
  rintro ds es s₂ rfl hrun₂
  -- The states from the first on stay sound and related to it.
  refine (run_induction (fun s => inv s ∧ rel s₁ s) ?_ ds ⟨hs₁, hrefl s₁⟩ (h.of_append hrun).append_left hrun₂).2
  rintro s a s' hcond ⟨hi, hrel⟩ hs'
  obtain ⟨hi', hrel'⟩ := hstep s a s' hi hs' hcond
  exact ⟨hi', htrans s₁ s s' hrel hrel'⟩

theorem Throughout.keeps (hstep : ∀ s a s', inv s → step s a = some s' → cond s a → inv s' ∧ rel s s')
    (hconv : ∀ s a s', inv s → step s a = some s' → good s' → rel s s' → cond s a) :
    ∀ (as : List ι) {s s' : σ}, inv s → run step s as = some s' → Throughout step good rel s as →
      Keeps step cond s as := by
  intro as
  induction as with
  | nil => exact fun _ _ _ => trivial
  | cons a as ih =>
    intro s s' hs hrun h
    obtain ⟨s₁, hs₁, hrun⟩ := run_cons.mp hrun
    have hone : run step s [a] = some s₁ := run_cons.mpr ⟨s₁, hs₁, rfl⟩
    have hrel : rel s s₁ := (h [] (a :: as) s rfl rfl).2 [a] as s₁ rfl hone
    have hcond : cond s a := hconv s a s₁ hs hs₁ (h [a] as s₁ rfl hone).1 hrel
    exact (keeps_cons hs₁).mpr ⟨hcond, ih (hstep s a s₁ hs hs₁ hcond).1 hrun (h.tail hs₁)⟩

/-- All states are good just when the actions meet the condition that keeps states sound. -/
theorem keeps_iff_good (hgood : ∀ s, inv s → good s)
    (hstep : ∀ s a s', inv s → step s a = some s' → cond s a → inv s')
    (hconv : ∀ s a s', inv s → step s a = some s' → good s' → cond s a) (hs : inv s) (hrun : run step s as = some s') :
    (∀ bs cs s₁, as = bs ++ cs → run step s bs = some s₁ → good s₁) ↔ Keeps step cond s as := by
  have hstep' : ∀ s a s', inv s → step s a = some s' → cond s a → inv s' ∧ True :=
    fun s a s' hi hs hcond => ⟨hstep s a s' hi hs hcond, trivial⟩
  constructor
  · intro h
    have hall : Throughout step good (fun _ _ => True) s as :=
      fun bs cs s₁ heq hrun => ⟨h bs cs s₁ heq hrun, fun _ _ _ _ _ => trivial⟩
    exact Throughout.keeps inv hstep' (fun s a s' hi hs hg _ => hconv s a s' hi hs hg) as hs hrun hall
  · intro hkeeps bs cs s₁ heq hrun
    exact (Throughout.of_keeps inv hgood (fun _ => trivial) (fun _ _ _ _ _ => trivial) hstep' hs hkeeps bs cs s₁ heq
      hrun).1

end Throughout

/-- What every step keeps holds in every state that is reached. -/
theorem Reachable.invariant (h : Reachable step s s') (inv : σ → Prop) (hs : inv s)
    (hstep : ∀ s a s', inv s → step s a = some s' → inv s') : inv s' := by
  obtain ⟨as, hrun⟩ := h
  induction as generalizing s with
  | nil =>
    cases Option.some.inj hrun
    exact hs
  | cons a as ih =>
    obtain ⟨s₁, h₁, hrun⟩ := run_cons.mp hrun
    exact ih (hstep s a s₁ hs h₁) hrun

theorem Reachable.refl (s : σ) : Reachable step s s := ⟨[], rfl⟩

end Transitions
