import Reticulum.Lxmf.Locking

/-! When the router and the transport do not wait for each other. -/

namespace Reticulum.Lxmf
open Locks Threads

variable {held : Finset Mutex} {m : Mutex} {rest : List (Op Mutex)}

theorem sound_within (h : m ∉ held) : Sound held (within m ++ rest) ↔ Sound held rest := by
  simp [within, Sound, h]

theorem sound_flatMap {α : Type} {ops : α → List (Op Mutex)} {l : List α}
    (h : ∀ x ∈ l, ∀ rest, Sound held (ops x ++ rest) ↔ Sound held rest) :
    Sound held (l.flatMap ops ++ rest) ↔ Sound held rest := by
  induction l with
  | nil => simp
  | cons x l ih =>
    rw [List.flatMap_cons, List.append_assoc, h x List.mem_cons_self]
    exact ih fun y hy => h y (List.mem_cons_of_mem x hy)

def Operation.deliversToSelf : Operation → Prop
  | processOutbound _ pass => .deliveryPacket ∈ pass
  | matchProof _ => False

theorem sound_program {op : Operation} (h : ¬op.deliversToSelf) : Sound ∅ op.program := by
  cases op with
  | processOutbound deferredStamps pass =>
    refine (sound_flatMap fun m _ rest => sound_within (by simp)).mpr ⟨by simp, ?_⟩
    refine (sound_flatMap fun s hs rest => ?_).mpr ⟨by simp, trivial⟩
    cases s with
    | transport => exact sound_within (by simp)
    | deliveryPacket => exact absurd hs h
  | matchProof receipts =>
    refine ⟨by simp, (sound_flatMap fun routers _ rest => ?_).mpr ⟨by simp, trivial⟩⟩
    cases routers with
    | false => rfl
    | true => exact sound_within (by simp)

/-- The steps without which nothing goes wrong: no pass sends a packet to the router itself, and a lock is taken for
    nested use only while no other goroutine nests the two the other way round. -/
def KeepsOrder (c : Config (Finset Mutex) Goroutine) : Action Goroutine Unit → Prop
  | .start g => ¬g.label.deliversToSelf
  | .advance g _ => Locks.Careful c g

/-- In such a run no two goroutines wait for each other's lock, and none for a lock it holds. -/
theorem no_deadlock_of_keepsOrder (as : List (Action Goroutine Unit)) (hk : locking.Keeps KeepsOrder ⟨∅, []⟩ as)
    (c : Config (Finset Mutex) Goroutine) (hr : locking.run ⟨∅, []⟩ as = some c) : ¬Deadlock c := by
  refine (Transitions.run_induction (fun c => Safe c.threads) ?_ as ⟨by simp, .nil⟩ hk hr).not_deadlock
  intro c a c' hc h hs
  cases a with
  | start g => exact h.start (sound_program hc) hs
  | advance g _ => exact h.advance hc hs

def lookupPass : Operation := .processOutbound [] [.transport]

def messageProof : Operation := .matchProof [true]

def waitingPass : Goroutine := ⟨lookupPass, {.router}, within .transport ++ [.unlock .router]⟩

def waitingProof : Goroutine := ⟨messageProof, {.transport}, within .router ++ [.unlock .transport]⟩

theorem lookup_and_proof_deadlock : ∃ c, locking.run ⟨∅, []⟩
    [.start lookupPass.goroutine, .start messageProof.goroutine,
      .advance lookupPass.goroutine (), .advance messageProof.goroutine ()] = some c ∧ Deadlock c :=
  ⟨_, rfl, waitingPass, by decide, waitingProof, by decide, .router, .transport, by decide, rfl, by decide, rfl⟩

def proofDuringLookup : List (Action Goroutine Unit) :=
  [.start lookupPass.goroutine, .advance lookupPass.goroutine (), .advance waitingPass (),
    .start messageProof.goroutine]

theorem proofDuringLookup_no_deadlock : locking.Keeps KeepsOrder ⟨∅, []⟩ proofDuringLookup ∧
    ∃ c, locking.run ⟨∅, []⟩ proofDuringLookup = some c ∧ ¬Deadlock c := by
  have alone : ∀ (taken : Finset Mutex) (g : Goroutine), Locks.Careful ⟨taken, [g]⟩ g := by
    intro taken g l rest _ b _ u hu
    simp at hu
  have hk : locking.Keeps KeepsOrder ⟨∅, []⟩ proofDuringLookup := by
    refine (Transitions.keeps_cons rfl).mpr ⟨?_, ?_⟩
    · change PassSection.deliveryPacket ∉ [PassSection.transport]
      decide
    refine (Transitions.keeps_cons rfl).mpr ⟨alone _ _, ?_⟩
    refine (Transitions.keeps_cons rfl).mpr ⟨alone _ _, ?_⟩
    exact (Transitions.keeps_cons rfl).mpr ⟨id, trivial⟩
  exact ⟨hk, _, rfl, no_deadlock_of_keepsOrder proofDuringLookup hk _ rfl⟩

end Reticulum.Lxmf
