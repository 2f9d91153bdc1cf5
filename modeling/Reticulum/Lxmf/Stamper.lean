import Reticulum.Crypto
import Reticulum.Msgpack

/-! Proof-of-work stamps (lxmf/stamper.go). -/

namespace Reticulum.Lxmf

def stampSize : Nat := 32

def workblockExpandRounds : Nat := 3000

def workblockExpandRoundsPN : Nat := 1000

/-- The loop of `StampWorkblock` for the rounds from `i` on. -/
def expandWorkblock (material : Bytes) (i : Nat) : Nat → Option Bytes
  | 0 => some []
  | n + 1 => do
    let salt := fullHash (material ++ Msgpack.packInt i)
    let part ← hkdf 256 material salt []
    let rest ← expandWorkblock material (i + 1) n
    return part ++ rest

/-- `StampWorkblock`; `none` stands for its errors. -/
def stampWorkblock (material : Bytes) (expandRounds : Nat) : Option Bytes :=
  if material = [] then none
  else expandWorkblock material 0 (if expandRounds = 0 then workblockExpandRounds else expandRounds)

def leadingZeros8 (b : UInt8) : Nat := if b = 0 then 8 else 7 - b.toNat.log2

def leadingZeroBits : Bytes → Nat
  | [] => 0
  | b :: rest => if b = 0 then 8 + leadingZeroBits rest else leadingZeros8 b

def stampValue (workblock stamp : Bytes) : Nat := leadingZeroBits (fullHash (workblock ++ stamp))

def stampValid (stamp : Bytes) (targetCost : Int) (workblock : Bytes) : Bool :=
  if targetCost ≤ 0 then true
  else if targetCost > 256 then false
  else decide (targetCost ≤ stampValue workblock stamp)

theorem expandWorkblock_isSome {material : Bytes} (h : material ≠ []) (i n : Nat) :
    (expandWorkblock material i n).isSome := by
  induction n generalizing i with
  | zero => rfl
  | succ n ih =>
    obtain ⟨rest, hrest⟩ := Option.isSome_iff_exists.mp (ih (i + 1))
    simp [expandWorkblock, hkdf, h, hrest]

theorem stampWorkblock_isSome {material : Bytes} (h : material ≠ []) (expandRounds : Nat) :
    (stampWorkblock material expandRounds).isSome := by
  unfold stampWorkblock
  rw [if_neg h]
  exact expandWorkblock_isSome h 0 _

end Reticulum.Lxmf
