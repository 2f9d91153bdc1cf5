import Reticulum.Theorems.Rrc.Maps

/-! # Whether a decoded value is encoded as it came

`Set` compares keys as float64: `true` and `1`, or two integers beyond 2^53, may be one key. -/

namespace Reticulum.Rrc.Cbor

open List Map

/-! ### The default form -/

/-- The shortest head, as the standard has it. -/
def shortestHead (major n : Nat) : Bytes :=
  if n < 24 then [UInt8.ofNat (32 * major + n)]
  else
    let k := if n < 2 ^ 8 then 0 else if n < 2 ^ 16 then 1 else if n < 2 ^ 32 then 2 else 3
    UInt8.ofNat (32 * major + 24 + k) :: beBytes (2 ^ k) n

def Value.isKey : Value → Bool
  | .int64 _ | .uint64 _ | .text _ | .bytes _ | .bool _ => true
  | _ => false

/-- What a standard encoder writes by default for an item, nested at most `n` deep. -/
inductive Default : Nat → Value → Bytes → Prop
  | null {n : Nat} : Default n .null [0xf6]
  | bool {n : Nat} (b : Bool) : Default n (.bool b) [if b then 0xf5 else 0xf4]
  | unsigned {n k : Nat} (hk : k < 2 ^ 64) : Default n (uintValue k) (shortestHead 0 k)
  | negative {n k : Nat} (hk : k < 2 ^ 63) : Default n (.int64 (-1 - Int64.ofNat k)) (shortestHead 1 k)
  | float {n : Nat} (bits : UInt64) : Default n (.float64 bits) (0xfb :: beBytes 8 bits.toNat)
  | text {n : Nat} {s : Bytes} (valid : Text.valid s = true) : Default n (.text s) (shortestHead 3 s.length ++ s)
  | bytes {n : Nat} (b : Bytes) : Default n (.bytes b) (shortestHead 2 b.length ++ b)
  | array {n : Nat} {items : List (Value × Bytes)} (each : ∀ x ∈ items, Default n x.1 x.2) :
    Default (n + 1) (.array (items.map (·.1))) (shortestHead 4 items.length ++ items.flatMap (·.2))
  | map {n : Nat} {pairs : List ((Value × Bytes) × Value × Bytes)} (keys : ∀ p ∈ pairs, p.1.1.isKey = true)
    (each : ∀ p ∈ pairs, Default n p.1.1 p.1.2) (values : ∀ p ∈ pairs, Default n p.2.1 p.2.2)
    (distinct : (pairs.map (·.1.2)).Nodup) :
    Default (n + 1) (.map (pairs.map fun p => (p.1.1, p.2.1)))
      (shortestHead 5 pairs.length ++ pairs.flatMap fun p => p.1.2 ++ p.2.2)

/-- No two keys of a map are the same to `keyEqual`. -/
inductive Unmixed : Value → Prop
  | intro {v : Value} (distinct : ∀ m : Map, v = .map m → m.Distinct) (parts : ∀ c ∈ v.parts, Unmixed c) : Unmixed v

variable {k : Nat}

theorem recode_uintValue (hk : k < 2 ^ 64) : (uintValue k).Leaf ∧ recode (uintValue k) = uintValue k := by
  refine ⟨leaf_uintValue k, ?_⟩
  rw [uintValue]
  split
  · rfl
  · next hlarge => rw [recode, UInt64.toNat_ofNat_of_lt' hk, uintValue, if_neg hlarge]

variable {n : Nat} {v : Value} {x : Bytes}

theorem Default.shallow (h : Default n v x) : Shallow n v := by
  induction h with
  | unsigned hk => exact shallow_of_parts_eq_nil (recode_uintValue hk).1.1
  | array each ih =>
    intro c hc
    obtain ⟨item, hitem, rfl⟩ := mem_map.mp hc
    exact ih item hitem
  | map keys each values distinct ihKey ihValue =>
    intro c hc
    obtain ⟨p, hp, hc⟩ := mem_parts_map.mp hc
    obtain ⟨q, hq, rfl⟩ := mem_map.mp hp
    rcases hc with rfl | rfl
    · exact ihKey q hq
    · exact ihValue q hq
  | _ => exact shallow_of_parts_eq_nil rfl

/-! ### What `Set` loses -/

/-- Either nothing is lost, or what is encoded again is shorter. -/
def Lossless (v : Value) : Prop :=
  Unmixed v ∧ recode v = v ∨ ¬Unmixed v ∧ (encode (recode v)).length < (encode v).length

theorem Lossless.le (h : Lossless v) : (encode (recode v)).length ≤ (encode v).length := by
  rcases h with ⟨-, h⟩ | ⟨-, h⟩
  · rw [h]
  · exact h.le

end Reticulum.Rrc.Cbor
