import Reticulum.Msgpack

/-! # `PackSorted` of Go maps (rns/msgpack/msgpack.go)

A Go map has no order: each time it is packed its entries are visited in some order, and then sorted by their encoded
keys. -/

namespace Reticulum.Msgpack

structure Visit where
  order : List (Bytes × Bytes) → List (Bytes × Bytes)
  perm : ∀ entries, (order entries).Perm entries

/-- A value as Go has it. An `OrderedMap` encodes itself, and packs its keys and values without the flag. -/
inductive GoValue where
  | scalar (v : Value)
  | array (n : Nat) (items : Fin n → GoValue)
  | goMap (n : Nat) (keys values : Fin n → GoValue)
  | orderedMap (n : Nat) (keys values : Fin n → GoValue)

/-- `pack` of a value and, for an `OrderedMap`, `MarshalMsgpack`. Each Go map is visited in an order of its own; it is
    known by the way to it. -/
def GoValue.pack (visit : List Nat → Visit) (sorted : Bool) (path : List Nat) : GoValue → Bytes
  | .scalar v => Msgpack.pack sorted v
  | .array n items => arrayHeader n ++ (List.ofFn fun i => (items i).pack visit sorted (i :: path)).flatten
  | .goMap n keys values =>
    let visited := (visit path).order <| List.ofFn fun i =>
      ((keys i).pack visit sorted (0 :: i :: path), (values i).pack visit sorted (1 :: i :: path))
    mapHeader n ++ (if sorted then sortEntries visited else visited).flatMap fun e => e.1 ++ e.2
  | .orderedMap n keys values => mapHeader n ++ (List.ofFn fun i =>
      (keys i).pack visit false (0 :: i :: path) ++ (values i).pack visit false (1 :: i :: path)).flatten

/-- A value without an `OrderedMap`. -/
def GoValue.ofValue : Value → GoValue
  | .array items => .array items.length fun i => ofValue items[i]
  | .map entries => .goMap entries.length (fun i => ofValue entries[i].1) fun i => ofValue entries[i].2
  | v => .scalar v
termination_by v => sizeOf v
decreasing_by
  · have := List.sizeOf_get items i
    simp_all
    omega
  all_goals
    have := List.sizeOf_get entries i
    have : sizeOf entries[i] = 1 + sizeOf entries[i].1 + sizeOf entries[i].2 := by cases entries[i]; rfl
    simp_all
    omega

def packSorted (visit : List Nat → Visit) (v : Value) : Bytes := (GoValue.ofValue v).pack visit true []

end Reticulum.Msgpack
