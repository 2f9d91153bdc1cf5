import Reticulum.Msgpack

/-! # Maps in the order of the wire (rns/msgpack/msgpack.go)

`UnpackPreserveBinMapKeyOrder` tells a key that is a byte string (`binaryMapKey`, here a `bin` key) from a string. To
`pack` both are strings. -/

namespace Reticulum.Msgpack

open Parse

mutual

def mapKeys (change : Value → Value) : Value → Value
  | .array items => .array (mapKeysItems change items)
  | .map entries => .map (mapKeysEntries change entries)
  | .nil => .nil
  | .bool b => .bool b
  | .int i => .int i
  | .uint n => .uint n
  | .float32 bits => .float32 bits
  | .float64 bits => .float64 bits
  | .str s => .str s
  | .bin b => .bin b
  | .ext type data => .ext type data
  | .raw encoded => .raw encoded

def mapKeysItems (change : Value → Value) : List Value → List Value
  | [] => []
  | v :: items => mapKeys change v :: mapKeysItems change items

def mapKeysEntries (change : Value → Value) : List (Value × Value) → List (Value × Value)
  | [] => []
  | (k, v) :: entries => (change (mapKeys change k), mapKeys change v) :: mapKeysEntries change entries

end

/-- A `binaryMapKey` is a string to `pack`. -/
def stringKey : Value → Value
  | .bin b => .str b
  | k => k

/-- `PackSorted` of a value whose maps are ordered. -/
def repack (v : Value) : Bytes := pack false (mapKeys stringKey v)

/-- The key that `makeMapKeyHashable` makes of an array; the other keys stay as they are. -/
def hashableKey : Value → Value
  | .array items => .raw (repack (.array items))
  | k => k

def orderedKey : Value → Parser Error Value
  | .map _ => fail .unhashableKey
  | k => pure (hashableKey k)

section

variable (key : Value → Parser Error Value)

def unpackOrderedEntry (item : Parser Error Value) : Parser Error (Value × Value) := do
  let k ← item >>= key
  let v ← item
  pure (k, v)

/-- `unpackOrderedMapWithOptions`. -/
def unpackOrderedMap (item : Parser Error Value) (l : Nat) : Parser Error Value := do
  ensure (l ≤ (← remaining) / 2) .unexpectedEOF
  let entries ← times (unpackOrderedEntry key item) l
  pure (.map entries)

/-- The switch on the first byte: only maps are read in another way. -/
def unpackOrderedAs (item : Parser Error Value) (b : UInt8) : Parser Error Value :=
  if 0x80 ≤ b ∧ b ≤ 0x8f then unpackOrderedMap key item (b.toNat - 0x80)
  else if b = 0xde then readUint 2 >>= unpackOrderedMap key item
  else if b = 0xdf then readUint 4 >>= unpackOrderedMap key item
  else unpackAs item b

def unpackOrderedValue : Nat → Parser Error Value
  | 0 => fail .eof
  | fuel + 1 => do
    let b ← byteAt .eof
    unpackOrderedAs key (unpackOrderedValue fuel) b

end

/-- `UnpackPreserveBinMapKeyOrder`. Bytes after the value are ignored. -/
def unpackOrdered (data : Bytes) : Except Error Value :=
  (unpackOrderedValue orderedKey (data.length + 1) data).map (·.1)

/-- `UnpackStrictPreserveBinMapKeyOrder`, without the texts of its errors. -/
def unpackStrictOrdered (data : Bytes) : Option Value :=
  match unpackOrderedValue orderedKey (data.length + 1) data with
  | .ok (v, []) => some v
  | _ => none

end Reticulum.Msgpack
