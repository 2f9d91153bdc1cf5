import Reticulum.Bytes
import Reticulum.Parse

/-! MessagePack encoding (rns/msgpack/msgpack.go). -/

namespace Reticulum.Msgpack

open Parse

/-- The low `n` bytes of a two's complement integer, big-endian. -/
def intBytes (n : Nat) (i : Int) : Bytes := beBytes n (i % 256 ^ n).toNat

/-- `packInt` of an int64. -/
def packInt (i : Int) : Bytes :=
  if -32 ≤ i ∧ i ≤ 127 then intBytes 1 i
  else if -128 ≤ i ∧ i ≤ 127 then 0xd0 :: intBytes 1 i
  else if -32768 ≤ i ∧ i ≤ 32767 then 0xd1 :: intBytes 2 i
  else if -2147483648 ≤ i ∧ i ≤ 2147483647 then 0xd2 :: intBytes 4 i
  else 0xd3 :: intBytes 8 i

/-- The values that `Pack` writes and `Unpack` gives. A float is kept as its bits, the entries of a map as they are
    visited, and an array that serves as a map key as its encoding (`raw`). -/
inductive Value where
  | nil
  | bool (b : Bool)
  | int (i : Int64)
  | uint (n : UInt64)
  | float32 (bits : UInt32)
  | float64 (bits : UInt64)
  | str (s : Bytes)
  | bin (b : Bytes)
  | array (items : List Value)
  | map (entries : List (Value × Value))
  | ext (type : Int8) (data : Bytes)
  | raw (encoded : Bytes)

mutual

def Value.same : Value → Value → Bool
  | .nil, .nil => true
  | .bool a, .bool b => a == b
  | .int a, .int b => a == b
  | .uint a, .uint b => a == b
  | .float32 a, .float32 b => a == b
  | .float64 a, .float64 b => a == b
  | .str a, .str b => a == b
  | .bin a, .bin b => a == b
  | .array a, .array b => sameItems a b
  | .map a, .map b => sameEntries a b
  | .ext s a, .ext t b => s == t && a == b
  | .raw a, .raw b => a == b
  | _, _ => false

def sameItems : List Value → List Value → Bool
  | [], [] => true
  | a :: as, b :: bs => a.same b && sameItems as bs
  | _, _ => false

def sameEntries : List (Value × Value) → List (Value × Value) → Bool
  | [], [] => true
  | (a, c) :: as, (b, d) :: bs => a.same b && c.same d && sameEntries as bs
  | _, _ => false

end

mutual

theorem Value.same_iff : ∀ a b : Value, a.same b = true ↔ a = b
  | .array as, b => by cases b <;> simp [Value.same, sameItems_iff as]
  | .map as, b => by cases b <;> simp [Value.same, sameEntries_iff as]
  | .nil, b | .bool _, b | .int _, b | .uint _, b | .float32 _, b | .float64 _, b | .str _, b | .bin _, b | .ext _ _, b
  | .raw _, b => by cases b <;> simp [Value.same]

theorem sameItems_iff : ∀ as bs : List Value, sameItems as bs = true ↔ as = bs
  | [], bs => by cases bs <;> simp [sameItems]
  | a :: as, bs => by cases bs <;> simp [sameItems, a.same_iff, sameItems_iff as]

theorem sameEntries_iff : ∀ as bs : List (Value × Value), sameEntries as bs = true ↔ as = bs
  | [], bs => by cases bs <;> simp [sameEntries]
  | (a, c) :: as, bs => by
    cases bs <;> simp [sameEntries, a.same_iff, c.same_iff, sameEntries_iff as, Prod.ext_iff, and_assoc]

end

instance : DecidableEq Value := fun a b => decidable_of_iff _ (a.same_iff b)

def packUint (n : Nat) : Bytes :=
  if n ≤ 127 then beBytes 1 n
  else if n ≤ 0xff then 0xcc :: beBytes 1 n
  else if n ≤ 0xffff then 0xcd :: beBytes 2 n
  else if n ≤ 0xffffffff then 0xce :: beBytes 4 n
  else 0xcf :: beBytes 8 n

def packStr (s : Bytes) : Bytes :=
  let l := s.length
  (if l < 32 then [UInt8.ofNat (0xa0 + l)]
    else if l < 256 then 0xd9 :: beBytes 1 l
    else if l < 65536 then 0xda :: beBytes 2 l
    else 0xdb :: beBytes 4 l) ++ s

def packBin (b : Bytes) : Bytes :=
  let l := b.length
  (if l < 256 then 0xc4 :: beBytes 1 l
    else if l < 65536 then 0xc5 :: beBytes 2 l
    else 0xc6 :: beBytes 4 l) ++ b

variable (item : Parser Error Value) (l : Nat)

def arrayHeader : Bytes :=
  if l < 16 then [UInt8.ofNat (0x90 + l)]
  else if l < 65536 then 0xdc :: beBytes 2 l
  else 0xdd :: beBytes 4 l

def mapHeader : Bytes :=
  if l < 16 then [UInt8.ofNat (0x80 + l)]
  else if l < 65536 then 0xde :: beBytes 2 l
  else 0xdf :: beBytes 4 l

/-- `Ext.MarshalMsgpack`. -/
def packExt (type : Int8) (data : Bytes) : Bytes :=
  let n := data.length
  (if n = 1 then [0xd4]
    else if n = 2 then [0xd5]
    else if n = 4 then [0xd6]
    else if n = 8 then [0xd7]
    else if n = 16 then [0xd8]
    else if n < 256 then 0xc7 :: beBytes 1 n
    else if n < 65536 then 0xc8 :: beBytes 2 n
    else 0xc9 :: beBytes 4 n) ++ type.toUInt8 :: data

/-- The order of `sortMapKeys`: by the encoded key, keys with one encoding in the order of the map. -/
def sortEntries (entries : List (Bytes × Bytes)) : List (Bytes × Bytes) :=
  entries.mergeSort fun a b => decide (a.1 ≤ b.1)

mutual

/-- `Pack`, and with the flag set `PackSorted`. -/
def pack (sorted : Bool) : Value → Bytes
  | .nil => [0xc0]
  | .bool b => [if b then 0xc3 else 0xc2]
  | .int i => packInt i.toInt
  | .uint n => packUint n.toNat
  | .float32 bits => 0xca :: beBytes 4 bits.toNat
  | .float64 bits => 0xcb :: beBytes 8 bits.toNat
  | .str s => packStr s
  | .bin b => packBin b
  | .array items => arrayHeader items.length ++ packItems sorted items
  | .map entries =>
    let encoded := packEntries sorted entries
    mapHeader entries.length ++ (if sorted then sortEntries encoded else encoded).flatMap fun e => e.1 ++ e.2
  | .ext type data => packExt type data
  | .raw encoded => encoded

def packItems (sorted : Bool) : List Value → Bytes
  | [] => []
  | v :: items => pack sorted v ++ packItems sorted items

def packEntries (sorted : Bool) : List (Value × Value) → List (Bytes × Bytes)
  | [] => []
  | (k, v) :: entries => (pack sorted k, pack sorted v) :: packEntries sorted entries

end

inductive Error where
  | eof
  | unexpectedEOF
  | reserved
  | unhashableKey
deriving DecidableEq, Repr

/-- `binary.Read` of an unsigned number. -/
def readUint (k : Nat) : Parser Error Nat := fun s =>
  if s = [] then .error .eof
  else if s.length < k then .error .unexpectedEOF
  else .ok (beNat (s.take k), s.drop k)

/-- The number that `k` bytes write in two's complement. -/
def signed (k n : Nat) : Int := if n < 256 ^ k / 2 then n else (n : Int) - 256 ^ k

def readInt (k : Nat) : Parser Error Value := (fun n => .int (Int64.ofInt (signed k n))) <$> readUint k

def unpackStr : Parser Error Value := Value.str <$> take .unexpectedEOF l

def unpackBin : Parser Error Value := Value.bin <$> take .unexpectedEOF l

def unpackExt : Parser Error Value := do
  let type ← byteAt .eof
  let data ← take .unexpectedEOF l
  pure (.ext type.toInt8 data)

/-- Whether two float64 values, given by their bits, are equal: zeros are, and a NaN is not equal to itself. -/
def float64Equal (a b : UInt64) : Bool :=
  let magnitude (x : UInt64) := x.toNat % 2 ^ 63
  if 0x7ff * 2 ^ 52 < magnitude a then false else a == b || magnitude a = 0 && magnitude b = 0

def float32Equal (a b : UInt32) : Bool :=
  let magnitude (x : UInt32) := x.toNat % 2 ^ 31
  if 0xff * 2 ^ 23 < magnitude a then false else a == b || magnitude a = 0 && magnitude b = 0

/-- Equality of two keys of a map[any]any: their dynamic types are the same and the values are equal. -/
def keyEqual : Value → Value → Bool
  | .nil, .nil => true
  | .bool a, .bool b => a == b
  | .int a, .int b => a == b
  | .uint a, .uint b => a == b
  | .float32 a, .float32 b => float32Equal a b
  | .float64 a, .float64 b => float64Equal a b
  | .str a, .str b => a == b
  | .raw a, .raw b => a == b
  | .ext s a, .ext t b => s == t && a == b
  | _, _ => false

/-- `m[k] = v`. -/
def setEntry : List (Value × Value) → Value → Value → List (Value × Value)
  | [], k, v => [(k, v)]
  | e :: m, k, v => if keyEqual e.1 k then (e.1, v) :: m else e :: setEntry m k v

/-- The key a decoded value is stored under: a byte string becomes a string, the rest is `makeMapKeyHashable`. -/
def mapKey : Value → Parser Error Value
  | .bin b => pure (.str b)
  | .array items => pure (.raw (pack true (.array items)))
  | .map _ => fail .unhashableKey
  | k => pure k

def unpackArray : Parser Error Value := do
  ensure (l ≤ (← remaining)) .unexpectedEOF
  let items ← times item l
  pure (.array items)

def unpackEntry : Parser Error (Value × Value) := do
  let key ← item >>= mapKey
  let value ← item
  pure (key, value)

def unpackMap : Parser Error Value := do
  ensure (l ≤ (← remaining) / 2) .unexpectedEOF
  let entries ← times (unpackEntry item) l
  pure (.map (entries.foldl (fun m e => setEntry m e.1 e.2) []))

/-- The switch of `unpackWithOptions` on the first byte; `item` reads a value inside this one. -/
def unpackAs (b : UInt8) : Parser Error Value :=
  if b ≤ 0x7f then pure (.int (Int64.ofNat b.toNat))
  else if b ≤ 0x8f then unpackMap item (b.toNat - 0x80)
  else if b ≤ 0x9f then unpackArray item (b.toNat - 0x90)
  else if b ≤ 0xbf then unpackStr (b.toNat - 0xa0)
  else if b = 0xc0 then pure .nil
  else if b = 0xc2 then pure (.bool false)
  else if b = 0xc3 then pure (.bool true)
  else if b = 0xc4 then readUint 1 >>= unpackBin
  else if b = 0xc5 then readUint 2 >>= unpackBin
  else if b = 0xc6 then readUint 4 >>= unpackBin
  else if b = 0xc7 then readUint 1 >>= unpackExt
  else if b = 0xc8 then readUint 2 >>= unpackExt
  else if b = 0xc9 then readUint 4 >>= unpackExt
  else if b = 0xca then (fun n => .float32 (UInt32.ofNat n)) <$> readUint 4
  else if b = 0xcb then (fun n => .float64 (UInt64.ofNat n)) <$> readUint 8
  else if b = 0xcc then (fun n => .uint (UInt64.ofNat n)) <$> readUint 1
  else if b = 0xcd then (fun n => .uint (UInt64.ofNat n)) <$> readUint 2
  else if b = 0xce then (fun n => .uint (UInt64.ofNat n)) <$> readUint 4
  else if b = 0xcf then (fun n => .uint (UInt64.ofNat n)) <$> readUint 8
  else if b = 0xd0 then readInt 1
  else if b = 0xd1 then readInt 2
  else if b = 0xd2 then readInt 4
  else if b = 0xd3 then readInt 8
  else if b = 0xd4 then unpackExt 1
  else if b = 0xd5 then unpackExt 2
  else if b = 0xd6 then unpackExt 4
  else if b = 0xd7 then unpackExt 8
  else if b = 0xd8 then unpackExt 16
  else if b = 0xd9 then readUint 1 >>= unpackStr
  else if b = 0xda then readUint 2 >>= unpackStr
  else if b = 0xdb then readUint 4 >>= unpackStr
  else if b = 0xdc then readUint 2 >>= unpackArray item
  else if b = 0xdd then readUint 4 >>= unpackArray item
  else if b = 0xde then readUint 2 >>= unpackMap item
  else if b = 0xdf then readUint 4 >>= unpackMap item
  else if b ≥ 0xe0 then pure (.int b.toInt8.toInt64)
  else fail .reserved

/-- The argument is fuel: a value inside another begins at a later byte. -/
def unpackValue : Nat → Parser Error Value
  | 0 => fail .eof
  | fuel + 1 => do
    let b ← byteAt .eof
    unpackAs (unpackValue fuel) b

/-- `unpack` of a reader: the value, and what is left to be read. -/
def unpackReader (data : Bytes) : Except Error (Value × Bytes) := unpackValue (data.length + 1) data

/-- `Unpack`. Bytes after the value are ignored. -/
def unpack (data : Bytes) : Except Error Value := (unpackValue (data.length + 1) data).map (·.1)

end Reticulum.Msgpack
