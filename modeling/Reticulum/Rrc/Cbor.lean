import Reticulum.Bytes
import Reticulum.Binary64
import Reticulum.Parse
import Reticulum.Text

/-! The CBOR codec of the chat protocol (rrc/cbor). -/

namespace Reticulum.Rrc.Cbor

open Parse

/-- The values that `Decode` gives. A float64 is kept as its bits. -/
inductive Value
  | null
  | bool (b : Bool)
  | int64 (n : Int64)
  | uint64 (n : UInt64)
  | float64 (bits : UInt64)
  | text (s : Bytes)
  | bytes (b : Bytes)
  | array (items : List Value)
  | map (pairs : List (Value × Value))
  | bigUint (negative : Bool) (magnitude : Bytes)

abbrev Map := List (Value × Value)

def numericValue : Value → Option Binary64.Number
  | .bool b => some (Binary64.ofInt (if b then 1 else 0))
  | .int64 n => some (Binary64.ofInt n.toInt)
  | .uint64 n => some (Binary64.ofInt n.toNat)
  | .float64 bits => some (Binary64.ofBits bits)
  | _ => none

/-- The switch of `keyEqual` for two values that are not numbers. -/
def otherEqual : Value → Value → Bool
  | .text s, .text t => s == t
  | .bytes s, .bytes t => s == t
  -- Maps are compared as pointers, and every decoded map has its own.
  | .map _, .map _ => false
  | .array xs, .array ys => xs.isEmpty && ys.isEmpty
  | .null, .null => true
  | _, _ => false

def keyEqual (a b : Value) : Bool :=
  match numericValue a, numericValue b with
  | some x, some y => x.equal y
  | some _, none => false
  | none, some _ => false
  | none, none => otherEqual a b

namespace Map

def get (m : Map) (key : Value) : Option Value := (m.find? fun p => keyEqual p.1 key).map (·.2)

def has (m : Map) (key : Value) : Bool := (get m key).isSome

def set : Map → Value → Value → Map
  | [], key, val => [(key, val)]
  | p :: m, key, val => if keyEqual p.1 key then (p.1, val) :: m else p :: set m key val

/-- `Pop`, without the value. -/
def pop (m : Map) (key : Value) : Map := m.eraseP fun p => keyEqual p.1 key

def ofPairs (pairs : List (Value × Value)) : Map := pairs.foldl (fun m p => set m p.1 p.2) []

end Map

def headByte (major info : Nat) : UInt8 := UInt8.ofNat (32 * major + info)

def appendHead (major val : Nat) : Bytes :=
  if val ≤ 23 then [headByte major val]
  else if val ≤ 0xff then headByte major 24 :: beBytes 1 val
  else if val ≤ 0xffff then headByte major 25 :: beBytes 2 val
  else if val ≤ 0xffffffff then headByte major 26 :: beBytes 4 val
  else headByte major 27 :: beBytes 8 val

def appendUint (v : UInt64) : Bytes := appendHead 0 v.toNat

def appendInt (v : Int64) : Bytes :=
  if 0 ≤ v then appendHead 0 v.toUInt64.toNat else appendHead 1 (-1 - v).toUInt64.toNat

def appendFloat (bits : UInt64) : Bytes := 0xfb :: beBytes 8 bits.toNat

def appendText (s : Bytes) : Bytes := appendHead 3 s.length ++ s

def appendByteString (s : Bytes) : Bytes := appendHead 2 s.length ++ s

def trimMagnitude : Bytes → Bytes
  | 0 :: c :: b => trimMagnitude (c :: b)
  | b => b

/-- `AsUint64` of a magnitude. -/
def asUint64 (magnitude : Bytes) : Option Nat := if 8 < magnitude.length then none else some (beNat magnitude)

def isZero (magnitude : Bytes) : Bool := magnitude.all (· == 0)

/-- `String`. -/
def bigUintString (negative : Bool) (magnitude : Bytes) : Text.Str :=
  let n : Int := beNat magnitude
  Text.formatInt (if negative then -(n - 1) else n)

def encodeBigUint (negative : Bool) (magnitude : Bytes) : Bytes :=
  let mag := trimMagnitude magnitude
  let tagged := appendHead 6 (if negative then 3 else 2) ++ appendByteString mag
  match asUint64 mag with
  | some n =>
    if negative then
      if n ≤ 2 ^ 63 - 1 then appendInt (-1 - Int64.ofNat n) else tagged
    else appendUint (UInt64.ofNat n)
  | none => tagged

mutual

def appendValue : Value → Bytes
  | .null => [0xf6]
  | .bool b => [if b then 0xf5 else 0xf4]
  | .int64 n => appendInt n
  | .uint64 n => appendUint n
  | .float64 bits => appendFloat bits
  | .text s => appendText s
  | .bytes b => appendByteString b
  | .array items => appendHead 4 items.length ++ appendItems items
  | .map pairs => appendHead 5 pairs.length ++ appendPairs pairs
  | .bigUint negative magnitude => encodeBigUint negative magnitude

def appendItems : List Value → Bytes
  | [] => []
  | v :: items => appendValue v ++ appendItems items

def appendPairs : List (Value × Value) → Bytes
  | [] => []
  | (k, v) :: pairs => appendValue k ++ appendValue v ++ appendPairs pairs

end

def encode (v : Value) : Bytes := appendValue v

def maxDecodeDepth : Nat := 64

def errTruncated : String := "cbor: premature end of stream"

def errIndefinite : String := "cbor: indefinite length"

def errDepth : String := s!"cbor: nesting too deep (limit {maxDecodeDepth})"

/-- Not an error of the source: fewer calls were allowed to nest than do. -/
def errFuel : String := ""

/-- `take` of the source also refuses a length beyond the int range, which no input has. -/
def takeBytes (n : Nat) : Parser String Bytes := take errTruncated n

def argOfDirect (info : Nat) : Parser String Nat :=
  if info ≤ 23 then pure info
  else if info = 24 then beNat <$> takeBytes 1
  else if info = 25 then beNat <$> takeBytes 2
  else if info = 26 then beNat <$> takeBytes 4
  else if info = 27 then beNat <$> takeBytes 8
  else if info = 31 then fail errIndefinite
  else fail s!"cbor: reserved additional info {info}"

def uintValue (v : Nat) : Value := if v ≤ 2 ^ 63 - 1 then .int64 (Int64.ofNat v) else .uint64 (UInt64.ofNat v)

def chunk (major : Nat) : Parser String Bytes := do
  let b ← byteAt errTruncated
  ensure (b.toNat / 32 = major) "cbor: mismatched indefinite chunk type"
  let n ← argOfDirect (b.toNat % 32)
  takeBytes n

/-- The end of `stringOf` for a definite length. -/
def definiteString (major : Nat) (c : Bytes) : Parser String Value := do
  if major = 2 then pure (.bytes c)
  else
    ensure (Text.valid c = true) "cbor: error decoding text string"
    pure (.text c)

def stringOf (major info : Nat) : Parser String Value := do
  if info = 31 then
    let chunks ← upTo errTruncated 0xff (chunk major) (← remaining)
    pure (if major = 2 then .bytes chunks.flatten else .text chunks.flatten)
  else
    let n ← argOfDirect info
    let c ← takeBytes n
    definiteString major c

def elements {α : Type} (element : Parser String α) (info : Nat) : Parser String (List α) := do
  if info = 31 then upTo errTruncated 0xff element (← remaining)
  else
    let n ← argOfDirect info
    ensure (n ≤ (← remaining)) errTruncated
    ensure (n ≤ 2 ^ 28) errTruncated
    times element n

def arrayOf (item : Parser String Value) (info : Nat) : Parser String Value := do
  let items ← elements item info
  pure (.array items)

def pairOf (item : Parser String Value) : Parser String (Value × Value) := do
  let key ← item
  let val ← item
  pure (key, val)

def mapOf (item : Parser String Value) (info : Nat) : Parser String Value := do
  let pairs ← elements (pairOf item) info
  pure (.map (Map.ofPairs pairs))

def halfFloat (bits : Nat) : UInt64 :=
  let sign := bits / 2 ^ 15 * 2 ^ 63
  let exp := bits / 2 ^ 10 % 2 ^ 5
  let frac := bits % 2 ^ 10
  UInt64.ofNat <|
    if exp = 0 then
      if frac = 0 then sign
      else
        let n := frac.log2 + 1
        sign + (998 + n) * 2 ^ 52 + (frac - 2 ^ (n - 1)) * 2 ^ (11 - n)
    else if exp = 0x1f then sign + 0x7ff * 2 ^ 52 + frac * 2 ^ 42
    else sign + (exp + 1008) * 2 ^ 52 + frac * 2 ^ 42

def simpleOf (info : Nat) : Parser String Value :=
  if info = 20 then pure (.bool false)
  else if info = 21 then pure (.bool true)
  else if info = 22 then pure .null
  else if info ≤ 23 then fail s!"cbor: unassigned simple value {info}"
  else if info = 24 then do
    let v ← takeBytes 1
    fail s!"cbor: unassigned simple value {beNat v}"
  else if info = 25 then (fun b => .float64 (halfFloat (beNat b))) <$> takeBytes 2
  else if info = 26 then (fun b => .float64 (Binary64.widen (UInt32.ofNat (beNat b)))) <$> takeBytes 4
  else if info = 27 then (fun b => .float64 (UInt64.ofNat (beNat b))) <$> takeBytes 8
  else if info = 31 then fail "cbor: unexpected break code"
  else fail s!"cbor: unsupported float/simple form {info}"

/-- A tag makes a bignum of a byte string; on anything else it is dropped. -/
def tagged (tagNum : Nat) : Value → Value
  | .bytes payload => if tagNum = 2 ∨ tagNum = 3 then .bigUint (tagNum = 3) payload else .bytes payload
  | inner => inner

/-- The switch of `value` on the major type. The first argument reads a value at the given depth. -/
def valueOf (value : Nat → Parser String Value) (depth major info : Nat) : Parser String Value :=
  match major with
  | 0 => uintValue <$> argOfDirect info
  | 1 => do
    let arg ← argOfDirect info
    ensure (arg < 2 ^ 63) "cbor: negative integer overflow"
    pure (.int64 (-1 - Int64.ofNat arg))
  | 2 => stringOf 2 info
  | 3 => stringOf 3 info
  | 4 => arrayOf (value (depth + 1)) info
  | 5 => mapOf (value (depth + 1)) info
  | 6 => do
    ensure (info ≠ 31) "cbor: indefinite tags are not supported"
    let tagNum ← argOfDirect info
    tagged tagNum <$> value depth
  | 7 => simpleOf info
  | major => fail s!"cbor: unsupported major type {major}"

/-- The first argument is fuel for nested calls after the check of the depth; inner values begin at later bytes. -/
def value : Nat → Nat → Parser String Value
  | 0, depth => do
    ensure (depth ≤ maxDecodeDepth) errDepth
    fail errFuel
  | fuel + 1, depth => do
    ensure (depth ≤ maxDecodeDepth) errDepth
    let b ← byteAt errTruncated
    valueOf (value fuel) depth (b.toNat / 32) (b.toNat % 32)

/-- `Decode`. Bytes after the value are ignored. -/
def decode (data : Bytes) : Except String Value := (value (data.length + 1) 0 data).map (·.1)

end Reticulum.Rrc.Cbor
