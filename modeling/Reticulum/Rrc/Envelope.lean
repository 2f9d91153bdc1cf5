import Reticulum.Rrc.Cbor

/-! Envelopes of the chat protocol (rrc/constants.go, rrc/envelope.go) and the text functions of rrc/util.go. -/

namespace Reticulum.Rrc

open Cbor

def rrcVersion : Int64 := 1

def kV : Value := .int64 0
def kT : Value := .int64 1
def kID : Value := .int64 2
def kTS : Value := .int64 3
def kSrc : Value := .int64 4
def kRoom : Value := .int64 5
def kBody : Value := .int64 6
def kNick : Value := .int64 7
def kDst : Value := .int64 8

def tHello : Int64 := 1
def tJoin : Int64 := 10
def tPart : Int64 := 12
def tMsg : Int64 := 20
def tNotice : Int64 := 21
def tAction : Int64 := 22
def tPing : Int64 := 30
def tPong : Int64 := 31
def tResource : Int64 := 50

def isIntLike : Value → Bool
  | .int64 _ | .uint64 _ | .bool _ | .bigUint _ _ => true
  | _ => false

def isBytes : Value → Bool
  | .bytes _ => true
  | _ => false

def isText : Value → Bool
  | .text _ => true
  | _ => false

def intValue : Value → Option Int64
  | .bool b => some (if b then 1 else 0)
  | .int64 n => some n
  | .uint64 n => if n.toNat ≤ 2 ^ 63 - 1 then some (Int64.ofNat n.toNat) else none
  | .bigUint negative magnitude =>
    if negative then none
    else (asUint64 magnitude).bind fun u => if u ≤ 2 ^ 63 - 1 then some (Int64.ofNat u) else none
  | _ => none

def negativeBig : Value → Bool
  | .bigUint negative magnitude => negative && !isZero magnitude
  | _ => false

/-- `pythonRepr` of the values that are integers to Python. -/
def pythonRepr : Value → String
  | .bool b => if b then "True" else "False"
  | .int64 n => toString n.toInt
  | .uint64 n => toString n.toNat
  | .bigUint negative magnitude =>
    toString (if negative then -((beNat magnitude : Int) - 1) else (beNat magnitude : Int))
  | _ => ""

def require (c : Bool) (e : String) : Except String Unit := if c then .ok () else .error e

def validateKey (key : Value) : Except String Unit := do
  require (isIntLike key) "envelope keys must be integers"
  require (match key with | .int64 k => 0 ≤ k | _ => true) "envelope keys must be unsigned integers"
  require (!negativeBig key) "envelope keys must be unsigned integers"

def optional (env : Map) (key : Value) (ok : Value → Bool) (e : String) : Except String Unit :=
  match env.get key with
  | some v => require (ok v) e
  | none => .ok ()

def validateEnvelope (env : Map) : Except String Unit := do
  env.forM fun p => validateKey p.1
  [0, 1, 2, 3, 4].forM fun k : Nat => require (env.has (.int64 (Int64.ofNat k))) s!"missing envelope key {k}"
  let v := (env.get kV).getD .null
  require (isIntLike v) "protocol version must be an integer"
  require ((intValue v).getD 0 == rrcVersion) s!"unsupported version {pythonRepr v}"
  require (isIntLike ((env.get kT).getD .null)) "message type must be an integer"
  require (isBytes ((env.get kID).getD .null)) "message id must be bytes"
  let ts := (env.get kTS).getD .null
  require (isIntLike ts) "timestamp must be an integer"
  require (0 ≤ (intValue ts).getD 0) "timestamp must be unsigned"
  require (!negativeBig ts) "timestamp must be unsigned"
  require (isBytes ((env.get kSrc).getD .null)) "sender identity must be bytes"
  optional env kRoom isText "room name must be a string"
  optional env kNick isText "nickname must be a string"
  optional env kDst isBytes "destination identity must be bytes"

def decodeEnvelope (data : Bytes) : Except String Map := do
  match ← decode data with
  | .map env => do
    validateEnvelope env
    pure env
  | _ => .error "envelope must be a CBOR map (dict)"

/-- The characters that `isUnicodeSpace` accepts, in UTF-8. -/
def unicodeSpaces : List Bytes := Text.spaces ++ [[0x1c], [0x1d], [0x1e], [0x1f]]

def pythonTrim (s : Bytes) : Bytes := Text.trim unicodeSpaces s

def normalizeNick (value : Bytes) (maxBytes : Int) : Bytes :=
  let s := pythonTrim value
  if s = [] then []
  else if !Text.valid s then []
  else if 0 < maxBytes ∧ maxBytes < s.length then []
  else if s.any fun c => c == 10 || c == 13 || c == 0 then []
  else s

variable (u : Text.Unicode)

def isCaseIgnorable (c : Char) : Bool :=
  [0x27, 0x2E, 0x00B7, 0x0387, 0x2018, 0x2019, 0x2024, 0x2027, 0xFE13, 0xFE52, 0xFE55, 0xFF07, 0xFF0E, 0xFF61].contains
    c.toNat || u.modifier c

/-- The sigma between the characters before it, the nearest first, and those after it ends a word. -/
def isFinalSigma (before after : List Char) : Bool :=
  ((before.dropWhile (isCaseIgnorable u)).head?.any u.cased) &&
    !((after.dropWhile (isCaseIgnorable u)).head?.any u.cased)

def lowerRunes (u : Text.Unicode) (before : List Char) : List Char → List Char
  | [] => []
  | c :: after =>
    (if c.toNat = 0x0130 then [Char.ofNat 0x69, Char.ofNat 0x0307]
      else if c.toNat = 0x03A3 then [Char.ofNat (if isFinalSigma u before after then 0x03C2 else 0x03C3)]
      else [u.toLower c]) ++ lowerRunes u (c :: before) after

def pythonLower (s : Bytes) : Bytes :=
  if (Text.runes s).any fun c => c.toNat == 0x0130 || c.toNat == 0x03A3 then
    Text.encodeRunes (lowerRunes u [] (Text.runes s))
  else Text.lower u s

def bodyText : Value → Option Bytes
  | .bytes b => some b
  | .text s => some s
  | _ => none

theorem valid_pythonLower (s : Bytes) : Text.valid (pythonLower u s) = true := by
  rw [pythonLower, Text.lower]
  split <;> exact Text.valid_encodeRunes _

end Reticulum.Rrc
