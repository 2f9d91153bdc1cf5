import Mathlib.Data.List.DropRight
import Mathlib.Tactic.Ring

/-! Strings as Go has them, byte by byte: the functions of `strings`, `strconv` and `encoding/hex` that the
programs use. -/

namespace Text

abbrev Str := List UInt8

def ascii (s : String) : Str := s.toList.map fun c => c.toNat.toUInt8

/-- The encodings of the characters that `unicode.IsSpace` accepts. -/
def spaces : List Str :=
  [[9], [10], [11], [12], [13], [32], [0xC2, 0x85], [0xC2, 0xA0], [0xE1, 0x9A, 0x80], [0xE2, 0x80, 0xA8],
    [0xE2, 0x80, 0xA9], [0xE2, 0x80, 0xAF], [0xE2, 0x81, 0x9F], [0xE3, 0x80, 0x80]] ++
  (List.range 11).map fun i => [0xE2, 0x80, 0x80 + i.toUInt8]

/-- Takes words away from the front while there is one. The first argument is fuel. -/
def trimLeft (words : List Str) : Nat → Str → Str
  | 0, s => s
  | n + 1, s =>
    match words.find? (· <+: s) with
    | none => s
    | some w => trimLeft words n (s.drop w.length)

/-- `strings.TrimFunc` for the characters with the given encodings. -/
def trim (words : List Str) (s : Str) : Str :=
  let left := trimLeft words s.length s
  (trimLeft (words.map List.reverse) left.length left.reverse).reverse

variable (s : Str)

def trimSpace : Str := trim spaces s

/-- `strings.Cut` at a single byte. -/
def cut (c : UInt8) (s : Str) : Option (Str × Str) :=
  if c ∈ s then some (s.takeWhile (· ≠ c), (s.dropWhile (· ≠ c)).drop 1) else none

def lines : List Str := s.splitOn 10

def hexDigit (n : UInt8) : UInt8 := if n < 10 then 48 + n else 87 + n

/-- `hex.EncodeToString`. -/
def hexEncode : Str := s.flatMap fun b => [hexDigit (b / 16), hexDigit (b % 16)]

def unhexDigit (c : UInt8) : Option UInt8 :=
  if 48 ≤ c ∧ c ≤ 57 then some (c - 48)
  else if 97 ≤ c ∧ c ≤ 102 then some (c - 87)
  else if 65 ≤ c ∧ c ≤ 70 then some (c - 55)
  else none

/-- `hex.DecodeString`. -/
def hexDecode : Str → Option Str
  | [] => some []
  | [_] => none
  | a :: b :: s => do
    let high ← unhexDigit a
    let low ← unhexDigit b
    let rest ← hexDecode s
    return (16 * high + low) :: rest

/-- `strconv.FormatInt` in base ten. -/
def formatInt (n : Int) : Str := ascii (toString n)

def digitsValue : Option Nat :=
  if s ≠ [] ∧ s.all (fun c => 48 ≤ c ∧ c ≤ 57) then some (s.foldl (fun n c => 10 * n + (c.toNat - 48)) 0) else none

/-- The value that `strconv.ParseInt` in base ten gives for an int64, also when it reports an error. -/
def parseInt : Str → Int
  | 45 :: s => (digitsValue s).elim 0 fun n => -min (n : Int) (2 ^ 63)
  | 43 :: s => (digitsValue s).elim 0 fun n => min (n : Int) (2 ^ 63 - 1)
  | s => (digitsValue s).elim 0 fun n => min (n : Int) (2 ^ 63 - 1)

/-- `strconv.Atoi`. -/
def atoi : Option Int :=
  let value : Option Int :=
    match s with
    | 45 :: s => (digitsValue s).map fun n => -n
    | 43 :: s => (digitsValue s).map fun n => n
    | s => (digitsValue s).map fun n => n
  value.filter fun v => -2 ^ 63 ≤ v ∧ v < 2 ^ 63

theorem hexDigits (b : UInt8) : unhexDigit (hexDigit (b / 16)) = some (b / 16) ∧
    unhexDigit (hexDigit (b % 16)) = some (b % 16) ∧ 16 * (b / 16) + b % 16 = b ∧
    hexDigit (b / 16) ≠ 95 ∧ hexDigit (b % 16) ≠ 95 := by
  have hall : ∀ n : Fin 256, let b := UInt8.ofFin n
      unhexDigit (hexDigit (b / 16)) = some (b / 16) ∧ unhexDigit (hexDigit (b % 16)) = some (b % 16) ∧
      16 * (b / 16) + b % 16 = b ∧ hexDigit (b / 16) ≠ 95 ∧ hexDigit (b % 16) ≠ 95 := by
    decide +kernel
  exact hall b.toFin

theorem hexDecode_hexEncode : hexDecode (hexEncode s) = some s := by
  induction s with
  | nil => rfl
  | cons b s ih =>
    obtain ⟨hhigh, hlow, hsum, -, -⟩ := hexDigits b
    have hcons : hexEncode (b :: s) = hexDigit (b / 16) :: hexDigit (b % 16) :: hexEncode s := rfl
    rw [hcons, hexDecode, hhigh, hlow, ih]
    simp [hsum]

theorem underscore_notMem_hexEncode : 95 ∉ hexEncode s := by
  rw [hexEncode, List.mem_flatMap]
  rintro ⟨b, -, hb⟩
  obtain ⟨-, -, -, hhigh, hlow⟩ := hexDigits b
  simp [hhigh.symm, hlow.symm] at hb

theorem atoi_formatInt : ∀ n : Fin 257, atoi (formatInt n) = some n ∧ 95 ∉ formatInt n := by
  decide +kernel

/-- `utf8.RuneError`, read in place of a byte that begins no character. -/
def runeError : Char := Char.ofNat 0xFFFD

def decodeRune : Option Char := s.toByteArray.utf8DecodeChar? 0

/-- The characters in order, `none` for each byte that is not part of one. The first argument is fuel. -/
def scan : Nat → Str → List (Option Char)
  | 0, _ => []
  | _, [] => []
  | n + 1, s =>
    match decodeRune s with
    | some c => some c :: scan n (s.drop c.utf8Size)
    | none => none :: scan n (s.drop 1)

/-- The conversion `[]rune(s)`. -/
def runes : List Char := (scan s.length s).map (·.getD runeError)

/-- `utf8.Valid`. -/
def valid : Bool := (scan s.length s).all Option.isSome

def encodeRunes (cs : List Char) : Str := cs.flatMap String.utf8EncodeChar

theorem decodeRune_encode (c : Char) (s : Str) : decodeRune (String.utf8EncodeChar c ++ s) = some c := by
  rw [decodeRune, List.toByteArray_append, ByteArray.utf8DecodeChar?_utf8EncodeChar_append]

theorem scan_encodeRunes : ∀ (cs : List Char) (n : Nat), (encodeRunes cs).length ≤ n →
    scan n (encodeRunes cs) = cs.map some
  | [], n, _ => by cases n <;> rfl
  | c :: cs, n, hn => by
    have hcons : encodeRunes (c :: cs) = String.utf8EncodeChar c ++ encodeRunes cs := rfl
    have hsize := String.length_utf8EncodeChar c
    have hpos := c.utf8Size_pos
    rw [hcons, List.length_append] at hn
    obtain ⟨n, rfl⟩ : ∃ m, n = m + 1 := ⟨n - 1, by omega⟩
    obtain ⟨b, s, hs⟩ : ∃ b s, encodeRunes (c :: cs) = b :: s :=
      List.exists_cons_of_length_pos (by rw [hcons, List.length_append]; omega)
    have hdrop : (encodeRunes (c :: cs)).drop c.utf8Size = encodeRunes cs := by
      rw [hcons, ← hsize, List.drop_left]
    have hrune : decodeRune (encodeRunes (c :: cs)) = some c := decodeRune_encode c _
    rw [hs] at hdrop hrune ⊢
    simp only [scan, hrune, hdrop, List.map_cons]
    rw [scan_encodeRunes cs n (by omega)]

theorem valid_encodeRunes (cs : List Char) : valid (encodeRunes cs) = true := by
  rw [valid, scan_encodeRunes cs _ le_rfl]
  simp

/-- The tables of the package `unicode` that changing case needs. -/
structure Unicode where
  toLower : Char → Char
  /-- In `Lu`, `Ll`, `Lt`, `Other_Lowercase` or `Other_Uppercase`. -/
  cased : Char → Bool
  /-- In `Mn`, `Me`, `Cf`, `Lm` or `Sk`. -/
  modifier : Char → Bool

def lower (u : Unicode) (s : Str) : Str := encodeRunes ((runes s).map u.toLower)

end Text
