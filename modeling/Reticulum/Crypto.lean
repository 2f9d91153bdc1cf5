import Reticulum.Bytes
import Reticulum.Sha256

/-! Hashes and key derivation as the packages `rns` and `rns/crypto` offer them. -/

namespace Reticulum

/-- `TruncatedHashLength / 8`. -/
def truncatedHashLength : Nat := 16

def fullHash (data : Bytes) : Bytes := Sha256.sha256 data

def truncatedHash (data : Bytes) : Bytes := (fullHash data).take truncatedHashLength

variable (data : Bytes)

@[simp] theorem length_fullHash : (fullHash data).length = 32 := Sha256.length_sha256 data

@[simp] theorem length_truncatedHash : (truncatedHash data).length = 16 := by
  simp [truncatedHash, truncatedHashLength]

theorem fullHash_ne_nil : fullHash data ≠ [] :=
  List.ne_nil_of_length_eq_add_one (Sha256.length_sha256 data)

/-- The expand loop of `HKDF` from block number `i` on. -/
def hkdfExpand (pseudoRandomKey context : Bytes) (block : Bytes) (i : Nat) : Nat → Bytes
  | 0 => []
  | n + 1 =>
    let block := Sha256.hmac pseudoRandomKey (block ++ context ++ [((i + 1) % 256).toUInt8])
    block ++ hkdfExpand pseudoRandomKey context block (i + 1) n

/-- `HKDF`; `none` stands for its errors. -/
def hkdf (length : Nat) (deriveFrom salt context : Bytes) : Option Bytes :=
  if length < 1 then none
  else if deriveFrom = [] then none
  else
    let salt := if salt = [] then List.replicate 32 0 else salt
    let pseudoRandomKey := Sha256.hmac salt deriveFrom
    some ((hkdfExpand pseudoRandomKey context [] 0 ((length + 31) / 32)).take length)

end Reticulum
