import Mathlib.Data.List.Basic
import Mathlib.Tactic.Linarith
import Mathlib.Tactic.Ring

/-! Byte strings and the big-endian readings that the wire formats share. -/

namespace Reticulum

/-- A Go byte slice, seen as the bytes it holds. A nil slice and an empty slice are the same value here. -/
abbrev Bytes := List UInt8

instance : LawfulBEq Bytes := inferInstanceAs (LawfulBEq (List UInt8))

/-- `binary.BigEndian.Uint16` of the first two bytes. -/
def beUint16 (hi lo : UInt8) : UInt16 := (hi.toUInt16 <<< 8) ||| lo.toUInt16

def putUint16 (v : UInt16) : Bytes := [(v >>> 8).toUInt8, v.toUInt8]

theorem toNat_beUint16 (hi lo : UInt8) : (beUint16 hi lo).toNat = hi.toNat * 256 + lo.toNat := by
  have hh := hi.toNat_lt
  have hl := lo.toNat_lt
  have hshift : hi.toUInt16.toNat <<< 8 % 2 ^ 16 = hi.toNat <<< 8 := by
    rw [UInt8.toNat_toUInt16, Nat.shiftLeft_eq]
    omega
  rw [beUint16, UInt16.toNat_or, UInt16.toNat_shiftLeft, show (8 : UInt16).toNat % 16 = 8 from rfl, hshift,
    UInt8.toNat_toUInt16, ← Nat.shiftLeft_add_eq_or_of_lt (by omega), Nat.shiftLeft_eq]

theorem beUint16_putUint16 (v : UInt16) : beUint16 (v >>> 8).toUInt8 v.toUInt8 = v := by
  have hv := v.toNat_lt
  have hhi : (v >>> 8).toUInt8.toNat = v.toNat / 256 := by
    rw [UInt16.toNat_toUInt8, UInt16.toNat_shiftRight, show (8 : UInt16).toNat % 16 = 8 from rfl,
      Nat.shiftRight_eq_div_pow]
    omega
  apply UInt16.toNat_inj.mp
  rw [toNat_beUint16, hhi, UInt16.toNat_toUInt8]
  omega

def beNat (b : Bytes) : Nat := b.foldl (fun n c => 256 * n + c.toNat) 0

/-- The low `k` bytes of a number, the highest first. -/
def beBytes : Nat → Nat → Bytes
  | 0, _ => []
  | k + 1, v => UInt8.ofNat (v / 256 ^ k) :: beBytes k v

@[simp] theorem length_beBytes : ∀ k v : Nat, (beBytes k v).length = k
  | 0, _ => rfl
  | k + 1, v => congrArg Nat.succ (length_beBytes k v)

private theorem foldl_byte (b : Bytes) (n : Nat) :
    b.foldl (fun n c => 256 * n + c.toNat) n = n * 256 ^ b.length + beNat b := by
  induction b generalizing n with
  | nil => simp [beNat]
  | cons c b ih =>
    have hcons : beNat (c :: b) = b.foldl (fun n c => 256 * n + c.toNat) (256 * 0 + c.toNat) := rfl
    rw [List.foldl_cons, ih, hcons, ih, List.length_cons, pow_succ]
    ring

theorem beNat_cons (c : UInt8) (b : Bytes) : beNat (c :: b) = c.toNat * 256 ^ b.length + beNat b := by
  rw [beNat, List.foldl_cons, foldl_byte]
  simp

theorem beNat_lt : ∀ b : Bytes, beNat b < 256 ^ b.length
  | [] => by simp [beNat]
  | c :: b => by
    have hc := c.toNat_lt
    have hb := beNat_lt b
    rw [beNat_cons, List.length_cons, pow_succ]
    nlinarith

theorem beNat_beBytes_mod : ∀ k v : Nat, beNat (beBytes k v) = v % 256 ^ k
  | 0, v => by simp [beBytes, beNat, Nat.mod_one]
  | k + 1, v => by
    rw [beBytes, beNat_cons, length_beBytes, beNat_beBytes_mod k v, Nat.mod_pow_succ, UInt8.toNat_ofNat']
    ring

theorem beNat_beBytes {k v : Nat} (h : v < 256 ^ k) : beNat (beBytes k v) = v := by
  rw [beNat_beBytes_mod, Nat.mod_eq_of_lt h]

end Reticulum
