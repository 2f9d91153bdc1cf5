import Mathlib.Data.Nat.Log
import Mathlib.Data.Nat.Prime.Pow
import Mathlib.Data.Rat.Lemmas
import Mathlib.Algebra.Order.Field.Basic
import Mathlib.Tactic.Positivity

/-! IEEE 754 double precision: what the bits of a number stand for, and the conversion of integers to it. -/

namespace Binary64

inductive Number
  | nan
  | infinite (negative : Bool)
  | finite (value : ℚ)
  deriving DecidableEq

/-- Equality of numbers: no NaN equals anything, and the two zeros are equal. -/
def Number.equal (a b : Number) : Bool := a != .nan && a == b

def signed (negative : Bool) (n : Nat) : Int := if negative then -n else n

/-- `math.Float64frombits`. A finite number is a whole number of units of `2 ^ -1074`. -/
def ofBits (bits : UInt64) : Number :=
  let negative := bits.toNat / 2 ^ 63 == 1
  let exponent := bits.toNat / 2 ^ 52 % 2 ^ 11
  let fraction := bits.toNat % 2 ^ 52
  if exponent = 2 ^ 11 - 1 then
    if fraction = 0 then .infinite negative else .nan
  else if exponent = 0 then .finite (signed negative fraction / 2 ^ 1074)
  else .finite (signed negative ((2 ^ 52 + fraction) * 2 ^ (exponent - 1)) / 2 ^ 1074)

/-- Rounds to 53 significant bits, halves to the even neighbour. -/
def round (n : Nat) : Nat :=
  if n < 2 ^ 53 then n
  else
    let k := n.log2 - 52
    let low := n % 2 ^ k
    let high := n / 2 ^ k
    (if 2 ^ k < 2 * low ∨ 2 ^ k = 2 * low ∧ high % 2 = 1 then high + 1 else high) * 2 ^ k

/-- Every finite number is one. -/
def Dyadic (q : ℚ) : Prop := ∃ k, q.den = 2 ^ k

/-- The sum or difference of two numbers, rounded. It is dyadic, so that it is enough to round the numerator. -/
def nearest (q : ℚ) : ℚ := signed (q < 0) (round q.num.natAbs) / q.den

/-- `float64(n)` of a 64-bit integer. -/
def ofInt (n : Int) : Number := .finite (signed (n < 0) (round n.natAbs))

/-- The bits of `float64(math.Float32frombits(bits))`. The conversion makes a signalling NaN quiet. -/
def widen (bits : UInt32) : UInt64 :=
  let sign := bits.toNat / 2 ^ 31 * 2 ^ 63
  let exponent := bits.toNat / 2 ^ 23 % 2 ^ 8
  let fraction := bits.toNat % 2 ^ 23
  UInt64.ofNat <|
    if exponent = 2 ^ 8 - 1 then
      if fraction = 0 then sign + (2 ^ 11 - 1) * 2 ^ 52
      else sign + (2 ^ 11 - 1) * 2 ^ 52 + 2 ^ 51 + fraction % 2 ^ 22 * 2 ^ 29
    else if exponent = 0 then
      if fraction = 0 then sign
      else
        -- A subnormal `fraction * 2 ^ -149` is normal in double precision.
        sign + (fraction.log2 + 874) * 2 ^ 52 + (fraction - 2 ^ fraction.log2) * 2 ^ (52 - fraction.log2)
    else sign + (exponent + 896) * 2 ^ 52 + fraction * 2 ^ 29

theorem Number.equal_iff {a b : Number} : a.equal b = true ↔ a ≠ .nan ∧ a = b := by
  simp [Number.equal]

theorem ofInt_ne_nan (n : Int) : ofInt n ≠ .nan := by
  exact Number.noConfusion

theorem round_of_lt {n : Nat} (h : n < 2 ^ 53) : round n = n := if_pos h

theorem le_round {n : Nat} (h : 2 ^ 53 ≤ n) : 2 ^ 53 ≤ round n := by
  have hn : n ≠ 0 := by rintro rfl; simp at h
  have hlog : 53 ≤ n.log2 := (Nat.le_log2 hn).mpr h
  have hk : 52 + (n.log2 - 52) = n.log2 := by omega
  have hhigh : 2 ^ 52 ≤ n / 2 ^ (n.log2 - 52) := by
    rw [Nat.le_div_iff_mul_le (by positivity), ← pow_add, hk]
    exact Nat.log2_self_le hn
  have hpow : 2 ^ 1 ≤ 2 ^ (n.log2 - 52) := Nat.pow_le_pow_right (by decide) (by omega)
  rw [round, if_neg (by omega)]
  calc 2 ^ 53 = 2 ^ 52 * 2 ^ 1 := rfl
    _ ≤ n / 2 ^ (n.log2 - 52) * 2 ^ (n.log2 - 52) := Nat.mul_le_mul hhigh hpow
    _ ≤ _ := Nat.mul_le_mul_right _ (by split <;> omega)

/-- Rounding does not pass a number that fits. -/
theorem round_bounds {c k n : Nat} (hc : c < 2 ^ 53) :
    (n ≤ c * 2 ^ k → round n ≤ c * 2 ^ k) ∧ (c * 2 ^ k ≤ n → c * 2 ^ k ≤ round n) := by
  rw [round]
  split_ifs with hsmall
  · exact ⟨id, id⟩
  have hn : n ≠ 0 := by rintro rfl; simp at hsmall
  have hlog : 53 ≤ n.log2 := (Nat.le_log2 hn).mpr (not_lt.mp hsmall)
  obtain ⟨j, hj⟩ : ∃ j, n.log2 = 52 + j := ⟨n.log2 - 52, by omega⟩
  have hself : 2 ^ 52 * 2 ^ j ≤ n := by
    rw [← pow_add, ← hj]
    exact Nat.log2_self_le hn
  have hdiv := Nat.div_add_mod' n (2 ^ j)
  simp only [hj, Nat.add_sub_cancel_left]
  by_cases hkj : j ≤ k
  · -- The number is a multiple of the unit to which is rounded.
    obtain ⟨i, rfl⟩ := Nat.exists_eq_add_of_le' hkj
    have hunit : c * 2 ^ (i + j) = c * 2 ^ i * 2 ^ j := by rw [pow_add, mul_assoc]
    rw [hunit]
    constructor
    · intro hle
      refine Nat.mul_le_mul_right _ ?_
      split_ifs with hup
      · refine Nat.lt_of_mul_lt_mul_right (a := 2 ^ j) ?_
        omega
      · exact Nat.div_le_of_le_mul (mul_comm (c * 2 ^ i) _ ▸ hle)
    · intro hle
      refine Nat.mul_le_mul_right _ (((Nat.le_div_iff_mul_le (by positivity)).mpr hle).trans ?_)
      split_ifs <;> omega
  · -- It is below the binade of `n`.
    have hbelow : c * 2 ^ k < 2 ^ 52 * 2 ^ j := by
      calc c * 2 ^ k < 2 ^ 53 * 2 ^ k := Nat.mul_lt_mul_of_pos_right hc (by positivity)
        _ = 2 ^ 52 * 2 ^ (k + 1) := by rw [pow_succ 2 52, mul_assoc, ← pow_succ']
        _ ≤ 2 ^ 52 * 2 ^ j := Nat.mul_le_mul_left _ (Nat.pow_le_pow_right (by decide) (by omega))
    refine ⟨fun hle => absurd (hself.trans hle) (not_le.mpr hbelow), fun _ => hbelow.le.trans ?_⟩
    refine Nat.mul_le_mul_right _ (((Nat.le_div_iff_mul_le (by positivity)).mpr hself).trans ?_)
    split_ifs <;> omega

theorem natAbs_signed (negative : Bool) (n : Nat) : (signed negative n).natAbs = n := by
  cases negative <;> simp [signed]

theorem signed_natAbs (n : Int) : signed (n < 0) n.natAbs = n := by
  by_cases h : n < 0
  · rw [signed, if_pos (decide_eq_true h)]
    omega
  · rw [signed, if_neg (by simpa using h)]
    omega

/-- An integer that fits in 53 bits is no other integer's number. -/
theorem ofInt_inj {m n : Int} (hn : n.natAbs < 2 ^ 53) (h : ofInt m = ofInt n) : m = n := by
  have hvalue : signed (m < 0) (round m.natAbs) = signed (n < 0) (round n.natAbs) :=
    Rat.intCast_injective (Number.finite.inj h)
  have hround : signed (m < 0) (round m.natAbs) = n := by rw [hvalue, round_of_lt hn, signed_natAbs]
  have habs : round m.natAbs = n.natAbs := by rw [← hround, natAbs_signed]
  have hm : m.natAbs < 2 ^ 53 := by
    by_contra hm
    have := le_round (not_lt.mp hm)
    omega
  rw [← hround, round_of_lt hm, signed_natAbs]

theorem nearest_natCast {n : Nat} (h : n < 2 ^ 53) : nearest n = n := by
  simp [nearest, signed, round_of_lt h]

theorem Dyadic.natCast_sub {q : ℚ} (h : Dyadic q) (n : Nat) : Dyadic (n - q) := by
  obtain ⟨k, hk⟩ := h
  have hdvd := Rat.sub_den_dvd (n : ℚ) q
  rw [Rat.den_natCast, one_mul, hk] at hdvd
  obtain ⟨j, -, hj⟩ := (Nat.dvd_prime_pow Nat.prime_two).mp hdvd
  exact ⟨j, hj⟩

/-- Whole numbers are not passed by rounding. -/
theorem nearest_bounds {q : ℚ} (h : Dyadic q) (hq : 0 ≤ q) {c : Nat} (hc : c < 2 ^ 53) :
    (q ≤ c → nearest q ≤ c) ∧ (c ≤ q → c ≤ nearest q) := by
  obtain ⟨k, hk⟩ := h
  have hpos : (0 : ℚ) < 2 ^ k := by positivity
  obtain ⟨n, hn⟩ : ∃ n : Nat, q.num = n := Int.eq_ofNat_of_zero_le (Rat.num_nonneg.mpr hq)
  have hvalue : q = n / 2 ^ k := by
    rw [← Rat.num_div_den q, hn, hk]
    push_cast
    rfl
  have hnearest : nearest q = round n / 2 ^ k := by
    simp [nearest, signed, not_lt.mpr hq, hn, hk]
  obtain ⟨hup, hdown⟩ := @round_bounds c k n hc
  rw [hnearest, hvalue, div_le_iff₀ hpos, div_le_iff₀ hpos, le_div_iff₀ hpos, le_div_iff₀ hpos]
  exact ⟨by exact_mod_cast hup, by exact_mod_cast hdown⟩

end Binary64
