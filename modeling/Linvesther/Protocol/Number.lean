import Mathlib

/-! JavaScript numbers, as far as positions and counts need them: halving, rounding to an integer,
remainders modulo 2 and conversion to a `bigint`. -/

namespace Linvesther.Protocol

/-- 1, in multiples of the least positive number. -/
def one : ℤ := 2 ^ 1074

/-- A number. A finite one is a multiple of the least positive number, `2 ^ -1074`; not every
multiple is a number, and nothing here depends on which are. The zeros are not told apart. -/
inductive Number where
  | nan
  | infinity (negative : Bool)
  | finite (units : ℤ)
deriving DecidableEq

namespace Number

def ofInt (k : ℤ) : Number := .finite (k * one)

/-- `Math.floor` and `Math.ceil` of a finite number. -/
def floorUnits (u : ℤ) : ℤ := u / one * one

def ceilUnits (u : ℤ) : ℤ := -floorUnits (-u)

/-- Half of a finite number. Only an odd multiple has no half, and it is rounded to even. -/
def halfUnits (u : ℤ) : ℤ := if u % 2 = 0 ∨ u / 2 % 2 = 0 then u / 2 else u / 2 + 1

/-- `x >= y`. -/
def ge : Number → Number → Bool
  | .nan, _ | _, .nan => false
  | .infinity false, _ | _, .infinity true => true
  | .infinity true, _ | _, .infinity false => false
  | .finite u, .finite v => v ≤ u

/-- `x % 2 === 0`. -/
def isEven : Number → Bool
  | .nan | .infinity _ => false
  | .finite u => u.tmod (2 * one) = 0

/-- `Math.floor(x / 2)`. -/
def floorHalf : Number → Number
  | .nan => .nan
  | .infinity negative => .infinity negative
  | .finite u => .finite (floorUnits (halfUnits u))

/-- `BigInt(x)`, which throws where `x` is no integer. -/
def toBigInt : Number → Option ℤ
  | .nan | .infinity _ => none
  | .finite u => if u % one = 0 then some (u / one) else none

theorem one_pos : 0 < one := by decide +kernel

theorem two_dvd_one : (2 : ℤ) ∣ one := ⟨2 ^ 1073, by decide +kernel⟩

theorem ofInt_injective : Function.Injective ofInt := by
  intro k k' h
  have hunits : k * one = k' * one := by simpa [ofInt] using h
  exact Int.eq_of_mul_eq_mul_right one_pos.ne' hunits

theorem toBigInt_eq_some {x : Number} {k : ℤ} : x.toBigInt = some k ↔ x = ofInt k := by
  cases x with
  | nan => simp [toBigInt, ofInt]
  | infinity negative => simp [toBigInt, ofInt]
  | finite u =>
    simp only [toBigInt, ofInt, Number.finite.injEq]
    constructor
    · intro h
      split_ifs at h with hdvd
      cases h
      exact (Int.ediv_mul_cancel (Int.dvd_of_emod_eq_zero hdvd)).symm
    · rintro rfl
      rw [if_pos (Int.mul_emod_left k one), Int.mul_ediv_cancel _ one_pos.ne']

/-- Halving an integer loses nothing. -/
theorem halfUnits_mul_one (k : ℤ) : halfUnits (k * one) = k * (one / 2) := by
  have hdvd : (2 : ℤ) ∣ k * one := Dvd.dvd.mul_left two_dvd_one k
  rw [halfUnits, if_pos (.inl (Int.emod_eq_zero_of_dvd hdvd)), Int.mul_ediv_assoc k two_dvd_one]

theorem mul_half_ediv_one (k : ℤ) : k * (one / 2) / one = k / 2 := by
  obtain ⟨c, hc⟩ := two_dvd_one
  have hpos : 0 < c := by have := one_pos; omega
  rw [hc, Int.mul_ediv_cancel_left _ two_ne_zero, Int.mul_ediv_mul_of_pos_left _ _ hpos]

theorem ceilUnits_halfUnits (k : ℤ) : ceilUnits (halfUnits (k * one)) = (k + 1) / 2 * one := by
  have hneg : -(k * (one / 2)) = -k * (one / 2) := (Int.neg_mul _ _).symm
  rw [ceilUnits, floorUnits, halfUnits_mul_one, hneg, mul_half_ediv_one, ← Int.neg_mul]
  congr 1
  omega

theorem ceil_half_lt {n : ℤ} (h : one < n) : ceilUnits (halfUnits n) < n := by
  have hpos := one_pos
  have hdiv := Int.mul_ediv_add_emod (-halfUnits n) one
  have hmod := Int.emod_nonneg (-halfUnits n) hpos.ne'
  have hmod' := Int.emod_lt_of_pos (-halfUnits n) hpos
  have hceil : ceilUnits (halfUnits n) = halfUnits n + -halfUnits n % one := by
    rw [ceilUnits, floorUnits, Int.mul_comm]
    omega
  have hhalf : halfUnits n ≤ (n + 1) / 2 := by
    unfold halfUnits
    split_ifs <;> omega
  by_cases hn : n ≤ 2 * one
  · -- At most 2 is halved to at most 1.
    have hquotient : -1 ≤ -halfUnits n / one :=
      (Int.le_ediv_iff_mul_le hpos).2 (by omega)
    have : -(-halfUnits n / one * one) ≤ one := by
      have := Int.mul_le_mul_of_nonneg_right hquotient hpos.le
      omega
    exact lt_of_le_of_lt this h
  · omega

/-- The integer whose binary digits halving a number again and again reads off: its own for an
integer, a last digit 1 for a fraction, all digits 1 where there is no end to it. -/
def digits : Number → ℤ
  | .nan | .infinity _ => -1
  | .finite u => 2 * (halfUnits u / one) + if u.tmod (2 * one) = 0 then 0 else 1

theorem digits_ofInt (k : ℤ) : (ofInt k).digits = k := by
  have heven : (k * one).tmod (2 * one) = 0 ↔ k % 2 = 0 := by
    rw [← Int.dvd_iff_tmod_eq_zero, Int.mul_dvd_mul_iff_right one_pos.ne', Int.dvd_iff_emod_eq_zero]
  simp only [ofInt, digits, halfUnits_mul_one, mul_half_ediv_one, heven]
  split_ifs <;> omega

theorem isEven_iff (x : Number) : x.isEven = true ↔ x.digits % 2 = 0 := by
  cases x with
  | nan => simp [isEven, digits]
  | infinity negative => simp [isEven, digits]
  | finite u =>
    simp only [isEven, digits, decide_eq_true_eq]
    split_ifs with h
    · simp [h]
    · simp only [h, false_iff]; omega

theorem digits_floorHalf (x : Number) : x.floorHalf.digits = x.digits / 2 := by
  cases x with
  | nan => rfl
  | infinity negative => rfl
  | finite u =>
    change (ofInt (halfUnits u / one)).digits = _
    rw [digits_ofInt, digits]
    split_ifs <;> omega

end Number

end Linvesther.Protocol
