import Mathlib

/-! Binary64 numbers, as far as integers are concerned: the one nearest to an integer. -/

namespace IntegralDouble

/-- Fifty-three bits are kept, and a tie goes to the even one. -/
def roundMagnitude (m : ℕ) : ℕ :=
  if m < 2 ^ 53 then m
  else
    let exponent := Nat.log2 m - 52
    let kept := m / 2 ^ exponent
    let dropped := m % 2 ^ exponent
    let half := 2 ^ (exponent - 1)
    if dropped < half ∨ dropped = half ∧ kept % 2 = 0 then kept * 2 ^ exponent else (kept + 1) * 2 ^ exponent

/-- The nearest number to an integer, unless it is infinite. -/
def nearest (i : ℤ) : Option ℤ :=
  if roundMagnitude i.natAbs < 2 ^ 1024 then some (i.sign * roundMagnitude i.natAbs) else none

theorem roundMagnitude_le (m : ℕ) : roundMagnitude m ≤ 2 * m := by
  unfold roundMagnitude
  split_ifs with hsmall
  · omega
  · have hpos : m ≠ 0 := by
      rintro rfl
      exact hsmall (by decide)
    have hpower : 2 ^ (Nat.log2 m - 52) ≤ m :=
      (Nat.pow_le_pow_right (by decide) (Nat.sub_le _ _)).trans (Nat.log2_self_le hpos)
    have hkept : m / 2 ^ (Nat.log2 m - 52) * 2 ^ (Nat.log2 m - 52) ≤ m := Nat.div_mul_le_self _ _
    dsimp only
    split_ifs
    · omega
    · rw [add_mul, one_mul]
      omega

/-- An integer that fits in sixty-four bits is not near infinity. -/
theorem nearest_isSome {i : ℤ} (h : i.natAbs ≤ 2 ^ 64) : (nearest i).isSome := by
  have hround := roundMagnitude_le i.natAbs
  have hlarge : 2 * 2 ^ 64 < 2 ^ 1024 := by decide +kernel
  unfold nearest
  rw [if_pos (by omega)]
  rfl

example : nearest 9007199254740993 = some 9007199254740992 := by decide +kernel

end IntegralDouble
