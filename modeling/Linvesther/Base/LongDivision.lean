import Mathlib

/-! Division of a number by a small one, in place over its digits, and the digits in another base that repeated division
gives. The first digit is the largest. -/

namespace LongDivision

section Divide

variable {b k : ℕ}

/-- One pass: the digits of the quotient, and the remainder. -/
def divide (b k : ℕ) : List ℕ → ℕ → List ℕ × ℕ
  | [], remainder => ([], remainder)
  | digit :: rest, remainder =>
    let value := remainder * b + digit
    let (quotient, last) := divide b k rest (value % k)
    (value / k :: quotient, last)

def value (b : ℕ) (digits : List ℕ) : ℕ := Nat.ofDigits b digits.reverse

theorem value_cons (b digit : ℕ) (rest : List ℕ) : value b (digit :: rest) = b ^ rest.length * digit + value b rest := by
  unfold value
  rw [List.reverse_cons, Nat.ofDigits_append, List.length_reverse, Nat.ofDigits_singleton, Nat.add_comm]

theorem length_divide (digits : List ℕ) (remainder : ℕ) :
    (divide b k digits remainder).1.length = digits.length := by
  induction digits generalizing remainder with
  | nil => rfl
  | cons digit rest ih => rw [divide, List.length_cons, List.length_cons, ih]

theorem remainder_lt (hk : 0 < k) (digits : List ℕ) {remainder : ℕ} (h : remainder < k) :
    (divide b k digits remainder).2 < k := by
  induction digits generalizing remainder with
  | nil => exact h
  | cons digit rest ih => exact ih (Nat.mod_lt _ hk)

theorem divide_equation (b k : ℕ) (digits : List ℕ) (remainder : ℕ) :
    b ^ digits.length * remainder + value b digits =
      k * value b (divide b k digits remainder).1 + (divide b k digits remainder).2 := by
  induction digits generalizing remainder with
  | nil => simp [divide, value]
  | cons digit rest ih =>
    have hdivision := Nat.div_add_mod (remainder * b + digit) k
    rw [divide, value_cons, value_cons, length_divide, List.length_cons]
    calc b ^ (rest.length + 1) * remainder + (b ^ rest.length * digit + value b rest)
        = b ^ rest.length * (remainder * b + digit) + value b rest := by ring
      _ = b ^ rest.length * (k * ((remainder * b + digit) / k)) +
          (b ^ rest.length * ((remainder * b + digit) % k) + value b rest) := by
        conv_lhs => rw [← hdivision]
        ring
      _ = _ := by
        rw [ih]
        ring

/-- A pass that starts with no remainder divides. -/
theorem divide_eq (hk : 0 < k) (digits : List ℕ) :
    value b (divide b k digits 0).1 = value b digits / k ∧ (divide b k digits 0).2 = value b digits % k := by
  have hequation := divide_equation b k digits 0
  have hlt := remainder_lt (b := b) hk digits hk
  rw [Nat.mul_zero, Nat.zero_add] at hequation
  rw [hequation]
  constructor
  · rw [Nat.mul_add_div hk, Nat.div_eq_of_lt hlt, Nat.add_zero]
  · rw [Nat.mul_add_mod, Nat.mod_eq_of_lt hlt]

/-- The digits stay below their base, so that no value in a pass is `b * k` or more. -/
theorem quotient_lt (hk : 0 < k) {digits : List ℕ} (hdigits : ∀ d ∈ digits, d < b) {remainder : ℕ} (h : remainder < k) :
    ∀ d ∈ (divide b k digits remainder).1, d < b := by
  induction digits generalizing remainder with
  | nil => exact fun d hd => absurd hd List.not_mem_nil
  | cons digit rest ih =>
    obtain ⟨hdigit, hrest⟩ := List.forall_mem_cons.1 hdigits
    rw [divide]
    refine List.forall_mem_cons.2 ⟨?_, ih hrest (Nat.mod_lt _ hk)⟩
    rw [Nat.div_lt_iff_lt_mul hk]
    calc remainder * b + digit < remainder * b + b := Nat.add_lt_add_left hdigit _
      _ = (remainder + 1) * b := by ring
      _ ≤ k * b := Nat.mul_le_mul_right b h
      _ = b * k := Nat.mul_comm k b

theorem value_pos_iff (hb : 0 < b) (digits : List ℕ) : 0 < value b digits ↔ ∃ d ∈ digits, d ≠ 0 := by
  induction digits with
  | nil => simp [value]
  | cons digit rest ih =>
    rw [value_cons, Nat.add_pos_iff_pos_or_pos, ih, List.exists_mem_cons_iff]
    have hpow : 0 < b ^ rest.length := Nat.pow_pos hb
    exact or_congr_left ⟨fun h => (Nat.pos_of_mul_pos_left h).ne', fun h => Nat.mul_pos hpow (Nat.pos_of_ne_zero h)⟩

/-- Each pass over digits that are not all zero makes the number smaller. -/
theorem value_divide_lt (hk : 1 < k) (hb : 0 < b) {digits : List ℕ} (h : ∃ d ∈ digits, d ≠ 0) :
    value b (divide b k digits 0).1 < value b digits := by
  rw [(divide_eq (b := b) (by omega) digits).1]
  exact Nat.div_lt_self ((value_pos_iff hb digits).2 h) hk

end Divide

end LongDivision
