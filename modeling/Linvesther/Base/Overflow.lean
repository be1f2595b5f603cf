import Linvesther.Base.Signed

/-! Arithmetic that overflows: in one build an operation panics, in another it wraps around. -/

/-- What an operation does when its result leaves the type. -/
inductive Overflow
  | panics
  | wraps
deriving DecidableEq

/-- How a call is left; a loop that goes on is `running`. -/
inductive Outcome (α : Type)
  | running
  | panicked
  | returned (a : α)
deriving DecidableEq

namespace Overflow

variable {bits : ℕ} {overflow : Overflow} {x : ℤ}

/-- What the operation gives whose exact result is `x`; `none` is a panic. -/
def result (bits : ℕ) (overflow : Overflow) (x : ℤ) : Option (Signed bits) :=
  if overflow = .panics ∧ ¬ Fits bits x then none else some (Signed.wrap bits x)

/-- If overflow panics, `x` is not too large. -/
def Bears (bits : ℕ) (overflow : Overflow) (x : ℤ) : Prop := overflow = .panics → Fits bits x

/-- The number that `x` is taken for. -/
def reading (bits : ℕ) (x : ℤ) : ℤ := (Signed.wrap bits x).val

theorem reading_of_fits (h : Fits bits x) : reading bits x = x := Signed.val_wrap h

theorem reading_eq_self_iff : reading bits x = x ↔ Fits bits x := by
  constructor
  · intro h
    rw [← h]
    exact (Signed.wrap bits x).fits
  · exact reading_of_fits

theorem bears_of_wraps (bits : ℕ) (x : ℤ) : Bears bits .wraps x := fun h => absurd h (by decide)

theorem result_of_bears (h : Bears bits overflow x) : result bits overflow x = some (Signed.wrap bits x) := by
  unfold result
  rw [if_neg]
  rintro ⟨hpanics, hfits⟩
  exact hfits (h hpanics)

theorem result_of_not_bears (h : ¬ Bears bits overflow x) : result bits overflow x = none := by
  unfold Bears at h
  push Not at h
  unfold result
  rw [if_pos h]

theorem bears_iff_isSome : Bears bits overflow x ↔ (result bits overflow x).isSome := by
  constructor
  · intro h
    rw [result_of_bears h]
    rfl
  · intro h
    by_contra hnot
    rw [result_of_not_bears hnot] at h
    cases h

/-- Where `x` was added up without a panic, adding to what it is taken for is adding to `x`. -/
theorem result_add (h : Bears bits overflow x) (y : ℤ) :
    result bits overflow (reading bits x + y) = result bits overflow (x + y) := by
  cases overflow with
  | panics => rw [reading_of_fits (h rfl)]
  | wraps =>
    have hsame : Signed.wrap bits (reading bits x + y) = Signed.wrap bits (x + y) :=
      Signed.ext Int.bmod_add_bmod
    unfold result
    rw [hsame]
    simp

/-- What the operation gives whose exact result is the natural number `n`, in an unsigned type. -/
def unsigned (bits : ℕ) (overflow : Overflow) (n : ℕ) : Option ℕ :=
  if n < 2 ^ bits then some n
  else match overflow with
    | .panics => none
    | .wraps => some (n % 2 ^ bits)

end Overflow
