import Mathlib

/-! Machine integers in two's complement: operators that wrap around and operations that fail
instead. -/

/-- A number of the given width in two's complement holds `x`. -/
def Fits (bits : ℕ) (x : ℤ) : Prop := -2 ^ bits ≤ 2 * x ∧ 2 * x < 2 ^ bits

instance (bits : ℕ) (x : ℤ) : Decidable (Fits bits x) := inferInstanceAs (Decidable (_ ∧ _))

@[ext] structure Signed (bits : ℕ) where
  val : ℤ
  fits : Fits bits val
deriving DecidableEq

namespace Signed

variable {bits : ℕ}

section Wrapping

theorem fits_bmod (x : ℤ) : Fits bits (x.bmod (2 ^ bits)) := by
  have hpos : 0 < 2 ^ bits := Nat.two_pow_pos bits
  have hlower := Int.le_bmod (x := x) hpos
  have hupper := Int.bmod_lt (x := x) hpos
  have hcast : ((2 ^ bits : ℕ) : ℤ) = 2 ^ bits := by push_cast; rfl
  rw [hcast] at hlower hupper
  unfold Fits
  omega

/-- The number that agrees with `x` in its last bits. -/
def wrap (bits : ℕ) (x : ℤ) : Signed bits := ⟨x.bmod (2 ^ bits), fits_bmod x⟩

theorem val_wrap {x : ℤ} (h : Fits bits x) : (wrap bits x).val = x := by
  apply Int.bmod_eq_of_le_mul_two
  · push_cast
    linarith [h.1]
  · push_cast
    linarith [h.2]

instance (n : ℕ) : OfNat (Signed bits) n := ⟨wrap bits n⟩

instance : Add (Signed bits) := ⟨fun a b => wrap bits (a.val + b.val)⟩

instance : Sub (Signed bits) := ⟨fun a b => wrap bits (a.val - b.val)⟩

instance : Mul (Signed bits) := ⟨fun a b => wrap bits (a.val * b.val)⟩

/-- Division rounds towards zero. -/
instance : Div (Signed bits) := ⟨fun a b => wrap bits (a.val.tdiv b.val)⟩

instance : Mod (Signed bits) := ⟨fun a b => wrap bits (a.val.tmod b.val)⟩

/-- The same number, or its last bits, at another width. -/
def cast (width : ℕ) (a : Signed bits) : Signed width := wrap width a.val

def sum (l : List (Signed bits)) : Signed bits := l.foldl (· + ·) 0

/-- The bits, read as a natural number. -/
def toNat (a : Signed bits) : ℕ := (a.val % 2 ^ bits).toNat

/-- Division that leaves a remainder of at least 0, and that remainder. -/
def divEuclid (a b : Signed bits) : Signed bits := wrap bits (a.val / b.val)

def remEuclid (a b : Signed bits) : Signed bits := wrap bits (a.val % b.val)

theorem wrap_val (a : Signed bits) : wrap bits a.val = a := Signed.ext (val_wrap a.fits)

/-- Two numbers agree in their last bits if they are full turns apart. -/
theorem wrap_eq_wrap_iff {x y : ℤ} : wrap bits x = wrap bits y ↔ ∃ k : ℤ, x = y + k * 2 ^ bits := by
  have hcast : ((2 ^ bits : ℕ) : ℤ) = 2 ^ bits := by push_cast; rfl
  constructor
  · intro h
    have hmod : x.bmod (2 ^ bits) % (2 ^ bits : ℕ) = y.bmod (2 ^ bits) % (2 ^ bits : ℕ) :=
      congrArg (fun a : Signed bits => a.val % (2 ^ bits : ℕ)) h
    rw [Int.bmod_emod, Int.bmod_emod, hcast] at hmod
    have hx := Int.emod_add_mul_ediv x (2 ^ bits)
    have hy := Int.emod_add_mul_ediv y (2 ^ bits)
    exact ⟨x / 2 ^ bits - y / 2 ^ bits, by linarith⟩
  · rintro ⟨k, rfl⟩
    refine Signed.ext ?_
    show (y + k * 2 ^ bits).bmod (2 ^ bits) = y.bmod (2 ^ bits)
    rw [← hcast, mul_comm]
    exact Int.add_mul_bmod_self_left y (2 ^ bits) k

/-- A sum that wraps around at every step agrees with the sum of the numbers. -/
theorem foldl_add_eq_wrap (l : List (Signed bits)) (a : Signed bits) :
    l.foldl (· + ·) a = wrap bits (a.val + (l.map val).sum) := by
  induction l generalizing a with
  | nil =>
    rw [List.foldl_nil, List.map_nil, List.sum_nil, add_zero, wrap_val]
  | cons b l ih =>
    rw [List.foldl_cons, ih, List.map_cons, List.sum_cons, ← add_assoc]
    exact Signed.ext Int.bmod_add_bmod

theorem sum_eq_wrap (l : List (Signed bits)) : sum l = wrap bits (l.map val).sum := by
  have hzero : (0 : Signed bits).val = 0 := Int.zero_bmod
  rw [sum, foldl_add_eq_wrap, hzero, zero_add]

/-- A wider number is the same number. -/
theorem val_cast {width : ℕ} (h : bits ≤ width) (a : Signed bits) : (a.cast width).val = a.val := by
  apply val_wrap
  have hpow : (2 : ℤ) ^ bits ≤ 2 ^ width := pow_le_pow_right₀ (by norm_num) h
  have hfits := a.fits
  unfold Fits at hfits ⊢
  omega

theorem val_add {a b : Signed bits} (h : Fits bits (a.val + b.val)) :
    (a + b).val = a.val + b.val :=
  val_wrap h

theorem val_sub {a b : Signed bits} (h : Fits bits (a.val - b.val)) :
    (a - b).val = a.val - b.val :=
  val_wrap h

/-- A difference below the range comes out positive. -/
theorem val_sub_of_low {a b : Signed bits} (h : 2 * (a.val - b.val) < -2 ^ bits) :
    0 < (a - b).val := by
  have ha := a.fits.1
  have hb := b.fits.2
  have hsame : (a - b).val = (wrap bits (a.val - b.val + 2 ^ bits)).val := by
    have := Int.add_bmod_right (a.val - b.val) (2 ^ bits)
    push_cast at this
    exact this.symm
  rw [hsame, val_wrap]
  · omega
  · unfold Fits
    omega

/-- A difference above the range comes out negative. -/
theorem val_sub_of_high {a b : Signed bits} (h : 2 ^ bits ≤ 2 * (a.val - b.val)) :
    (a - b).val < 0 := by
  have ha := a.fits.2
  have hb := b.fits.1
  have hsame : (a - b).val = (wrap bits (a.val - b.val - 2 ^ bits)).val := by
    have := Int.sub_bmod_right (a.val - b.val) (2 ^ bits)
    push_cast at this
    exact this.symm
  rw [hsame, val_wrap]
  · omega
  · unfold Fits
    omega

theorem fits_of_le {x : ℤ} {a : Signed bits} (hx : 0 ≤ x) (h : x ≤ a.val) : Fits bits x := by
  have hpos : (0 : ℤ) < 2 ^ bits := by positivity
  have := a.fits.2
  unfold Fits
  omega

theorem val_mul {a b : Signed bits} (h : Fits bits (a.val * b.val)) : (a * b).val = a.val * b.val :=
  val_wrap h

theorem val_div {a b : Signed bits} (ha : 0 ≤ a.val) (hb : 0 < b.val) :
    (a / b).val = a.val / b.val := by
  have hnonneg := Int.ediv_nonneg ha hb.le
  have hle := Int.ediv_le_self b.val ha
  rw [← Int.tdiv_eq_ediv_of_nonneg ha] at hnonneg hle ⊢
  exact val_wrap (fits_of_le hnonneg hle)

theorem val_mod {a b : Signed bits} (ha : 0 ≤ a.val) (hb : 0 < b.val) :
    (a % b).val = a.val % b.val := by
  have hnonneg := Int.emod_nonneg a.val hb.ne'
  have hsplit := Int.emod_add_mul_ediv a.val b.val
  have hle : a.val % b.val ≤ a.val := by
    linarith [mul_nonneg hb.le (Int.ediv_nonneg ha hb.le)]
  rw [← Int.tmod_eq_emod_of_nonneg ha] at hnonneg hle ⊢
  exact val_wrap (fits_of_le hnonneg hle)

theorem val_divEuclid {a b : Signed bits} (hb : 0 < b.val) :
    (a.divEuclid b).val = a.val / b.val := by
  apply val_wrap
  have hlower := a.fits.1
  have hupper := a.fits.2
  rcases le_total 0 a.val with ha | ha
  · exact fits_of_le (Int.ediv_nonneg ha hb.le) (Int.ediv_le_self b.val ha)
  · have hnonpos : a.val / b.val ≤ 0 := by
      have := Int.ediv_mul_le a.val hb.ne'
      nlinarith
    have hge : a.val ≤ a.val / b.val := (Int.le_ediv_iff_mul_le hb).2 (by nlinarith)
    have hpos : (0 : ℤ) < 2 ^ bits := by positivity
    unfold Fits
    omega

theorem val_remEuclid {a b : Signed bits} (hb : 0 < b.val) :
    (a.remEuclid b).val = a.val % b.val :=
  val_wrap (fits_of_le (Int.emod_nonneg a.val hb.ne') (Int.emod_lt_of_pos a.val hb).le)

end Wrapping

section Checked

/-- The number `x`, if it has the width. -/
def checked (bits : ℕ) (x : ℤ) : Option (Signed bits) :=
  if h : Fits bits x then some ⟨x, h⟩ else none

def checkedAdd (a b : Signed bits) : Option (Signed bits) := checked bits (a.val + b.val)

def checkedSub (a b : Signed bits) : Option (Signed bits) := checked bits (a.val - b.val)

def checkedMul (a b : Signed bits) : Option (Signed bits) := checked bits (a.val * b.val)

theorem checked_eq_some {x : ℤ} {a : Signed bits} : checked bits x = some a ↔ a.val = x := by
  unfold checked
  split_ifs with h
  · rw [Option.some.injEq, Signed.ext_iff, eq_comm]
  · exact ⟨fun hnone => by simp at hnone, fun hval => absurd (hval ▸ a.fits) h⟩

theorem checkedAdd_eq_some {a b c : Signed bits} :
    checkedAdd a b = some c ↔ c.val = a.val + b.val :=
  checked_eq_some

theorem checkedSub_eq_some {a b c : Signed bits} :
    checkedSub a b = some c ↔ c.val = a.val - b.val :=
  checked_eq_some

theorem checkedMul_eq_some {a b c : Signed bits} :
    checkedMul a b = some c ↔ c.val = a.val * b.val :=
  checked_eq_some

end Checked

section Order

instance : LE (Signed bits) := ⟨fun a b => a.val ≤ b.val⟩

instance : LT (Signed bits) := ⟨fun a b => a.val < b.val⟩

instance (a b : Signed bits) : Decidable (a ≤ b) := inferInstanceAs (Decidable (a.val ≤ b.val))

instance (a b : Signed bits) : Decidable (a < b) := inferInstanceAs (Decidable (a.val < b.val))

instance : Min (Signed bits) := minOfLe

instance : Max (Signed bits) := maxOfLe

theorem val_min (a b : Signed bits) : (min a b).val = min a.val b.val := by
  show (if a ≤ b then a else b).val = if a.val ≤ b.val then a.val else b.val
  exact apply_ite val _ _ _

theorem val_max (a b : Signed bits) : (max a b).val = max a.val b.val := by
  show (if a ≤ b then b else a).val = if a.val ≤ b.val then b.val else a.val
  exact apply_ite val _ _ _

theorem not_le {a b : Signed bits} : ¬ a ≤ b ↔ b < a := Int.not_le

end Order

end Signed
