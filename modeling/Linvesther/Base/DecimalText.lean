import Mathlib

/-! Decimal numerals as texts: a sign, digits, and perhaps a point and more digits. -/

namespace DecimalText

section Numeral

def Digits (l : List Char) : Prop := ∀ c ∈ l, c.isDigit = true

theorem digits_append {l l' : List Char} : Digits (l ++ l') ↔ Digits l ∧ Digits l' := List.forall_mem_append

theorem digits_replicate (n : ℕ) : Digits (List.replicate n '0') := by
  intro c hc
  rw [List.eq_of_mem_replicate hc]
  rfl

theorem digits_toDigits (n : ℕ) : Digits (Nat.toDigits 10 n) := fun _ hc =>
  Nat.isDigit_of_mem_toDigits (by decide) (by decide) hc

theorem takeWhile_digits {l : List Char} (rest : List Char) (hl : Digits l) (hrest : ∀ c ∈ rest.head?, c.isDigit = false) :
    (l ++ rest).takeWhile Char.isDigit = l ∧ (l ++ rest).dropWhile Char.isDigit = rest := by
  rw [List.takeWhile_append_of_pos hl, List.dropWhile_append_of_pos hl]
  cases rest with
  | nil => exact ⟨List.append_nil _, rfl⟩
  | cons c rest =>
    have hc : c.isDigit = false := hrest c rfl
    rw [List.takeWhile_cons, List.dropWhile_cons, hc]
    exact ⟨List.append_nil _, rfl⟩

/-- The parts of a numeral. One without a fraction has no point. -/
structure Numeral where
  negative : Bool
  whole : List Char
  fraction : List Char
  whole_ne : whole ≠ []
  whole_digits : Digits whole
  fraction_digits : Digits fraction
deriving DecidableEq

def Numeral.unsigned (m : Numeral) : List Char := m.whole ++ if m.fraction = [] then [] else '.' :: m.fraction

def Numeral.text (m : Numeral) : List Char := if m.negative then '-' :: m.unsigned else m.unsigned

/-- All digits as one integer, with the sign. -/
def Numeral.units (m : Numeral) : ℤ :=
  (if m.negative then -1 else 1) * (Nat.ofDigitChars 10 (m.whole ++ m.fraction) 0 : ℕ)

def Numeral.value (m : Numeral) : ℚ := m.units / 10 ^ m.fraction.length

theorem Numeral.mem_text {m : Numeral} {c : Char} (h : c ∈ m.text) : c = '-' ∨ c = '.' ∨ c.isDigit = true := by
  unfold text unsigned at h
  have hwhole := m.whole_digits c
  have hfraction := m.fraction_digits c
  split_ifs at h <;> simp only [List.mem_cons, List.mem_append, List.not_mem_nil] at h <;> tauto

def readUnsigned (negative : Bool) (text : List Char) : Option Numeral :=
  if hwhole : text.takeWhile Char.isDigit ≠ [] then
    match text.dropWhile Char.isDigit with
    | [] => some ⟨negative, text.takeWhile Char.isDigit, [], hwhole, fun _ => List.mem_takeWhile_imp, by simp [Digits]⟩
    | c :: fraction =>
      if hfraction : c = '.' ∧ fraction ≠ [] ∧ ∀ d ∈ fraction, d.isDigit = true then
        some ⟨negative, text.takeWhile Char.isDigit, fraction, hwhole, fun _ => List.mem_takeWhile_imp, hfraction.2.2⟩
      else none
  else none

/-- The pattern `^(-?)(\d+)(?:\.(\d+))?$`. -/
def read : List Char → Option Numeral
  | [] => none
  | c :: rest => if c = '-' then readUnsigned true rest else readUnsigned false (c :: rest)

theorem readUnsigned_sound {negative : Bool} {text : List Char} {m : Numeral}
    (h : readUnsigned negative text = some m) : m.negative = negative ∧ m.unsigned = text := by
  unfold readUnsigned at h
  have hsplit := List.takeWhile_append_dropWhile (p := Char.isDigit) (l := text)
  split_ifs at h with hwhole
  split at h
  · rename_i hrest
    obtain rfl := Option.some.inj h
    rw [hrest] at hsplit
    exact ⟨rfl, hsplit⟩
  · rename_i c fraction hrest
    split_ifs at h with hfraction
    obtain rfl := Option.some.inj h
    rw [hrest, hfraction.1] at hsplit
    refine ⟨rfl, ?_⟩
    unfold Numeral.unsigned
    rw [if_neg hfraction.2.1, hsplit]

theorem readUnsigned_unsigned (m : Numeral) : readUnsigned m.negative m.unsigned = some m := by
  obtain ⟨negative, whole, fraction, hne, hwhole, hfraction⟩ := m
  unfold readUnsigned Numeral.unsigned
  dsimp only
  by_cases hnil : fraction = []
  · subst hnil
    obtain ⟨htake, hdrop⟩ := takeWhile_digits [] hwhole (by simp)
    rw [if_pos rfl]
    simp only [htake, hdrop, hne, ne_eq, not_false_eq_true, dite_true]
  · obtain ⟨htake, hdrop⟩ := takeWhile_digits ('.' :: fraction) hwhole (by simp)
    rw [if_neg hnil]
    simp only [htake, hdrop, hne, ne_eq, not_false_eq_true, dite_true]
    exact dif_pos ⟨trivial, hnil, hfraction⟩

/-- What is read is what has that text. -/
theorem read_eq_some_iff {text : List Char} {m : Numeral} : read text = some m ↔ m.text = text := by
  constructor
  · intro h
    unfold Numeral.text
    match text with
    | [] => cases h
    | c :: rest =>
      rw [read] at h
      split_ifs at h with hminus
      · obtain ⟨hnegative, hunsigned⟩ := readUnsigned_sound h
        rw [if_pos hnegative, hunsigned, hminus]
      · obtain ⟨hnegative, hunsigned⟩ := readUnsigned_sound h
        rw [hnegative, hunsigned]
        rfl
  · rintro rfl
    have hread := readUnsigned_unsigned m
    unfold Numeral.text
    by_cases hnegative : m.negative = true
    · rw [if_pos hnegative, read, if_pos rfl, ← hnegative, hread]
    · rw [if_neg hnegative]
      obtain ⟨c, rest, hcons⟩ := List.exists_cons_of_ne_nil m.whole_ne
      have hdigit := m.whole_digits c (hcons ▸ List.mem_cons_self)
      have hunsigned : m.unsigned = c :: (rest ++ if m.fraction = [] then [] else '.' :: m.fraction) := by
        unfold Numeral.unsigned
        rw [hcons, List.cons_append]
      have hminus : c ≠ '-' := by
        rintro rfl
        cases hdigit
      rw [Bool.not_eq_true] at hnegative
      rw [hunsigned, read, if_neg hminus, ← hunsigned, ← hnegative, hread]

theorem read_text (m : Numeral) : read m.text = some m := read_eq_some_iff.2 rfl

theorem text_ne_nil (m : Numeral) : m.text ≠ [] := by
  intro hnil
  have hread := read_text m
  rw [hnil] at hread
  cases hread

theorem text_injective : Function.Injective Numeral.text := by
  intro m n h
  have hread := read_text m
  rw [h, read_text n] at hread
  exact (Option.some.inj hread).symm

/-- What a text denotes. -/
def value (text : List Char) : Option ℚ := (read text).map Numeral.value

theorem value_text (m : Numeral) : value m.text = some m.value := by
  unfold value
  rw [read_text]
  rfl

end Numeral

section Writing

variable {digits : List Char} {scale : ℕ}

def padStart (length : ℕ) (digits : List Char) : List Char := List.replicate (length - digits.length) '0' ++ digits

def padEnd (length : ℕ) (digits : List Char) : List Char := digits ++ List.replicate (length - digits.length) '0'

/-- A point before the last digits, as many as the scale says. -/
def point (scale : ℕ) (digits : List Char) : List Char :=
  if scale = 0 then digits else digits.take (digits.length - scale) ++ '.' :: digits.drop (digits.length - scale)

theorem digits_padStart (length : ℕ) (h : Digits digits) : Digits (padStart length digits) :=
  digits_append.2 ⟨digits_replicate _, h⟩

theorem length_padStart (length : ℕ) (digits : List Char) : length ≤ (padStart length digits).length := by
  unfold padStart
  rw [List.length_append, List.length_replicate]
  omega

@[simp]
theorem ofDigitChars_padStart (length : ℕ) (digits : List Char) :
    Nat.ofDigitChars 10 (padStart length digits) 0 = Nat.ofDigitChars 10 digits 0 := by
  unfold padStart
  rw [Nat.ofDigitChars_append, Nat.ofDigitChars_replicate_zero, Nat.mul_zero]

/-- A numeral's digits with zeros behind them are its value in units of a finer scale. -/
theorem units_padEnd (m : Numeral) (h : m.fraction.length ≤ scale) :
    ((if m.negative then -1 else 1) * (Nat.ofDigitChars 10 (m.whole ++ padEnd scale m.fraction) 0 : ℕ) : ℤ) / (10 ^ scale : ℚ) =
      m.value := by
  have hsplit : (10 : ℚ) ^ scale = 10 ^ (scale - m.fraction.length) * 10 ^ m.fraction.length := by
    rw [← pow_add, Nat.sub_add_cancel h]
  unfold padEnd Numeral.value Numeral.units
  rw [← List.append_assoc, Nat.ofDigitChars_append, Nat.ofDigitChars_replicate_zero, hsplit]
  push_cast
  rw [mul_left_comm, mul_div_mul_left _ _ (by positivity)]

/-- Digits with a point before the last of them, as a numeral. -/
def pointed (negative : Bool) (scale : ℕ) (digits : List Char) (h : Digits digits) (hscale : scale < digits.length) :
    Numeral where
  negative := negative
  whole := digits.take (digits.length - scale)
  fraction := digits.drop (digits.length - scale)
  whole_ne := by
    intro hnil
    have hlength := congrArg List.length hnil
    rw [List.length_take, List.length_nil] at hlength
    omega
  whole_digits c hc := h c (List.mem_of_mem_take hc)
  fraction_digits c hc := h c (List.mem_of_mem_drop hc)

variable (negative : Bool) (h : Digits digits) (hscale : scale < digits.length)

theorem unsigned_pointed : (pointed negative scale digits h hscale).unsigned = point scale digits := by
  unfold Numeral.unsigned pointed point
  dsimp only
  by_cases hzero : scale = 0
  · subst hzero
    simp
  · have hne : digits.drop (digits.length - scale) ≠ [] := by
      intro hnil
      have hlength := congrArg List.length hnil
      rw [List.length_drop, List.length_nil] at hlength
      omega
    rw [if_neg hne, if_neg hzero]

theorem length_fraction_pointed : (pointed negative scale digits h hscale).fraction.length = scale := by
  unfold pointed
  dsimp only
  rw [List.length_drop]
  omega

theorem units_pointed : (pointed negative scale digits h hscale).units =
    (if negative then -1 else 1) * (Nat.ofDigitChars 10 digits 0 : ℕ) := by
  unfold Numeral.units pointed
  dsimp only
  rw [List.take_append_drop]

theorem value_pointed : (pointed negative scale digits h hscale).value =
    ((if negative then -1 else 1) * (Nat.ofDigitChars 10 digits 0 : ℕ) : ℤ) / 10 ^ scale := by
  unfold Numeral.value
  rw [units_pointed, length_fraction_pointed]

end Writing

section Scaled

/-- A natural number of units of a scale, as a numeral. -/
def scaled (negative : Bool) (scale n : ℕ) : Numeral :=
  pointed negative scale (padStart (scale + 1) (Nat.toDigits 10 n)) (digits_padStart _ (digits_toDigits n))
    (length_padStart _ _)

variable (negative : Bool) (scale n : ℕ)

theorem unsigned_scaled : (scaled negative scale n).unsigned = point scale (padStart (scale + 1) (Nat.toDigits 10 n)) :=
  unsigned_pointed negative _ _

theorem units_scaled : (scaled negative scale n).units = (if negative then -1 else 1) * (n : ℤ) := by
  unfold scaled
  rw [units_pointed, ofDigitChars_padStart, Nat.ofDigitChars_ten_toDigits]

theorem length_fraction_scaled : (scaled negative scale n).fraction.length = scale := length_fraction_pointed negative _ _

theorem value_scaled : (scaled negative scale n).value = ((if negative then -1 else 1) * (n : ℤ) : ℤ) / 10 ^ scale := by
  unfold Numeral.value
  rw [units_scaled, length_fraction_scaled]

end Scaled

end DecimalText
