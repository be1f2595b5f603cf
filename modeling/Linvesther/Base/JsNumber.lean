import Linvesther.Base.DecimalText

/-! Numbers and texts of JavaScript: what `trim` removes, what `Number` reads and what `toFixed` writes. Numbers are exact
here; what is too large for a double is no finite number. -/

namespace JsNumber

open DecimalText

section Read

/-- White space and line ends. -/
def isSpace (c : Char) : Bool :=
  c.toNat ∈ [0x9, 0xA, 0xB, 0xC, 0xD, 0x20, 0xA0, 0x1680, 0x2028, 0x2029, 0x202F, 0x205F, 0x3000, 0xFEFF] ||
    (0x2000 ≤ c.toNat && c.toNat ≤ 0x200A)

def trim (text : List Char) : List Char := (text.dropWhile isSpace).rdropWhile isSpace

def digitOf (c : Char) : Option ℕ :=
  if c.isDigit then some (c.toNat - 48)
  else if 'a' ≤ c ∧ c ≤ 'f' then some (c.toNat - 87)
  else if 'A' ≤ c ∧ c ≤ 'F' then some (c.toNat - 55)
  else none

def radixOf : Char → Option ℕ
  | 'x' | 'X' => some 16
  | 'o' | 'O' => some 8
  | 'b' | 'B' => some 2
  | _ => none

def inRadix (radix : ℕ) (digits : List Char) : Option ℚ :=
  if digits = [] then none
  else (digits.foldlM (fun n c => ((digitOf c).filter fun d => d < radix).map fun d => radix * n + d) 0).map Nat.cast

/-- A sign, which may be missing, and what is behind it. -/
def signed : List Char → ℤ × List Char
  | '-' :: rest => (-1, rest)
  | '+' :: rest => (1, rest)
  | text => (1, text)

def exponent : List Char → Option ℤ
  | [] => some 0
  | c :: rest =>
    let (sign, digits) := signed rest
    if (c = 'e' ∨ c = 'E') ∧ digits ≠ [] ∧ digits.all Char.isDigit then some (sign * (Nat.ofDigitChars 10 digits 0 : ℕ))
    else none

/-- The digits behind a point, and the rest. -/
def fractionOf : List Char → List Char × List Char
  | '.' :: rest => (rest.takeWhile Char.isDigit, rest.dropWhile Char.isDigit)
  | text => ([], text)

def decimalLiteral (text : List Char) : Option ℚ :=
  let (sign, body) := signed text
  let whole := body.takeWhile Char.isDigit
  let (fraction, rest) := fractionOf (body.dropWhile Char.isDigit)
  if whole = [] ∧ fraction = [] then none
  else (exponent rest).map fun e =>
    sign * (Nat.ofDigitChars 10 (whole ++ fraction) 0 : ℕ) / 10 ^ fraction.length * 10 ^ e

def literal : List Char → Option ℚ
  | [] => some 0
  | '0' :: c :: digits =>
    match radixOf c with
    | some radix => inRadix radix digits
    | none => decimalLiteral ('0' :: c :: digits)
  | text => decimalLiteral text

/-- From here on a number is rounded to infinity. -/
def limit : ℚ := 2 ^ 1024 - 2 ^ 970

/-- `Number`, where it is a finite number. -/
def number (text : String) : Option ℚ := (literal (trim text.toList)).filter fun x => |x| < limit

end Read

section Write

/-- `toFixed` of a number below `1e21`: of two nearest texts that with the larger digits. -/
def toFixed (fractionDigits : ℕ) (x : ℚ) : String :=
  String.ofList (scaled (decide (x < 0)) fractionDigits ⌊|x| * 10 ^ fractionDigits + 1 / 2⌋.toNat).text

end Write

section RoundTrip

variable {m : Numeral}

theorem isSpace_of_isDigit {c : Char} (h : c.isDigit = true) : isSpace c = false := by
  have hrange : 48 ≤ c.toNat ∧ c.toNat ≤ 57 := by
    simpa [Char.isDigit, UInt32.le_iff_toNat_le] using h
  have hchars : ∀ n < 58, 48 ≤ n → isSpace (Char.ofNat n) = false := by decide
  have hc := hchars c.toNat (by omega) hrange.1
  rwa [Char.ofNat_toNat] at hc

theorem isSpace_of_mem_text {c : Char} (hc : c ∈ m.text) : isSpace c = false := by
  rcases Numeral.mem_text hc with rfl | rfl | hdigit
  · decide
  · decide
  · exact isSpace_of_isDigit hdigit

theorem trim_text (m : Numeral) : trim m.text = m.text := by
  unfold trim
  have hdrop : m.text.dropWhile isSpace = m.text := by
    rw [List.dropWhile_eq_self_iff]
    intro hpos hspace
    rw [isSpace_of_mem_text (List.getElem_mem hpos)] at hspace
    cases hspace
  rw [hdrop, List.rdropWhile_eq_self_iff]
  intro hne hspace
  rw [isSpace_of_mem_text (List.getLast_mem hne)] at hspace
  cases hspace

theorem signed_unsigned (m : Numeral) : signed m.unsigned = (1, m.unsigned) := by
  obtain ⟨c, rest, hcons⟩ := List.exists_cons_of_ne_nil m.whole_ne
  have hdigit := m.whole_digits c (hcons ▸ List.mem_cons_self)
  unfold Numeral.unsigned
  rw [hcons, List.cons_append]
  unfold signed
  split
  · rename_i heq
    rw [(List.cons.inj heq).1] at hdigit
    cases hdigit
  · rename_i heq
    rw [(List.cons.inj heq).1] at hdigit
    cases hdigit
  · rfl

theorem signed_text (m : Numeral) : signed m.text = (if m.negative then -1 else 1, m.unsigned) := by
  unfold Numeral.text
  split_ifs
  · rfl
  · exact signed_unsigned m

theorem parts_unsigned (m : Numeral) :
    m.unsigned.takeWhile Char.isDigit = m.whole ∧
      fractionOf (m.unsigned.dropWhile Char.isDigit) = (m.fraction, []) := by
  unfold Numeral.unsigned
  by_cases hnil : m.fraction = []
  · obtain ⟨htake, hdrop⟩ := takeWhile_digits [] m.whole_digits (by simp)
    rw [if_pos hnil, htake, hdrop, hnil]
    exact ⟨rfl, rfl⟩
  · obtain ⟨htake, hdrop⟩ := takeWhile_digits ('.' :: m.fraction) m.whole_digits (by simp)
    obtain ⟨hfraction, hrest⟩ := takeWhile_digits [] m.fraction_digits (by simp)
    rw [List.append_nil] at hfraction hrest
    rw [if_neg hnil, htake, hdrop]
    exact ⟨rfl, Prod.ext hfraction hrest⟩

theorem decimalLiteral_text (m : Numeral) : decimalLiteral m.text = some m.value := by
  obtain ⟨hwhole, hrest⟩ := parts_unsigned m
  unfold decimalLiteral
  rw [signed_text]
  dsimp only
  rw [hwhole, hrest]
  dsimp only
  rw [if_neg fun h => m.whole_ne h.1]
  simp only [exponent, Option.map_some, zpow_zero, mul_one, Numeral.value, Numeral.units]
  push_cast
  rfl

/-- A numeral has no letter that would begin another notation. -/
theorem literal_text (m : Numeral) : literal m.text = some m.value := by
  have hletters : ∀ c ∈ m.text, radixOf c = none := by
    intro c hc
    by_contra hsome
    unfold radixOf at hsome
    split at hsome <;> first | exact hsome rfl | (rcases Numeral.mem_text hc with h | h | h <;> cases h)
  unfold literal
  split
  · rename_i h
    exact absurd h (text_ne_nil m)
  · rename_i c digits h
    rw [hletters c (h ▸ List.mem_cons_of_mem _ List.mem_cons_self), ← h]
    exact decimalLiteral_text m
  · exact decimalLiteral_text m

theorem number_text (m : Numeral) (h : |m.value| < limit) : number (String.ofList m.text) = some m.value := by
  unfold number
  rw [String.toList_ofList, trim_text, literal_text]
  exact Option.filter_some_pos (decide_eq_true h)

theorem number_toFixed (fractionDigits : ℕ) {x : ℚ} (hx : 0 ≤ x) (hlimit : x + 1 < limit) :
    number (toFixed fractionDigits x) = some ((⌊x * 10 ^ fractionDigits + 1 / 2⌋ : ℚ) / 10 ^ fractionDigits) := by
  have hscaled : 0 ≤ x * 10 ^ fractionDigits + 1 / 2 := by positivity
  have hvalue : (scaled (decide (x < 0)) fractionDigits ⌊|x| * 10 ^ fractionDigits + 1 / 2⌋.toNat).value =
      ⌊x * 10 ^ fractionDigits + 1 / 2⌋ / 10 ^ fractionDigits := by
    rw [value_scaled, abs_of_nonneg hx, decide_eq_false hx.not_gt, Int.toNat_of_nonneg (Int.floor_nonneg.2 hscaled)]
    simp
  unfold toFixed
  rw [number_text _ ?_, hvalue]
  rw [hvalue, abs_of_nonneg (div_nonneg (by exact_mod_cast Int.floor_nonneg.2 hscaled) (by positivity))]
  refine lt_of_le_of_lt ?_ hlimit
  rw [div_le_iff₀ (by positivity)]
  have hfloor := Int.floor_le (x * 10 ^ fractionDigits + 1 / 2)
  have hone : (1 : ℚ) ≤ 10 ^ fractionDigits := one_le_pow₀ (by norm_num)
  linarith

end RoundTrip

end JsNumber
