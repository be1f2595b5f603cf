import Linvesther.Base.DecimalText
import Linvesther.Base.LongDivision
import Linvesther.Wallet.Effects

/-! Amounts as texts. A hexadecimal quantity is written in base ten, and the point of a whole number is moved. -/

namespace Linvesther.Wallet

section Hex

def isAsciiHexdigit (c : Char) : Bool := c.isDigit || 'a' ≤ c && c ≤ 'f' || 'A' ≤ c && c ≤ 'F'

/-- `to_digit(16)` of what is a hex digit. -/
def toDigit (c : Char) : ℕ :=
  if c.isDigit then c.toNat - '0'.toNat
  else if 'a' ≤ c then c.toNat - 'a'.toNat + 10
  else c.toNat - 'A'.toNat + 10

/-- One pass over the digits. The arithmetic is that of `u32`, and `none` where it would overflow. -/
def tenth : List ℕ → ℕ → Option (List ℕ × ℕ)
  | [], remainder => some ([], remainder)
  | digit :: rest, remainder =>
    let value := remainder * 16 + digit
    if value < 2 ^ 32 then (tenth rest (value % 10)).map fun p => (value / 10 :: p.1, p.2) else none

def fromDigit (remainder : ℕ) : Option Char := if remainder < 10 then some (Nat.digitChar remainder) else none

theorem tenth_eq {number : List ℕ} {remainder : ℕ} {p : List ℕ × ℕ} (h : tenth number remainder = some p) :
    LongDivision.divide 16 10 number remainder = p := by
  induction number generalizing remainder p with
  | nil => exact Option.some.inj h
  | cons digit rest ih =>
    rw [tenth] at h
    split_ifs at h
    obtain ⟨q, hq, hcons⟩ := Option.map_eq_some_iff.1 h
    rw [LongDivision.divide, ih hq]
    exact hcons

theorem pass_lt {number quotient : List ℕ} {remainder : ℕ} (hnonzero : ∃ d ∈ number, d ≠ 0)
    (h : tenth number 0 = some (quotient, remainder)) :
    LongDivision.value 16 quotient < LongDivision.value 16 number := by
  have hless := LongDivision.value_divide_lt (k := 10) (b := 16) (by decide) (by decide) hnonzero
  rwa [tenth_eq h] at hless

/-- A pass over hex digits that starts with less than ten does not overflow. -/
theorem tenth_some {number : List ℕ} (hnumber : ∀ d ∈ number, d < 16) {remainder : ℕ} (h : remainder < 10) :
    tenth number remainder = some (LongDivision.divide 16 10 number remainder) := by
  induction number generalizing remainder with
  | nil => rfl
  | cons digit rest ih =>
    obtain ⟨hdigit, hrest⟩ := List.forall_mem_cons.1 hnumber
    have hfits : remainder * 16 + digit < 2 ^ 32 := by omega
    rw [tenth, if_pos hfits, ih hrest (Nat.mod_lt _ (by decide))]
    rfl

/-- The loop. Where a digit is not zero, a pass makes the number smaller. -/
def decimalLoop (number : List ℕ) (out : List Char) : Option (List Char) :=
  if hnonzero : ∃ d ∈ number, d ≠ 0 then
    match hpass : tenth number 0 with
    | none => none
    | some (quotient, remainder) =>
      have := pass_lt hnonzero hpass
      match fromDigit remainder with
      | none => none
      | some c => decimalLoop quotient (out ++ [c])
  else some out
termination_by LongDivision.value 16 number

theorem decimalLoop_pass {number quotient : List ℕ} {remainder : ℕ} {c : Char} (out : List Char)
    (hnonzero : ∃ d ∈ number, d ≠ 0) (hpass : tenth number 0 = some (quotient, remainder))
    (hdigit : fromDigit remainder = some c) : decimalLoop number out = decimalLoop quotient (out ++ [c]) := by
  rw [decimalLoop, dif_pos hnonzero]
  split
  · simp_all
  · rename_i q r hsame
    obtain ⟨rfl, rfl⟩ := Prod.mk.inj (Option.some.inj (hpass.symm.trans hsame))
    simp only [hdigit]

/-- A hexadecimal quantity as a decimal string. -/
def hexToDecimal (hex : String) : Option String :=
  if hex.toList.take 2 = ['0', 'x'] then
    let digits := hex.toList.drop 2
    if digits = [] ∨ ¬ digits.all isAsciiHexdigit then none
    else (decimalLoop (digits.map toDigit) []).map fun out =>
      if out = [] then "0" else String.ofList out.reverse
  else none

/-- The number that hex digits denote. -/
def hexNumber (digits : List Char) : ℕ := digits.foldl (fun n c => 16 * n + toDigit c) 0

theorem toDigit_lt {c : Char} (h : isAsciiHexdigit c) : toDigit c < 16 := by
  unfold isAsciiHexdigit at h
  unfold toDigit
  simp only [Char.isDigit, Bool.or_eq_true, Bool.and_eq_true, decide_eq_true_eq, Char.le_def, UInt32.le_iff_toNat_le] at h ⊢
  split_ifs <;> simp only [Char.toNat] <;> grind

theorem hexNumber_eq (digits : List Char) : hexNumber digits = LongDivision.value 16 (digits.map toDigit) := by
  have hfold (n : ℕ) : digits.foldl (fun n c => 16 * n + toDigit c) n =
      16 ^ digits.length * n + LongDivision.value 16 (digits.map toDigit) := by
    induction digits generalizing n with
    | nil => simp [LongDivision.value]
    | cons c digits ih =>
      rw [List.foldl_cons, ih, List.map_cons, LongDivision.value_cons, List.length_map, List.length_cons]
      ring
  rw [hexNumber, hfold, Nat.mul_zero, Nat.zero_add]

/-- The passes give the digits of the number, the last one first. -/
theorem decimalLoop_eq (number : List ℕ) (out : List Char) (hnumber : ∀ d ∈ number, d < 16) :
    decimalLoop number out = some (out ++ (Nat.digits 10 (LongDivision.value 16 number)).map Nat.digitChar) := by
  induction number, out using decimalLoop.induct with
  | case1 number out hnonzero hpass =>
    rw [tenth_some hnumber (by decide)] at hpass
    simp at hpass
  | case2 number out hnonzero quotient remainder hpass hless hdigit =>
    have hremainder : (LongDivision.divide 16 10 number 0).2 < 10 :=
      LongDivision.remainder_lt (by decide) number (by decide)
    rw [tenth_eq hpass] at hremainder
    rw [fromDigit, if_pos hremainder] at hdigit
    simp at hdigit
  | case3 number out hnonzero quotient remainder hpass hless c hdigit ih =>
    have hdivide := tenth_eq hpass
    obtain ⟨hquotient, hremainder⟩ := LongDivision.divide_eq (b := 16) (k := 10) (by decide) number
    have hdigits : ∀ d ∈ (LongDivision.divide 16 10 number 0).1, d < 16 :=
      LongDivision.quotient_lt (by decide) hnumber (by decide)
    rw [hdivide] at hquotient hremainder hdigits
    dsimp only at hquotient hremainder hdigits
    have hc : c = Nat.digitChar remainder := by
      unfold fromDigit at hdigit
      split_ifs at hdigit
      exact (Option.some.inj hdigit).symm
    have hpos := (LongDivision.value_pos_iff (b := 16) (by decide) number).2 hnonzero
    rw [decimalLoop_pass out hnonzero hpass hdigit, ih hdigits, Nat.digits_def' (by decide) hpos, hquotient, hc, hremainder,
      List.map_cons, List.append_assoc, List.singleton_append]
  | case4 number out hzero =>
    have hvalue : LongDivision.value 16 number = 0 := by
      by_contra hne
      exact hzero ((LongDivision.value_pos_iff (by decide) number).1 (Nat.pos_of_ne_zero hne))
    rw [decimalLoop, dif_neg hzero, hvalue, Nat.digits_zero, List.map_nil, List.append_nil]

theorem reverse_digits {n : ℕ} (h : 0 < n) : ((Nat.digits 10 n).map Nat.digitChar).reverse = Nat.toDigits 10 n := by
  induction n using Nat.strong_induction_on with
  | _ n ih =>
    rw [Nat.digits_def' (by decide) h, List.map_cons, List.reverse_cons, Nat.toDigits_eq_if (by decide)]
    split_ifs with hsmall
    · rw [Nat.div_eq_of_lt hsmall, Nat.mod_eq_of_lt hsmall]
      rfl
    · rw [ih (n / 10) (by omega) (by omega)]

/-- What is refused, and what is written of the rest. -/
structure HexExact (hex : String) : Prop where
  refused : (¬ ∃ digits, hex.toList = ['0', 'x'] ++ digits ∧ digits ≠ [] ∧ digits.all isAsciiHexdigit) →
    hexToDecimal hex = none
  written : ∀ digits, hex.toList = ['0', 'x'] ++ digits → digits ≠ [] → digits.all isAsciiHexdigit →
    hexToDecimal hex = some (toString (hexNumber digits))

theorem hexExact (hex : String) : HexExact hex where
  refused := by
    intro h
    unfold hexToDecimal
    dsimp only
    split_ifs with hbegins hdigits
    · rfl
    · push Not at hdigits
      exact absurd ⟨hex.toList.drop 2, by rw [← hbegins, List.take_append_drop], hdigits.1, hdigits.2⟩ h
    · rfl
  written := by
    intro digits hhex hne hdigits
    have hlt : ∀ d ∈ digits.map toDigit, d < 16 := by
      intro d hd
      obtain ⟨c, hc, rfl⟩ := List.mem_map.1 hd
      exact toDigit_lt (List.all_eq_true.1 hdigits c hc)
    have hloop := decimalLoop_eq (digits.map toDigit) [] hlt
    rw [List.nil_append, ← hexNumber_eq] at hloop
    have hkept : ¬ (digits = [] ∨ ¬ digits.all isAsciiHexdigit) := by simp [hne, hdigits]
    unfold hexToDecimal
    have htake : (['0', 'x'] ++ digits).take 2 = ['0', 'x'] := rfl
    have hdrop : (['0', 'x'] ++ digits).drop 2 = digits := rfl
    rw [hhex, if_pos htake, hdrop]
    dsimp only
    rw [if_neg hkept, hloop, Option.map_some]
    by_cases hzero : hexNumber digits = 0
    · rw [hzero, Nat.digits_zero]
      rfl
    · have hpos := Nat.pos_of_ne_zero hzero
      have hwritten : (Nat.digits 10 (hexNumber digits)).map Nat.digitChar ≠ [] := by
        rw [Ne, List.map_eq_nil_iff, Nat.digits_eq_nil_iff_eq_zero]
        exact hzero
      rw [if_neg hwritten, reverse_digits hpos, ← Nat.toString_eq_ofList_toDigits]

end Hex

section Significant

theorem ofDigitChars_dropWhile (digits : List Char) :
    Nat.ofDigitChars 10 (digits.dropWhile (· = '0')) 0 = Nat.ofDigitChars 10 digits 0 := by
  induction digits with
  | nil => rfl
  | cons c digits ih =>
    rw [List.dropWhile_cons]
    split_ifs with hzero
    · have hc : c = '0' := by simpa using hzero
      rw [ih, hc, Nat.ofDigitChars_cons]
      rfl
    · rfl

theorem all_dropWhile {digits : List Char} (h : digits.all Char.isDigit) :
    (digits.dropWhile (· = '0')).all Char.isDigit := by
  rw [List.all_eq_true] at h ⊢
  exact fun c hc => h c ((List.dropWhile_sublist _).mem hc)

theorem ofDigitChars_significant (raw : List Char) :
    Nat.ofDigitChars 10 (significant raw) 0 = Nat.ofDigitChars 10 raw 0 := by
  have hvalue := ofDigitChars_dropWhile raw
  unfold significant
  dsimp only
  split_ifs with hempty
  · rw [hempty] at hvalue
    rw [← hvalue]
    rfl
  · exact hvalue

theorem all_significant {raw : List Char} (h : raw.all Char.isDigit) : (significant raw).all Char.isDigit := by
  unfold significant
  dsimp only
  split_ifs
  · rfl
  · exact all_dropWhile h

theorem significant_ne_nil (raw : List Char) : significant raw ≠ [] := by
  unfold significant
  dsimp only
  split_ifs with hempty
  · simp
  · exact hempty

end Significant

section Units

open DecimalText

/-- Digits alone, and at least one. -/
def WholeNumber (raw : List Char) : Prop := raw ≠ [] ∧ raw.all Char.isDigit

/-- The `u32` of the length is small while the length is not. -/
def Truncated (length decimals : ℕ) : Prop := 0 < decimals ∧ length % 2 ^ 32 ≤ decimals ∧ decimals < length

/-- Where the subtraction stays above zero, the text is that of the digits with a point before the last of them, and zeros
before the first as far as needed. -/
theorem unitsText_eq {digits : List Char} {decimals : ℕ} (hne : digits ≠ []) (h : ¬ Truncated digits.length decimals) :
    unitsText digits decimals = some (point decimals (padStart (decimals + 1) digits)) := by
  have hpos := List.length_pos_iff.2 hne
  unfold unitsText point padStart
  by_cases hzero : decimals = 0
  · have hnone : 0 + 1 - digits.length = 0 := by omega
    rw [if_pos hzero, if_pos hzero, hzero, hnone]
    rfl
  · rw [if_neg hzero, if_neg hzero]
    by_cases hsmall : digits.length ≤ decimals
    · have hwrapped : digits.length % 2 ^ 32 ≤ decimals := (Nat.mod_le _ _).trans hsmall
      have hzeros : decimals + 1 - digits.length = (decimals - digits.length) + 1 := by omega
      rw [if_pos hwrapped, if_pos hsmall, hzeros, List.replicate_succ]
      have hlength : ('0' :: List.replicate (decimals - digits.length) '0' ++ digits).length - decimals = 1 := by
        rw [List.length_append, List.length_cons, List.length_replicate]
        omega
      rw [hlength]
      rfl
    · have hwrapped : ¬ digits.length % 2 ^ 32 ≤ decimals := fun hle =>
        h ⟨Nat.pos_of_ne_zero hzero, hle, not_le.1 hsmall⟩
      have hnone : decimals + 1 - digits.length = 0 := by omega
      rw [if_neg hwrapped, hnone, List.replicate_zero, List.nil_append]
      dsimp only
      rw [List.append_assoc, List.singleton_append]

theorem unitsText_eq_none {digits : List Char} {decimals : ℕ} (h : Truncated digits.length decimals) :
    unitsText digits decimals = none := by
  obtain ⟨hpos, hwrapped, hlarge⟩ := h
  unfold unitsText
  rw [if_neg hpos.ne', if_pos hwrapped, if_neg (not_le.2 hlarge)]

/-- A numeral is read where its value can be represented, and refused elsewhere. -/
structure Lib.Reads (lib : Lib) (representable : Numeral → Prop) : Prop where
  read : ∀ m, representable m → lib.fromStrExact (String.ofList m.text) = some m.value
  refused : ∀ m, ¬ representable m → lib.fromStrExact (String.ofList m.text) = none

/-- The text built denotes the amount, which is what comes of it where it can be represented. -/
def UnitsExact (raw : String) (decimals : ℕ) : Prop :=
  ∃ m : Numeral, unitsText (significant raw.toList) decimals = some m.text ∧
    m.value = Nat.ofDigitChars 10 raw.toList 0 / 10 ^ decimals ∧
    ∀ (lib : Lib) (representable : Numeral → Prop), lib.Reads representable →
      ∀ x, units lib raw decimals = some x ↔ representable m ∧ x = Nat.ofDigitChars 10 raw.toList 0 / 10 ^ decimals

theorem unitsExact {raw : String} {decimals : ℕ} (hraw : WholeNumber raw.toList)
    (h : ¬ Truncated (significant raw.toList).length decimals) : UnitsExact raw decimals := by
  have hdigits : Digits (significant raw.toList) := List.all_eq_true.1 (all_significant hraw.2)
  have hpadded := digits_padStart (decimals + 1) hdigits
  have hscale : decimals < (padStart (decimals + 1) (significant raw.toList)).length := length_padStart _ _
  have htext : unitsText (significant raw.toList) decimals = some (pointed false decimals _ hpadded hscale).text := by
    rw [unitsText_eq (significant_ne_nil _) h, ← unsigned_pointed false hpadded hscale]
    rfl
  have hvalue : (pointed false decimals _ hpadded hscale).value =
      Nat.ofDigitChars 10 raw.toList 0 / 10 ^ decimals := by
    rw [value_pointed, ofDigitChars_padStart, ofDigitChars_significant]
    simp
  refine ⟨_, htext, hvalue, ?_⟩
  intro lib representable hlib x
  have hkept : ¬ (raw.toList = [] ∨ ¬ raw.toList.all Char.isDigit) := not_or.2 ⟨hraw.1, not_not.2 hraw.2⟩
  unfold units
  rw [if_neg hkept, htext, Option.bind_some]
  by_cases hfits : representable (pointed false decimals _ hpadded hscale)
  · rw [hlib.read _ hfits, hvalue, Option.some_inj]
    exact ⟨fun hx => ⟨hfits, hx.symm⟩, fun hx => hx.2.symm⟩
  · rw [hlib.refused _ hfits]
    exact ⟨fun hx => by simp at hx, fun hx => absurd hx.1 hfits⟩

/-- Both are exact but for the amounts whose number of digits the comparison truncates. -/
theorem amounts_exact_iff (hex raw : String) (decimals : ℕ) :
    HexExact hex ∧ (WholeNumber raw.toList → UnitsExact raw decimals) ↔
      ¬ (WholeNumber raw.toList ∧ Truncated (significant raw.toList).length decimals) := by
  constructor
  · rintro ⟨-, hunits⟩ ⟨hraw, htruncated⟩
    obtain ⟨m, htext, -⟩ := hunits hraw
    rw [unitsText_eq_none htruncated] at htext
    cases htext
  · intro h
    exact ⟨hexExact hex, fun hraw => unitsExact hraw fun htruncated => h ⟨hraw, htruncated⟩⟩

theorem significant_power (zeros : ℕ) :
    significant ('1' :: List.replicate zeros '0') = '1' :: List.replicate zeros '0' := by
  unfold significant
  rw [List.dropWhile_cons_of_neg (by decide)]
  simp

/-- An amount of `2 ^ 32` digits. -/
theorem longAmount_refused :
    WholeNumber (String.ofList ('1' :: List.replicate (2 ^ 32 - 1) '0')).toList ∧
      ¬ UnitsExact (String.ofList ('1' :: List.replicate (2 ^ 32 - 1) '0')) 18 := by
  generalize hzeros : 2 ^ 32 - 1 = zeros
  rw [UnitsExact, String.toList_ofList, significant_power]
  constructor
  · exact ⟨List.cons_ne_nil _ _, by simp⟩
  · rintro ⟨m, htext, -⟩
    have htruncated : Truncated ('1' :: List.replicate zeros '0').length 18 := by
      rw [List.length_cons, List.length_replicate, ← hzeros]
      unfold Truncated
      omega
    rw [unitsText_eq_none htruncated] at htext
    cases htext

end Units

end Linvesther.Wallet
