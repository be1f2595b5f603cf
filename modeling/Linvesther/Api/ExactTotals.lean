import Linvesther.Base.JsNumber

/-! `readonly/totals.ts`: decimal strings of any scale added as integers, and the total written at the widest scale. -/

namespace Linvesther.Api.ExactTotals

open DecimalText JsNumber

section Code

/-- `BigInt` of a value's digits at a scale, with its sign. -/
def aligned (scale : ℕ) (m : Numeral) : ℤ :=
  (if m.negative then -1 else 1) * (Nat.ofDigitChars 10 (m.whole ++ padEnd scale m.fraction) 0 : ℕ)

def render (total : ℤ) (scale : ℕ) : String :=
  let sign := if total < 0 then ['-'] else []
  let digits := padStart (scale + 1) (Nat.toDigits 10 (if total < 0 then -total else total).toNat)
  if scale = 0 then String.ofList (sign ++ digits)
  else String.ofList (sign ++ digits.take (digits.length - scale) ++ '.' :: digits.drop (digits.length - scale))

/-- The first loop: a value that is no plain decimal ends it. -/
def parseAll (values : List String) : Option (List Numeral) := values.mapM fun value => read (trim value.toList)

def sumDecimals (values : List String) : Option String :=
  (parseAll values).map fun parsed =>
    let scale := parsed.foldl (fun scale m => max scale m.fraction.length) 0
    render (parsed.foldl (fun total m => total + aligned scale m) 0) scale

end Code

section Render

variable {total : ℤ} {scale : ℕ}

theorem render_eq (total : ℤ) (scale : ℕ) :
    (render total scale).toList = (scaled (decide (total < 0)) scale total.natAbs).text := by
  have habs : (if total < 0 then -total else total).toNat = total.natAbs := by
    split_ifs <;> omega
  have hnegative : (scaled (decide (total < 0)) scale total.natAbs).negative = decide (total < 0) := rfl
  unfold render Numeral.text
  rw [unsigned_scaled, habs, hnegative]
  unfold point
  by_cases hneg : total < 0
  · by_cases hscale : scale = 0 <;> simp [hneg, hscale]
  · by_cases hscale : scale = 0 <;> simp [hneg, hscale]

theorem value_scaled_natAbs (total : ℤ) (scale : ℕ) :
    (scaled (decide (total < 0)) scale total.natAbs).value = total / 10 ^ scale := by
  have habs : (if decide (total < 0) = true then -1 else 1) * (total.natAbs : ℤ) = total := by
    simp only [decide_eq_true_eq]
    split_ifs <;> omega
  rw [value_scaled, habs]

end Render

section Exact

variable {values values' xs ys : List String} {parsed : List Numeral} {text : String}

/-- The texts of the numerals are those of the values, trimmed. -/
def Denote (values : List String) (parsed : List Numeral) : Prop :=
  parsed.map Numeral.text = values.map fun value => trim value.toList

theorem parseAll_eq_some_iff : parseAll values = some parsed ↔ Denote values parsed := by
  unfold parseAll Denote
  induction values generalizing parsed with
  | nil => simp [eq_comm]
  | cons value rest ih =>
    rw [List.mapM_cons]
    constructor
    · intro h
      obtain ⟨m, hm, h⟩ := Option.bind_eq_some_iff.1 h
      obtain ⟨ms, hms, h⟩ := Option.bind_eq_some_iff.1 h
      obtain rfl := Option.some.inj h
      rw [List.map_cons, List.map_cons, read_eq_some_iff.1 hm, ih.1 hms]
    · intro h
      cases parsed with
      | nil => cases h
      | cons m ms =>
        rw [List.map_cons, List.map_cons] at h
        obtain ⟨hm, hms⟩ := List.cons.inj h
        rw [read_eq_some_iff.2 hm, ih.2 hms]
        rfl

theorem exists_denote (h : ∀ value ∈ values, ∃ m : Numeral, m.text = trim value.toList) :
    ∃ parsed, Denote values parsed := by
  induction values with
  | nil => exact ⟨[], rfl⟩
  | cons value rest ih =>
    obtain ⟨⟨m, hm⟩, hrest⟩ := List.forall_mem_cons.1 h
    obtain ⟨ms, hms⟩ := ih hrest
    refine ⟨m :: ms, ?_⟩
    unfold Denote at hms ⊢
    rw [List.map_cons, List.map_cons, hm, hms]

/-- Some value, trimmed, is no numeral. -/
theorem parseAll_eq_none_iff : parseAll values = none ↔ ∃ value ∈ values, ∀ m : Numeral, m.text ≠ trim value.toList := by
  constructor
  · intro hnone
    by_contra hall
    push Not at hall
    obtain ⟨parsed, hparsed⟩ := exists_denote hall
    rw [parseAll_eq_some_iff.2 hparsed] at hnone
    cases hnone
  · intro ⟨value, hvalue, hbad⟩
    by_contra hsome
    obtain ⟨parsed, hparsed⟩ := Option.ne_none_iff_exists'.1 hsome
    have hmem := List.mem_map_of_mem (f := fun value => trim value.toList) hvalue
    rw [← parseAll_eq_some_iff.1 hparsed] at hmem
    obtain ⟨m, -, hm⟩ := List.mem_map.1 hmem
    exact hbad m hm

def scaleOf (parsed : List Numeral) : ℕ := (parsed.map fun m => m.fraction.length).foldr max 0

def totalOf (parsed : List Numeral) : ℚ := (parsed.map Numeral.value).sum

theorem foldl_scale (parsed : List Numeral) (start : ℕ) :
    parsed.foldl (fun scale m => max scale m.fraction.length) start = max start (scaleOf parsed) := by
  unfold scaleOf
  induction parsed generalizing start with
  | nil => simp
  | cons m rest ih => rw [List.foldl_cons, ih, List.map_cons, List.foldr_cons, max_assoc]

theorem length_le_scaleOf {m : Numeral} (hm : m ∈ parsed) : m.fraction.length ≤ scaleOf parsed := by
  unfold scaleOf
  induction parsed with
  | nil => cases hm
  | cons n rest ih =>
    rw [List.map_cons, List.foldr_cons]
    rcases List.mem_cons.1 hm with rfl | hm
    · exact le_max_left _ _
    · exact (ih hm).trans (le_max_right _ _)

/-- The integers that are added are the values in units of the scale. -/
theorem foldl_aligned {scale : ℕ} (h : ∀ m ∈ parsed, m.fraction.length ≤ scale) (start : ℤ) :
    ((parsed.foldl (fun total m => total + aligned scale m) start : ℤ) : ℚ) / 10 ^ scale =
      start / 10 ^ scale + totalOf parsed := by
  unfold totalOf
  induction parsed generalizing start with
  | nil => simp
  | cons m rest ih =>
    obtain ⟨hm, hrest⟩ := List.forall_mem_cons.1 h
    rw [List.foldl_cons, ih hrest, List.map_cons, List.sum_cons, Int.cast_add, add_div, add_assoc]
    congr 2
    exact units_padEnd m hm

/-- The total of some numerals, as a numeral of the widest scale. -/
def total (parsed : List Numeral) : Numeral :=
  let units := parsed.foldl (fun total m => total + aligned (scaleOf parsed) m) 0
  scaled (decide (units < 0)) (scaleOf parsed) units.natAbs

theorem value_total (parsed : List Numeral) : (total parsed).value = totalOf parsed := by
  unfold total
  dsimp only
  rw [value_scaled_natAbs, foldl_aligned fun m hm => length_le_scaleOf hm]
  simp

theorem fraction_total (parsed : List Numeral) : (total parsed).fraction.length = scaleOf parsed :=
  length_fraction_scaled _ _ _

theorem sumDecimals_eq (values : List String) :
    sumDecimals values = (parseAll values).map fun parsed => String.ofList (total parsed).text := by
  unfold sumDecimals
  congr 1
  funext parsed
  dsimp only
  rw [foldl_scale, Nat.zero_max, ← String.toList_inj, render_eq, String.toList_ofList]
  rfl

theorem exists_of_sumDecimals (h : sumDecimals values = some text) :
    ∃ parsed, Denote values parsed ∧ text = String.ofList (total parsed).text := by
  rw [sumDecimals_eq] at h
  obtain ⟨parsed, hparsed, rfl⟩ := Option.map_eq_some_iff.1 h
  exact ⟨parsed, parseAll_eq_some_iff.1 hparsed, rfl⟩

theorem scaleOf_perm {parsed' : List Numeral} (h : parsed.Perm parsed') : scaleOf parsed = scaleOf parsed' :=
  (h.map _).foldr_eq 0

/-- The total is told by the widest scale and the sum. -/
theorem total_congr {parsed' : List Numeral} (hscale : scaleOf parsed = scaleOf parsed')
    (hsum : totalOf parsed = totalOf parsed') : total parsed = total parsed' := by
  have hunits : ∀ l : List Numeral, ((l.foldl (fun total m => total + aligned (scaleOf l) m) 0 : ℤ) : ℚ) =
      totalOf l * 10 ^ scaleOf l := by
    intro l
    have hscales : ∀ m ∈ l, m.fraction.length ≤ scaleOf l := fun m hm => length_le_scaleOf hm
    have hfold := foldl_aligned hscales 0
    rw [Int.cast_zero, zero_div, zero_add, div_eq_iff (by positivity)] at hfold
    exact hfold
  have hsame : parsed.foldl (fun total m => total + aligned (scaleOf parsed) m) 0 =
      parsed'.foldl (fun total m => total + aligned (scaleOf parsed') m) 0 := by
    have hcast := hunits parsed
    rw [hsum, hscale, ← hunits parsed'] at hcast
    rw [hscale]
    exact_mod_cast hcast
  unfold total
  dsimp only
  rw [hsame, hscale]

theorem Denote.exists_text (h : Denote values parsed) {value : String} (hvalue : value ∈ values) :
    ∃ m : Numeral, m.text = trim value.toList := by
  have hmem := List.mem_map_of_mem (f := fun value => trim value.toList) hvalue
  rw [← h] at hmem
  obtain ⟨m, -, hm⟩ := List.mem_map.1 hmem
  exact ⟨m, hm⟩

/-- The values in another order are the numerals in another order. -/
theorem Denote.perm (h : Denote values parsed) (hperm : values.Perm values') :
    ∃ parsed', Denote values' parsed' ∧ parsed.Perm parsed' := by
  obtain ⟨parsed', hparsed'⟩ := exists_denote fun value hvalue => h.exists_text (hperm.mem_iff.2 hvalue)
  refine ⟨parsed', hparsed', (List.map_perm_map_iff text_injective).1 ?_⟩
  rw [h, hparsed']
  exact hperm.map _

theorem totalOf_perm {parsed' : List Numeral} (h : parsed.Perm parsed') : totalOf parsed = totalOf parsed' :=
  (h.map _).sum_eq

theorem sumDecimals_perm (hperm : values.Perm values') : sumDecimals values' = sumDecimals values := by
  rw [sumDecimals_eq, sumDecimals_eq]
  cases hvalues : parseAll values with
  | none =>
    have hnone : parseAll values' = none := by
      rw [parseAll_eq_none_iff] at hvalues ⊢
      exact hvalues.imp fun value h => ⟨hperm.mem_iff.1 h.1, h.2⟩
    rw [hnone]
  | some parsed =>
    obtain ⟨parsed', hparsed', hsame⟩ := (parseAll_eq_some_iff.1 hvalues).perm hperm
    rw [parseAll_eq_some_iff.2 hparsed', Option.map_some, Option.map_some,
      total_congr (scaleOf_perm hsame) (totalOf_perm hsame)]

/-- What the texts of two totals add up to. -/
theorem sumDecimals_pair (p q : Numeral) :
    sumDecimals [String.ofList p.text, String.ofList q.text] = some (String.ofList (total [p, q]).text) := by
  have hparsed : Denote [String.ofList p.text, String.ofList q.text] [p, q] := by
    simp [Denote, trim_text]
  rw [sumDecimals_eq, parseAll_eq_some_iff.2 hparsed]
  rfl

theorem sumDecimals_regroup {a b : String} (hperm : values.Perm (xs ++ ys)) (ha : sumDecimals xs = some a)
    (hb : sumDecimals ys = some b) :
    ∃ c d x, sumDecimals [a, b] = some c ∧ sumDecimals values = some d ∧ value c.toList = some x ∧
      value d.toList = some x := by
  obtain ⟨ps, hps, rfl⟩ := exists_of_sumDecimals ha
  obtain ⟨qs, hqs, rfl⟩ := exists_of_sumDecimals hb
  have hwhole : Denote (xs ++ ys) (ps ++ qs) := by
    unfold Denote at hps hqs ⊢
    rw [List.map_append, List.map_append, hps, hqs]
  have hvalues : sumDecimals values = some (String.ofList (total (ps ++ qs)).text) := by
    rw [← sumDecimals_perm hperm, sumDecimals_eq, parseAll_eq_some_iff.2 hwhole]
    rfl
  refine ⟨_, _, totalOf (ps ++ qs), sumDecimals_pair _ _, hvalues, ?_, ?_⟩
  · rw [String.toList_ofList, value_text, value_total]
    simp [totalOf, value_total]
  · rw [String.toList_ofList, value_text, value_total]

/-- What the sum of a list of values is. -/
structure ExactSum (values : List String) : Prop where
  refused : sumDecimals values = none ↔ ∃ value ∈ values, ∀ m : Numeral, m.text ≠ trim value.toList
  exact : ∀ text, sumDecimals values = some text →
    ∃ (inputs : List Numeral) (m : Numeral), inputs.map Numeral.text = values.map (fun value => trim value.toList) ∧
      m.text = text.toList ∧ m.value = (inputs.map Numeral.value).sum ∧
      m.fraction.length = (inputs.map fun input => input.fraction.length).foldr max 0
  unordered : ∀ values', values.Perm values' → sumDecimals values' = sumDecimals values
  regrouped : ∀ xs ys a b, values.Perm (xs ++ ys) → sumDecimals xs = some a → sumDecimals ys = some b →
    ∃ c d x, sumDecimals [a, b] = some c ∧ sumDecimals values = some d ∧ value c.toList = some x ∧
      value d.toList = some x

theorem sumDecimals_exact (values : List String) : ExactSum values where
  refused := by
    rw [sumDecimals_eq, Option.map_eq_none_iff]
    exact parseAll_eq_none_iff
  exact text h := by
    obtain ⟨parsed, hparsed, rfl⟩ := exists_of_sumDecimals h
    exact ⟨parsed, total parsed, hparsed, (String.toList_ofList).symm, value_total parsed, fraction_total parsed⟩
  unordered _ := sumDecimals_perm
  regrouped _ _ _ _ := sumDecimals_regroup

end Exact

end Linvesther.Api.ExactTotals
