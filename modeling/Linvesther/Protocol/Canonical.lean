import Linvesther.Commitments.Canonical

/-! `canonical.ts`: the same encoding as `canonical.rs`. The text is scanned, for names that occur twice and for
floats, and parsed apart from that. -/

namespace Linvesther.Protocol.Canonical

open JsonText IntegralDouble Commitments.Canonical

section Scan

inductive CanonicalError where
  | syntax_
  | duplicateKey (property : List UInt16)
  | floatSyntax (raw : List Char)
  | unwritable
deriving DecidableEq

/-- What the parser calls back with. -/
inductive Event where
  | objectBegin
  | objectEnd
  | objectProperty (property : List UInt16)
  | number (raw : List Char)
  | otherLiteral
  | error

mutual

/-- The calls for a document, in the order of its text. -/
def events : Doc → List Event
  | .null => [.otherLiteral]
  | .bool _ => [.otherLiteral]
  | .number n => [.number n.chars]
  | .string _ => [.otherLiteral]
  | .array items => itemEvents items
  | .object members => .objectBegin :: memberEvents members ++ [.objectEnd]

def itemEvents : List Doc → List Event
  | [] => []
  | item :: items => events item ++ itemEvents items

def memberEvents : List (List UInt16 × Doc) → List Event
  | [] => []
  | (property, item) :: members => .objectProperty property :: events item ++ memberEvents members

end

structure Scan where
  scopeStack : List (Finset (List UInt16))
  error : Option CanonicalError

/-- The first error stays. -/
def Scan.fail (s : Scan) (e : CanonicalError) : Scan := { s with error := s.error.or (some e) }

def Scan.step (s : Scan) : Event → Scan
  | .objectBegin => { s with scopeStack := ∅ :: s.scopeStack }
  | .objectEnd => { s with scopeStack := s.scopeStack.tail }
  | .objectProperty property =>
    match s.scopeStack with
    | [] => s
    | scope :: outer =>
      let s := if property ∈ scope then s.fail (.duplicateKey property) else s
      { s with scopeStack := insert property scope :: outer }
  | .number raw => if raw.any (· ∈ ['.', 'e', 'E']) then s.fail (.floatSyntax raw) else s
  | .otherLiteral => s
  | .error => s.fail .syntax_

/-- The calls of the parser. What it recovers of a text that is no JSON is its own affair. -/
def visit (recovered : List Char → List Event) (jsonText : List Char) : List Event :=
  match read jsonText with
  | some doc => events doc
  | none => recovered jsonText

variable (recovered : List Char → List Event) (texts : NumberTexts)

def assertStrict (jsonText : List Char) : Option CanonicalError :=
  ((visit recovered jsonText).foldl Scan.step ⟨[], none⟩).error

/-- A number as `JSON.parse` reads it, written again. An infinite one cannot be. -/
def jsNumber (n : Numeral) : Option (List Char) :=
  if n.isInteger then (nearest n.value).map texts.double else some (texts.float n)

def canonicalizeValue (doc : Doc) : Except CanonicalError (List Char) :=
  match write (jsNumber texts) doc with
  | some text => .ok text
  | none => .error .unwritable

/-- The characters whose UTF-8 encoding is returned. -/
def canonicalize (jsonText : List Char) : Except CanonicalError (List Char) :=
  match assertStrict recovered jsonText with
  | some e => .error e
  | none =>
    match read jsonText with
    | none => .error .syntax_
    | some doc => canonicalizeValue texts doc

end Scan

section Strict

/-- What the scan asks of a document. -/
def scanned : Checks where
  number n := n.isInteger = true
  string _ := True
  names keys := keys.Nodup

/-- The scan of a part: the scopes around it are as before, and there is an error if there was one or the part has
one. -/
def Scans (part : List Event) (fine : Prop) : Prop :=
  ∀ s : Scan, (part.foldl Scan.step s).scopeStack = s.scopeStack ∧
    ((part.foldl Scan.step s).error = none ↔ s.error = none ∧ fine)

@[simp]
theorem Scan.fail_error (s : Scan) (e : CanonicalError) : (s.fail e).error ≠ none := by
  unfold Scan.fail
  cases s.error <;> simp

theorem scans_number (n : Numeral) : Scans [.number n.chars] (n.isInteger = true) := by
  intro s
  rw [List.foldl_cons, List.foldl_nil, Scan.step, any_chars]
  cases hinteger : n.isInteger with
  | true => simp
  | false => simp [Scan.fail]

mutual

theorem scans_events (doc : Doc) : Scans (events doc) (doc.Passes scanned) := by
  cases doc with
  | null => intro s; simp [events, Scan.step, Doc.Passes]
  | bool _ => intro s; simp [events, Scan.step, Doc.Passes]
  | number n => exact scans_number n
  | string units => intro s; simp [events, Scan.step, Doc.Passes, scanned]
  | array items => exact scans_items items
  | object members =>
    intro s
    obtain ⟨hstack, herror⟩ := scans_members members { s with scopeStack := ∅ :: s.scopeStack } rfl
    rw [events, List.cons_append, List.foldl_cons, List.foldl_append, List.foldl_cons, List.foldl_nil, Doc.Passes]
    refine ⟨hstack, herror.trans ?_⟩
    simp [scanned]

theorem scans_items (items : List Doc) : Scans (itemEvents items) (PassItems scanned items) := by
  cases items with
  | nil => intro s; simp [itemEvents, PassItems]
  | cons item items =>
    intro s
    rw [itemEvents, List.foldl_append, PassItems]
    obtain ⟨hstack, herror⟩ := scans_events item s
    obtain ⟨hstack', herror'⟩ := scans_items items ((events item).foldl Scan.step s)
    rw [hstack', herror', hstack, herror]
    exact ⟨rfl, and_assoc⟩

/-- The members of an object go into its scope. -/
theorem scans_members (members : List (List UInt16 × Doc)) (s : Scan) {scope : Finset (List UInt16)}
    {outer : List (Finset (List UInt16))} (hscope : s.scopeStack = scope :: outer) :
    (((memberEvents members).foldl Scan.step s).scopeStack.tail = outer) ∧
      (((memberEvents members).foldl Scan.step s).error = none ↔ s.error = none ∧
        ((members.map Prod.fst).Nodup ∧ ∀ key ∈ members.map Prod.fst, key ∉ scope) ∧
          PassMembers scanned members) := by
  match members with
  | [] => simp [memberEvents, PassMembers, hscope]
  | (property, item) :: members =>
    have hstack : (s.step (.objectProperty property)).scopeStack = insert property scope :: outer := by
      simp [Scan.step, hscope]
    have herror : (s.step (.objectProperty property)).error = none ↔ s.error = none ∧ property ∉ scope := by
      by_cases hseen : property ∈ scope
      · simp [Scan.step, hscope, hseen]
      · simp [Scan.step, hscope, hseen]
    obtain ⟨hitemStack, hitemError⟩ := scans_events item (s.step (.objectProperty property))
    rw [hstack] at hitemStack
    obtain ⟨htail, hrestError⟩ := scans_members members _ hitemStack
    rw [memberEvents, List.cons_append, List.foldl_cons, List.foldl_append]
    refine ⟨htail, ?_⟩
    have hfresh : (∀ key ∈ members.map Prod.fst, key ∉ insert property scope) ↔
        property ∉ members.map Prod.fst ∧ ∀ key ∈ members.map Prod.fst, key ∉ scope := by
      simp only [Finset.mem_insert, not_or, forall_and, List.forall_mem_ne']
    rw [hrestError, hitemError, herror, hfresh, PassMembers, List.map_cons, List.nodup_cons, List.forall_mem_cons]
    change _ ↔ _ ∧ _ ∧ (True ∧ _) ∧ _
    tauto

end

variable {recovered : List Char → List Event} {texts : NumberTexts} {jsonText : List Char} {doc : Doc}

theorem assertStrict_eq_none (hread : read jsonText = some doc) :
    assertStrict recovered jsonText = none ↔ doc.Passes scanned := by
  unfold assertStrict visit
  rw [hread]
  have hscan := (scans_events doc ⟨[], none⟩).2
  simpa using hscan

theorem toOption_canonicalizeValue : (canonicalizeValue texts doc).toOption = write (jsNumber texts) doc := by
  unfold canonicalizeValue
  cases write (jsNumber texts) doc <;> rfl

theorem canonicalize_scanned (hread : read jsonText = some doc) (h : doc.Passes scanned) :
    (canonicalize recovered texts jsonText).toOption = write (jsNumber texts) doc := by
  unfold canonicalize
  rw [(assertStrict_eq_none hread).2 h, hread]
  exact toOption_canonicalizeValue

theorem canonicalize_refuses (hread : read jsonText = some doc) (h : ¬ doc.Passes scanned) :
    (canonicalize recovered texts jsonText).toOption = none := by
  unfold canonicalize
  cases hstrict : assertStrict recovered jsonText with
  | some e => rfl
  | none => exact absurd ((assertStrict_eq_none hread).1 hstrict) h

theorem canonicalize_malformed (hread : read jsonText = none) :
    (canonicalize recovered texts jsonText).toOption = none := by
  unfold canonicalize
  rw [hread]
  cases assertStrict recovered jsonText <;> rfl

end Strict

section Numbers

variable {texts : NumberTexts}

/-- What `serde_json` reads as an integer, among the numbers that have neither a point nor an exponent. -/
theorem parseNumber_ne_f64 (n : Numeral) : parseNumber n ≠ .f64 ↔
    n.isInteger = true ∧ ¬ (n.negative = true ∧ n.magnitude = 0) ∧ -2 ^ 63 ≤ n.value ∧ n.value < 2 ^ 64 := by
  unfold parseNumber Numeral.value
  cases n.isInteger with
  | false => simp
  | true =>
    cases n.negative with
    | false =>
      simp only [reduceIte, Bool.false_eq_true]
      split_ifs with hbelow
      · refine iff_of_true (by simp) ?_
        refine ⟨trivial, by simp, ?_, ?_⟩
        · omega
        · omega
      · refine iff_of_false (by simp) ?_
        rintro ⟨-, -, -, hlt⟩
        omega
    | true =>
      simp only [reduceIte, true_and]
      split_ifs with hbelow
      · refine iff_of_true (by simp) ⟨hbelow.1, ?_, ?_⟩
        · omega
        · omega
      · refine iff_of_false (by simp) ?_
        rintro ⟨hzero, hle, -⟩
        exact hbelow ⟨hzero, by omega⟩

theorem jcsNumber_of_parsed {n : Numeral} (h : parseNumber n ≠ .f64) :
    jcsNumber texts n = some (texts.integer n.value) := by
  unfold jcsNumber parseNumber Numeral.value at *
  split_ifs at h ⊢ <;> simp_all

theorem jsNumber_of_integer {n : Numeral} (h : n.isInteger = true) :
    jsNumber texts n = (nearest n.value).map texts.double := if_pos h

theorem nearest_of_parsed {n : Numeral} (h : parseNumber n ≠ .f64) : (nearest n.value).isSome := by
  obtain ⟨-, -, hle, hlt⟩ := (parseNumber_ne_f64 n).1 h
  exact nearest_isSome (by omega)

theorem writesNumbers_js (h : texts.Numeric) : WritesNumbers (jsNumber texts) := by
  intro n text htext
  unfold jsNumber at htext
  split_ifs at htext
  · rw [Option.map_eq_some_iff] at htext
    obtain ⟨d, -, rfl⟩ := htext
    exact h.double d
  · exact Option.some.inj htext ▸ h.float n

end Numbers

section Decimal

/-- Integers in decimal, as doubles up to `2 ^ 53` are written. -/
def decimal (i : ℤ) : List Char :=
  (if i < 0 then ['-'] else []) ++
    if i = 0 then ['0'] else (Nat.digits 10 i.natAbs).reverse.map fun d => numberChars.getD d '0'

def decimalTexts : NumberTexts := ⟨decimal, decimal, fun _ => ['0']⟩

theorem decimal_numeric (i : ℤ) : ∀ c ∈ decimal i, c ∈ numberChars := by
  have hdigit : ∀ d, numberChars.getD d '0' ∈ numberChars := by
    intro d
    by_cases hd : d < numberChars.length
    · rw [List.getD_eq_getElem _ _ hd]
      exact List.getElem_mem hd
    · rw [List.getD_eq_default _ _ (Nat.le_of_not_lt hd)]
      decide
  intro c hc
  unfold decimal at hc
  rcases List.mem_append.1 hc with hsign | hdigits
  · split_ifs at hsign
    · rw [List.mem_singleton.1 hsign]
      decide
    · cases hsign
  · split_ifs at hdigits
    · rw [List.mem_singleton.1 hdigits]
      decide
    · obtain ⟨d, -, rfl⟩ := List.mem_map.1 hdigits
      exact hdigit d

theorem decimalTexts_numeric : decimalTexts.Numeric where
  double := decimal_numeric
  otherInteger := decimal_numeric
  float _ c hc := by
    rw [List.mem_singleton.1 hc]
    decide

end Decimal

section Agreement

/-- What both ask of a document: whole numbers that are not infinite, strings that are well-formed, and no name twice
in an object. -/
def strict : Checks where
  number n := n.isInteger = true ∧ (nearest n.value).isSome
  string := WellFormed
  names keys := keys.Nodup

/-- An integer of 64 bits that is not `-0`, and is written as the nearest double is. -/
def shared (texts : NumberTexts) : Checks where
  number n := ¬ (n.negative = true ∧ n.magnitude = 0) ∧ (-2 ^ 63 ≤ n.value ∧ n.value < 2 ^ 64) ∧
    ∀ d, nearest n.value = some d → texts.integer n.value = texts.double d
  string _ := True
  names _ := True

variable {recovered : List Char → List Event} {texts : NumberTexts} {jsonText : List Char} {doc : Doc}

theorem strict_of_accepted (h : doc.Passes accepted) : doc.Passes strict := by
  have hstrict : accepted.Implies strict := by
    refine ⟨fun n hn => ?_, fun _ hwell => hwell, fun _ hnodup => hnodup⟩
    exact ⟨((parseNumber_ne_f64 n).1 hn).1, nearest_of_parsed hn⟩
  exact Doc.Passes.imp hstrict doc h

theorem accepted_of_shared (h : doc.Passes strict) (hshared : doc.Passes (shared texts)) : doc.Passes accepted := by
  have haccepted : (strict.and (shared texts)).Implies accepted := by
    refine ⟨fun n hn => ?_, fun _ hboth => hboth.1, fun _ hboth => hboth.1⟩
    obtain ⟨⟨hinteger, -⟩, hzero, hrange, -⟩ := hn
    exact (parseNumber_ne_f64 n).2 ⟨hinteger, hzero, hrange⟩
  exact Doc.Passes.imp haccepted doc ((Doc.passes_and doc).2 ⟨h, hshared⟩)

/-- An integer is written in the same way if its text is that of the nearest double. -/
theorem jcsNumber_eq_jsNumber {n : Numeral} (h : parseNumber n ≠ .f64) : jcsNumber texts n = jsNumber texts n ↔
    ∀ d, nearest n.value = some d → texts.integer n.value = texts.double d := by
  obtain ⟨d, hd⟩ := Option.isSome_iff_exists.1 (nearest_of_parsed h)
  rw [jcsNumber_of_parsed h, jsNumber_of_integer ((parseNumber_ne_f64 n).1 h).1, hd]
  simp

/-- Among the documents that both accept, the numbers decide. -/
theorem sameNumbers_iff_shared (h : doc.Passes accepted) :
    doc.Passes (sameNumbers (jcsNumber texts) (jsNumber texts)) ↔ doc.Passes (shared texts) := by
  constructor
  · intro hsame
    have hshared : (accepted.and (sameNumbers (jcsNumber texts) (jsNumber texts))).Implies (shared texts) := by
      refine ⟨fun n hn => ?_, fun _ _ => trivial, fun _ _ => trivial⟩
      obtain ⟨-, hzero, hrange⟩ := (parseNumber_ne_f64 n).1 hn.1
      exact ⟨hzero, hrange, (jcsNumber_eq_jsNumber hn.1).1 hn.2⟩
    exact Doc.Passes.imp hshared doc ((Doc.passes_and doc).2 ⟨h, hsame⟩)
  · intro hshared
    have hsame : (accepted.and (shared texts)).Implies (sameNumbers (jcsNumber texts) (jsNumber texts)) := by
      refine ⟨fun n hn => ?_, fun _ _ => trivial, fun _ _ => trivial⟩
      exact (jcsNumber_eq_jsNumber hn.1).2 hn.2.2.2
    exact Doc.Passes.imp hsame doc ((Doc.passes_and doc).2 ⟨h, hshared⟩)

theorem canonicalize_unstrict (hread : read jsonText = some doc) (h : ¬ doc.Passes strict) :
    (canonicalize recovered texts jsonText).toOption = none := by
  by_cases hscan : doc.Passes scanned
  · rw [canonicalize_scanned hread hscan, ← Option.not_isSome_iff_eq_none, write_isSome]
    intro hwrite
    have hstrict : (scanned.and (writable (jsNumber texts))).Implies strict := by
      refine ⟨fun n hn => ?_, fun _ hboth => hboth.2, fun _ hboth => hboth.1⟩
      have hsome : (jsNumber texts n).isSome := hn.2
      rw [jsNumber_of_integer hn.1, Option.isSome_map] at hsome
      exact ⟨hn.1, hsome⟩
    exact h (Doc.Passes.imp hstrict doc ((Doc.passes_and doc).2 ⟨hscan, hwrite⟩))
  · exact canonicalize_refuses hread hscan

theorem canonicalize_strict (hread : read jsonText = some doc) (h : doc.Passes strict) :
    ∃ text, write (jsNumber texts) doc = some text ∧
      (canonicalize recovered texts jsonText).toOption = some text := by
  have hscanned : strict.Implies scanned :=
    ⟨fun _ hn => hn.1, fun _ _ => trivial, fun _ hnodup => hnodup⟩
  have hwritable : strict.Implies (writable (jsNumber texts)) := by
    refine ⟨fun n hn => ?_, fun _ hwell => hwell, fun _ _ => trivial⟩
    change (jsNumber texts n).isSome = true
    rw [jsNumber_of_integer hn.1, Option.isSome_map]
    exact hn.2
  obtain ⟨text, htext⟩ := Option.isSome_iff_exists.1 ((write_isSome doc).2 (Doc.Passes.imp hwritable doc h))
  exact ⟨text, htext, (canonicalize_scanned hread (Doc.Passes.imp hscanned doc h)).trans htext⟩

/-- Both make the same of a text exactly if it is no document that both would have to accept, or is not too deep for
`serde_json` and has only numbers that both read as the same integer. -/
theorem canonicalize_agree_iff (h : texts.Numeric) (recovered : List Char → List Event) (jsonText : List Char) :
    (Commitments.Canonical.canonicalize texts jsonText).toOption =
        (canonicalize recovered texts jsonText).toOption ↔
      ∀ doc, read jsonText = some doc → doc.Passes strict → doc.depth < 128 ∧ doc.Passes (shared texts) := by
  cases hread : read jsonText with
  | none => simp [Commitments.Canonical.canonicalize_malformed hread, canonicalize_malformed hread]
  | some doc =>
    simp only [Option.some.injEq, forall_eq']
    by_cases hstrict : doc.Passes strict
    · obtain ⟨text, htext, hcanonical⟩ : ∃ text, write (jsNumber texts) doc = some text ∧
          (canonicalize recovered texts jsonText).toOption = some text := canonicalize_strict hread hstrict
      rw [hcanonical, ← htext, forall_prop_of_true hstrict]
      by_cases haccepts : doc.depth < 128 ∧ doc.Passes accepted
      · -- both accept it
        obtain ⟨rust, hrust⟩ := Option.isSome_iff_exists.1 (write_of_accepted haccepts.2)
        rw [Commitments.Canonical.canonicalize_accepts hread haccepts.1 haccepts.2, and_iff_right haccepts.1,
          ← sameNumbers_iff_shared haccepts.2]
        exact write_eq_iff (writesNumbers_jcs h) (writesNumbers_js h) hrust
      · rw [Commitments.Canonical.canonicalize_refuses hread haccepts, htext]
        refine iff_of_false (by simp) fun hshared => ?_
        exact haccepts ⟨hshared.1, accepted_of_shared hstrict hshared.2⟩
    · have hrefused : ¬ (doc.depth < 128 ∧ doc.Passes accepted) := fun haccepts =>
        hstrict (strict_of_accepted haccepts.2)
      rw [Commitments.Canonical.canonicalize_refuses hread hrefused, canonicalize_unstrict hread hstrict]
      simp [hstrict]

theorem canonicalize_agree_nested :
    (Commitments.Canonical.canonicalize decimalTexts ['\x7b', '"', 'b', '"', ':', ' ', '[', '2', ']', '\x7d']).toOption =
        (canonicalize (fun _ => [.error]) decimalTexts
          ['\x7b', '"', 'b', '"', ':', ' ', '[', '2', ']', '\x7d']).toOption ∧
      (canonicalize (fun _ => [.error]) decimalTexts
          ['\x7b', '"', 'b', '"', ':', ' ', '[', '2', ']', '\x7d']).toOption =
        some ['\x7b', '"', 'b', '"', ':', '[', '2', ']', '\x7d'] := by
  refine ⟨(canonicalize_agree_iff decimalTexts_numeric _ _).2 ?_, by decide +kernel⟩
  intro doc hread _
  have hdoc : read ['\x7b', '"', 'b', '"', ':', ' ', '[', '2', ']', '\x7d'] =
      some (.object [([98], .array [.number ⟨false, [2], none, none⟩])]) := rfl
  rw [hdoc, Option.some.injEq] at hread
  subst hread
  refine ⟨by decide +kernel, ?_⟩
  have htwo : (shared decimalTexts).number ⟨false, [2], none, none⟩ := by
    refine ⟨by simp, by decide +kernel, fun d hd => ?_⟩
    have hnearest : nearest (Numeral.value ⟨false, [2], none, none⟩) = some 2 := by decide +kernel
    rw [hnearest, Option.some.injEq] at hd
    subst hd
    decide +kernel
  exact ⟨trivial, ⟨trivial, ⟨htwo, trivial⟩⟩, trivial⟩

/-- `-0`, `2 ^ 64` and 128 arrays in one another: one refuses them and the other does not. -/
theorem negative_zero_accepted_by_one :
    (Commitments.Canonical.canonicalize decimalTexts "-0".toList = .error (.parse .floatSyntax) ∧
      canonicalize (fun _ => [.error]) decimalTexts "-0".toList = .ok "0".toList) ∧
    (Commitments.Canonical.canonicalize decimalTexts "18446744073709551616".toList = .error (.parse .floatSyntax) ∧
      (canonicalize (fun _ => [.error]) decimalTexts "18446744073709551616".toList).toOption.isSome) ∧
    (Commitments.Canonical.canonicalize decimalTexts (List.replicate 128 '[' ++ List.replicate 128 ']') =
        .error (.parse .recursionLimit) ∧
      canonicalize (fun _ => [.error]) decimalTexts (List.replicate 128 '[' ++ List.replicate 128 ']') =
        .ok (List.replicate 128 '[' ++ List.replicate 128 ']')) := by
  decide +kernel

end Agreement

end Linvesther.Protocol.Canonical
