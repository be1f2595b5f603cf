import Linvesther.Base.CanonicalJson
import Linvesther.Base.IntegralDouble
import Linvesther.Base.Transaction

/-! `canonical.rs`: a document is walked before it is written, so that no object has a name twice and no number is a
float. -/

namespace Linvesther.Commitments.Canonical

open JsonText IntegralDouble Transaction

section Serializer

/-- How numbers are written: RFC 8785 says so of a double. Of an integer that is no double each serializer has its own
text. -/
structure NumberTexts where
  double : ℤ → List Char
  otherInteger : ℤ → List Char
  float : Numeral → List Char

def NumberTexts.integer (texts : NumberTexts) (i : ℤ) : List Char :=
  if nearest i = some i then texts.double i else texts.otherInteger i

/-- They are written with the characters of numbers. -/
structure NumberTexts.Numeric (texts : NumberTexts) : Prop where
  double : ∀ i, ∀ c ∈ texts.double i, c ∈ numberChars
  otherInteger : ∀ i, ∀ c ∈ texts.otherInteger i, c ∈ numberChars
  float : ∀ n, ∀ c ∈ texts.float n, c ∈ numberChars

end Serializer

section Walk

inductive ParseError where
  | syntax_
  | recursionLimit
  | loneSurrogate
  | floatSyntax
  | duplicateKey (key : List UInt16)
deriving DecidableEq

inductive CanonicalError where
  | parse (e : ParseError)
  | jcs
deriving DecidableEq

/-- What `serde_json` makes of a number. -/
inductive Parsed where
  | u64 (v : ℕ)
  | i64 (v : ℤ)
  | f64
deriving DecidableEq

def parseNumber (n : Numeral) : Parsed :=
  if n.isInteger then
    if n.negative then
      if n.magnitude ≠ 0 ∧ n.magnitude ≤ 2 ^ 63 then .i64 (-n.magnitude) else .f64
    else if n.magnitude < 2 ^ 64 then .u64 n.magnitude else .f64
  else .f64

def visitNumber (n : Numeral) : Except ParseError Unit :=
  match parseNumber n with
  | .u64 _ => .ok ()
  | .i64 _ => .ok ()
  | .f64 => .error .floatSyntax

/-- A string whose surrogates are not in pairs is not parsed. -/
def parseString (units : List UInt16) : Except ParseError Unit :=
  if WellFormed units then .ok () else .error .loneSurrogate

/-- How many arrays and objects may be begun in one another, and one more. -/
def RECURSION_LIMIT : ℕ := 128

mutual

/-- `StrictVisitor`, with the depth that `serde_json` has left. -/
def visit : ℕ → Doc → Except ParseError Unit
  | _, .null => .ok ()
  | _, .bool _ => .ok ()
  | _, .number n => visitNumber n
  | _, .string units => parseString units
  | remaining, .array items =>
    if remaining - 1 = 0 then .error .recursionLimit else visitSeq (remaining - 1) items
  | remaining, .object members =>
    if remaining - 1 = 0 then .error .recursionLimit else visitMap (remaining - 1) ∅ members

def visitSeq : ℕ → List Doc → Except ParseError Unit
  | _, [] => .ok ()
  | remaining, item :: items => do
    visit remaining item
    visitSeq remaining items

def visitMap : ℕ → Finset (List UInt16) → List (List UInt16 × Doc) → Except ParseError Unit
  | _, _, [] => .ok ()
  | remaining, seen, (key, item) :: members => do
    parseString key
    if key ∈ seen then .error (.duplicateKey key)
    else do
      visit remaining item
      visitMap remaining (insert key seen) members

end

variable (texts : NumberTexts)

def jcsNumber (n : Numeral) : Option (List Char) :=
  match parseNumber n with
  | .u64 v => some (texts.integer v)
  | .i64 v => some (texts.integer v)
  | .f64 => some (texts.float n)

/-- The document as a `Value`, which is written; no name occurs twice in it. -/
def canonicalizeValue (doc : Doc) : Except CanonicalError (List Char) :=
  match write (jcsNumber texts) doc with
  | some text => .ok text
  | none => .error .jcs

/-- The characters whose UTF-8 encoding is returned. -/
def canonicalize (jsonText : List Char) : Except CanonicalError (List Char) :=
  match read jsonText with
  | none => .error (.parse .syntax_)
  | some doc =>
    match visit RECURSION_LIMIT doc with
    | .error e => .error (.parse e)
    | .ok () => canonicalizeValue texts doc

end Walk

section Accepted

/-- What the walk asks of a document, apart from its depth. -/
def accepted : Checks where
  number n := parseNumber n ≠ .f64
  string := WellFormed
  names keys := keys.Nodup

theorem visitNumber_ok (n : Numeral) : visitNumber n = .ok () ↔ parseNumber n ≠ .f64 := by
  unfold visitNumber
  cases parseNumber n <;> simp

theorem parseString_ok (units : List UInt16) : parseString units = .ok () ↔ WellFormed units := by
  unfold parseString
  split_ifs with h <;> simp [h]

mutual

theorem visit_ok (doc : Doc) {remaining : ℕ} (h : 0 < remaining) :
    visit remaining doc = .ok () ↔ doc.depth < remaining ∧ doc.Passes accepted := by
  cases doc with
  | null => simp [visit, Doc.depth, Doc.Passes, h]
  | bool _ => simp [visit, Doc.depth, Doc.Passes, h]
  | number n =>
    rw [visit, visitNumber_ok, Doc.depth, and_iff_right h]
    rfl
  | string units =>
    rw [visit, parseString_ok, Doc.depth, and_iff_right h]
    rfl
  | array items =>
    rw [visit, Doc.depth, Doc.Passes]
    split_ifs with hlimit
    · refine iff_of_false (by simp) fun hboth => ?_
      have := hboth.1
      omega
    · rw [visitSeq_ok items (Nat.pos_of_ne_zero hlimit)]
      refine and_congr_left fun _ => ?_
      omega
  | object members =>
    rw [visit, Doc.depth, Doc.Passes]
    split_ifs with hlimit
    · refine iff_of_false (by simp) fun hboth => ?_
      have := hboth.1
      omega
    · rw [visitMap_ok members (Nat.pos_of_ne_zero hlimit)]
      refine and_congr (by omega) (and_congr_left fun _ => ?_)
      simp [accepted]

theorem visitSeq_ok (items : List Doc) {remaining : ℕ} (h : 0 < remaining) :
    visitSeq remaining items = .ok () ↔ depthItems items < remaining ∧ PassItems accepted items := by
  cases items with
  | nil => simp [visitSeq, depthItems, PassItems, h]
  | cons item items =>
    rw [visitSeq, check_ok, depthItems, PassItems, max_lt_iff, visit_ok item h, visitSeq_ok items h]
    tauto

theorem visitMap_ok (members : List (List UInt16 × Doc)) {remaining : ℕ} (h : 0 < remaining)
    {seen : Finset (List UInt16)} : visitMap remaining seen members = .ok () ↔
      depthMembers members < remaining ∧
        ((members.map Prod.fst).Nodup ∧ ∀ key ∈ members.map Prod.fst, key ∉ seen) ∧
          PassMembers accepted members := by
  match members with
  | [] => simp [visitMap, depthMembers, PassMembers, h]
  | (key, item) :: members =>
    rw [visitMap, check_ok, parseString_ok, depthMembers, PassMembers, max_lt_iff, List.map_cons,
      List.nodup_cons, List.forall_mem_cons]
    change _ ↔ _ ∧ _ ∧ (WellFormed key ∧ _) ∧ _
    by_cases hseen : key ∈ seen
    · simp [hseen]
    · have hfresh : (∀ k ∈ members.map Prod.fst, k ∉ insert key seen) ↔
          key ∉ members.map Prod.fst ∧ ∀ k ∈ members.map Prod.fst, k ∉ seen := by
        simp only [Finset.mem_insert, not_or, forall_and, List.forall_mem_ne']
      rw [if_neg hseen, check_ok, visit_ok item h, visitMap_ok members h, hfresh]
      tauto

end

variable {texts : NumberTexts} {jsonText : List Char} {doc : Doc}

theorem NumberTexts.Numeric.integer (h : texts.Numeric) (i : ℤ) : ∀ c ∈ texts.integer i, c ∈ numberChars := by
  unfold NumberTexts.integer
  split_ifs
  · exact h.double i
  · exact h.otherInteger i

theorem writesNumbers_jcs (h : texts.Numeric) : WritesNumbers (jcsNumber texts) := by
  intro n text htext
  unfold jcsNumber at htext
  cases hparsed : parseNumber n with
  | u64 v =>
    rw [hparsed] at htext
    exact Option.some.inj htext ▸ h.integer v
  | i64 v =>
    rw [hparsed] at htext
    exact Option.some.inj htext ▸ h.integer v
  | f64 =>
    rw [hparsed] at htext
    exact Option.some.inj htext ▸ h.float n

theorem write_of_accepted (h : doc.Passes accepted) : (write (jcsNumber texts) doc).isSome := by
  have hwritable : accepted.Implies (writable (jcsNumber texts)) := by
    refine ⟨fun n _ => ?_, fun _ hwell => hwell, fun _ _ => trivial⟩
    change (jcsNumber texts n).isSome = true
    unfold jcsNumber
    cases parseNumber n <;> rfl
  exact (write_isSome doc).2 (Doc.Passes.imp hwritable doc h)

theorem toOption_canonicalizeValue : (canonicalizeValue texts doc).toOption = write (jcsNumber texts) doc := by
  unfold canonicalizeValue
  cases write (jcsNumber texts) doc <;> rfl

theorem visit_limit_ok : visit RECURSION_LIMIT doc = .ok () ↔ doc.depth < 128 ∧ doc.Passes accepted :=
  visit_ok doc (by decide)

/-- A document that the walk lets through is written. -/
theorem canonicalize_accepts (hread : read jsonText = some doc) (hdepth : doc.depth < 128)
    (h : doc.Passes accepted) : (canonicalize texts jsonText).toOption = write (jcsNumber texts) doc := by
  unfold canonicalize
  rw [hread]
  dsimp only
  rw [visit_limit_ok.2 ⟨hdepth, h⟩]
  exact toOption_canonicalizeValue

theorem canonicalize_refuses (hread : read jsonText = some doc) (h : ¬ (doc.depth < 128 ∧ doc.Passes accepted)) :
    (canonicalize texts jsonText).toOption = none := by
  unfold canonicalize
  rw [hread]
  dsimp only
  cases hvisit : visit RECURSION_LIMIT doc with
  | error e => rfl
  | ok _ => exact absurd (visit_limit_ok.1 hvisit) h

theorem canonicalize_malformed (hread : read jsonText = none) : (canonicalize texts jsonText).toOption = none := by
  unfold canonicalize
  rw [hread]
  rfl

end Accepted

end Linvesther.Commitments.Canonical
