import Mathlib

/-! Regular expressions without loops, read from the start of a path: what one reads and what is left
after it. -/

inductive PathPattern where
  | text (s : String)
  /-- One or more characters other than a slash. -/
  | nonSlash
  /-- The end of the path. -/
  | done
  | either (p q : PathPattern)
  | andThen (p q : PathPattern)

namespace PathPattern

instance : Append PathPattern := ⟨andThen⟩

instance : OrOp PathPattern := ⟨either⟩

/-- What is left after one or more characters other than a slash. -/
def afterNonSlash : List Char → List (List Char)
  | [] => []
  | c :: s => if c = '/' then [] else s :: afterNonSlash s

/-- What can be left after the pattern. -/
def rests : PathPattern → List Char → List (List Char)
  | text t, s => (t.toList.isPrefixOf? s).toList
  | nonSlash, s => afterNonSlash s
  | done, s => if s = [] then [[]] else []
  | either p q, s => p.rests s ++ q.rests s
  | andThen p q, s => (p.rests s).flatMap q.rests

/-- `RegExp.test` of the pattern after `^`. -/
def test (p : PathPattern) (path : List Char) : Bool :=
  !(p.rests path).isEmpty

theorem mem_afterNonSlash {s r : List Char} :
    r ∈ afterNonSlash s ↔ ∃ front, front ≠ [] ∧ '/' ∉ front ∧ s = front ++ r := by
  induction s with
  | nil => simp [afterNonSlash]
  | cons c s ih =>
    rw [afterNonSlash]
    by_cases hc : c = '/'
    · subst hc
      rw [if_pos rfl]
      constructor
      · intro h
        cases h
      · intro ⟨front, hne, hslash, heq⟩
        obtain ⟨d, front, rfl⟩ := List.exists_cons_of_ne_nil hne
        obtain ⟨rfl, -⟩ := List.cons.inj heq
        exact absurd List.mem_cons_self hslash
    · rw [if_neg hc, List.mem_cons, ih]
      constructor
      · intro h
        rcases h with rfl | ⟨front, -, hslash, rfl⟩
        · exact ⟨[c], by simp, by simpa using Ne.symm hc, rfl⟩
        · exact ⟨c :: front, by simp, by simp [Ne.symm hc, hslash], rfl⟩
      · intro ⟨front, hne, hslash, heq⟩
        obtain ⟨d, front, rfl⟩ := List.exists_cons_of_ne_nil hne
        obtain ⟨rfl, rfl⟩ := List.cons.inj heq
        by_cases hfront : front = []
        · subst hfront
          exact Or.inl rfl
        · exact Or.inr ⟨front, hfront, fun h => hslash (List.mem_cons_of_mem _ h), rfl⟩

@[simp]
theorem mem_rests_text {t : String} {s r : List Char} :
    r ∈ rests (text t) s ↔ s = t.toList ++ r := by
  rw [rests, Option.mem_toList, List.isPrefixOf?_eq_some_iff_append_eq, eq_comm]

@[simp]
theorem mem_rests_nonSlash {s r : List Char} :
    r ∈ rests nonSlash s ↔ ∃ front, front ≠ [] ∧ '/' ∉ front ∧ s = front ++ r := mem_afterNonSlash

@[simp]
theorem mem_rests_done {s r : List Char} : r ∈ rests done s ↔ s = [] ∧ r = [] := by
  rw [rests]
  split_ifs with h <;> simp [h]

@[simp]
theorem mem_rests_either {p q : PathPattern} {s r : List Char} :
    r ∈ rests (p ||| q) s ↔ r ∈ p.rests s ∨ r ∈ q.rests s := List.mem_append

@[simp]
theorem mem_rests_andThen {p q : PathPattern} {s r : List Char} :
    r ∈ rests (p ++ q) s ↔ ∃ mid ∈ p.rests s, r ∈ q.rests mid := List.mem_flatMap

theorem test_iff {p : PathPattern} {path : List Char} :
    p.test path = true ↔ ∃ r, r ∈ p.rests path := by
  rw [test, Bool.not_eq_true', List.isEmpty_eq_false_iff_exists_mem]

/-- Where the first slash stands is in the path alone. -/
theorem nonSlash_inj {front front' r r' : List Char} (h : '/' ∉ front) (h' : '/' ∉ front')
    (heq : front ++ '/' :: r = front' ++ '/' :: r') : front = front' ∧ r = r' := by
  induction front generalizing front' with
  | nil =>
    cases front' with
    | nil => exact ⟨rfl, (List.cons.inj heq).2⟩
    | cons c front' =>
      obtain ⟨rfl, -⟩ := List.cons.inj heq
      exact absurd List.mem_cons_self h'
  | cons c front ih =>
    cases front' with
    | nil =>
      obtain ⟨rfl, -⟩ := List.cons.inj heq
      exact absurd List.mem_cons_self h
    | cons c' front' =>
      obtain ⟨rfl, hrest⟩ := List.cons.inj heq
      rw [List.mem_cons, not_or] at h h'
      obtain ⟨rfl, hr⟩ := ih h.2 h'.2 hrest
      exact ⟨rfl, hr⟩

end PathPattern
