import Mathlib

/-! The `LIKE` of SQL: a character stands for itself, `_` for any one and `%` for any text; an escape makes the
next character stand for itself. -/

namespace LikePattern

inductive Item where
  | char (c : Char)
  | one
  | many
deriving DecidableEq

def item (c : Char) : Item := if c = '%' then .many else if c = '_' then .one else .char c

/-- Nothing is left for an escape at the end to stand before. -/
def parse (escape : Char) : List Char → Option (List Item)
  | [] => some []
  | [c] => if c = escape then none else some [item c]
  | c :: d :: rest =>
    if c = escape then (parse escape rest).map (.char d :: ·)
    else (parse escape (d :: rest)).map (item c :: ·)

def accepts : List Item → List Char → Bool
  | [], s => s = []
  | .char _ :: _, [] => false
  | .char c :: p, d :: s => c = d && accepts p s
  | .one :: _, [] => false
  | .one :: p, _ :: s => accepts p s
  | .many :: p, s => s.tails.any (accepts p)

/-- A pattern that cannot be read is an error, and matches nothing. -/
def like (escape : Char) (pattern s : List Char) : Bool :=
  match parse escape pattern with
  | some p => accepts p s
  | none => false

/-- Characters that stand for themselves. -/
def Plain (escape : Char) (text : List Char) : Prop := ∀ c ∈ text, c ≠ escape ∧ c ≠ '%' ∧ c ≠ '_'

variable {escape : Char} {text s : List Char}

theorem parse_cons {c : Char} (hc : c ≠ escape) (rest : List Char) :
    parse escape (c :: rest) = (parse escape rest).map (item c :: ·) := by
  cases rest with
  | nil => simp [parse, hc]
  | cons d rest => rw [parse, if_neg hc]

theorem parse_text (h : Plain escape text) (rest : List Char) :
    parse escape (text ++ rest) = (parse escape rest).map (text.map .char ++ ·) := by
  induction text with
  | nil => simp
  | cons c text ih =>
    obtain ⟨hescape, hmany, hone⟩ := h c List.mem_cons_self
    rw [List.cons_append, parse_cons hescape, ih fun d hd => h d (List.mem_cons_of_mem _ hd), Option.map_map,
      item, if_neg hmany, if_neg hone]
    rfl

theorem accepts_text (p : List Item) :
    accepts (text.map .char ++ p) s = true ↔ ∃ t, s = text ++ t ∧ accepts p t = true := by
  induction text generalizing s with
  | nil => simp
  | cons c text ih =>
    cases s with
    | nil => simp [accepts]
    | cons d s =>
      rw [List.map_cons, List.cons_append, accepts, Bool.and_eq_true, decide_eq_true_eq, ih]
      constructor
      · intro ⟨hc, t, ht, hp⟩
        exact ⟨t, by rw [hc, ht, List.cons_append], hp⟩
      · intro ⟨t, ht, hp⟩
        obtain ⟨rfl, rfl⟩ := List.cons.inj ht
        exact ⟨rfl, t, rfl, hp⟩

theorem accepts_many : accepts [.many] s = true := by
  rw [accepts, List.any_eq_true]
  exact ⟨[], (List.mem_tails _ _).2 (List.nil_suffix), rfl⟩

/-- A plain text, an escaped character and then anything. -/
theorem like_prefix_iff (h : Plain escape text) (c : Char) (hmany : '%' ≠ escape) :
    like escape (text ++ [escape, c, '%']) s = true ↔ ∃ t, s = text ++ c :: t := by
  have hrest : parse escape [escape, c, '%'] = some [.char c, .many] := by
    simp [parse, hmany, item]
  rw [like, parse_text h, hrest, Option.map_some]
  dsimp only
  rw [accepts_text]
  constructor
  · intro ⟨t, hs, ht⟩
    cases t with
    | nil => simp [accepts] at ht
    | cons d t =>
      rw [accepts, Bool.and_eq_true, decide_eq_true_eq] at ht
      exact ⟨t, ht.1 ▸ hs⟩
  · intro ⟨t, hs⟩
    refine ⟨c :: t, hs, ?_⟩
    rw [accepts, accepts_many, Bool.and_true, decide_eq_true_eq]

end LikePattern
