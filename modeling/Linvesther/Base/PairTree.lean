import Mathlib

/-! Trees over a list: every level pairs the one below, and the last element of an odd level is
paired with itself. A walk climbs from one element with the siblings it is given; where pairing does
not collide, only the tree's own element and siblings reach the top. -/

namespace PairTree

variable {α : Type*}

section Levels

/-- The pairs of a level, from left to right. -/
def pairs : List α → List (α × α)
  | [] => []
  | [a] => [(a, a)]
  | a :: b :: rest => (a, b) :: pairs rest

theorem length_pairs (level : List α) : (pairs level).length = (level.length + 1) / 2 := by
  induction level using pairs.induct with
  | case1 => simp [pairs]
  | case2 a => simp [pairs]
  | case3 a b rest ih =>
    simp only [pairs, List.length_cons, ih]
    omega

/-- Where the element beside position `i` of a level of `n` stands. -/
def siblingIndex (n i : ℕ) : ℕ :=
  if i % 2 = 0 then if i + 1 < n then i + 1 else i else i - 1

theorem siblingIndex_lt {n i : ℕ} (h : i < n) : siblingIndex n i < n := by
  unfold siblingIndex
  split_ifs <;> omega

/-- An element and its sibling, in the order of the level. -/
def ordered (i : ℕ) (a sibling : α) : α × α := if i % 2 = 0 then (a, sibling) else (sibling, a)

theorem ordered_inj {i : ℕ} {a a' s s' : α} (h : ordered i a s = ordered i a' s') :
    a = a' ∧ s = s' := by
  unfold ordered at h
  split_ifs at h
  · exact Prod.ext_iff.1 h
  · exact (Prod.ext_iff.1 h).symm

theorem getElem_pairs (level : List α) {i : ℕ} (h : i < level.length)
    (h' : i / 2 < (pairs level).length) :
    (pairs level)[i / 2] =
      ordered i level[i] (level.get ⟨siblingIndex level.length i, siblingIndex_lt h⟩) := by
  induction level using pairs.induct generalizing i with
  | case1 => exact absurd h (Nat.not_lt_zero i)
  | case2 a =>
    obtain rfl : i = 0 := by simpa using h
    rfl
  | case3 a b rest ih =>
    match i with
    | 0 => simp [pairs, siblingIndex, ordered]
    | 1 => simp [pairs, siblingIndex, ordered]
    | i + 2 =>
      have hi : i < rest.length := by simpa using h
      have hhalf : (i + 2) / 2 = i / 2 + 1 := by omega
      have hsibling : siblingIndex (rest.length + 2) (i + 2) = siblingIndex rest.length i + 2 := by
        unfold siblingIndex
        split_ifs <;> omega
      have hrest := ih hi (by rw [length_pairs]; omega)
      simp only [hhalf, pairs, List.getElem_cons_succ, hrest, List.length_cons, hsibling]
      simp [ordered]

variable (combine : α → α → α)

/-- The level above. -/
def pairUp (level : List α) : List α := (pairs level).map (Function.uncurry combine)

@[simp] theorem length_pairUp (level : List α) :
    (pairUp combine level).length = (level.length + 1) / 2 := by
  rw [pairUp, List.length_map, length_pairs]

theorem pairUp_ne_nil {level : List α} (h : level ≠ []) : pairUp combine level ≠ [] := by
  have := List.length_pos_iff.2 h
  rw [← List.length_pos_iff, length_pairUp]
  omega

theorem getElem_pairUp (level : List α) {i : ℕ} (h : i < level.length)
    (h' : i / 2 < (pairUp combine level).length) :
    (pairUp combine level)[i / 2] = Function.uncurry combine
      (ordered i level[i] (level.get ⟨siblingIndex level.length i, siblingIndex_lt h⟩)) := by
  simp only [pairUp, List.getElem_map]
  rw [getElem_pairs level h]

/-- How often `n` elements are paired up until one is left. -/
def height (n : ℕ) : ℕ := if 1 < n then height ((n + 1) / 2) + 1 else 0
termination_by n

/-- The levels from the given one to the top. -/
def levels (level : List α) : List (List α) :=
  if 1 < level.length then level :: levels (pairUp combine level) else [level]
termination_by level.length
decreasing_by simp; omega

/-- What is left at the end, the default for no elements at all. -/
def top (default : α) (level : List α) : α :=
  if 1 < level.length then top default (pairUp combine level) else level.headD default
termination_by level.length
decreasing_by simp; omega

/-- The siblings from `i` upward. -/
def path (level : List α) (i : ℕ) : List α :=
  if h : 1 < level.length ∧ i < level.length then
    level.get ⟨siblingIndex level.length i, siblingIndex_lt h.2⟩ :: path (pairUp combine level) (i / 2)
  else []
termination_by level.length
decreasing_by simp; omega

/-- Every pair that is combined on the way to the top. -/
def allPairs (level : List α) : List (α × α) :=
  if 1 < level.length then pairs level ++ allPairs (pairUp combine level) else []
termination_by level.length
decreasing_by simp; omega

theorem getLast_levels (default : α) {level : List α} (hne : level ≠ []) :
    (levels combine level).getLast? = some [top combine default level] := by
  induction level using allPairs.induct combine with
  | case1 level hlong ih =>
    rw [levels, if_pos hlong, top, if_pos hlong, List.getLast?_cons, ih (pairUp_ne_nil combine hne)]
    rfl
  | case2 level hshort =>
    have := List.length_pos_iff.2 hne
    obtain ⟨a, rfl⟩ := List.length_eq_one_iff.1 (show level.length = 1 by omega)
    rw [levels, if_neg hshort, top, if_neg hshort]
    rfl

end Levels

section Walk

variable (combine : α → α → α)

/-- The climb from position `i` with the given siblings. -/
def walk (a : α) (i : ℕ) : List α → α
  | [] => a
  | s :: siblings =>
    walk (Function.uncurry combine (ordered i a s)) (i / 2) siblings

/-- Every pair the climb combines. -/
def walkPairs (a : α) (i : ℕ) : List α → List (α × α)
  | [] => []
  | s :: siblings => ordered i a s ::
    walkPairs (Function.uncurry combine (ordered i a s)) (i / 2) siblings

theorem length_path {level : List α} {i : ℕ} (h : i < level.length) :
    (path combine level i).length = height level.length := by
  induction level using allPairs.induct combine generalizing i with
  | case1 level hlong ih =>
    rw [path, dif_pos ⟨hlong, h⟩, height, if_pos hlong, List.length_cons,
      ih (by rw [length_pairUp]; omega), length_pairUp]
  | case2 level hshort =>
    rw [path, dif_neg fun hc => hshort hc.1, height, if_neg hshort]
    rfl

/-- An element climbs to the top along its own path. -/
theorem walk_path (default : α) {level : List α} {i : ℕ} (h : i < level.length) :
    walk combine level[i] i (path combine level i) = top combine default level := by
  induction level using allPairs.induct combine generalizing i with
  | case1 level hlong ih =>
    have hi : i / 2 < (pairUp combine level).length := by rw [length_pairUp]; omega
    rw [path, dif_pos ⟨hlong, h⟩, top, if_pos hlong, walk, ← ih hi, getElem_pairUp combine level h]
  | case2 level hshort =>
    obtain ⟨a, rfl⟩ := List.length_eq_one_iff.1 (show level.length = 1 by omega)
    obtain rfl : i = 0 := by simpa using h
    rw [path, dif_neg fun hc => hshort hc.1, top, if_neg hshort]
    rfl

/-- A climb of the right height that reaches the top started from the tree's own element and took
the tree's own siblings, unless it combined a pair to the same value as a different pair of the
tree. -/
theorem eq_of_walk_eq_top (default : α) {level : List α} {i : ℕ} (h : i < level.length) {a : α}
    {siblings : List α} (hlength : siblings.length = height level.length)
    (hcollision : ∀ p ∈ walkPairs combine a i siblings, ∀ q ∈ allPairs combine level,
      Function.uncurry combine p = Function.uncurry combine q → p = q)
    (htop : walk combine a i siblings = top combine default level) :
    level[i] = a ∧ siblings = path combine level i := by
  induction level using allPairs.induct combine generalizing i a siblings with
  | case1 level hlong ih =>
    rw [height, if_pos hlong] at hlength
    obtain ⟨s, siblings, rfl⟩ := List.exists_cons_of_length_eq_add_one hlength
    have hi : i / 2 < (pairUp combine level).length := by rw [length_pairUp]; omega
    rw [top, if_pos hlong, walk] at htop
    rw [walkPairs, allPairs, if_pos hlong] at hcollision
    have habove := ih hi (by simpa using hlength)
      (fun p hp q hq => hcollision p (List.mem_cons_of_mem _ hp) q (List.mem_append_right _ hq)) htop
    -- The parent is the tree's own, so the pair below it is.
    have hi' : i / 2 < (pairs level).length := by rw [length_pairs]; omega
    have hpair := hcollision (ordered i a s) List.mem_cons_self (pairs level)[i / 2]
      (List.mem_append_left _ (List.getElem_mem hi'))
      (by rw [← habove.1, getElem_pairUp combine level h hi, getElem_pairs level h])
    rw [getElem_pairs level h] at hpair
    obtain ⟨rfl, rfl⟩ := ordered_inj hpair
    refine ⟨rfl, ?_⟩
    rw [path, dif_pos ⟨hlong, h⟩, habove.2]
  | case2 level hshort =>
    rw [height, if_neg hshort] at hlength
    obtain rfl := List.eq_nil_of_length_eq_zero hlength
    obtain ⟨b, rfl⟩ := List.length_eq_one_iff.1 (show level.length = 1 by omega)
    obtain rfl : i = 0 := by simpa using h
    rw [top, if_neg hshort] at htop
    refine ⟨htop.symm, ?_⟩
    rw [path, dif_neg fun hc => hshort hc.1]

end Walk

end PairTree
