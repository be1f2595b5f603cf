import Mathlib

/-! Lists in the order of a key, with equal keys in any order: one comes from the other by swaps of neighbours, and a
stable sort moves neighbours of one key together. -/

namespace StableSort

section Swaps

variable {α β : Type}

/-- Two neighbours that are related change places. -/
def Swap (R : α → α → Prop) (l l' : List α) : Prop :=
  ∃ lo a b hi, l = lo ++ a :: b :: hi ∧ l' = lo ++ b :: a :: hi ∧ R a b

variable {R : α → α → Prop} {l l' lo hi : List α} {x : α}

theorem Swap.cons (x : α) (h : Swap R l l') : Swap R (x :: l) (x :: l') := by
  obtain ⟨lo, a, b, hi, rfl, rfl, hab⟩ := h
  exact ⟨x :: lo, a, b, hi, rfl, rfl, hab⟩

theorem Swap.imp {S : α → α → Prop} (hRS : ∀ a b, R a b → S a b) (h : Swap R l l') : Swap S l l' := by
  obtain ⟨lo, a, b, hi, rfl, rfl, hab⟩ := h
  exact ⟨lo, a, b, hi, rfl, rfl, hRS a b hab⟩

theorem Swap.symm (hR : ∀ a b, R a b → R b a) (h : Swap R l l') : Swap R l' l := by
  obtain ⟨lo, a, b, hi, rfl, rfl, hab⟩ := h
  exact ⟨lo, b, a, hi, rfl, rfl, hR a b hab⟩

theorem swaps_to_front (h : ∀ a ∈ lo, R a x) :
    Relation.ReflTransGen (Swap R) (lo ++ x :: hi) (x :: (lo ++ hi)) := by
  induction lo with
  | nil => exact .refl
  | cons a lo ih =>
    obtain ⟨ha, hlo⟩ := List.forall_mem_cons.1 h
    refine .tail ((ih hlo).lift (a :: ·) fun _ _ => Swap.cons a) ?_
    exact ⟨[], a, x, lo ++ hi, rfl, rfl, ha⟩

/-- Two lists of the same elements in the order of the key differ by swaps of neighbours of one key. -/
theorem swaps_of_sorted {key : α → ℕ} (hperm : l.Perm l') (hl : l.Pairwise fun a b => key a ≤ key b)
    (hl' : l'.Pairwise fun a b => key a ≤ key b) (hR : ∀ a ∈ l, ∀ b ∈ l, key a = key b → R a b) :
    Relation.ReflTransGen (Swap R) l l' := by
  induction l' generalizing l with
  | nil =>
    obtain rfl := List.perm_nil.1 hperm
    exact .refl
  | cons x l' ih =>
    obtain ⟨lo, hi, rfl⟩ := List.append_of_mem (hperm.mem_iff.2 List.mem_cons_self)
    have hrest : (lo ++ hi).Perm l' := List.perm_cons x |>.1 (List.perm_middle.symm.trans hperm)
    obtain ⟨hfirst, hl'⟩ := List.pairwise_cons.1 hl'
    have hsub : (lo ++ hi).Sublist (lo ++ x :: hi) := (List.Sublist.refl lo).append (List.sublist_cons_self x hi)
    refine .trans (swaps_to_front fun a ha => ?_) ((ih hrest (hl.sublist hsub) hl' ?_).lift (x :: ·) fun _ _ => Swap.cons x)
    · have hle := (List.pairwise_append.1 hl).2.2 a ha x List.mem_cons_self
      have hge := hfirst a (hrest.mem_iff.1 (List.mem_append_left _ ha))
      exact hR a (List.mem_append_left _ ha) x (by simp) (le_antisymm hle hge)
    · exact fun a ha b hb => hR a (hsub.subset ha) b (hsub.subset hb)

theorem Swap.filter (q : α → Bool) (h : Swap R l l') :
    l.filter q = l'.filter q ∨ Swap (fun a b => R a b ∧ q a = true ∧ q b = true) (l.filter q) (l'.filter q) := by
  obtain ⟨lo, a, b, hi, rfl, rfl, hab⟩ := h
  by_cases ha : q a = true
  · by_cases hb : q b = true
    · exact .inr ⟨lo.filter q, a, b, hi.filter q, by simp [ha, hb], by simp [ha, hb], hab, ha, hb⟩
    · exact .inl (by simp [List.filter_cons, hb])
  · exact .inl (by simp [List.filter_cons, ha])

theorem Swap.perm (h : Swap R l l') : l.Perm l' := by
  obtain ⟨lo, a, b, hi, rfl, rfl, -⟩ := h
  exact (List.Perm.swap b a hi).append_left lo

theorem Swap.forall₂ {S : α → β → Prop} {m : List β} (h : Swap R l l') (hm : List.Forall₂ S l m) :
    ∃ m', List.Forall₂ S l' m' ∧ Swap (fun x y => ∃ a b, R a b ∧ S a x ∧ S b y) m m' := by
  obtain ⟨lo, a, b, hi, rfl, rfl, hab⟩ := h
  induction lo generalizing m with
  | nil =>
    obtain ⟨x, _, ha, hrest, rfl⟩ := List.forall₂_cons_left_iff.1 hm
    obtain ⟨y, m, hb, hhi, rfl⟩ := List.forall₂_cons_left_iff.1 hrest
    exact ⟨y :: x :: m, .cons hb (.cons ha hhi), [], x, y, m, rfl, rfl, a, b, hab, ha, hb⟩
  | cons c lo ih =>
    obtain ⟨z, m, hc, hrest, rfl⟩ := List.forall₂_cons_left_iff.1 hm
    obtain ⟨m', hm', hswap⟩ := ih hrest
    exact ⟨z :: m', .cons hc hm', hswap.cons z⟩

end Swaps

section Sorting

variable {α : Type} {r : α → α → Prop} [DecidableRel r]

theorem filter_orderedInsert [IsTrans α r] (p : α → Bool) (x : α) {l : List α} (hl : l.Pairwise r) :
    (List.orderedInsert r x l).filter p =
      if p x then List.orderedInsert r x (l.filter p) else l.filter p := by
  induction l with
  | nil => simp [List.filter_singleton]
  | cons y l ih =>
    obtain ⟨hy, hl⟩ := List.pairwise_cons.1 hl
    rw [List.orderedInsert_cons]
    by_cases hxy : r x y
    · -- what is below is behind `x` as well
      have hfront : List.orderedInsert r x ((y :: l).filter p) = x :: (y :: l).filter p := by
        cases hfilter : (y :: l).filter p with
        | nil => rfl
        | cons z rest =>
          have hz : z ∈ y :: l := List.mem_of_mem_filter (hfilter ▸ List.mem_cons_self)
          refine if_pos ?_
          rcases List.mem_cons.1 hz with rfl | hz
          · exact hxy
          · exact IsTrans.trans x y z hxy (hy z hz)
      rw [if_pos hxy, hfront, List.filter_cons]
    · rw [if_neg hxy, List.filter_cons, ih hl, List.filter_cons]
      split_ifs
      · rw [List.orderedInsert_cons, if_neg hxy]
      · rfl
      · rfl
      · rfl

/-- A part of a list is sorted as it is in the whole. -/
theorem filter_insertionSort [IsTrans α r] [Std.Total r] (p : α → Bool) (l : List α) :
    (List.insertionSort r l).filter p = List.insertionSort r (l.filter p) := by
  induction l with
  | nil => rfl
  | cons x l ih =>
    rw [List.insertionSort_cons, filter_orderedInsert p x (List.pairwise_insertionSort r l), ih, List.filter_cons]
    split_ifs <;> rfl

/-- Elements that the order does not tell apart from each other, and from `c`. -/
structure Tied (r : α → α → Prop) (c : α) (C : List α) : Prop where
  left : ∀ d ∈ C, ∀ x, r x d ↔ r x c
  right : ∀ d ∈ C, ∀ x, r d x ↔ r c x

theorem orderedInsert_pass {x : α} {lo hi : List α} (h : ∀ y ∈ lo, ¬ r x y) :
    List.orderedInsert r x (lo ++ hi) = lo ++ List.orderedInsert r x hi := by
  induction lo with
  | nil => rfl
  | cons y lo ih =>
    obtain ⟨hy, hlo⟩ := List.forall_mem_cons.1 h
    rw [List.cons_append, List.orderedInsert_cons, if_neg hy, ih hlo, List.cons_append]

theorem orderedInsert_within {x : α} {lo hi : List α} (h : ∃ y ∈ lo, r x y) :
    List.orderedInsert r x (lo ++ hi) = List.orderedInsert r x lo ++ hi := by
  induction lo with
  | nil =>
    obtain ⟨y, hy, -⟩ := h
    exact absurd hy List.not_mem_nil
  | cons y lo ih =>
    rw [List.cons_append, List.orderedInsert_cons, List.orderedInsert_cons]
    split_ifs with hxy
    · rfl
    · obtain ⟨z, hz, hxz⟩ := h
      rcases List.mem_cons.1 hz with rfl | hz
      · exact absurd hxz hxy
      · rw [ih ⟨z, hz, hxz⟩, List.cons_append]

theorem orderedInsert_front {x : α} {l : List α} (h : ∀ y ∈ l.head?, r x y) : List.orderedInsert r x l = x :: l := by
  cases l with
  | nil => rfl
  | cons y l => rw [List.orderedInsert_cons, if_pos (h y rfl)]

theorem insertionSort_append (l l' : List α) :
    List.insertionSort r (l ++ l') = l.foldr (List.orderedInsert r) (List.insertionSort r l') := by
  induction l with
  | nil => rfl
  | cons x l ih => rw [List.cons_append, List.insertionSort_cons, ih, List.foldr_cons]

/-- What is tied goes, in its order, between what is below and what is not. -/
theorem foldr_orderedInsert_tied {c : α} (hc : r c c) {C lo hi : List α} (hC : Tied r c C) (hbelow : ∀ y ∈ lo, ¬ r c y)
    (habove : ∀ y ∈ hi.head?, r c y) : C.foldr (List.orderedInsert r) (lo ++ hi) = lo ++ (C ++ hi) := by
  induction C with
  | nil => rfl
  | cons d C ih =>
    have hCtail : Tied r c C :=
      ⟨fun e he => hC.left e (List.mem_cons_of_mem _ he), fun e he => hC.right e (List.mem_cons_of_mem _ he)⟩
    have hd (y : α) : r d y ↔ r c y := hC.right d List.mem_cons_self y
    rw [List.foldr_cons, ih hCtail, orderedInsert_pass, orderedInsert_front, List.cons_append]
    · intro y hy
      rw [hd]
      cases C with
      | nil => exact habove y hy
      | cons e C =>
        obtain rfl : e = y := by simpa using hy
        exact (hCtail.left e List.mem_cons_self c).2 hc
    · intro y hy
      rw [hd]
      exact hbelow y hy

/-- Neighbours that are tied stay together and in their order, and where they are put depends on the rest only. -/
theorem insertionSort_tied (c : α) (hc : r c c) (lo hi : List α) :
    ∃ lo' hi', ∀ C ≠ [], Tied r c C → List.insertionSort r (lo ++ (C ++ hi)) = lo' ++ (C ++ hi') := by
  induction lo with
  | nil =>
    refine ⟨(List.insertionSort r hi).takeWhile fun y => ¬ r c y, (List.insertionSort r hi).dropWhile fun y => ¬ r c y,
      fun C _ hC => ?_⟩
    have hbelow : ∀ y ∈ (List.insertionSort r hi).takeWhile fun y => ¬ r c y, ¬ r c y := by
      intro y hy
      simpa using List.mem_takeWhile_imp hy
    have habove : ∀ y ∈ ((List.insertionSort r hi).dropWhile fun y => ¬ r c y).head?, r c y := by
      intro y hy
      have hnot := List.head?_dropWhile_not (fun y => decide (¬ r c y)) (List.insertionSort r hi)
      rw [Option.mem_def.1 hy] at hnot
      simpa using hnot
    rw [List.nil_append, insertionSort_append, ← foldr_orderedInsert_tied hc hC hbelow habove,
      List.takeWhile_append_dropWhile]
  | cons x lo ih =>
    obtain ⟨lo', hi', hsorted⟩ := ih
    by_cases hwithin : ∃ y ∈ lo', r x y
    · refine ⟨List.orderedInsert r x lo', hi', fun C hne hC => ?_⟩
      rw [List.cons_append, List.insertionSort_cons, hsorted C hne hC, orderedInsert_within hwithin]
    · have hpass : ∀ y ∈ lo', ¬ r x y := fun y hy hxy => hwithin ⟨y, hy, hxy⟩
      by_cases hxc : r x c
      · refine ⟨lo' ++ [x], hi', fun C hne hC => ?_⟩
        rw [List.cons_append, List.insertionSort_cons, hsorted C hne hC, orderedInsert_pass hpass,
          orderedInsert_front, List.append_assoc, List.singleton_append]
        obtain ⟨e, C, rfl⟩ := List.exists_cons_of_ne_nil hne
        intro y hy
        obtain rfl : e = y := by simpa using hy
        exact (hC.left e List.mem_cons_self x).2 hxc
      · refine ⟨lo', List.orderedInsert r x hi', fun C hne hC => ?_⟩
        have hpassC : ∀ y ∈ C, ¬ r x y := fun y hy hxy => hxc ((hC.left y hy x).1 hxy)
        rw [List.cons_append, List.insertionSort_cons, hsorted C hne hC, orderedInsert_pass hpass,
          orderedInsert_pass hpassC]

end Sorting

section Blocks

variable {α β : Type} {key : α → ℕ} {key' : β → ℕ} {f : α → List β}

theorem foldr_orderedInsert_flatMap (hkey : ∀ x, ∀ y ∈ f x, key' y = key x) {l : List α}
    (hl : l.Pairwise fun a b => key a ≤ key b) (x : α) :
    (f x).foldr (List.orderedInsert fun a b => key' a ≤ key' b) (l.flatMap f) =
      (List.orderedInsert (fun a b => key a ≤ key b) x l).flatMap f := by
  rw [List.orderedInsert_eq_take_drop]
  -- what is below the block, and what is not
  have hlo : ∀ z ∈ l.takeWhile fun z => ¬ key x ≤ key z, ¬ key x ≤ key z := by
    intro z hz
    simpa using List.mem_takeWhile_imp hz
  have hhi : ∀ z ∈ l.dropWhile fun z => ¬ key x ≤ key z, key x ≤ key z := by
    have hsorted := hl.sublist (List.dropWhile_sublist fun z => decide (¬ key x ≤ key z))
    have hfirst := List.head?_dropWhile_not (fun z => decide (¬ key x ≤ key z)) l
    intro z hz
    cases hdrop : l.dropWhile fun z => ¬ key x ≤ key z with
    | nil =>
      rw [hdrop] at hz
      cases hz
    | cons y rest =>
      rw [hdrop] at hz hsorted hfirst
      have hy : key x ≤ key y := by simpa using hfirst
      rcases List.mem_cons.1 hz with rfl | hrest
      · exact hy
      · exact hy.trans ((List.pairwise_cons.1 hsorted).1 z hrest)
  have hsplit : l.flatMap f = (l.takeWhile fun z => ¬ key x ≤ key z).flatMap f ++
      (l.dropWhile fun z => ¬ key x ≤ key z).flatMap f := by
    rw [← List.flatMap_append, List.takeWhile_append_dropWhile]
  rw [hsplit, List.flatMap_append, List.flatMap_cons]
  cases hx : f x with
  | nil => rfl
  | cons c C =>
    have hc : key' c = key x := hkey x c (by simp [hx])
    have hsame : ∀ d ∈ c :: C, key' d = key' c := by
      rw [← hx, hc]
      exact hkey x
    have htied : Tied (fun a b => key' a ≤ key' b) c (c :: C) :=
      ⟨fun d hd y => by rw [hsame d hd], fun d hd y => by rw [hsame d hd]⟩
    refine @foldr_orderedInsert_tied β (fun a b => key' a ≤ key' b) _ c (le_refl (key' c)) (c :: C) _ _ htied
      (fun y hy => ?_) fun y hy => ?_
    · obtain ⟨z, hz, hin⟩ := List.mem_flatMap.1 hy
      rw [hkey z y hin, hc]
      exact hlo z hz
    · obtain ⟨z, hz, hin⟩ := List.mem_flatMap.1 (List.mem_of_mem_head? hy)
      rw [hkey z y hin, hc]
      exact hhi z hz

/-- Blocks of one key each are sorted as blocks. -/
theorem insertionSort_flatMap (hkey : ∀ x, ∀ y ∈ f x, key' y = key x) (l : List α) :
    (l.flatMap f).insertionSort (fun a b => key' a ≤ key' b) =
      (l.insertionSort fun a b => key a ≤ key b).flatMap f := by
  induction l with
  | nil => rfl
  | cons x l ih =>
    rw [List.flatMap_cons, insertionSort_append, ih, List.insertionSort_cons,
      foldr_orderedInsert_flatMap hkey (List.pairwise_insertionSort _ l)]

end Blocks

end StableSort
