import Mathlib

/-! The elements of a list, and of parts of it, numbered by their places. -/

namespace Numbering

variable {α κ : Type}

/-- An element of a part has as its number how many of the part come before it in the whole. -/
theorem zipIdx_filter (p : α → Bool) (l : List α) (n k : ℕ) :
    (l.filter p).zipIdx n =
      ((l.zipIdx k).filter fun x => p x.1).map fun x => (x.1, n + (l.take (x.2 - k)).countP p) := by
  induction l generalizing n k with
  | nil => rfl
  | cons a l ih =>
    have hlater {x : α × ℕ} (hx : x ∈ (l.zipIdx (k + 1)).filter fun x => p x.1) :
        (a :: l).take (x.2 - k) = a :: l.take (x.2 - (k + 1)) := by
      have hle := List.le_snd_of_mem_zipIdx (List.mem_of_mem_filter hx)
      rw [show x.2 - k = x.2 - (k + 1) + 1 by omega, List.take_succ_cons]
    rw [List.zipIdx_cons]
    by_cases ha : p a = true
    · have hpart : (((a, k) :: l.zipIdx (k + 1)).filter fun x => p x.1) =
          (a, k) :: (l.zipIdx (k + 1)).filter fun x => p x.1 := List.filter_cons_of_pos ha
      rw [List.filter_cons_of_pos ha, hpart, List.zipIdx_cons, List.map_cons, ih (n + 1) (k + 1)]
      refine congrArg₂ List.cons (by simp) (List.map_congr_left fun x hx => ?_)
      rw [hlater hx, List.countP_cons_of_pos ha, Prod.mk.injEq]
      exact ⟨rfl, by omega⟩
    · have hpart : (((a, k) :: l.zipIdx (k + 1)).filter fun x => p x.1) =
          (l.zipIdx (k + 1)).filter fun x => p x.1 := List.filter_cons_of_neg ha
      rw [List.filter_cons_of_neg ha, hpart, ih n (k + 1)]
      refine List.map_congr_left fun x hx => ?_
      rw [hlater hx, List.countP_cons_of_neg ha]

/-- Of two elements of a part the later one has more of it before. -/
theorem countP_take_lt {p : α → Bool} {l : List α} {i j : ℕ} {a : α} (ha : l[i]? = some a) (hp : p a = true) (h : i < j) :
    (l.take i).countP p < (l.take j).countP p := by
  obtain ⟨d, rfl⟩ : ∃ d, j = i + 1 + d := ⟨j - (i + 1), by omega⟩
  have hnext : l.take (i + 1) = l.take i ++ [a] := by
    rw [List.take_add_one, ha]
    rfl
  have hprefix : (l.take (i + 1)).countP p ≤ (l.take (i + 1 + d)).countP p :=
    (List.take_prefix_take_left (Nat.le_add_right _ _)).sublist.countP_le
  rw [hnext, List.countP_append, List.countP_singleton, if_pos hp] at hprefix
  omega

theorem countP_take_lt_countP {p : α → Bool} {l : List α} {i : ℕ} {a : α} (ha : l[i]? = some a) (hp : p a = true) :
    (l.take i).countP p < l.countP p := by
  have hlt := countP_take_lt ha hp (List.getElem?_eq_some_iff.1 ha).1
  rwa [List.take_length] at hlt

/-- Two ways to number some elements in their order are one if they fill the same numbers, of which there are no more
than elements. -/
theorem eq_of_filled {xs : List α} {f g : α → ℕ} (hf : xs.Pairwise fun a b => f a < f b)
    (hg : xs.Pairwise fun a b => g a < g b) {code : ℕ → κ}
    (hcode : ∀ x ∈ xs, ∀ y ∈ xs, code (f x) = code (g y) → f x = g y) (hcodef : (xs.map fun x => code (f x)).Nodup)
    (hcodeg : (xs.map fun x => code (g x)).Nodup) {filled : List κ} (hlength : filled.length ≤ xs.length)
    (hfilledf : ∀ x ∈ xs, code (f x) ∈ filled) (hfilledg : ∀ x ∈ xs, code (g x) ∈ filled) :
    ∀ x ∈ xs, f x = g x := by
  have hpermf : (xs.map fun x => code (f x)).Perm filled :=
    (hcodef.subperm (List.forall_mem_map.2 hfilledf)).perm_of_length_le (by rwa [List.length_map])
  have hpermg : (xs.map fun x => code (g x)).Perm filled :=
    (hcodeg.subperm (List.forall_mem_map.2 hfilledg)).perm_of_length_le (by rwa [List.length_map])
  have hsame : (xs.map f).Perm (xs.map g) := by
    rw [List.perm_ext_iff_of_nodup (List.pairwise_map.2 (hf.imp ne_of_lt)) (List.pairwise_map.2 (hg.imp ne_of_lt))]
    have hcodes := hpermf.trans hpermg.symm
    intro n
    constructor
    · intro hn
      obtain ⟨x, hx, rfl⟩ := List.mem_map.1 hn
      obtain ⟨y, hy, heq⟩ := List.mem_map.1 (hcodes.mem_iff.1 (List.mem_map.2 ⟨x, hx, rfl⟩))
      exact List.mem_map.2 ⟨y, hy, (hcode x hx y hy heq.symm).symm⟩
    · intro hn
      obtain ⟨y, hy, rfl⟩ := List.mem_map.1 hn
      obtain ⟨x, hx, heq⟩ := List.mem_map.1 (hcodes.mem_iff.2 (List.mem_map.2 ⟨y, hy, rfl⟩))
      exact List.mem_map.2 ⟨x, hx, hcode x hx y hy heq⟩
  have hascending {h : α → ℕ} (hh : xs.Pairwise fun a b => h a < h b) : (xs.map h).Pairwise (· < ·) :=
    List.pairwise_map.2 hh
  have hlists : xs.map f = xs.map g :=
    hsame.eq_of_pairwise (fun a b _ _ hab hba => absurd hab (lt_asymm hba)) (hascending hf) (hascending hg)
  exact List.map_inj_left.1 hlists

end Numbering
