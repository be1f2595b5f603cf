import Mathlib

/-! A list in the order of a key, read in windows of a fixed length: a window can end among the elements of one
key. -/

namespace Windows

variable {α : Type*} {key : α → ℕ} {l : List α}

/-- The elements whose key is at least `lo` and below `hi`. -/
def span (key : α → ℕ) (l : List α) (lo hi : ℕ) : List α := l.filter fun a => lo ≤ key a ∧ key a < hi

theorem mem_span {a : α} {lo hi : ℕ} : a ∈ span key l lo hi ↔ a ∈ l ∧ lo ≤ key a ∧ key a < hi := by
  simp [span]

theorem pairwise_span (h : l.Pairwise fun a b => key a ≤ key b) (lo hi : ℕ) :
    (span key l lo hi).Pairwise fun a b => key a ≤ key b :=
  h.filter _

theorem span_cons (a : α) (l : List α) (lo hi : ℕ) :
    span key (a :: l) lo hi = if lo ≤ key a ∧ key a < hi then a :: span key l lo hi else span key l lo hi := by
  simp [span, List.filter_cons]

theorem span_eq_nil {lo hi : ℕ} (h : ∀ a ∈ l, lo ≤ key a → hi ≤ key a) : span key l lo hi = [] := by
  rw [List.eq_nil_iff_forall_not_mem]
  intro a ha
  obtain ⟨hmem, hlo, hhi⟩ := mem_span.1 ha
  have := h a hmem hlo
  omega

/-- In the order of the key, a span is its lower part and then its upper part. -/
theorem span_append (h : l.Pairwise fun a b => key a ≤ key b) {lo mid hi : ℕ} (hlo : lo ≤ mid) (hhi : mid ≤ hi) :
    span key l lo mid ++ span key l mid hi = span key l lo hi := by
  induction l with
  | nil => rfl
  | cons a l ih =>
    obtain ⟨hfirst, hrest⟩ := List.pairwise_cons.1 h
    rw [span_cons, span_cons, span_cons]
    by_cases hlow : lo ≤ key a ∧ key a < mid
    · rw [if_pos hlow, if_neg (by omega), if_pos (by omega), List.cons_append, ih hrest]
    · rw [if_neg hlow]
      by_cases hhigh : mid ≤ key a ∧ key a < hi
      · have hnone : span key l lo mid = [] := by
          refine span_eq_nil fun b hb _ => ?_
          have := hfirst b hb
          omega
        have hsame := ih hrest
        rw [hnone, List.nil_append] at hsame
        rw [if_pos hhigh, if_pos (by omega), hnone, List.nil_append, hsame]
      · rw [if_neg hhigh, if_neg (by omega), ih hrest]

/-- What comes before the last key of a window is in the window. -/
theorem filter_take (h : l.Pairwise fun a b => key a ≤ key b) {n : ℕ} {last : α}
    (hlast : (l.take n).getLast? = some last) :
    (l.take n).filter (fun a => key a < key last) = l.filter fun a => key a < key last := by
  have hdrop : (l.drop n).filter (fun a => key a < key last) = [] := by
    rw [List.filter_eq_nil_iff]
    intro a ha
    have hsplit := h
    rw [← List.take_append_drop n l, List.pairwise_append] at hsplit
    have := hsplit.2.2 last (List.mem_of_getLast? hlast) a ha
    rw [decide_eq_true_eq]
    omega
  conv_rhs => rw [← List.take_append_drop n l]
  rw [List.filter_append, hdrop, List.append_nil]

/-- A window whose first key is its last holds that key only. -/
theorem key_eq_last (h : l.Pairwise fun a b => key a ≤ key b) {first last : α} (hfirst : l.head? = some first)
    (hlast : l.getLast? = some last) (hsame : key first = key last) : ∀ a ∈ l, key a = key last := by
  intro a ha
  apply le_antisymm
  · obtain ⟨front, rfl⟩ := List.getLast?_eq_some_iff.1 hlast
    rcases List.mem_append.1 ha with hfront | hend
    · exact (List.pairwise_append.1 h).2.2 a hfront last (List.mem_singleton.2 rfl)
    · rw [List.mem_singleton.1 hend]
  · obtain ⟨rest, rfl⟩ := List.head?_eq_some_iff.1 hfirst
    rcases List.mem_cons.1 ha with rfl | hrest
    · exact hsame.ge
    · rw [← hsame]
      exact (List.pairwise_cons.1 h).1 a hrest

end Windows
