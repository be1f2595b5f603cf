import Mathlib

/-! The blocks a chain may have, on all its branches. A block is its hash, and a branch is named by
the hash of its tip. -/

namespace Linvesther.ChainWorker

structure BlockHeader (H : Type) where
  number : ℕ
  hash : H
  parentHash : H
deriving DecidableEq

/-- Every block knows its number and its parent, which is numbered one below. -/
structure BlockTree (H : Type) where
  number : H → ℕ
  parentHash : H → H
  number_parentHash : ∀ h, number h ≠ 0 → number (parentHash h) + 1 = number h

namespace BlockTree

variable {H : Type} (tree : BlockTree H)

def header (h : H) : BlockHeader H := ⟨tree.number h, h, tree.parentHash h⟩

/-- The block of the given number on the branch that ends in `tip`. -/
def canonical (tip : H) (n : ℕ) : H := tree.parentHash^[tree.number tip - n] tip

/-- The headers numbered `first`, …, `first + length - 1` of that branch. -/
def segment (tip : H) (first length : ℕ) : List (BlockHeader H) :=
  (List.range' first length).map fun n => tree.header (tree.canonical tip n)

variable {tree} {tip : H} {n m : ℕ}

theorem number_iterate (h : H) {k : ℕ} (hk : k ≤ tree.number h) :
    tree.number (tree.parentHash^[k] h) = tree.number h - k := by
  induction k with
  | zero => rfl
  | succ k ih =>
    rw [Function.iterate_succ_apply']
    have hprev := ih (by omega)
    have := tree.number_parentHash (tree.parentHash^[k] h) (by omega)
    omega

theorem number_canonical (h : n ≤ tree.number tip) : tree.number (tree.canonical tip n) = n := by
  rw [canonical, number_iterate _ (by omega)]
  omega

@[simp] theorem canonical_number (tip : H) : tree.canonical tip (tree.number tip) = tip := by
  simp [canonical]

/-- Below one of its blocks a branch is the branch of that block. -/
theorem canonical_canonical (hnm : n ≤ m) (hm : m ≤ tree.number tip) :
    tree.canonical (tree.canonical tip m) n = tree.canonical tip n := by
  rw [canonical, number_canonical hm, canonical, canonical, ← Function.iterate_add_apply]
  congr 1
  omega

theorem parentHash_canonical (h : n + 1 ≤ tree.number tip) :
    tree.parentHash (tree.canonical tip (n + 1)) = tree.canonical tip n := by
  have hstep : tree.number tip - n = (tree.number tip - (n + 1)) + 1 := by omega
  rw [canonical, canonical, hstep, Function.iterate_succ_apply']

theorem canonical_parentHash (h : n < tree.number tip) :
    tree.canonical (tree.parentHash tip) n = tree.canonical tip n := by
  have := tree.number_parentHash tip (by omega)
  rw [canonical, canonical, ← Function.iterate_succ_apply]
  congr 1
  omega

@[simp] theorem length_segment (tip : H) (first length : ℕ) :
    (tree.segment tip first length).length = length := by
  simp [segment]

theorem segment_append (tip : H) (first a b : ℕ) :
    tree.segment tip first (a + b) = tree.segment tip first a ++ tree.segment tip (first + a) b := by
  simp [segment, List.range'_append_1, ← List.map_append]

theorem take_segment {first length k : ℕ} (h : k ≤ length) :
    (tree.segment tip first length).take k = tree.segment tip first k := by
  obtain ⟨d, rfl⟩ := Nat.exists_eq_add_of_le h
  rw [segment_append, List.take_left' (by simp)]

/-- Branches that agree on a block agree on everything before it. -/
theorem segment_congr {tip' : H} {first length : ℕ}
    (h : ∀ n, first ≤ n → n < first + length → tree.canonical tip n = tree.canonical tip' n) :
    tree.segment tip first length = tree.segment tip' first length := by
  refine List.map_congr_left fun n hn => ?_
  rw [List.mem_range'_1] at hn
  rw [h n hn.1 hn.2]

/-- On a branch each block is numbered one above the block before it and names it as its parent. -/
theorem isChain_segment {first length : ℕ} (h : first + length ≤ tree.number tip + 1) :
    (tree.segment tip first length).IsChain fun a b =>
      b.number = a.number + 1 ∧ b.parentHash = a.hash := by
  induction length with
  | zero => exact .nil
  | succ k ih =>
    rw [segment_append, List.isChain_append]
    refine ⟨ih (by omega), by simp [segment], fun a ha b hb => ?_⟩
    cases k with
    | zero => simp [segment] at ha
    | succ k =>
      rw [segment_append] at ha
      simp only [segment, List.range'_one, List.map_cons, List.map_nil, List.getLast?_append_cons,
        List.getLast?_singleton, List.head?_cons, Option.mem_some_iff] at ha hb
      subst ha hb
      simp only [header, ← Nat.add_assoc]
      rw [number_canonical (by omega), number_canonical (by omega)]
      exact ⟨rfl, parentHash_canonical (by omega)⟩

end BlockTree

end Linvesther.ChainWorker
