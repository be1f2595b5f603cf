import Mathlib.Data.String.Basic
import Mathlib.Data.List.Basic

/-! Texts with the offsets of their bytes in UTF-8: slices at an offset, and what remains to be found in a text after
some of its ranges are cut out. -/

namespace Utf8

open String (utf8Len)

section Slices

/-- An offset that falls within a character splits nothing. -/
def splitAtByte : List Char → ℕ → Option (List Char × List Char)
  | s, 0 => some ([], s)
  | [], _ + 1 => none
  | c :: s, n + 1 =>
    if c.utf8Size ≤ n + 1 then (splitAtByte s (n + 1 - c.utf8Size)).map fun p => (c :: p.1, p.2) else none

def sliceFrom (s : List Char) (i : ℕ) : Option (List Char) := (splitAtByte s i).map Prod.snd

def slice (s : List Char) (i j : ℕ) : Option (List Char) :=
  if j < i then none
  else (sliceFrom s i).bind fun rest => (splitAtByte rest (j - i)).map Prod.fst

/-- The offset of the first occurrence. -/
def findBytes (needle : List Char) : List Char → Option ℕ
  | [] => if needle.isPrefixOf [] then some 0 else none
  | c :: s => if needle.isPrefixOf (c :: s) then some 0 else (findBytes needle s).map (· + c.utf8Size)

def Boundary (s : List Char) (i : ℕ) : Prop := ∃ a b, s = a ++ b ∧ utf8Len a = i

variable {s a b c d : List Char} {i j n : ℕ}

theorem splitAtByte_iff : splitAtByte s n = some (a, b) ↔ s = a ++ b ∧ utf8Len a = n := by
  induction s generalizing n a with
  | nil =>
    cases n with
    | zero => simpa [splitAtByte] using fun ha _ => ha
    | succ n =>
      refine iff_of_false (by simp [splitAtByte]) ?_
      rintro ⟨h, hlen⟩
      obtain ⟨rfl, -⟩ := List.append_eq_nil_iff.1 h.symm
      simp at hlen
  | cons c s ih =>
    cases n with
    | zero =>
      simp only [splitAtByte, Option.some.injEq, Prod.mk.injEq, String.utf8Len_eq_zero]
      constructor
      · rintro ⟨rfl, rfl⟩
        exact ⟨rfl, rfl⟩
      · rintro ⟨h, rfl⟩
        exact ⟨rfl, h⟩
    | succ n =>
      have hpos := c.utf8Size_pos
      simp only [splitAtByte]
      split_ifs with hle
      · simp only [Option.map_eq_some_iff, Prod.mk.injEq, Prod.exists]
        constructor
        · rintro ⟨a', b', h, rfl, rfl⟩
          obtain ⟨rfl, hlen⟩ := ih.1 h
          exact ⟨rfl, by rw [String.utf8Len_cons]; omega⟩
        · rintro ⟨h, hlen⟩
          cases a with
          | nil => simp at hlen
          | cons c' a' =>
            rw [List.cons_append, List.cons.injEq] at h
            obtain ⟨rfl, rfl⟩ := h
            rw [String.utf8Len_cons] at hlen
            exact ⟨a', b, ih.2 ⟨rfl, by omega⟩, rfl, rfl⟩
      · refine iff_of_false (by simp) ?_
        rintro ⟨h, hlen⟩
        cases a with
        | nil => simp at hlen
        | cons c' a' =>
          rw [List.cons_append, List.cons.injEq] at h
          rw [String.utf8Len_cons, ← h.1] at hlen
          omega

theorem findBytes_of_prefix {needle : List Char} (h : needle <+: s) : findBytes needle s = some 0 := by
  cases s with
  | nil => exact if_pos (List.isPrefixOf_iff_prefix.2 h)
  | cons c s => exact if_pos (List.isPrefixOf_iff_prefix.2 h)

theorem findBytes_of_not_prefix {needle : List Char} {c : Char} (h : ¬ needle <+: c :: s) :
    findBytes needle (c :: s) = (findBytes needle s).map (· + c.utf8Size) :=
  if_neg fun hprefix => h (List.isPrefixOf_iff_prefix.1 hprefix)

/-- Two ways to cut one text, in the order of their offsets. -/
theorem append_cut (h : a ++ b = c ++ d) (hle : utf8Len a ≤ utf8Len c) : ∃ e, c = a ++ e ∧ b = e ++ d := by
  rcases List.append_eq_append_iff.1 h with ⟨e, rfl, rfl⟩ | ⟨e, rfl, rfl⟩
  · exact ⟨e, rfl, rfl⟩
  · have hzero : utf8Len e = 0 := by
      rw [String.utf8Len_append] at hle
      omega
    rw [String.utf8Len_eq_zero] at hzero
    subst hzero
    exact ⟨[], by simp, by simp⟩

theorem sliceFrom_iff : sliceFrom s i = some b ↔ ∃ a, s = a ++ b ∧ utf8Len a = i := by
  simp only [sliceFrom, Option.map_eq_some_iff, Prod.exists, splitAtByte_iff, exists_eq_right]

theorem slice_iff : slice s i j = some b ↔ ∃ a c, s = a ++ b ++ c ∧ utf8Len a = i ∧ utf8Len (a ++ b) = j := by
  unfold slice
  split_ifs with hlt
  · refine iff_of_false (by simp) ?_
    rintro ⟨a, c, -, rfl, rfl⟩
    rw [String.utf8Len_append] at hlt
    omega
  · simp only [Option.bind_eq_some_iff, sliceFrom_iff, Option.map_eq_some_iff, Prod.exists, splitAtByte_iff,
      String.utf8Len_append]
    constructor
    · rintro ⟨rest, ⟨a, rfl, rfl⟩, b, c, ⟨rfl, hlen⟩, rfl⟩
      exact ⟨a, c, by simp, rfl, by omega⟩
    · rintro ⟨a, c, rfl, rfl, rfl⟩
      exact ⟨b ++ c, ⟨a, by simp, rfl⟩, b, c, ⟨rfl, by omega⟩, rfl⟩

theorem boundary_iff : Boundary s i ↔ ∃ b, sliceFrom s i = some b := by
  simp only [Boundary, sliceFrom_iff]
  exact exists_comm

theorem slice_isSome (hi : Boundary s i) (hle : i ≤ j) : (∃ b, slice s i j = some b) ↔ Boundary s j := by
  simp only [slice_iff, Boundary]
  constructor
  · rintro ⟨b, a, c, rfl, -, hj⟩
    exact ⟨a ++ b, c, rfl, hj⟩
  · rintro ⟨p, q, h, rfl⟩
    obtain ⟨a, r, rfl, rfl⟩ := hi
    obtain ⟨e, rfl, rfl⟩ := append_cut h hle
    exact ⟨e, a, q, by simp, rfl, rfl⟩

end Slices

section Cuts

/-- The text from an offset on, with the mark in place of the bytes from each cut on. -/
def cutOut (text mark : List Char) (width : ℕ) : List ℕ → ℕ → Option (List Char)
  | [], i => sliceFrom text i
  | b :: cuts, i =>
    (slice text i b).bind fun kept => (cutOut text mark width cuts (b + width)).map fun rest => kept ++ mark ++ rest

/-- A piece of the text at an offset that is what is looked for. -/
def OccursAt (P : List Char → Prop) (s : List Char) (q : ℕ) : Prop :=
  ∃ a m b, s = a ++ m ++ b ∧ P m ∧ utf8Len a = q

/-- The cuts begin where the offset is, and leave room for each other. -/
structure Spaced (width : ℕ) (cuts : List ℕ) (i : ℕ) : Prop where
  from_le : ∀ b ∈ cuts, i ≤ b
  apart : cuts.Pairwise fun b c => b + width ≤ c

variable {text mark out a b s : List Char} {width i : ℕ} {cuts : List ℕ} {P : List Char → Prop}

theorem Spaced.tail {b : ℕ} (h : Spaced width (b :: cuts) i) : Spaced width cuts (b + width) :=
  ⟨(List.pairwise_cons.1 h.apart).1, (List.pairwise_cons.1 h.apart).2⟩

theorem cutOut_isSome (hspaced : Spaced width cuts i) (hi : Boundary text i) :
    (∃ out, cutOut text mark width cuts i = some out) ↔
      ∀ b ∈ cuts, Boundary text b ∧ Boundary text (b + width) := by
  induction cuts generalizing i with
  | nil => simpa [cutOut, ← boundary_iff] using hi
  | cons b cuts ih =>
    have hslice := slice_isSome hi (hspaced.from_le b List.mem_cons_self)
    have hsome : (∃ out, cutOut text mark width (b :: cuts) i = some out) ↔
        (∃ kept, slice text i b = some kept) ∧ ∃ rest, cutOut text mark width cuts (b + width) = some rest := by
      simp only [cutOut, Option.bind_eq_some_iff, Option.map_eq_some_iff]
      constructor
      · rintro ⟨out, kept, hkept, rest, hrest, -⟩
        exact ⟨⟨kept, hkept⟩, rest, hrest⟩
      · rintro ⟨⟨kept, hkept⟩, rest, hrest⟩
        exact ⟨_, kept, hkept, rest, hrest, rfl⟩
    rw [hsome, hslice, List.forall_mem_cons]
    constructor
    · rintro ⟨hb, rest, hrest⟩
      have hend : Boundary text (b + width) := by
        cases cuts with
        | nil => exact boundary_iff.2 ⟨rest, hrest⟩
        | cons c cuts =>
          simp only [cutOut, Option.bind_eq_some_iff, slice_iff] at hrest
          obtain ⟨kept, ⟨p, q, rfl, hp, -⟩, -⟩ := hrest
          exact ⟨p, kept ++ q, by simp, hp⟩
      exact ⟨⟨hb, hend⟩, (ih hspaced.tail hend).1 ⟨rest, hrest⟩⟩
    · rintro ⟨⟨hb, hend⟩, hrest⟩
      exact ⟨hb, (ih hspaced.tail hend).2 hrest⟩

/-- What is looked for has no such character in it, so it is before the character or after it. -/
theorem occurs_append_cons {c : Char} (hc : ∀ m, P m → c ∉ m) :
    (∃ q, OccursAt P (a ++ c :: b) q) ↔ (∃ q, OccursAt P a q) ∨ ∃ q, OccursAt P b q := by
  constructor
  · rintro ⟨-, p, m, r, h, hm, rfl⟩
    rw [List.append_assoc] at h
    rcases List.append_eq_append_iff.1 h with ⟨e, rfl, hrest⟩ | ⟨e, rfl, hrest⟩
    · cases e with
      | nil =>
        cases m with
        | nil => exact .inl ⟨_, a, [], [], by simp, hm, rfl⟩
        | cons x m =>
          rw [List.nil_append, List.cons_append, List.cons.injEq] at hrest
          rw [← hrest.1] at hm
          exact absurd List.mem_cons_self (hc _ hm)
      | cons x e =>
        rw [List.cons_append, List.cons.injEq] at hrest
        exact .inr ⟨_, e, m, r, by rw [hrest.2, List.append_assoc], hm, rfl⟩
    · rcases List.append_eq_append_iff.1 hrest with ⟨f, rfl, hr⟩ | ⟨f, hmf, hr⟩
      · exact .inl ⟨_, p, m, f, by simp, hm, rfl⟩
      · cases f with
        | nil => exact .inl ⟨_, p, m, [], by simp [hmf], hm, rfl⟩
        | cons x f =>
          rw [List.cons_append, List.cons.injEq] at hr
          have hmem : c ∈ m := by simp [hmf, hr.1]
          exact absurd hmem (hc _ hm)
  · rintro (⟨-, p, m, r, rfl, hm, -⟩ | ⟨-, p, m, r, rfl, hm, -⟩)
    · exact ⟨_, p, m, r ++ c :: b, by simp, hm, rfl⟩
    · exact ⟨_, a ++ c :: p, m, r, by simp, hm, rfl⟩

theorem occurs_slice {j : ℕ} {kept : List Char} (hwidth : ∀ m, P m → utf8Len m = width)
    (h : slice text i j = some kept) :
    (∃ q, OccursAt P kept q) ↔ ∃ q, i ≤ q ∧ q + width ≤ j ∧ OccursAt P text q := by
  obtain ⟨a, c, rfl, rfl, rfl⟩ := slice_iff.1 h
  constructor
  · rintro ⟨-, p, m, r, rfl, hm, rfl⟩
    refine ⟨utf8Len (a ++ p), ?_, ?_, a ++ p, m, r ++ c, by simp, hm, rfl⟩
    · simp only [String.utf8Len_append]
      omega
    · simp only [String.utf8Len_append, ← hwidth m hm]
      omega
  · rintro ⟨-, hle, hend, p, m, r, htext, hm, rfl⟩
    rw [← hwidth m hm, ← String.utf8Len_append] at hend
    obtain ⟨e, hae, hr⟩ := append_cut htext.symm hend
    have hstart : utf8Len a ≤ utf8Len p := hle
    rw [List.append_assoc] at hae
    obtain ⟨f, rfl, rfl⟩ := append_cut hae hstart
    exact ⟨_, f, m, e, by simp, hm, rfl⟩

theorem occurs_sliceFrom (h : sliceFrom text i = some out) :
    (∃ q, OccursAt P out q) ↔ ∃ q, i ≤ q ∧ OccursAt P text q := by
  obtain ⟨a, rfl, rfl⟩ := sliceFrom_iff.1 h
  constructor
  · rintro ⟨-, p, m, r, rfl, hm, rfl⟩
    exact ⟨utf8Len (a ++ p), by simp, a ++ p, m, r, by simp, hm, rfl⟩
  · rintro ⟨-, hle, p, m, r, htext, hm, rfl⟩
    rw [List.append_assoc] at htext
    obtain ⟨e, rfl, rfl⟩ := append_cut htext hle
    exact ⟨_, e, m, r, by simp, hm, rfl⟩

/-- What is found after the cuts is what was there apart from them. -/
theorem occurs_cutOut {first last : Char} {inner : List Char} (hwidth : ∀ m, P m → utf8Len m = width)
    (hfirst : ∀ m, P m → first ∉ m) (hlast : ∀ m, P m → last ∉ m) (hinner : ¬ ∃ q, OccursAt P inner q)
    (hspaced : Spaced width cuts i)
    (h : cutOut text (first :: inner ++ [last]) width cuts i = some out) :
    (∃ q, OccursAt P out q) ↔
      ∃ q, i ≤ q ∧ OccursAt P text q ∧ ∀ b ∈ cuts, q + width ≤ b ∨ b + width ≤ q := by
  induction cuts generalizing i out with
  | nil =>
    rw [occurs_sliceFrom h]
    simp
  | cons b cuts ih =>
    simp only [cutOut, Option.bind_eq_some_iff, Option.map_eq_some_iff] at h
    obtain ⟨kept, hkept, rest, hrest, rfl⟩ := h
    rw [show kept ++ (first :: inner ++ [last]) ++ rest = kept ++ first :: (inner ++ last :: rest) by simp,
      occurs_append_cons hfirst, occurs_append_cons hlast, or_iff_right hinner, occurs_slice hwidth hkept,
      ih hspaced.tail hrest]
    have hib := hspaced.from_le b List.mem_cons_self
    constructor
    · rintro (⟨q, hiq, hqb, hq⟩ | ⟨q, hbq, hq, hcuts⟩)
      · refine ⟨q, hiq, hq, List.forall_mem_cons.2 ⟨.inl hqb, fun c hc => .inl ?_⟩⟩
        have := hspaced.tail.from_le c hc
        omega
      · exact ⟨q, by omega, hq, List.forall_mem_cons.2 ⟨.inr hbq, hcuts⟩⟩
    · rintro ⟨q, hiq, hq, hcuts⟩
      obtain ⟨hb, hcuts⟩ := List.forall_mem_cons.1 hcuts
      rcases hb with hqb | hbq
      · exact .inl ⟨q, hiq, hqb, hq⟩
      · exact .inr ⟨q, hbq, hq, hcuts⟩

end Cuts

end Utf8
