import Mathlib

/-! Spans laid end to end on a line, and how much of each is shared with a span of another row. -/

namespace Spans

structure Span (K : Type*) where
  start : K
  stop : K

section Rows

variable {K : Type*} [LinearOrder K] {c : K} {bs : List (Span K)}

/-- Each span begins where the one before ends, the first at `c`. -/
def Laid (c : K) : List (Span K) → Prop
  | [] => True
  | b :: bs => b.start = c ∧ b.start ≤ b.stop ∧ Laid b.stop bs

/-- Where a row from `c` ends. -/
def stopOf (c : K) : List (Span K) → K
  | [] => c
  | b :: bs => stopOf b.stop bs

theorem Laid.start_le (h : Laid c bs) : ∀ b ∈ bs, c ≤ b.start ∧ b.start ≤ b.stop := by
  induction bs generalizing c with
  | nil => exact fun b hb => absurd hb List.not_mem_nil
  | cons b bs ih =>
    obtain ⟨rfl, hstop, hrest⟩ := h
    rw [List.forall_mem_cons]
    exact ⟨⟨le_refl _, hstop⟩, fun b' hb' => ⟨hstop.trans (ih hrest b' hb').1, (ih hrest b' hb').2⟩⟩

theorem Laid.append (h : Laid c bs) {bs' : List (Span K)} (h' : Laid (stopOf c bs) bs') : Laid c (bs ++ bs') := by
  induction bs generalizing c with
  | nil => exact h'
  | cons b bs ih => exact ⟨h.1, h.2.1, ih h.2.2 h'⟩

omit [LinearOrder K] in
theorem stopOf_append (c : K) (bs bs' : List (Span K)) : stopOf c (bs ++ bs') = stopOf (stopOf c bs) bs' := by
  induction bs generalizing c with
  | nil => rfl
  | cons b bs ih => exact ih b.stop

theorem Laid.le_stopOf (h : Laid c bs) : c ≤ stopOf c bs ∧ ∀ b ∈ bs, b.stop ≤ stopOf c bs := by
  induction bs generalizing c with
  | nil => exact ⟨le_refl _, fun b hb => absurd hb List.not_mem_nil⟩
  | cons b bs ih =>
    obtain ⟨rfl, hstop, hrest⟩ := h
    obtain ⟨hle, hmem⟩ := ih hrest
    rw [List.forall_mem_cons]
    exact ⟨hstop.trans hle, hle, hmem⟩

end Rows

section Shares

variable {K : Type*} [Field K] [LinearOrder K] [IsStrictOrderedRing K] {c : K} {bs : List (Span K)}

/-- How much of two spans is common to them. -/
def shared (s b : Span K) : K := max 0 (min b.stop s.stop - max b.start s.start)

/-- How much of a span is beyond `x`. -/
def beyond (b : Span K) (x : K) : K := max 0 (b.stop - max b.start x)

omit [IsStrictOrderedRing K] in
theorem shared_comm (s b : Span K) : shared s b = shared b s := by
  rw [shared, shared, min_comm, max_comm b.start]

/-- What is shared lies beyond the one end and not beyond the other. -/
theorem shared_eq_beyond (b : Span K) {s : Span K} (hs : s.start ≤ s.stop) :
    shared s b = beyond b s.start - beyond b s.stop := by
  unfold shared beyond
  rcases le_total b.stop s.stop with hstop | hstop
  · have hnone : max 0 (b.stop - max b.start s.stop) = 0 :=
      max_eq_left (by linarith [le_max_right b.start s.stop])
    rw [min_eq_left hstop, hnone, sub_zero]
  · rw [min_eq_right hstop]
    rcases le_total b.start s.stop with hstart | hstart
    · have hwithin : max b.start s.start ≤ s.stop := max_le hstart hs
      have hshared : max 0 (s.stop - max b.start s.start) = s.stop - max b.start s.start :=
        max_eq_right (by linarith)
      have hfrom : max 0 (b.stop - max b.start s.start) = b.stop - max b.start s.start :=
        max_eq_right (by linarith)
      have hto : max 0 (b.stop - s.stop) = b.stop - s.stop := max_eq_right (by linarith)
      rw [hshared, hfrom, max_eq_right hstart, hto]
      ring
    · rw [max_eq_left hstart, max_eq_left (hs.trans hstart), max_eq_left (by linarith), sub_self]

/-- What a span shares with a row is what lies beyond the beginning of the row and not beyond its end. -/
theorem Laid.sum_shared (h : Laid c bs) (s : Span K) :
    (bs.map fun b => shared b s).sum = beyond s c - beyond s (stopOf c bs) := by
  induction bs generalizing c with
  | nil => exact (sub_self _).symm
  | cons b bs ih =>
    obtain ⟨rfl, hstop, hrest⟩ := h
    rw [List.map_cons, List.sum_cons, ih hrest, shared_eq_beyond s hstop, stopOf]
    ring

omit [IsStrictOrderedRing K] in
theorem beyond_nonneg (b : Span K) (x : K) : 0 ≤ beyond b x := le_max_left _ _

/-- No row shares more with a span than there is of it. -/
theorem Laid.sum_shared_le (h : Laid c bs) {s : Span K} (hs : s.start ≤ s.stop) :
    (bs.map fun b => shared b s).sum ≤ s.stop - s.start := by
  have hall : beyond s c ≤ s.stop - s.start := max_le (by linarith) (by linarith [le_max_left s.start c])
  rw [h.sum_shared]
  linarith [beyond_nonneg s (stopOf c bs)]

/-- A span within a row is shared with it in full. -/
theorem Laid.sum_shared_eq (h : Laid c bs) {s : Span K} (hs : s.start ≤ s.stop) (hc : c ≤ s.start)
    (hstop : s.stop ≤ stopOf c bs) : (bs.map fun b => shared b s).sum = s.stop - s.start := by
  have hall : beyond s c = s.stop - s.start := by
    rw [beyond, max_eq_left hc, max_eq_right (by linarith)]
  have hnone : beyond s (stopOf c bs) = 0 :=
    max_eq_left (by linarith [le_max_right s.start (stopOf c bs)])
  rw [h.sum_shared, hall, hnone, sub_zero]

end Shares

end Spans
