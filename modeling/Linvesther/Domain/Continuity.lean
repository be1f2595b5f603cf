import Mathlib

/-! `continuity.rs`: a track is cut at the gaps of its calendar into segments without one. -/

namespace Linvesther.Domain

section Segments

/-- From `startMs` on and before `endMs`. -/
structure Gap where
  startMs : ℤ
  endMs : ℤ
deriving DecidableEq

structure Segment where
  startMs : ℤ
  endMs : ℤ
deriving DecidableEq

/-- The loop of `segments_between` from the cursor on. -/
def segmentsFrom (trackEndMs cursor : ℤ) : List Gap → List Segment
  | [] => if trackEndMs > cursor then [⟨cursor, trackEndMs⟩] else []
  | gap :: gaps =>
    let segments := segmentsFrom trackEndMs (max gap.endMs cursor) gaps
    if gap.startMs > cursor then ⟨cursor, gap.startMs⟩ :: segments else segments

def segmentsBetween (trackStartMs trackEndMs : ℤ) (gaps : List Gap) : List Segment :=
  segmentsFrom trackEndMs trackStartMs gaps

end Segments

section Continuity

def Gap.times (g : Gap) : Set ℤ := Set.Ico g.startMs g.endMs

def Segment.times (s : Segment) : Set ℤ := Set.Ico s.startMs s.endMs

/-- No gap ends before it begins, and each ends before the next begins. -/
structure SortedGaps (gaps : List Gap) : Prop where
  spans : ∀ g ∈ gaps, g.startMs ≤ g.endMs
  sorted : gaps.Pairwise fun g g' => g.endMs ≤ g'.startMs

/-- The segments are what the gaps leave of the track. -/
structure Continuity (trackStartMs trackEndMs : ℤ) (gaps : List Gap) (segments : List Segment) : Prop where
  nonempty : ∀ s ∈ segments, s.startMs < s.endMs
  ordered : segments.Pairwise fun s s' => s.startMs < s'.startMs
  disjoint : segments.Pairwise fun s s' => Disjoint s.times s'.times
  within : ∀ s ∈ segments, trackStartMs ≤ s.startMs ∧ s.endMs ≤ trackEndMs
  union : ⋃ s ∈ segments, s.times = Set.Ico trackStartMs trackEndMs \ ⋃ g ∈ gaps, g.times

/-- No gap that the loop meets begins both behind the cursor and behind the end of the track. -/
def Clipped (trackEndMs : ℤ) : ℤ → List Gap → Prop
  | _, [] => True
  | cursor, gap :: gaps =>
    (trackEndMs < gap.startMs → gap.startMs ≤ cursor) ∧ Clipped trackEndMs (max gap.endMs cursor) gaps

theorem SortedGaps.tail {g : Gap} {gaps : List Gap} (h : SortedGaps (g :: gaps)) : SortedGaps gaps :=
  ⟨fun g' hg' => h.spans g' (List.mem_cons_of_mem _ hg'), (List.pairwise_cons.1 h.sorted).2⟩

theorem mem_union_iff {segments : List Segment} {t : ℤ} :
    t ∈ ⋃ s ∈ segments, s.times ↔ ∃ s ∈ segments, s.startMs ≤ t ∧ t < s.endMs := by
  rw [Set.mem_iUnion₂]
  exact exists_congr fun s => exists_prop

theorem not_mem_gaps_iff {gaps : List Gap} {t : ℤ} :
    t ∉ ⋃ g ∈ gaps, g.times ↔ ∀ g ∈ gaps, ¬ (g.startMs ≤ t ∧ t < g.endMs) := by
  rw [Set.mem_iUnion₂]
  push Not
  exact forall₂_congr fun g _ => Set.mem_Ico.not.trans (by push Not; rfl)

/-- Times behind a gap are outside the gaps after it. -/
theorem SortedGaps.head_free {g : Gap} {gaps : List Gap} (h : SortedGaps (g :: gaps)) {t : ℤ}
    (ht : t < g.endMs) : ∀ g' ∈ gaps, ¬ (g'.startMs ≤ t ∧ t < g'.endMs) := by
  intro g' hg' hin
  have := (List.pairwise_cons.1 h.sorted).1 g' hg'
  omega

theorem continuity_nil (trackEndMs cursor : ℤ) :
    Continuity cursor trackEndMs [] (segmentsFrom trackEndMs cursor []) := by
  unfold segmentsFrom
  split_ifs with hlt
  · refine ⟨?_, List.pairwise_singleton _ _, List.pairwise_singleton _ _, ?_, ?_⟩
    · simpa using hlt
    · simp
    · simp [Segment.times]
  · refine ⟨by simp, List.Pairwise.nil, List.Pairwise.nil, by simp, ?_⟩
    rw [Set.Ico_eq_empty (by omega)]
    simp

/-- A gap that begins at the cursor or before it only moves the cursor. -/
theorem Continuity.skip {trackEndMs cursor : ℤ} {g : Gap} {gaps : List Gap} {segments : List Segment}
    (hg : g.startMs ≤ cursor) (h : Continuity (max g.endMs cursor) trackEndMs gaps segments) :
    Continuity cursor trackEndMs (g :: gaps) segments := by
  refine ⟨h.nonempty, h.ordered, h.disjoint, fun s hs => ?_, Set.ext fun t => ?_⟩
  · have := h.within s hs
    omega
  · rw [h.union, Set.mem_sdiff, Set.mem_sdiff, Set.mem_Ico, Set.mem_Ico, not_mem_gaps_iff,
      not_mem_gaps_iff, List.forall_mem_cons]
    constructor
    · intro ⟨hin, hfree⟩
      exact ⟨by omega, by omega, hfree⟩
    · intro ⟨hin, hfirst, hfree⟩
      exact ⟨by omega, hfree⟩

/-- A gap that begins after the cursor ends a segment, which is of the track if the gap begins in it. -/
theorem Continuity.cut {trackEndMs cursor : ℤ} {g : Gap} {gaps : List Gap} {segments : List Segment}
    (hsorted : SortedGaps (g :: gaps)) (hg : cursor < g.startMs) (hend : g.startMs ≤ trackEndMs)
    (h : Continuity (max g.endMs cursor) trackEndMs gaps segments) :
    Continuity cursor trackEndMs (g :: gaps) (⟨cursor, g.startMs⟩ :: segments) := by
  have hspan := hsorted.spans g List.mem_cons_self
  have hmax : max g.endMs cursor = g.endMs := max_eq_left (by omega)
  rw [hmax] at h
  refine ⟨?_, ?_, ?_, ?_, Set.ext fun t => ?_⟩
  · rw [List.forall_mem_cons]
    exact ⟨hg, h.nonempty⟩
  · rw [List.pairwise_cons]
    refine ⟨fun s hs => ?_, h.ordered⟩
    have := (h.within s hs).1
    show cursor < s.startMs
    omega
  · rw [List.pairwise_cons]
    refine ⟨fun s hs => Set.disjoint_left.2 fun t ht ht' => ?_, h.disjoint⟩
    have hstart := (h.within s hs).1
    have hbefore : t < g.startMs := ht.2
    have hafter : s.startMs ≤ t := ht'.1
    omega
  · rw [List.forall_mem_cons]
    refine ⟨⟨le_refl _, hend⟩, fun s hs => ?_⟩
    have := h.within s hs
    omega
  · have hmem : t ∈ ⋃ s ∈ segments, s.times ↔ t ∈ Set.Ico g.endMs trackEndMs \ ⋃ g ∈ gaps, g.times := by
      rw [h.union]
    rw [Set.mem_sdiff, Set.mem_Ico, not_mem_gaps_iff, mem_union_iff] at hmem
    rw [mem_union_iff, List.exists_mem_cons_iff, hmem, Set.mem_sdiff, Set.mem_Ico, not_mem_gaps_iff,
      List.forall_mem_cons]
    dsimp only
    constructor
    · rintro (hin | ⟨hin, hfree⟩)
      · exact ⟨by omega, by omega, hsorted.head_free (by omega)⟩
      · exact ⟨by omega, by omega, hfree⟩
    · intro ⟨hin, hfirst, hfree⟩
      rcases lt_or_ge t g.startMs with hlt | hge
      · exact .inl ⟨hin.1, hlt⟩
      · exact .inr ⟨by omega, hfree⟩

theorem continuity_of_clipped {trackEndMs cursor : ℤ} {gaps : List Gap} (hsorted : SortedGaps gaps)
    (h : Clipped trackEndMs cursor gaps) :
    Continuity cursor trackEndMs gaps (segmentsFrom trackEndMs cursor gaps) := by
  induction gaps generalizing cursor with
  | nil => exact continuity_nil trackEndMs cursor
  | cons g gaps ih =>
    have hrest := ih hsorted.tail h.2
    unfold segmentsFrom
    dsimp only
    split_ifs with hg
    · refine hrest.cut hsorted hg ?_
      by_contra hend
      have := h.1 (by omega)
      omega
    · exact hrest.skip (by omega)

theorem clipped_of_within {trackEndMs cursor : ℤ} {gaps : List Gap}
    (h : ∀ s ∈ segmentsFrom trackEndMs cursor gaps, s.endMs ≤ trackEndMs) :
    Clipped trackEndMs cursor gaps := by
  induction gaps generalizing cursor with
  | nil => trivial
  | cons g gaps ih =>
    unfold segmentsFrom at h
    dsimp only at h
    split_ifs at h with hg
    · rw [List.forall_mem_cons] at h
      refine ⟨fun hend => ?_, ih h.2⟩
      have hwithin : g.startMs ≤ trackEndMs := h.1
      omega
    · exact ⟨fun _ => by omega, ih h⟩

/-- The cursor is where the track starts or where a gap before ends, whichever is later. -/
theorem clipped_iff {trackEndMs cursor : ℤ} {gaps : List Gap} :
    Clipped trackEndMs cursor gaps ↔ ∀ before g after, gaps = before ++ g :: after →
      trackEndMs < g.startMs → g.startMs ≤ cursor ∨ ∃ g' ∈ before, g.startMs ≤ g'.endMs := by
  induction gaps generalizing cursor with
  | nil => simp [Clipped]
  | cons g gaps ih =>
    rw [Clipped, ih]
    constructor
    · intro ⟨hfirst, hrest⟩ before g' after heq hend
      cases before with
      | nil =>
        rw [List.nil_append, List.cons.injEq] at heq
        obtain ⟨rfl, -⟩ := heq
        exact .inl (hfirst hend)
      | cons g₀ before =>
        rw [List.cons_append, List.cons.injEq] at heq
        obtain ⟨rfl, rfl⟩ := heq
        rcases hrest before g' after rfl hend with hle | ⟨g'', hin, hle⟩
        · rcases le_max_iff.1 hle with hle' | hle'
          · exact .inr ⟨g, List.mem_cons_self, hle'⟩
          · exact .inl hle'
        · exact .inr ⟨g'', List.mem_cons_of_mem _ hin, hle⟩
    · intro h
      refine ⟨fun hend => ?_, fun before g' after heq hend => ?_⟩
      · rcases h [] g gaps rfl hend with hle | ⟨g', hin, -⟩
        · exact hle
        · exact absurd hin List.not_mem_nil
      · rcases h (g :: before) g' after (by rw [heq]; rfl) hend with hle | ⟨g'', hin, hle⟩
        · exact .inl (le_max_of_le_right hle)
        · rcases List.mem_cons.1 hin with rfl | hin'
          · exact .inl (le_max_of_le_left hle)
          · exact .inr ⟨g'', hin', hle⟩

/-- The segments are what the gaps leave of the track exactly if every gap that begins after its end begins no
later than the track, or where an earlier gap ends. -/
theorem segments_between_continuity_iff (trackStartMs trackEndMs : ℤ) (gaps : List Gap)
    (hsorted : SortedGaps gaps) :
    Continuity trackStartMs trackEndMs gaps (segmentsBetween trackStartMs trackEndMs gaps) ↔
      ∀ before g after, gaps = before ++ g :: after → trackEndMs < g.startMs →
        g.startMs ≤ trackStartMs ∨ ∃ g' ∈ before, g.startMs ≤ g'.endMs := by
  rw [← clipped_iff]
  constructor
  · intro h
    exact clipped_of_within fun s hs => (h.within s hs).2
  · exact continuity_of_clipped hsorted

/-- Gaps before the track, in it, over its end, and right after that one. -/
theorem segments_between_continuity_example :
    Continuity 0 100 [⟨-20, 10⟩, ⟨30, 40⟩, ⟨90, 110⟩, ⟨110, 120⟩] [⟨10, 30⟩, ⟨40, 90⟩] := by
  have hsorted : SortedGaps [⟨-20, 10⟩, ⟨30, 40⟩, ⟨90, 110⟩, ⟨110, 120⟩] := ⟨by decide, by decide⟩
  refine (segments_between_continuity_iff 0 100 _ hsorted).2 ?_
  rw [← clipped_iff]
  simp [Clipped]

/-- A gap after the end of the track: the segment goes on until it begins. -/
theorem segment_beyond_track :
    segmentsBetween 0 10 [⟨20, 30⟩] = [⟨0, 20⟩] ∧ SortedGaps [⟨20, 30⟩] ∧
      ¬ Continuity 0 10 [⟨20, 30⟩] (segmentsBetween 0 10 [⟨20, 30⟩]) := by
  refine ⟨by decide, ⟨by decide, by decide⟩, fun h => ?_⟩
  have hwithin : (20 : ℤ) ≤ 10 := (h.within ⟨0, 20⟩ (by decide)).2
  omega

end Continuity

end Linvesther.Domain
