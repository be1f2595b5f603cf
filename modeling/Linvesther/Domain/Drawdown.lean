import Mathlib

/-! The deepest fall of an index from its running peak, and when the index was back. -/

namespace Linvesther.Domain

section Drawdown

structure IndexPoint where
  timeMs : ℕ
  index : ℚ
deriving DecidableEq

structure DrawdownEpisode where
  peakTimeMs : ℕ
  peakIndex : ℚ
  troughTimeMs : ℕ
  troughIndex : ℚ
  magnitude : ℚ
deriving DecidableEq

inductive RecoveryStatus where
  | recovered (recoveredAtMs : ℕ)
  | stillOpen
deriving DecidableEq

/-- What the loop keeps: the running peak and the deepest fall so far. -/
structure DrawdownState where
  runningPeak : IndexPoint
  best : Option DrawdownEpisode
deriving DecidableEq

def drawdownStep (s : DrawdownState) (point : IndexPoint) : DrawdownState :=
  let runningPeak := if point.index > s.runningPeak.index then point else s.runningPeak
  if runningPeak.index ≤ 0 then ⟨runningPeak, s.best⟩
  else
    let magnitude := 1 - point.index / runningPeak.index
    let episode : DrawdownEpisode :=
      ⟨runningPeak.timeMs, runningPeak.index, point.timeMs, point.index, magnitude⟩
    match s.best with
    | none => ⟨runningPeak, some episode⟩
    | some current => ⟨runningPeak, if magnitude > current.magnitude then some episode else some current⟩

def maxDrawdown : List IndexPoint → Option DrawdownEpisode
  | [] => none
  | first :: rest => ((first :: rest).foldl drawdownStep ⟨first, none⟩).best

def recoveryTime (points : List IndexPoint) (episode : DrawdownEpisode) : RecoveryStatus :=
  match points.find? fun point =>
      point.timeMs > episode.peakTimeMs ∧ point.index ≥ episode.peakIndex with
  | some point => .recovered point.timeMs
  | none => .stillOpen

end Drawdown

section Worst

variable {points : List IndexPoint}

/-- Of the first `n` points, the one at `i` is the highest, and the first to be as high. -/
structure Peak (points : List IndexPoint) (n i : ℕ) (p : IndexPoint) : Prop where
  here : points[i]? = some p
  lt : i < n
  highest : ∀ k q, k < n → points[k]? = some q → q.index ≤ p.index
  earliest : ∀ k q, k < n → points[k]? = some q → q.index = p.index → i ≤ k

/-- No fall between two of the first `n` points is deeper than the one from `i` to `j`. Of those as deep it
begins first, and of those that begin there it ends first. -/
structure Worst (points : List IndexPoint) (n i j : ℕ) (p q : IndexPoint) : Prop where
  ordered : i ≤ j
  lt : j < n
  peak : points[i]? = some p
  trough : points[j]? = some q
  deepest : ∀ i' j' p' q', i' ≤ j' → j' < n → points[i']? = some p' → points[j']? = some q' →
    1 - q'.index / p'.index ≤ 1 - q.index / p.index
  earliest : ∀ i' j' p' q', i' ≤ j' → j' < n → points[i']? = some p' → points[j']? = some q' →
    1 - q'.index / p'.index = 1 - q.index / p.index → i < i' ∨ i = i' ∧ j ≤ j'

def episodeOf (p q : IndexPoint) : DrawdownEpisode :=
  ⟨p.timeMs, p.index, q.timeMs, q.index, 1 - q.index / p.index⟩

theorem Peak.succ_of_le {n i : ℕ} {p r : IndexPoint} (h : Peak points n i p) (hr : points[n]? = some r)
    (hle : r.index ≤ p.index) : Peak points (n + 1) i p := by
  refine ⟨h.here, by have := h.lt; omega, fun k q hk hq => ?_, fun k q hk hq heq => ?_⟩
  · rcases Nat.lt_succ_iff_lt_or_eq.1 hk with hlt | rfl
    · exact h.highest k q hlt hq
    · rw [hr, Option.some.injEq] at hq
      rwa [← hq]
  · rcases Nat.lt_succ_iff_lt_or_eq.1 hk with hlt | rfl
    · exact h.earliest k q hlt hq heq
    · have := h.lt
      omega

theorem Peak.succ_of_lt {n i : ℕ} {p r : IndexPoint} (h : Peak points n i p) (hr : points[n]? = some r)
    (hlt : p.index < r.index) : Peak points (n + 1) n r := by
  refine ⟨hr, by omega, fun k q hk hq => ?_, fun k q hk hq heq => ?_⟩
  · rcases Nat.lt_succ_iff_lt_or_eq.1 hk with hk' | rfl
    · exact (h.highest k q hk' hq).trans hlt.le
    · rw [hr, Option.some.injEq] at hq
      rw [hq]
  · by_contra hlater
    have := h.highest k q (by omega) hq
    linarith

/-- Of the falls that end at one point the one from the peak is the deepest, and any as deep is from as high. -/
theorem Peak.fall_le {n i k : ℕ} {p q r : IndexPoint} (hpos : ∀ p ∈ points, 0 < p.index) (h : Peak points n i p)
    (hr : 0 < r.index) (hk : k < n) (hq : points[k]? = some q) :
    1 - r.index / q.index ≤ 1 - r.index / p.index ∧
      (1 - r.index / q.index = 1 - r.index / p.index → i ≤ k) := by
  have hq' := hpos q (List.mem_of_getElem? hq)
  have hle := h.highest k q hk hq
  constructor
  · have := div_le_div_of_nonneg_left hr.le hq' hle
    linarith
  · intro heq
    refine h.earliest k q hk hq ?_
    have hsame : r.index / q.index = r.index / p.index := by linarith
    have hp' : 0 < p.index := hq'.trans_le hle
    rw [div_eq_div_iff hq'.ne' hp'.ne'] at hsame
    exact (mul_left_cancel₀ hr.ne' hsame).symm

/-- A worst fall begins at the first of the highest points up to where it ends. -/
theorem Worst.le_peak {n m i j k : ℕ} {p q r : IndexPoint} (hpos : ∀ p ∈ points, 0 < p.index)
    (h : Worst points n i j p q) (hpeak : Peak points m k r) (hm : n ≤ m) : i ≤ k := by
  by_contra hlt
  have hordered := h.ordered
  have hp := hpos p (List.mem_of_getElem? h.peak)
  have hr := hpos r (List.mem_of_getElem? hpeak.here)
  have hq := hpos q (List.mem_of_getElem? h.trough)
  have hle : p.index ≤ r.index := hpeak.highest i p (by have := h.lt; omega) h.peak
  have hdeepest := h.deepest k j r q (by omega) h.lt hpeak.here h.trough
  have hdeeper := div_le_div_of_nonneg_left hq.le hp hle
  rcases h.earliest k j r q (by omega) h.lt hpeak.here h.trough (by linarith) with h' | ⟨h', -⟩ <;> omega

/-- A deeper fall at the next point becomes the worst one. -/
theorem Worst.succ_of_lt {n i j k : ℕ} {p q r s : IndexPoint} (hpos : ∀ p ∈ points, 0 < p.index)
    (h : Worst points n i j p q) (hpeak : Peak points (n + 1) k r) (hs : points[n]? = some s)
    (hlt : 1 - q.index / p.index < 1 - s.index / r.index) : Worst points (n + 1) k n r s := by
  have hs' := hpos s (List.mem_of_getElem? hs)
  have hk := hpeak.lt
  refine ⟨by omega, by omega, hpeak.here, hs, fun i' j' p' q' hij hj hp' hq' => ?_,
    fun i' j' p' q' hij hj hp' hq' heq => ?_⟩
  · rcases Nat.lt_succ_iff_lt_or_eq.1 hj with hj' | rfl
    · exact (h.deepest i' j' p' q' hij hj' hp' hq').trans hlt.le
    · rw [hs, Option.some.injEq] at hq'
      subst hq'
      exact (hpeak.fall_le hpos hs' (by omega) hp').1
  · rcases Nat.lt_succ_iff_lt_or_eq.1 hj with hj' | rfl
    · have := h.deepest i' j' p' q' hij hj' hp' hq'
      linarith
    · rw [hs, Option.some.injEq] at hq'
      subst hq'
      have := (hpeak.fall_le hpos hs' (by omega) hp').2 heq
      omega

/-- A fall at the next point that is not deeper leaves the worst one as it is. -/
theorem Worst.succ_of_le {n i j k : ℕ} {p q r s : IndexPoint} (hpos : ∀ p ∈ points, 0 < p.index)
    (h : Worst points n i j p q) (hpeak : Peak points (n + 1) k r) (hs : points[n]? = some s)
    (hle : 1 - s.index / r.index ≤ 1 - q.index / p.index) : Worst points (n + 1) i j p q := by
  have hs' := hpos s (List.mem_of_getElem? hs)
  have hj := h.lt
  refine ⟨h.ordered, by omega, h.peak, h.trough, fun i' j' p' q' hij hj' hp' hq' => ?_,
    fun i' j' p' q' hij hj' hp' hq' heq => ?_⟩
  · rcases Nat.lt_succ_iff_lt_or_eq.1 hj' with hlt | rfl
    · exact h.deepest i' j' p' q' hij hlt hp' hq'
    · rw [hs, Option.some.injEq] at hq'
      subst hq'
      exact (hpeak.fall_le hpos hs' (by omega) hp').1.trans hle
  · rcases Nat.lt_succ_iff_lt_or_eq.1 hj' with hlt | rfl
    · exact h.earliest i' j' p' q' hij hlt hp' hq' heq
    · rw [hs, Option.some.injEq] at hq'
      subst hq'
      have hfall := hpeak.fall_le hpos hs' (show i' < j' + 1 by omega) hp'
      have hk := hfall.2 (le_antisymm hfall.1 (hle.trans heq.ge))
      have hi := h.le_peak hpos hpeak (by omega)
      omega

/-- The peak and the worst fall of the first `n` points are what the loop keeps. -/
structure Reached (points : List IndexPoint) (n : ℕ) (s : DrawdownState) : Prop where
  peak : ∃ i, Peak points n i s.runningPeak
  best : ∃ i j p q, Worst points n i j p q ∧ s.best = some (episodeOf p q)

theorem Reached.step {n : ℕ} {s : DrawdownState} {r : IndexPoint} (hpos : ∀ p ∈ points, 0 < p.index)
    (h : Reached points n s) (hr : points[n]? = some r) : Reached points (n + 1) (drawdownStep s r) := by
  obtain ⟨⟨k, hpeak⟩, i, j, p, q, hworst, hbest⟩ := h
  have hnext : ∃ k', Peak points (n + 1) k'
      (if r.index > s.runningPeak.index then r else s.runningPeak) := by
    split_ifs with hhigher
    · exact ⟨n, hpeak.succ_of_lt hr hhigher⟩
    · exact ⟨k, hpeak.succ_of_le hr (not_lt.1 hhigher)⟩
  unfold drawdownStep
  generalize (if r.index > s.runningPeak.index then r else s.runningPeak) = runningPeak at hnext
  obtain ⟨k', hpeak'⟩ := hnext
  dsimp only
  rw [if_neg (not_le.2 (hpos _ (List.mem_of_getElem? hpeak'.here))), hbest]
  refine ⟨⟨k', hpeak'⟩, ?_⟩
  dsimp only [episodeOf]
  by_cases hdeeper : 1 - r.index / runningPeak.index > 1 - q.index / p.index
  · exact ⟨k', n, runningPeak, r, hworst.succ_of_lt hpos hpeak' hr hdeeper, if_pos hdeeper⟩
  · exact ⟨i, j, p, q, hworst.succ_of_le hpos hpeak' hr (not_lt.1 hdeeper), if_neg hdeeper⟩

theorem reached_first {first : IndexPoint} {rest : List IndexPoint} (hfirst : 0 < first.index) :
    Reached (first :: rest) 1 (drawdownStep ⟨first, none⟩ first) := by
  have hstate : drawdownStep ⟨first, none⟩ first = ⟨first, some (episodeOf first first)⟩ := by
    unfold drawdownStep episodeOf
    rw [if_neg (lt_irrefl _), if_neg (not_le.2 hfirst)]
  have hone : ∀ {k : ℕ} {q : IndexPoint}, k < 1 → (first :: rest)[k]? = some q → q = first := by
    intro k q hk hq
    obtain rfl : k = 0 := by omega
    exact (Option.some.inj hq).symm
  rw [hstate]
  refine ⟨⟨0, rfl, by omega, fun k q hk hq => (hone hk hq ▸ le_refl _), fun k _ _ _ _ => Nat.zero_le k⟩,
    0, 0, first, first, ⟨le_refl _, by omega, rfl, rfl, fun i' j' p' q' hij hj hp' hq' => ?_,
      fun i' j' p' q' hij hj hp' hq' _ => ?_⟩, rfl⟩
  · rw [hone (show i' < 1 by omega) hp', hone hj hq']
  · omega

/-- The run of the loop over the first points. -/
theorem reached_take {first : IndexPoint} {rest : List IndexPoint} (hpos : ∀ p ∈ first :: rest, 0 < p.index)
    {n : ℕ} (hn : n < (first :: rest).length) :
    Reached (first :: rest) (n + 1) (((first :: rest).take (n + 1)).foldl drawdownStep ⟨first, none⟩) := by
  induction n with
  | zero => exact reached_first (hpos first List.mem_cons_self)
  | succ n ih =>
    have hget : (first :: rest)[n + 1]? = some ((first :: rest)[n + 1]) := List.getElem?_eq_getElem hn
    rw [List.take_succ_eq_append_getElem hn, List.foldl_append]
    exact (ih (by omega)).step hpos hget

/-- The result is the worst fall of all, with the first peak and then the first trough that attain it. -/
theorem maxDrawdown_worst (hne : points ≠ []) (hpos : ∀ p ∈ points, 0 < p.index) :
    ∃ i j p q, Worst points points.length i j p q ∧ maxDrawdown points = some (episodeOf p q) := by
  obtain ⟨first, rest, rfl⟩ := List.exists_cons_of_ne_nil hne
  have hreached := reached_take hpos (n := rest.length) (by simp)
  rw [List.take_of_length_le (by simp)] at hreached
  exact hreached.best

end Worst

section Recovery

variable {points : List IndexPoint} {p : IndexPoint} {i j : ℕ}

/-- Whether a point ends the search for the recovery of a fall from `p`. -/
def endsSearch (p point : IndexPoint) : Bool := point.timeMs > p.timeMs ∧ point.index ≥ p.index

def asHigh (p point : IndexPoint) : Bool := point.index ≥ p.index

def statusOf : Option IndexPoint → RecoveryStatus
  | some point => .recovered point.timeMs
  | none => .stillOpen

/-- The first point after the trough at `j` that is as high as the peak. -/
def recoveredAfter (points : List IndexPoint) (j : ℕ) (p : IndexPoint) : RecoveryStatus :=
  statusOf ((points.drop (j + 1)).find? (asHigh p))

/-- No point up to the trough ends the search, and the first after it that is as high as the peak does. Points
at the same time cannot be told apart by the result. -/
def RecoversAfter (points : List IndexPoint) (j : ℕ) (p : IndexPoint) : Prop :=
  match (points.take (j + 1)).find? (endsSearch p), (points.drop (j + 1)).find? (asHigh p) with
  | none, none => True
  | none, some late => p.timeMs < late.timeMs
  | some _, none => False
  | some early, some late => early.timeMs = late.timeMs

theorem recoveryTime_episodeOf (points : List IndexPoint) (p q : IndexPoint) :
    recoveryTime points (episodeOf p q) = statusOf (points.find? (endsSearch p)) := by
  unfold recoveryTime statusOf
  rfl

theorem asHigh_of_endsSearch {point : IndexPoint} (h : endsSearch p point = true) : asHigh p point = true := by
  simp only [endsSearch, asHigh, decide_eq_true_eq] at h ⊢
  exact h.2

theorem find?_endsSearch_of_none {l : List IndexPoint} (h : l.find? (asHigh p) = none) :
    l.find? (endsSearch p) = none := by
  rw [List.find?_eq_none] at h ⊢
  exact fun point hpoint hends => h point hpoint (asHigh_of_endsSearch hends)

/-- The first point as high as the peak ends the search if it is later than the peak. -/
theorem find?_endsSearch_of_some {l : List IndexPoint} {late : IndexPoint}
    (h : l.find? (asHigh p) = some late) (hlater : p.timeMs < late.timeMs) :
    l.find? (endsSearch p) = some late := by
  rw [List.find?_eq_some_iff_append] at h ⊢
  obtain ⟨hhigh, before, after, rfl, hbefore⟩ := h
  refine ⟨?_, before, after, rfl, fun point hpoint => ?_⟩
  · simp only [endsSearch, asHigh, decide_eq_true_eq] at hhigh ⊢
    exact ⟨hlater, hhigh⟩
  · have := hbefore point hpoint
    rw [Bool.not_eq_true'] at this ⊢
    exact Bool.eq_false_iff.2 fun hends => Bool.eq_false_iff.1 this (asHigh_of_endsSearch hends)

theorem lt_of_find?_endsSearch {l : List IndexPoint} {point : IndexPoint}
    (h : l.find? (endsSearch p) = some point) : p.timeMs < point.timeMs := by
  have := List.find?_some h
  simp only [endsSearch, decide_eq_true_eq] at this
  exact this.1

/-- The search starts at the peak, so it finds what comes after the trough only if nothing ends it before. -/
theorem recoveryTime_iff (points : List IndexPoint) (p q : IndexPoint) (j : ℕ) :
    recoveryTime points (episodeOf p q) = recoveredAfter points j p ↔ RecoversAfter points j p := by
  have hsplit : points.find? (endsSearch p) = ((points.take (j + 1)).find? (endsSearch p)).or
      ((points.drop (j + 1)).find? (endsSearch p)) := by
    rw [← List.find?_append, List.take_append_drop]
  rw [recoveryTime_episodeOf, hsplit, recoveredAfter, RecoversAfter]
  rcases (points.take (j + 1)).find? (endsSearch p) with - | early
  · rw [Option.none_or]
    rcases hlate : (points.drop (j + 1)).find? (asHigh p) with - | late
    · rw [find?_endsSearch_of_none hlate]
      simp [statusOf]
    · dsimp only
      constructor
      · intro hsame
        rcases hfound : (points.drop (j + 1)).find? (endsSearch p) with - | found
        · rw [hfound] at hsame
          cases hsame
        · rw [hfound, statusOf, statusOf, RecoveryStatus.recovered.injEq] at hsame
          exact hsame ▸ lt_of_find?_endsSearch hfound
      · intro hlater
        rw [find?_endsSearch_of_some hlate hlater]
  · rw [Option.some_or]
    rcases (points.drop (j + 1)).find? (asHigh p) with - | late <;> simp [statusOf]

/-- Where every point is later than the one before, what matters is whether the peak was reached again before the
trough. -/
theorem recoversAfter_iff_of_chronological (hpeak : points[i]? = some p) (hij : i ≤ j)
    (htimes : points.Pairwise fun p q => p.timeMs < q.timeMs) :
    RecoversAfter points j p ↔
      ∀ k r, i < k → k ≤ j → points[k]? = some r → r.index < p.index := by
  have hlater : ∀ {k k' : ℕ} {r r' : IndexPoint}, points[k]? = some r → points[k']? = some r' →
      (r.timeMs < r'.timeMs ↔ k < k') := by
    intro k k' r r' hr hr'
    obtain ⟨hk, rfl⟩ := List.getElem?_eq_some_iff.1 hr
    obtain ⟨hk', rfl⟩ := List.getElem?_eq_some_iff.1 hr'
    rw [List.pairwise_iff_getElem] at htimes
    constructor
    · intro hlt
      by_contra hle
      rcases Nat.lt_or_eq_of_le (not_lt.1 hle) with hgt | rfl
      · exact absurd (htimes k' k hk' hk hgt) (by omega)
      · exact lt_irrefl _ hlt
    · exact htimes k k' hk hk'
  have hearly : ∀ early, (points.take (j + 1)).find? (endsSearch p) = some early →
      ∃ k, k ≤ j ∧ points[k]? = some early := by
    intro early hfound
    obtain ⟨k, hk⟩ := List.mem_iff_getElem?.1 (List.mem_of_find?_eq_some hfound)
    rw [List.getElem?_take] at hk
    split_ifs at hk with hle
    exact ⟨k, by omega, hk⟩
  have hlate : ∀ late, (points.drop (j + 1)).find? (asHigh p) = some late →
      ∃ k, j < k ∧ points[k]? = some late := by
    intro late hfound
    obtain ⟨k, hk⟩ := List.mem_iff_getElem?.1 (List.mem_of_find?_eq_some hfound)
    rw [List.getElem?_drop] at hk
    exact ⟨j + 1 + k, by omega, hk⟩
  have hnone : (points.take (j + 1)).find? (endsSearch p) = none ↔
      ∀ k r, i < k → k ≤ j → points[k]? = some r → r.index < p.index := by
    rw [List.find?_eq_none]
    constructor
    · intro hnot k r hik hkj hr
      have hmem : r ∈ points.take (j + 1) := by
        refine List.mem_iff_getElem?.2 ⟨k, ?_⟩
        rw [List.getElem?_take, if_pos (by omega), hr]
      by_contra hge
      refine hnot r hmem ?_
      simp only [endsSearch, decide_eq_true_eq]
      exact ⟨(hlater hpeak hr).2 hik, not_lt.1 hge⟩
    · intro hlower r hmem hends
      obtain ⟨k, hk⟩ := List.mem_iff_getElem?.1 hmem
      rw [List.getElem?_take] at hk
      split_ifs at hk with hle
      simp only [endsSearch, decide_eq_true_eq] at hends
      exact absurd (hlower k r ((hlater hpeak hk).1 hends.1) (by omega) hk) (not_lt.2 hends.2)
  rw [← hnone, RecoversAfter]
  rcases hfirst : (points.take (j + 1)).find? (endsSearch p) with - | early
  · rcases hsecond : (points.drop (j + 1)).find? (asHigh p) with - | late
    · simp
    · obtain ⟨k, hk, hget⟩ := hlate late hsecond
      simpa using (hlater hpeak hget).2 (by omega)
  · obtain ⟨k, hkj, hget⟩ := hearly early hfirst
    rcases hsecond : (points.drop (j + 1)).find? (asHigh p) with - | late
    · simp
    · obtain ⟨k', hk', hget'⟩ := hlate late hsecond
      have := (hlater hget hget').2 (by omega)
      simp
      omega

def recoveredPoints : List IndexPoint := [⟨0, 100⟩, ⟨1, 120⟩, ⟨2, 90⟩, ⟨3, 120⟩]

/-- The peak is held for a day before the fall, which never recovers: the day before the trough is reported. -/
def heldPeak : List IndexPoint := [⟨0, 100⟩, ⟨1, 100⟩, ⟨2, 50⟩]

end Recovery

end Linvesther.Domain
