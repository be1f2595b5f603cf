import Linvesther.Base.Overflow
import Linvesther.Verifier.Verify

/-! `calendar.rs` and `recover_late` as either build runs them: the intervals that a calendar expected and
nobody committed, and what is recovered for them. -/

namespace Linvesther.Verifier.Calendar

open Overflow

section Calendar

variable (overflow : Overflow) (policy : CalendarPolicy) (lastCommittedEndMs nowMs : Signed 64)

/-- The `loop` of `derive_gaps`, for that many turns. -/
def deriveGapsFrom : ℕ → Signed 64 → List Gap → Outcome (List Gap)
  | 0, _, _ => .running
  | fuel + 1, start, gaps =>
    match overflow.result 64 (start.val + policy.intervalMs.val) with
    | none => .panicked
    | some end' =>
      match overflow.result 64 (end'.val + policy.graceMs.val) with
      | none => .panicked
      | some deadline =>
        if deadline.val > nowMs.val then .returned gaps
        else deriveGapsFrom fuel end' (gaps ++ [⟨start, end'⟩])

def deriveGaps (fuel : ℕ) : Outcome (List Gap) :=
  deriveGapsFrom overflow policy nowMs fuel lastCommittedEndMs []

structure LateSupplement where
  gap : Gap
  recoveredAtMs : Signed 64
deriving DecidableEq

inductive LateRecoveryError
  | notLate (recoveredAtMs deadlineMs : Signed 64)
deriving DecidableEq

def recoverLate (gap : Gap) (recoveredAtMs : Signed 64) :
    Outcome (Except LateRecoveryError LateSupplement) :=
  match overflow.result 64 (gap.endMs.val + policy.graceMs.val) with
  | none => .panicked
  | some deadlineMs =>
    if recoveredAtMs.val ≤ deadlineMs.val then .returned (.error (.notLate recoveredAtMs deadlineMs))
    else .returned (.ok ⟨gap, recoveredAtMs⟩)

end Calendar

section Schedule

variable (overflow : Overflow) (policy : CalendarPolicy)

/-- Where the interval ends that is expected after `k` others. -/
def endAt (lastMs : ℤ) (k : ℕ) : ℤ := lastMs + (k + 1) * policy.intervalMs.val

def deadline (lastMs : ℤ) (k : ℕ) : ℤ := endAt policy lastMs k + policy.graceMs.val

/-- The interval that is expected after `k` others. -/
def expected (lastMs : ℤ) (k : ℕ) : ℤ × ℤ :=
  (lastMs + k * policy.intervalMs.val, endAt policy lastMs k)

def span (g : Gap) : ℤ × ℤ := (g.startMs.val, g.endMs.val)

/-- The gaps are the expected intervals up to the first whose deadline is still ahead. -/
structure MissedRun (lastMs nowMs : ℤ) (gaps : List Gap) : Prop where
  run : gaps.map span = (List.range gaps.length).map (expected policy lastMs)
  past : ∀ k < gaps.length, deadline policy lastMs k ≤ nowMs
  maximal : nowMs < deadline policy lastMs gaps.length

theorem endAt_succ (lastMs : ℤ) (k : ℕ) :
    endAt policy (lastMs + policy.intervalMs.val) k = endAt policy lastMs (k + 1) := by
  unfold endAt
  push_cast
  ring

theorem deadline_succ (lastMs : ℤ) (k : ℕ) :
    deadline policy (lastMs + policy.intervalMs.val) k = deadline policy lastMs (k + 1) := by
  unfold deadline
  rw [endAt_succ]

theorem endAt_zero (lastMs : ℤ) : endAt policy lastMs 0 = lastMs + policy.intervalMs.val := by
  unfold endAt
  push_cast
  ring

end Schedule

section Run

variable {overflow : Overflow} {policy : CalendarPolicy}

/-- The interval that is pushed for the expected one. -/
def taken (policy : CalendarPolicy) (lastMs : ℤ) (k : ℕ) : Gap :=
  ⟨Signed.wrap 64 (lastMs + k * policy.intervalMs.val), Signed.wrap 64 (endAt policy lastMs k)⟩

/-- The loop ends after `n` gaps: no addition panicked until then, and only the last deadline is read as ahead. -/
structure Stops (overflow : Overflow) (policy : CalendarPolicy) (lastMs nowMs : ℤ) (n : ℕ) : Prop where
  bears : ∀ k ≤ n, overflow.Bears 64 (endAt policy lastMs k) ∧ overflow.Bears 64 (deadline policy lastMs k)
  past : ∀ k < n, reading 64 (deadline policy lastMs k) ≤ nowMs
  ahead : nowMs < reading 64 (deadline policy lastMs n)

theorem stops_zero {lastMs nowMs : ℤ} :
    Stops overflow policy lastMs nowMs 0 ↔
      (overflow.Bears 64 (endAt policy lastMs 0) ∧ overflow.Bears 64 (deadline policy lastMs 0)) ∧
        nowMs < reading 64 (deadline policy lastMs 0) := by
  constructor
  · intro h
    exact ⟨h.bears 0 le_rfl, h.ahead⟩
  · rintro ⟨hbears, hahead⟩
    refine ⟨fun k hk => ?_, fun k hk => absurd hk (Nat.not_lt_zero k), hahead⟩
    rw [Nat.le_zero.1 hk]
    exact hbears

theorem stops_succ {lastMs nowMs : ℤ} {n : ℕ} :
    Stops overflow policy lastMs nowMs (n + 1) ↔
      (overflow.Bears 64 (endAt policy lastMs 0) ∧ overflow.Bears 64 (deadline policy lastMs 0)) ∧
        reading 64 (deadline policy lastMs 0) ≤ nowMs ∧
        Stops overflow policy (lastMs + policy.intervalMs.val) nowMs n := by
  constructor
  · intro h
    refine ⟨h.bears 0 (Nat.zero_le _), h.past 0 n.succ_pos, fun k hk => ?_, fun k hk => ?_, ?_⟩
    · rw [endAt_succ, deadline_succ]
      exact h.bears (k + 1) (by omega)
    · rw [deadline_succ]
      exact h.past (k + 1) (by omega)
    · rw [deadline_succ]
      exact h.ahead
  · rintro ⟨hbears, hpast, hrest⟩
    refine ⟨fun k hk => ?_, fun k hk => ?_, ?_⟩
    · induction k with
      | zero => exact hbears
      | succ k _ =>
        have := hrest.bears k (by omega)
        rwa [endAt_succ, deadline_succ] at this
    · induction k with
      | zero => exact hpast
      | succ k _ =>
        have := hrest.past k (by omega)
        rwa [deadline_succ] at this
    · have := hrest.ahead
      rwa [deadline_succ] at this

theorem taken_succ (lastMs : ℤ) (k : ℕ) :
    taken policy (lastMs + policy.intervalMs.val) k = taken policy lastMs (k + 1) := by
  have hstart : lastMs + policy.intervalMs.val + k * policy.intervalMs.val =
      lastMs + (k + 1 : ℕ) * policy.intervalMs.val := by
    push_cast
    ring
  unfold taken
  rw [endAt_succ, hstart]

/-- The gaps of a loop are the first one and those of the loop that begins where it ends. -/
theorem map_taken_succ (lastMs : ℤ) (n : ℕ) :
    (List.range (n + 1)).map (taken policy lastMs) =
      ⟨Signed.wrap 64 lastMs, Signed.wrap 64 (lastMs + policy.intervalMs.val)⟩ ::
        (List.range n).map (taken policy (lastMs + policy.intervalMs.val)) := by
  have hzero : taken policy lastMs 0 = ⟨Signed.wrap 64 lastMs, Signed.wrap 64 (lastMs + policy.intervalMs.val)⟩ := by
    unfold taken
    rw [endAt_zero]
    simp
  rw [List.range_succ_eq_map, List.map_cons, List.map_map, hzero]
  congr 1
  refine List.map_congr_left fun k _ => ?_
  exact (taken_succ lastMs k).symm

/-- The whole loop, by induction on its turns: it begins at the number that `lastMs` is taken for. -/
theorem deriveGapsFrom_returned {nowMs : Signed 64} {fuel : ℕ} {lastMs : ℤ} {gaps found : List Gap}
    (hlast : overflow.Bears 64 lastMs) :
    deriveGapsFrom overflow policy nowMs fuel (Signed.wrap 64 lastMs) gaps = .returned found ↔
      ∃ n < fuel, Stops overflow policy lastMs nowMs.val n ∧
        found = gaps ++ (List.range n).map (taken policy lastMs) := by
  induction fuel generalizing lastMs gaps with
  | zero => simp [deriveGapsFrom]
  | succ fuel ih =>
    have hend : overflow.result 64 ((Signed.wrap 64 lastMs).val + policy.intervalMs.val) =
        overflow.result 64 (endAt policy lastMs 0) := by
      rw [endAt_zero]
      exact result_add hlast _
    unfold deriveGapsFrom
    rw [hend]
    by_cases hbears : overflow.Bears 64 (endAt policy lastMs 0)
    · have hdeadline : overflow.result 64 ((Signed.wrap 64 (endAt policy lastMs 0)).val + policy.graceMs.val) =
          overflow.result 64 (deadline policy lastMs 0) := result_add hbears _
      rw [result_of_bears hbears]
      dsimp only
      rw [hdeadline]
      by_cases hbears' : overflow.Bears 64 (deadline policy lastMs 0)
      · rw [result_of_bears hbears']
        dsimp only
        split_ifs with hahead
        · -- the first deadline is ahead: the loop ends without a gap
          have hstops : Stops overflow policy lastMs nowMs.val 0 := stops_zero.2 ⟨⟨hbears, hbears'⟩, hahead⟩
          constructor
          · intro hreturned
            injection hreturned with hgaps
            exact ⟨0, fuel.succ_pos, hstops, by simp [hgaps]⟩
          · rintro ⟨n, -, hn, rfl⟩
            cases n with
            | zero => simp
            | succ n =>
              have := (stops_succ.1 hn).2.1
              exact absurd hahead (by unfold reading at this; omega)
        · rw [endAt_zero] at hbears ⊢
          rw [ih hbears]
          constructor
          · rintro ⟨n, hn, hstops, hfound⟩
            refine ⟨n + 1, by omega, stops_succ.2 ⟨⟨by rwa [endAt_zero], hbears'⟩, not_lt.1 hahead, hstops⟩, ?_⟩
            rw [hfound, map_taken_succ, List.append_assoc]
            rfl
          · rintro ⟨n, hn, hstops, hfound⟩
            cases n with
            | zero => exact absurd (stops_zero.1 hstops).2 hahead
            | succ n =>
              refine ⟨n, by omega, (stops_succ.1 hstops).2.2, ?_⟩
              rw [hfound, map_taken_succ, List.append_assoc]
              rfl
      · rw [result_of_not_bears hbears']
        refine ⟨fun h => by simp at h, ?_⟩
        rintro ⟨n, -, hstops, -⟩
        exact absurd (hstops.bears 0 n.zero_le).2 hbears'
    · rw [result_of_not_bears hbears]
      refine ⟨fun h => by simp at h, ?_⟩
      rintro ⟨n, -, hstops, -⟩
      exact absurd (hstops.bears 0 n.zero_le).1 hbears

theorem deriveGaps_returned {lastMs nowMs : Signed 64} {fuel : ℕ} {found : List Gap} :
    deriveGaps overflow policy lastMs nowMs fuel = .returned found ↔
      ∃ n < fuel, Stops overflow policy lastMs.val nowMs.val n ∧
        found = (List.range n).map (taken policy lastMs.val) := by
  have hlast : overflow.Bears 64 lastMs.val := fun _ => lastMs.fits
  have hloop := @deriveGapsFrom_returned overflow policy nowMs fuel lastMs.val [] found hlast
  rwa [Signed.wrap_val] at hloop

theorem Stops.unique {lastMs nowMs : ℤ} {n n' : ℕ} (h : Stops overflow policy lastMs nowMs n)
    (h' : Stops overflow policy lastMs nowMs n') : n = n' := by
  rcases Nat.lt_trichotomy n n' with hlt | heq | hlt
  · have := h'.past n hlt
    have := h.ahead
    omega
  · exact heq
  · have := h.past n' hlt
    have := h'.ahead
    omega

/-- What the loop pushes is the expected interval if its ends are in `i64`. -/
theorem span_taken_iff {lastMs : ℤ} {k : ℕ} :
    span (taken policy lastMs k) = expected policy lastMs k ↔
      Fits 64 (lastMs + k * policy.intervalMs.val) ∧ Fits 64 (endAt policy lastMs k) := by
  unfold span taken expected
  rw [Prod.mk.injEq]
  exact and_congr reading_eq_self_iff reading_eq_self_iff

theorem startAt_succ (lastMs : ℤ) (k : ℕ) :
    lastMs + (k + 1 : ℕ) * policy.intervalMs.val = endAt policy lastMs k := by
  unfold endAt
  push_cast
  ring

/-- All that is pushed is expected if the ends are in `i64`: each interval begins where one ends. -/
theorem map_span_taken_iff (lastMs : Signed 64) (n : ℕ) :
    ((List.range n).map (taken policy lastMs.val)).map span =
        (List.range n).map (expected policy lastMs.val) ↔
      ∀ k < n, Fits 64 (endAt policy lastMs.val k) := by
  rw [List.map_map, List.map_inj_left]
  constructor
  · intro h k hk
    exact (span_taken_iff.1 (h k (List.mem_range.2 hk))).2
  · intro h k hk
    refine span_taken_iff.2 ⟨?_, h k (List.mem_range.1 hk)⟩
    cases k with
    | zero =>
      simp only [Nat.cast_zero, zero_mul, add_zero]
      exact lastMs.fits
    | succ k =>
      rw [startAt_succ]
      exact h k (by have := List.mem_range.1 hk; omega)

/-- The release build is the loop that the coverage check runs. -/
theorem deriveGapsFrom_wraps {nowMs : Signed 64} {fuel : ℕ} {start : Signed 64} {gaps found : List Gap} :
    deriveGapsFrom .wraps policy nowMs fuel start gaps = .returned found ↔
      ∃ missed, Verifier.deriveGaps policy nowMs fuel start = some missed ∧ found = gaps ++ missed := by
  induction fuel generalizing start gaps with
  | zero => simp [deriveGapsFrom, Verifier.deriveGaps]
  | succ fuel ih =>
    have hresult : ∀ x, Overflow.wraps.result 64 x = some (Signed.wrap 64 x) := by
      intro x
      simp [Overflow.result]
    unfold deriveGapsFrom Verifier.deriveGaps
    rw [hresult]
    dsimp only
    rw [hresult]
    show (if start + policy.intervalMs + policy.graceMs > nowMs then Outcome.returned gaps
        else deriveGapsFrom .wraps policy nowMs fuel (start + policy.intervalMs)
          (gaps ++ [⟨start, start + policy.intervalMs⟩])) = .returned found ↔ _
    by_cases hahead : start + policy.intervalMs + policy.graceMs > nowMs
    · rw [if_pos hahead, if_pos hahead]
      simp [eq_comm]
    · rw [if_neg hahead, if_neg hahead, ih]
      simp only [Option.bind_eq_bind, Option.bind_eq_some_iff, Option.pure_def, Option.some.injEq]
      constructor
      · rintro ⟨missed, hmissed, rfl⟩
        exact ⟨_, ⟨missed, hmissed, rfl⟩, by simp⟩
      · rintro ⟨_, ⟨missed, hmissed, rfl⟩, rfl⟩
        exact ⟨missed, hmissed, by simp⟩

end Run

section Derivation

variable (overflow : Overflow) (policy : CalendarPolicy) (lastMs nowMs : Signed 64)

/-- `derive_gaps` ends, with the run of the missed intervals. -/
def DerivesGaps : Prop :=
  ∃ fuel gaps, deriveGaps overflow policy lastMs nowMs fuel = .returned gaps ∧
    MissedRun policy lastMs.val nowMs.val gaps

/-- The interval that is expected after `n` others is the first whose deadline is ahead. -/
def FirstAhead (n : ℕ) : Prop :=
  (∀ k < n, deadline policy lastMs.val k ≤ nowMs.val) ∧ nowMs.val < deadline policy lastMs.val n

/-- There is a first deadline ahead. In a debug build no end and no deadline up to it leaves `i64`; in a release
build the ends before it are in `i64` and each deadline, wrapped around, is on the side of now on which it is. -/
def WithinRange : Prop :=
  ∃ n, FirstAhead policy lastMs nowMs n ∧
    match overflow with
    | .panics => ∀ k ≤ n, Fits 64 (endAt policy lastMs.val k) ∧ Fits 64 (deadline policy lastMs.val k)
    | .wraps =>
      (∀ k < n, Fits 64 (endAt policy lastMs.val k) ∧ reading 64 (deadline policy lastMs.val k) ≤ nowMs.val) ∧
        nowMs.val < reading 64 (deadline policy lastMs.val n)

variable {overflow policy lastMs nowMs}

theorem stops_of_fits {n : ℕ} (h : FirstAhead policy lastMs nowMs n)
    (hfits : ∀ k ≤ n, Fits 64 (endAt policy lastMs.val k) ∧ Fits 64 (deadline policy lastMs.val k)) :
    Stops overflow policy lastMs.val nowMs.val n := by
  refine ⟨fun k hk => ⟨fun _ => (hfits k hk).1, fun _ => (hfits k hk).2⟩, fun k hk => ?_, ?_⟩
  · rw [reading_of_fits (hfits k hk.le).2]
    exact h.1 k hk
  · rw [reading_of_fits (hfits n le_rfl).2]
    exact h.2

theorem Stops.fits {n : ℕ} (h : Stops .panics policy lastMs.val nowMs.val n) :
    ∀ k ≤ n, Fits 64 (endAt policy lastMs.val k) ∧ Fits 64 (deadline policy lastMs.val k) :=
  fun k hk => ⟨(h.bears k hk).1 rfl, (h.bears k hk).2 rfl⟩

theorem Stops.firstAhead {n : ℕ} (h : Stops .panics policy lastMs.val nowMs.val n) :
    FirstAhead policy lastMs nowMs n := by
  constructor
  · intro k hk
    have := h.past k hk
    rwa [reading_of_fits (h.fits k hk.le).2] at this
  · have := h.ahead
    rwa [reading_of_fits (h.fits n le_rfl).2] at this

theorem deadline_lt {k k' : ℕ} (hinterval : 0 < policy.intervalMs.val) (h : k < k') (last : ℤ) :
    deadline policy last k < deadline policy last k' := by
  have hcast : (k : ℤ) < k' := by exact_mod_cast h
  unfold deadline endAt
  nlinarith

/-- Some deadline is the first one ahead if the intervals have a length, or none has been missed. -/
theorem exists_firstAhead_iff :
    (∃ n, FirstAhead policy lastMs nowMs n) ↔
      0 < policy.intervalMs.val ∨ nowMs.val < deadline policy lastMs.val 0 := by
  constructor
  · rintro ⟨n, hpast, hahead⟩
    cases n with
    | zero => exact .inr hahead
    | succ n =>
      have hfirst := hpast 0 n.succ_pos
      refine .inl ?_
      by_contra hnot
      unfold deadline endAt at hfirst hahead
      push_cast at hfirst hahead
      nlinarith
  · rintro (hinterval | hahead)
    · have hsome : ∃ n, nowMs.val < deadline policy lastMs.val n := by
        refine ⟨(nowMs.val - lastMs.val - policy.graceMs.val).toNat, ?_⟩
        have := Int.self_le_toNat (nowMs.val - lastMs.val - policy.graceMs.val)
        unfold deadline endAt
        nlinarith
      exact ⟨Nat.find hsome, fun k hk => not_lt.1 (Nat.find_min hsome hk), Nat.find_spec hsome⟩
    · exact ⟨0, fun k hk => absurd hk k.not_lt_zero, hahead⟩

/-- The condition, told by the loop. -/
theorem withinRange_iff :
    WithinRange overflow policy lastMs nowMs ↔
      ∃ n, FirstAhead policy lastMs nowMs n ∧ (∀ k < n, Fits 64 (endAt policy lastMs.val k)) ∧
        Stops overflow policy lastMs.val nowMs.val n := by
  unfold WithinRange
  refine exists_congr fun n => and_congr_right fun hfirst => ?_
  cases overflow with
  | panics =>
    constructor
    · intro hfits
      exact ⟨fun k hk => (hfits k hk.le).1, stops_of_fits hfirst hfits⟩
    · rintro ⟨-, hstops⟩
      exact hstops.fits
  | wraps =>
    constructor
    · rintro ⟨hpast, hahead⟩
      refine ⟨fun k hk => (hpast k hk).1, fun k _ => ?_, fun k hk => (hpast k hk).2, hahead⟩
      exact ⟨bears_of_wraps 64 _, bears_of_wraps 64 _⟩
    · rintro ⟨hends, hstops⟩
      exact ⟨fun k hk => ⟨hends k hk, hstops.past k hk⟩, hstops.ahead⟩

end Derivation

section Coverage

variable (overflow : Overflow) (policy : CalendarPolicy) (lastMs nowMs : Signed 64)

/-- The calendar is derived as far as it was missed exactly where the arithmetic holds out until a deadline that
is ahead. -/
theorem derive_gaps_iff :
    DerivesGaps overflow policy lastMs nowMs ↔ WithinRange overflow policy lastMs nowMs := by
  rw [withinRange_iff]
  constructor
  · rintro ⟨fuel, gaps, hreturned, hrun⟩
    obtain ⟨n, -, hstops, rfl⟩ := deriveGaps_returned.1 hreturned
    have hlength : ((List.range n).map (taken policy lastMs.val)).length = n := by simp
    have hpast := hrun.past
    have hmaximal := hrun.maximal
    have hsame := hrun.run
    rw [hlength] at hpast hmaximal hsame
    exact ⟨n, ⟨hpast, hmaximal⟩, (map_span_taken_iff lastMs n).1 hsame, hstops⟩
  · rintro ⟨n, ⟨hpast, hmaximal⟩, hfits, hstops⟩
    refine ⟨n + 1, (List.range n).map (taken policy lastMs.val), ?_, ?_⟩
    · exact deriveGaps_returned.2 ⟨n, n.lt_succ_self, hstops, rfl⟩
    · refine ⟨?_, ?_, ?_⟩ <;> simp only [List.length_map, List.length_range]
      · exact (map_span_taken_iff lastMs n).2 hfits
      · exact hpast
      · exact hmaximal

/-- A day without length and without grace: the loop goes on for good, in either build. -/
theorem empty_interval_never_ends (fuel : ℕ) (start : Signed 64) (gaps : List Gap) (hstart : start.val ≤ nowMs.val) :
    deriveGapsFrom overflow ⟨0, 0⟩ nowMs fuel start gaps = .running := by
  have hzero : (0 : Signed 64).val = 0 := by decide
  induction fuel generalizing gaps with
  | zero => rfl
  | succ fuel ih =>
    have hresult : overflow.result 64 (start.val + 0) = some start := by
      rw [add_zero, result_of_bears fun _ => start.fits, Signed.wrap_val]
    unfold deriveGapsFrom
    simp only [hzero, hresult]
    rw [if_neg (by omega)]
    exact ih _

theorem interval_without_length :
    ¬ DerivesGaps .panics ⟨0, 0⟩ 0 0 ∧ ¬ DerivesGaps .wraps ⟨0, 0⟩ 0 0 := by
  have hnever : ∀ overflow : Overflow, ¬ DerivesGaps overflow ⟨0, 0⟩ 0 0 := by
    rintro overflow ⟨fuel, gaps, hreturned, -⟩
    rw [deriveGaps, empty_interval_never_ends overflow 0 fuel 0 [] le_rfl] at hreturned
    simp at hreturned
  exact ⟨hnever .panics, hnever .wraps⟩

end Coverage

section LateRecovery

variable (overflow : Overflow) (policy : CalendarPolicy) (lastMs nowMs : Signed 64)

/-- What is missed now can be recovered late now, and what can be recovered late now is missed. -/
def AgreeOnLate : Prop :=
  ∃ fuel gaps, deriveGaps overflow policy lastMs nowMs fuel = .returned gaps ∧
    (∀ g ∈ gaps, recoverLate overflow policy g nowMs = .returned (.ok ⟨g, nowMs⟩)) ∧
    ∀ k g, span g = expected policy lastMs.val k →
      recoverLate overflow policy g nowMs = .returned (.ok ⟨g, nowMs⟩) → g ∈ gaps

/-- In a debug build: the gaps are derived, and now is no deadline. In a release build, as the deadlines are wrapped
around: those up to the first that is ahead are before now, and none after it of an interval in `i64` is. -/
def NoDeadlineIsNow : Prop :=
  match overflow with
  | .panics => WithinRange .panics policy lastMs nowMs ∧ ∀ k, deadline policy lastMs.val k ≠ nowMs.val
  | .wraps =>
    ∃ n, (∀ k < n, reading 64 (deadline policy lastMs.val k) < nowMs.val) ∧
      nowMs.val < reading 64 (deadline policy lastMs.val n) ∧
      ∀ k > n, Fits 64 (endAt policy lastMs.val k) →
        nowMs.val ≤ reading 64 (deadline policy lastMs.val k)

variable {overflow policy lastMs nowMs}

theorem recoverLate_ok {g : Gap} :
    recoverLate overflow policy g nowMs = .returned (.ok ⟨g, nowMs⟩) ↔
      overflow.Bears 64 (g.endMs.val + policy.graceMs.val) ∧
        reading 64 (g.endMs.val + policy.graceMs.val) < nowMs.val := by
  unfold recoverLate
  by_cases hbears : overflow.Bears 64 (g.endMs.val + policy.graceMs.val)
  · rw [result_of_bears hbears]
    dsimp only
    split_ifs with hle
    · simp [hbears, reading, hle]
    · simp [hbears, reading, not_le.1 hle]
  · rw [result_of_not_bears hbears]
    simp [hbears]

theorem recoverLate_expected {g : Gap} {k : ℕ} (hg : span g = expected policy lastMs.val k) :
    recoverLate overflow policy g nowMs = .returned (.ok ⟨g, nowMs⟩) ↔
      overflow.Bears 64 (deadline policy lastMs.val k) ∧ reading 64 (deadline policy lastMs.val k) < nowMs.val := by
  have hend : g.endMs.val = endAt policy lastMs.val k := congrArg Prod.snd hg
  rw [recoverLate_ok, hend]
  rfl

/-- The gap pushed for an expected interval can be recovered late if its deadline, as it is read, is past. -/
theorem recoverLate_taken {k : ℕ} (hend : overflow.Bears 64 (endAt policy lastMs.val k))
    (hdeadline : overflow.Bears 64 (deadline policy lastMs.val k)) :
    recoverLate overflow policy (taken policy lastMs.val k) nowMs =
        .returned (.ok ⟨taken policy lastMs.val k, nowMs⟩) ↔
      reading 64 (deadline policy lastMs.val k) < nowMs.val := by
  have hresult : overflow.result 64 (reading 64 (endAt policy lastMs.val k) + policy.graceMs.val) =
      overflow.result 64 (deadline policy lastMs.val k) := result_add hend _
  have hbears : overflow.Bears 64 (reading 64 (endAt policy lastMs.val k) + policy.graceMs.val) := by
    rw [bears_iff_isSome, hresult]
    exact bears_iff_isSome.1 hdeadline
  rw [result_of_bears hbears, result_of_bears hdeadline, Option.some.injEq] at hresult
  have hreading : reading 64 (reading 64 (endAt policy lastMs.val k) + policy.graceMs.val) =
      reading 64 (deadline policy lastMs.val k) := congrArg Signed.val hresult
  rw [recoverLate_ok]
  rw [← hreading]
  exact and_iff_right hbears

theorem span_injective : Function.Injective span := by
  intro g g' h
  obtain ⟨hstart, hend⟩ := Prod.mk.inj h
  cases g
  cases g'
  congr 1
  · exact Signed.ext hstart
  · exact Signed.ext hend

/-- The intervals up to one that ends in `i64` begin in it. -/
theorem fits_start {k : ℕ} (hinterval : 0 < policy.intervalMs.val) (hk : Fits 64 (endAt policy lastMs.val k)) :
    ∀ i ≤ k, Fits 64 (lastMs.val + i * policy.intervalMs.val) := by
  intro i hi
  have hcast : (i : ℤ) ≤ k := by exact_mod_cast hi
  have hlast := lastMs.fits
  unfold endAt at hk
  unfold Fits at hlast hk ⊢
  constructor <;> nlinarith

theorem exists_span_iff {k : ℕ} (hinterval : 0 < policy.intervalMs.val) :
    (∃ g, span g = expected policy lastMs.val k) ↔ Fits 64 (endAt policy lastMs.val k) := by
  constructor
  · rintro ⟨g, hg⟩
    have hend : g.endMs.val = endAt policy lastMs.val k := congrArg Prod.snd hg
    rw [← hend]
    exact g.endMs.fits
  · intro hk
    exact ⟨⟨⟨_, fits_start hinterval hk k le_rfl⟩, ⟨_, hk⟩⟩, rfl⟩

/-- An expected interval of `i64`s is pushed in its own turn only. -/
theorem taken_eq_iff {g : Gap} {j k : ℕ} (hinterval : 0 < policy.intervalMs.val)
    (hg : span g = expected policy lastMs.val k) (hjk : j ≤ k) : taken policy lastMs.val j = g ↔ j = k := by
  have hk := (exists_span_iff hinterval).1 ⟨g, hg⟩
  have hstarts := fits_start hinterval hk
  have hends : ∀ i ≤ k, Fits 64 (endAt policy lastMs.val i) := by
    intro i hi
    rcases Nat.lt_or_eq_of_le hi with hlt | rfl
    · have := hstarts (i + 1) hlt
      rwa [startAt_succ] at this
    · exact hk
  rw [← span_injective.eq_iff, span_taken_iff.2 ⟨hstarts j hjk, hends j hjk⟩, hg]
  constructor
  · intro heq
    by_contra hne
    have hlt := deadline_lt hinterval (lt_of_le_of_ne hjk hne) lastMs.val
    have hend : endAt policy lastMs.val j = endAt policy lastMs.val k := congrArg Prod.snd heq
    unfold deadline at hlt
    omega
  · rintro rfl
    rfl

theorem mem_taken_iff {g : Gap} {n k : ℕ} (hinterval : 0 < policy.intervalMs.val)
    (hg : span g = expected policy lastMs.val k) :
    g ∈ (List.range n).map (taken policy lastMs.val) ↔ k < n := by
  rw [List.mem_map]
  constructor
  · rintro ⟨j, hj, heq⟩
    have hjn := List.mem_range.1 hj
    rcases lt_or_ge k n with hlt | hle
    · exact hlt
    · have := (taken_eq_iff hinterval hg (by omega)).1 heq
      omega
  · intro hlt
    exact ⟨k, List.mem_range.2 hlt, (taken_eq_iff hinterval hg le_rfl).2 rfl⟩

/-- The agreement, told by where the loop ends. -/
theorem agreeOnLate_iff_stops (hinterval : 0 < policy.intervalMs.val) :
    AgreeOnLate overflow policy lastMs nowMs ↔
      ∃ n, Stops overflow policy lastMs.val nowMs.val n ∧
        (∀ k < n, reading 64 (deadline policy lastMs.val k) < nowMs.val) ∧
        ∀ k > n, ∀ g, span g = expected policy lastMs.val k → overflow.Bears 64 (deadline policy lastMs.val k) →
          nowMs.val ≤ reading 64 (deadline policy lastMs.val k) := by
  constructor
  · rintro ⟨fuel, gaps, hreturned, hlate, hmissed⟩
    obtain ⟨n, -, hstops, rfl⟩ := deriveGaps_returned.1 hreturned
    refine ⟨n, hstops, fun k hk => ?_, fun k hk g hg hbears => ?_⟩
    · have hbears := hstops.bears k hk.le
      exact (recoverLate_taken hbears.1 hbears.2).1
        (hlate _ (List.mem_map_of_mem (List.mem_range.2 hk)))
    · by_contra hpast
      have hmem := hmissed k g hg ((recoverLate_expected hg).2 ⟨hbears, not_le.1 hpast⟩)
      have := (mem_taken_iff hinterval hg).1 hmem
      omega
  · rintro ⟨n, hstops, hpast, hlater⟩
    refine ⟨n + 1, _, deriveGaps_returned.2 ⟨n, n.lt_succ_self, hstops, rfl⟩, ?_, ?_⟩
    · intro g hg
      obtain ⟨k, hk, rfl⟩ := List.mem_map.1 hg
      have hbears := hstops.bears k (List.mem_range.1 hk).le
      exact (recoverLate_taken hbears.1 hbears.2).2 (hpast k (List.mem_range.1 hk))
    · intro k g hg hlate
      obtain ⟨hbears, hlt⟩ := (recoverLate_expected hg).1 hlate
      refine (mem_taken_iff hinterval hg).2 ?_
      rcases Nat.lt_trichotomy k n with hkn | rfl | hkn
      · exact hkn
      · have := hstops.ahead
        omega
      · have := hlater k hkn g hg hbears
        omega

/-- Deadlines that come one after the other: the first one ahead, and none at now. -/
theorem noDeadlineIsNow_panics (hinterval : 0 < policy.intervalMs.val) :
    NoDeadlineIsNow .panics policy lastMs nowMs ↔
      ∃ n, Stops .panics policy lastMs.val nowMs.val n ∧
        ∀ k < n, reading 64 (deadline policy lastMs.val k) < nowMs.val := by
  constructor
  · rintro ⟨⟨n, hfirst, hfits⟩, hnow⟩
    refine ⟨n, stops_of_fits hfirst hfits, fun k hk => ?_⟩
    rw [reading_of_fits (hfits k hk.le).2]
    exact lt_of_le_of_ne (hfirst.1 k hk) (hnow k)
  · rintro ⟨n, hstops, hpast⟩
    have hfirst := hstops.firstAhead
    refine ⟨⟨n, hfirst, hstops.fits⟩, fun k heq => ?_⟩
    rcases Nat.lt_trichotomy k n with hkn | rfl | hkn
    · have := hpast k hkn
      rw [reading_of_fits (hstops.fits k hkn.le).2] at this
      omega
    · have := hfirst.2
      omega
    · have := deadline_lt hinterval hkn lastMs.val
      have := hfirst.2
      omega

/-- Both sides mean the same by late exactly if the gaps are derived and now is not a deadline. -/
theorem late_agreement_iff (overflow : Overflow) (policy : CalendarPolicy) (lastMs nowMs : Signed 64)
    (hinterval : 0 < policy.intervalMs.val) :
    AgreeOnLate overflow policy lastMs nowMs ↔ NoDeadlineIsNow overflow policy lastMs nowMs := by
  rw [agreeOnLate_iff_stops hinterval]
  cases overflow with
  | panics =>
    rw [noDeadlineIsNow_panics hinterval]
    refine exists_congr fun n => and_congr_right fun hstops => and_iff_left fun k hk _ _ hbears => ?_
    -- a deadline after the first one that is ahead is ahead as well
    rw [reading_of_fits (hbears rfl)]
    have := deadline_lt hinterval hk lastMs.val
    have := hstops.firstAhead.2
    omega
  | wraps =>
    refine exists_congr fun n => ?_
    constructor
    · rintro ⟨hstops, hpast, hlater⟩
      refine ⟨hpast, hstops.ahead, fun k hk hfits => ?_⟩
      obtain ⟨g, hg⟩ := (exists_span_iff hinterval).2 hfits
      exact hlater k hk g hg (bears_of_wraps 64 _)
    · rintro ⟨hpast, hahead, hlater⟩
      refine ⟨⟨fun k _ => ?_, fun k hk => (hpast k hk).le, hahead⟩, hpast, fun k hk g hg _ => ?_⟩
      · exact ⟨bears_of_wraps 64 _, bears_of_wraps 64 _⟩
      · exact hlater k hk ((exists_span_iff hinterval).1 ⟨g, hg⟩)

/-- A day with a day of grace, three days on and an hour: in a debug build the two sides agree. -/
theorem late_agreement_daily :
    0 < (86400000 : Signed 64).val ∧ AgreeOnLate .panics ⟨86400000, 86400000⟩ 0 262800000 := by
  have hpositive : 0 < (86400000 : Signed 64).val := by decide
  refine ⟨hpositive, (late_agreement_iff .panics ⟨86400000, 86400000⟩ 0 262800000 hpositive).2 ?_⟩
  refine ⟨⟨2, ⟨by decide, by decide⟩, by decide⟩, fun k hnow => ?_⟩
  have hzero : (0 : Signed 64).val = 0 := by decide
  have hday : (86400000 : Signed 64).val = 86400000 := by decide
  have htime : (262800000 : Signed 64).val = 262800000 := by decide
  unfold deadline endAt at hnow
  dsimp only at hnow
  rw [hzero, hday, htime] at hnow
  omega

/-- At the deadline: the day is missed, but what is recovered for it is not late, in either build. -/
theorem missed_but_not_late :
    ¬ AgreeOnLate .panics ⟨86400000, 86400000⟩ 0 172800000 ∧
      ¬ AgreeOnLate .wraps ⟨86400000, 86400000⟩ 0 172800000 := by
  have hnever : ∀ overflow : Overflow, ¬ AgreeOnLate overflow ⟨86400000, 86400000⟩ 0 172800000 := by
    intro overflow hagree
    obtain ⟨n, hstops, hpast, -⟩ := (agreeOnLate_iff_stops (by decide)).1 hagree
    have hfirst : reading 64 (deadline ⟨86400000, 86400000⟩ (0 : Signed 64).val 0) =
        (172800000 : Signed 64).val := by decide
    cases n with
    | zero =>
      have := hstops.ahead
      omega
    | succ n =>
      have := hpast 0 n.succ_pos
      omega
  exact ⟨hnever .panics, hnever .wraps⟩

end LateRecovery

end Linvesther.Verifier.Calendar
