import Linvesther.Base.Overflow
import Linvesther.Base.Windows
import Linvesther.Wallet.Effects

/-! `Explorer::list`: the rows between two blocks, of which the explorer shows one window for each query. -/

namespace Linvesther.Wallet

open Windows

section Explorer

variable {T ε : Type}

/-- A window is read in whole pages. -/
structure Limits where
  window : ℕ
  pageSize : ℕ
  pageSize_pos : 0 < pageSize
  window_pos : 0 < window
  divides : pageSize ∣ window

def Limits.default : Limits := ⟨10000, 1000, by decide, by decide, by decide⟩

/-- How many pages are asked for at most before a window counts as full. -/
def Limits.pages (limits : Limits) : ℕ := limits.window / limits.pageSize

structure PageQuery where
  start : ℕ
  stop : ℕ
  page : ℕ
  offset : ℕ

inductive ExplorerError (ε : Type)
  | call (e : ε)
  | blockTooLarge (block : ℕ)
deriving DecidableEq

variable (answer : PageQuery → Except ε (Listing T)) (limits : Limits)

/-- The `loop` of `window_of`, for that many pages. -/
def windowOf (start stop : ℕ) : ℕ → ℕ → List T → Bool → Outcome (Except ε (List T × Bool × Bool))
  | 0, _, _, _ => .running
  | turns + 1, page, rows, warned =>
    match answer ⟨start, stop, page, limits.pageSize⟩ with
    | .error e => .returned (.error e)
    | .ok listing =>
      let warned := warned || listing.incomplete
      let got := listing.rows.length
      let rows := rows ++ listing.rows
      if got < limits.pageSize then .returned (.ok (rows, false, warned))
      else if page * limits.pageSize ≥ limits.window then .returned (.ok (rows, true, warned))
      else windowOf start stop turns (page + 1) rows warned

variable (overflow : Overflow) (blockOf : T → ℕ) (stop : ℕ)

/-- The `while` of `list`, for that many turns. -/
def listFrom : ℕ → ℕ → List T → Bool → Outcome (Except (ExplorerError ε) (Listing T))
  | 0, _, _, _ => .running
  | fuel + 1, start, all, incomplete =>
    if start ≤ stop then
      match windowOf answer limits start stop limits.pages 1 [] false with
      | .running => .running
      | .panicked => .panicked
      | .returned (.error e) => .returned (.error (.call e))
      | .returned (.ok (rows, windowFull, warned)) =>
        if !windowFull then .returned (.ok ⟨all ++ rows, incomplete || warned⟩)
        else
          match rows.getLast?.map blockOf with
          | none => .panicked
          | some lastBlock =>
            if rows.head?.map blockOf = some lastBlock then .returned (.error (.blockTooLarge lastBlock))
            else
              match windowOf answer limits lastBlock lastBlock limits.pages 1 [] false with
              | .running => .running
              | .panicked => .panicked
              | .returned (.error e) => .returned (.error (.call e))
              | .returned (.ok (blockRows, blockFull, warned')) =>
                if blockFull then .returned (.error (.blockTooLarge lastBlock))
                else
                  match overflow.unsigned 64 (lastBlock + 1) with
                  | none => .panicked
                  | some next =>
                    listFrom fuel next (all ++ rows.filter (fun row => blockOf row < lastBlock) ++ blockRows)
                      (incomplete || warned || warned')
    else .returned (.ok ⟨all, incomplete⟩)

def Explorer.list (start fuel : ℕ) : Outcome (Except (ExplorerError ε) (Listing T)) :=
  listFrom answer limits overflow blockOf stop fuel start [] false

end Explorer

section Server

variable {T ε : Type} (blockOf : T → ℕ) (rows : List T) (cap : ℕ)

/-- What the explorer shows of its rows for a query: of the first `cap` of them, the page. -/
def shown (q : PageQuery) : List T :=
  (((span blockOf rows q.start (q.stop + 1)).take cap).drop ((q.page - 1) * q.offset)).take q.offset

/-- A server that answers every query from its rows. -/
def ShowsRows (answer : PageQuery → Except ε (Listing T)) : Prop :=
  ∀ q, ∃ warned, answer q = .ok ⟨shown blockOf rows cap q, warned⟩

variable {blockOf rows cap} {answer : PageQuery → Except ε (Listing T)} {limits : Limits}

/-- The pages of a window, by induction on those that are left. -/
theorem windowOf_from (h : ShowsRows blockOf rows cap answer) (hcap : limits.window ≤ cap) {start stop : ℕ}
    {turns page : ℕ} {warned : Bool} (hturns : (page + turns) * limits.pageSize = limits.window)
    (hpage : page * limits.pageSize ≤ (span blockOf rows start (stop + 1)).length) (hmore : 0 < turns) :
    ∃ warned', windowOf answer limits start stop turns (page + 1)
        ((span blockOf rows start (stop + 1)).take (page * limits.pageSize)) warned =
      .returned (.ok ((span blockOf rows start (stop + 1)).take limits.window,
        decide (limits.window ≤ (span blockOf rows start (stop + 1)).length), warned')) := by
  induction turns generalizing page warned with
  | zero => omega
  | succ turns ih =>
    obtain ⟨warned', hanswer⟩ := h ⟨start, stop, page + 1, limits.pageSize⟩
    have hnext : (page + 1) * limits.pageSize = page * limits.pageSize + limits.pageSize := by ring
    have hsplit : (page + 1 + turns) * limits.pageSize =
        (page + 1) * limits.pageSize + turns * limits.pageSize := by ring
    have hturns' : (page + 1 + turns) * limits.pageSize = limits.window := by
      rw [← hturns]
      ring
    have hshown : shown blockOf rows cap ⟨start, stop, page + 1, limits.pageSize⟩ =
        ((span blockOf rows start (stop + 1)).drop (page * limits.pageSize)).take limits.pageSize := by
      unfold shown
      simp only [Nat.add_sub_cancel]
      rw [List.drop_take, List.take_take]
      congr 1
      omega
    have hrows : (span blockOf rows start (stop + 1)).take (page * limits.pageSize) ++
        ((span blockOf rows start (stop + 1)).drop (page * limits.pageSize)).take limits.pageSize =
        (span blockOf rows start (stop + 1)).take ((page + 1) * limits.pageSize) := by
      rw [hnext, List.take_add]
    unfold windowOf
    rw [hanswer]
    dsimp only
    rw [hshown, hrows, List.length_take, List.length_drop]
    split_ifs with hgot hwindow
    · refine ⟨warned || warned', ?_⟩
      have hshort : (span blockOf rows start (stop + 1)).length < (page + 1) * limits.pageSize := by omega
      have hshort' : (span blockOf rows start (stop + 1)).length < limits.window := by omega
      rw [List.take_of_length_le hshort.le, List.take_of_length_le hshort'.le, decide_eq_false (by omega)]
    · refine ⟨warned || warned', ?_⟩
      have hlast : (page + 1) * limits.pageSize = limits.window := by omega
      rw [hlast, decide_eq_true (by omega)]
    · refine ih hturns' (by omega) ?_
      by_contra hnone
      have hzero : turns = 0 := by omega
      rw [hzero, add_zero] at hturns'
      omega

/-- A window is the first rows between the two blocks, and it is full if there are that many. -/
theorem windowOf_answers (h : ShowsRows blockOf rows cap answer) (hcap : limits.window ≤ cap) (start stop : ℕ) :
    ∃ warned, windowOf answer limits start stop limits.pages 1 [] false =
      .returned (.ok ((span blockOf rows start (stop + 1)).take limits.window,
        decide (limits.window ≤ (span blockOf rows start (stop + 1)).length), warned)) := by
  have hpages : limits.pages * limits.pageSize = limits.window := Nat.div_mul_cancel limits.divides
  have hpos : 0 < limits.pages := by
    have := limits.window_pos
    by_contra hzero
    rw [Nat.eq_zero_of_not_pos hzero, zero_mul] at hpages
    omega
  have hfirst := @windowOf_from _ _ _ _ _ _ _ h hcap start stop limits.pages 0 false
    (by rw [zero_add, hpages]) (by simp) hpos
  simpa using hfirst

end Server

section Turns

variable {T ε : Type} (limits : Limits) (blockOf : T → ℕ) (rows : List T) (stop : ℕ)

/-- The rows that are still to be read. -/
def remaining (start : ℕ) : List T := span blockOf rows start (stop + 1)

/-- The rows of one block fill a window. -/
def Oversized (block : ℕ) : Prop := limits.window ≤ (span blockOf rows block (block + 1)).length

instance (block : ℕ) : Decidable (Oversized limits blockOf rows block) := inferInstanceAs (Decidable (_ ≤ _))

/-- The window from `start` is full and ends in the block `last`. -/
structure EndsIn (start last : ℕ) : Prop where
  le_stop : start ≤ stop
  full : limits.window ≤ (remaining blockOf rows stop start).length
  last : ((remaining blockOf rows stop start).take limits.window).getLast?.map blockOf = some last

variable {limits blockOf rows stop} {start last : ℕ}

theorem EndsIn.bounds (h : EndsIn limits blockOf rows stop start last) : start ≤ last ∧ last ≤ stop := by
  obtain ⟨row, hrow, rfl⟩ := Option.map_eq_some_iff.1 h.last
  obtain ⟨-, hlo, hhi⟩ := mem_span.1 (List.mem_of_mem_take (List.mem_of_getLast? hrow))
  omega

theorem EndsIn.unique {last' : ℕ} (h : EndsIn limits blockOf rows stop start last)
    (h' : EndsIn limits blockOf rows stop start last') : last = last' :=
  Option.some.inj (h.last.symm.trans h'.last)

theorem exists_endsIn (hle : start ≤ stop) (hfull : limits.window ≤ (remaining blockOf rows stop start).length) :
    ∃ last, EndsIn limits blockOf rows stop start last := by
  have hlength : ((remaining blockOf rows stop start).take limits.window).length = limits.window := by
    rw [List.length_take]
    omega
  cases hlast : ((remaining blockOf rows stop start).take limits.window).getLast? with
  | none =>
    rw [List.getLast?_eq_none_iff] at hlast
    rw [hlast] at hlength
    have := limits.window_pos
    simp at hlength
    omega
  | some row => exact ⟨blockOf row, hle, hfull, by rw [hlast]; rfl⟩

/-- A window that never leaves one block is full of it. -/
theorem EndsIn.oversized (hsorted : rows.Pairwise fun a b => blockOf a ≤ blockOf b)
    (h : EndsIn limits blockOf rows stop start last)
    (hsame : ((remaining blockOf rows stop start).take limits.window).head?.map blockOf = some last) :
    Oversized limits blockOf rows last := by
  obtain ⟨first, hfirst, hfirstBlock⟩ := Option.map_eq_some_iff.1 hsame
  obtain ⟨row, hrow, rfl⟩ := Option.map_eq_some_iff.1 h.last
  have hwindow : ((remaining blockOf rows stop start).take limits.window).Pairwise
      fun a b => blockOf a ≤ blockOf b := (pairwise_span hsorted start (stop + 1)).sublist (List.take_sublist _ _)
  have hblock := key_eq_last hwindow hfirst hrow hfirstBlock
  have hsub : ((remaining blockOf rows stop start).take limits.window).Sublist
      (span blockOf rows (blockOf row) (blockOf row + 1)) := by
    have hfilter : ((remaining blockOf rows stop start).take limits.window).filter
        (fun a => blockOf row ≤ blockOf a ∧ blockOf a < blockOf row + 1) =
          (remaining blockOf rows stop start).take limits.window := by
      rw [List.filter_eq_self]
      intro a ha
      have := hblock a ha
      rw [decide_eq_true_eq]
      omega
    rw [← hfilter]
    exact ((List.take_sublist _ _).trans List.filter_sublist).filter _
  have hlength := hsub.length_le
  rw [List.length_take, min_eq_left h.full] at hlength
  exact hlength

/-- What a turn keeps: the rows of its window before the last block, and that block. -/
theorem EndsIn.rows_eq (hsorted : rows.Pairwise fun a b => blockOf a ≤ blockOf b)
    (h : EndsIn limits blockOf rows stop start last) :
    ((remaining blockOf rows stop start).take limits.window).filter (fun row => blockOf row < last) ++
      span blockOf rows last (last + 1) = span blockOf rows start (last + 1) := by
  have hbounds := h.bounds
  obtain ⟨row, hrow, rfl⟩ := Option.map_eq_some_iff.1 h.last
  have hkept : ((remaining blockOf rows stop start).take limits.window).filter
      (fun a => blockOf a < blockOf row) = span blockOf rows start (blockOf row) := by
    refine (filter_take (pairwise_span hsorted start (stop + 1)) hrow).trans ?_
    unfold span
    rw [List.filter_filter]
    refine List.filter_congr fun a _ => ?_
    rw [Bool.eq_iff_iff, Bool.and_eq_true, decide_eq_true_eq, decide_eq_true_eq, decide_eq_true_eq]
    omega
  rw [hkept, span_append hsorted hbounds.1 (Nat.le_succ _)]

variable {cap : ℕ} {answer : PageQuery → Except ε (Listing T)} {overflow : Overflow}

/-- A window that is not full is the last. -/
theorem listFrom_short (h : ShowsRows blockOf rows cap answer) (hcap : limits.window ≤ cap) (hle : start ≤ stop)
    (hshort : (remaining blockOf rows stop start).length < limits.window) (fuel : ℕ) (all : List T)
    (incomplete : Bool) :
    ∃ incomplete', listFrom answer limits overflow blockOf stop (fuel + 1) start all incomplete =
      .returned (.ok ⟨all ++ remaining blockOf rows stop start, incomplete'⟩) := by
  obtain ⟨warned, hwindow⟩ := windowOf_answers h hcap start stop
  refine ⟨incomplete || warned, ?_⟩
  unfold listFrom
  rw [if_pos hle, hwindow]
  change (if !decide (limits.window ≤ (remaining blockOf rows stop start).length) then _ else _) = _
  rw [decide_eq_false (by omega)]
  have htake : (span blockOf rows start (stop + 1)).take limits.window = remaining blockOf rows stop start :=
    List.take_of_length_le hshort.le
  simp [htake]

/-- A full window, up to the question whether its last block is read whole. -/
theorem listFrom_full (hsorted : rows.Pairwise fun a b => blockOf a ≤ blockOf b)
    (h : ShowsRows blockOf rows cap answer) (hcap : limits.window ≤ cap)
    (hends : EndsIn limits blockOf rows stop start last) (fuel : ℕ) (all : List T) (incomplete : Bool) :
    ∃ incomplete', listFrom answer limits overflow blockOf stop (fuel + 1) start all incomplete =
      if Oversized limits blockOf rows last then .returned (.error (.blockTooLarge last))
      else match overflow.unsigned 64 (last + 1) with
        | none => .panicked
        | some next =>
          listFrom answer limits overflow blockOf stop fuel next (all ++ span blockOf rows start (last + 1))
            incomplete' := by
  obtain ⟨warned, hwindow⟩ := windowOf_answers h hcap start stop
  obtain ⟨warned', hblock⟩ := windowOf_answers h hcap last last
  have hfull : limits.window ≤ (span blockOf rows start (stop + 1)).length := hends.full
  have hlast : ((span blockOf rows start (stop + 1)).take limits.window).getLast?.map blockOf = some last :=
    hends.last
  refine ⟨incomplete || warned || warned', ?_⟩
  conv_lhs => unfold listFrom
  rw [if_pos hends.le_stop, hwindow]
  dsimp only
  rw [decide_eq_true hfull, Bool.not_true, if_neg Bool.false_ne_true, hlast]
  dsimp only
  by_cases hsame : ((span blockOf rows start (stop + 1)).take limits.window).head?.map blockOf = some last
  · rw [if_pos hsame, if_pos (hends.oversized hsorted hsame)]
  · rw [if_neg hsame, hblock]
    dsimp only
    by_cases hoversized : Oversized limits blockOf rows last
    · have hdecide : limits.window ≤ (span blockOf rows last (last + 1)).length := hoversized
      rw [if_pos hoversized, decide_eq_true hdecide, if_pos rfl]
    · have hshort : (span blockOf rows last (last + 1)).length < limits.window := not_le.1 hoversized
      have hkept := hends.rows_eq hsorted
      rw [if_neg hoversized, decide_eq_false (by omega), if_neg Bool.false_ne_true,
        List.take_of_length_le hshort.le, List.append_assoc]
      unfold remaining at hkept
      rw [hkept]

end Turns

section Endings

variable {T ε : Type} (limits : Limits) (blockOf : T → ℕ) (rows : List T) (stop : ℕ)

/-- From `start` on, each window is full and ends in a block that is read whole, and the last of these blocks is
the last number there is. -/
inductive Overruns : ℕ → Prop
  | last {start last : ℕ} : EndsIn limits blockOf rows stop start last → ¬ Oversized limits blockOf rows last →
      last + 1 = 2 ^ 64 → Overruns start
  | next {start last : ℕ} : EndsIn limits blockOf rows stop start last → ¬ Oversized limits blockOf rows last →
      Overruns (last + 1) → Overruns start

def NoneOversized (start : ℕ) : Prop :=
  ∀ block, start ≤ block → block ≤ stop → ¬ Oversized limits blockOf rows block

variable {limits blockOf rows stop} {start last : ℕ}

theorem Overruns.endsIn (h : Overruns limits blockOf rows stop start) :
    ∃ last, EndsIn limits blockOf rows stop start last ∧ ¬ Oversized limits blockOf rows last ∧
      (last + 1 = 2 ^ 64 ∨ Overruns limits blockOf rows stop (last + 1)) := by
  cases h with
  | last hends hwhole hend => exact ⟨_, hends, hwhole, .inl hend⟩
  | next hends hwhole hrest => exact ⟨_, hends, hwhole, .inr hrest⟩

theorem Overruns.stop_lt (h : Overruns limits blockOf rows stop start) : 2 ^ 64 ≤ stop + 1 := by
  induction h with
  | last hends _ hend =>
    have := hends.bounds
    omega
  | next _ _ _ ih => exact ih

theorem remaining_append (hsorted : rows.Pairwise fun a b => blockOf a ≤ blockOf b)
    (h : EndsIn limits blockOf rows stop start last) :
    span blockOf rows start (last + 1) ++ remaining blockOf rows stop (last + 1) =
      remaining blockOf rows stop start := by
  have hbounds := h.bounds
  exact span_append hsorted (by omega) (by omega)

/-- The blocks before the one in which a window ends are smaller than the window. -/
theorem EndsIn.whole_before (hsorted : rows.Pairwise fun a b => blockOf a ≤ blockOf b)
    (h : EndsIn limits blockOf rows stop start last) {block : ℕ} (hlo : start ≤ block) (hhi : block < last) :
    ¬ Oversized limits blockOf rows block := by
  intro hoversized
  have hbounds := h.bounds
  obtain ⟨row, hrow, rfl⟩ := Option.map_eq_some_iff.1 h.last
  have hkept := filter_take (pairwise_span hsorted start (stop + 1)) hrow
  have hsub : (span blockOf rows block (block + 1)).Sublist
      ((remaining blockOf rows stop start).filter fun a => blockOf a < blockOf row) := by
    unfold remaining span
    rw [List.filter_filter]
    refine List.monotone_filter_right _ fun a ha => ?_
    rw [decide_eq_true_eq] at ha
    rw [Bool.and_eq_true, decide_eq_true_eq, decide_eq_true_eq]
    omega
  have hlength := hsub.length_le
  have htake : ((remaining blockOf rows stop start).take limits.window).length = limits.window := by
    rw [List.length_take, min_eq_left h.full]
  -- the last row of the window is not among those before its block
  obtain ⟨front, hfront⟩ := List.getLast?_eq_some_iff.1 hrow
  have hshorter : ((remaining blockOf rows stop start).filter fun a => blockOf a < blockOf row).length ≤
      front.length := by
    unfold remaining
    rw [← hkept]
    change (((remaining blockOf rows stop start).take limits.window).filter _).length ≤ _
    rw [hfront, List.filter_append]
    simp [List.length_filter_le]
  rw [hfront, List.length_append, List.length_singleton] at htake
  unfold Oversized at hoversized
  omega

theorem noneOversized_of_short (h : (remaining blockOf rows stop start).length < limits.window) :
    NoneOversized limits blockOf rows stop start := by
  intro block hlo hhi hoversized
  have hsub : (span blockOf rows block (block + 1)).Sublist (remaining blockOf rows stop start) := by
    unfold remaining span
    refine List.monotone_filter_right _ fun a ha => ?_
    rw [decide_eq_true_eq] at ha ⊢
    omega
  have := hsub.length_le
  unfold Oversized at hoversized
  omega

theorem EndsIn.noneOversized (hsorted : rows.Pairwise fun a b => blockOf a ≤ blockOf b)
    (h : EndsIn limits blockOf rows stop start last) (hwhole : ¬ Oversized limits blockOf rows last)
    (hrest : NoneOversized limits blockOf rows stop (last + 1)) :
    NoneOversized limits blockOf rows stop start := by
  intro block hlo hhi
  rcases Nat.lt_trichotomy block last with hlt | rfl | hlt
  · exact h.whole_before hsorted hlo hlt
  · exact hwhole
  · exact hrest block hlt hhi

end Endings

section Run

variable {T ε : Type} (answer : PageQuery → Except ε (Listing T)) (limits : Limits) (overflow : Overflow)
  (blockOf : T → ℕ) (rows : List T) (stop start : ℕ)

/-- The rest is read whole. -/
def ReadWhole : Prop :=
  ¬ Overruns limits blockOf rows stop start ∧ NoneOversized limits blockOf rows stop start ∧
    ∃ turns, ∀ fuel all incomplete, ∃ incomplete',
      listFrom answer limits overflow blockOf stop (fuel + turns) start all incomplete =
        .returned (.ok ⟨all ++ remaining blockOf rows stop start, incomplete'⟩)

/-- The rest has a block that is refused. -/
def Refused : Prop :=
  ¬ Overruns limits blockOf rows stop start ∧
    ∃ block, start ≤ block ∧ block ≤ stop ∧ Oversized limits blockOf rows block ∧
      ∃ turns, ∀ fuel all incomplete,
        listFrom answer limits overflow blockOf stop (fuel + turns) start all incomplete =
          .returned (.error (.blockTooLarge block))

/-- The rest is read, and the turn after it begins at zero if there is one. -/
def Overrun : Prop :=
  Overruns limits blockOf rows stop start ∧ NoneOversized limits blockOf rows stop start ∧
    ∃ turns, ∀ fuel all incomplete, ∃ incomplete',
      listFrom answer limits overflow blockOf stop (fuel + (turns + 1)) start all incomplete =
        match overflow with
        | .panics => .panicked
        | .wraps =>
          listFrom answer limits overflow blockOf stop fuel 0 (all ++ remaining blockOf rows stop start)
            incomplete'

variable {answer limits overflow blockOf rows stop start} {cap last : ℕ}

section Turn

variable (hsorted : rows.Pairwise fun a b => blockOf a ≤ blockOf b) (h : ShowsRows blockOf rows cap answer)
  (hcap : limits.window ≤ cap) (hends : EndsIn limits blockOf rows stop start last)
include hsorted h hcap hends

theorem refused_turn (hoversized : Oversized limits blockOf rows last) :
    Refused answer limits overflow blockOf rows stop start := by
  have hbounds := hends.bounds
  refine ⟨fun hover => ?_, last, hbounds.1, hbounds.2, hoversized, 1, fun fuel all incomplete => ?_⟩
  · obtain ⟨last', hends', hwhole, -⟩ := hover.endsIn
    rw [← hends.unique hends'] at hwhole
    exact hwhole hoversized
  · obtain ⟨_, hfull⟩ := @listFrom_full T ε limits blockOf rows stop start last cap answer overflow hsorted h
      hcap hends fuel all incomplete
    rw [hfull, if_pos hoversized]

variable (hwhole : ¬ Oversized limits blockOf rows last)
include hwhole

/-- After the last number comes none, or zero. -/
theorem overrun_turn (hstop : stop < 2 ^ 64) (hlast : 2 ^ 64 ≤ last + 1) :
    Overrun answer limits overflow blockOf rows stop start := by
  have hbounds := hends.bounds
  have hend : last + 1 = 2 ^ 64 := by omega
  have hrows : span blockOf rows start (last + 1) = remaining blockOf rows stop start := by
    unfold remaining
    rw [show last = stop by omega]
  refine ⟨.last hends hwhole hend, hends.noneOversized hsorted hwhole ?_, 0, fun fuel all incomplete => ?_⟩
  · intro block hlo hhi
    omega
  · obtain ⟨incomplete', hfull⟩ := @listFrom_full T ε limits blockOf rows stop start last cap answer overflow
      hsorted h hcap hends fuel all incomplete
    refine ⟨incomplete', ?_⟩
    rw [if_neg hwhole, hrows] at hfull
    refine hfull.trans ?_
    rw [hend]
    cases overflow with
    | panics => rfl
    | wraps => rfl

variable (hlast : last + 1 < 2 ^ 64)
include hlast

/-- A turn before the last number: the next one begins after the block in which it ended. -/
theorem listFrom_turn (fuel : ℕ) (all : List T) (incomplete : Bool) :
    ∃ middle, listFrom answer limits overflow blockOf stop (fuel + 1) start all incomplete =
      listFrom answer limits overflow blockOf stop fuel (last + 1)
        (all ++ span blockOf rows start (last + 1)) middle := by
  obtain ⟨middle, hfull⟩ := @listFrom_full T ε limits blockOf rows stop start last cap answer overflow hsorted h
    hcap hends fuel all incomplete
  have hnext : overflow.unsigned 64 (last + 1) = some (last + 1) := if_pos hlast
  rw [if_neg hwhole, hnext] at hfull
  exact ⟨middle, hfull⟩

omit hsorted h hcap in
theorem overruns_iff_next :
    Overruns limits blockOf rows stop start ↔ Overruns limits blockOf rows stop (last + 1) := by
  constructor
  · intro hover
    obtain ⟨last', hends', -, hlater⟩ := hover.endsIn
    rw [← hends.unique hends'] at hlater
    rcases hlater with heq | hlater
    · omega
    · exact hlater
  · exact Overruns.next hends hwhole

theorem ReadWhole.turn (hrest : ReadWhole answer limits overflow blockOf rows stop (last + 1)) :
    ReadWhole answer limits overflow blockOf rows stop start := by
  obtain ⟨hnot, hnone, turns, hturns⟩ := hrest
  refine ⟨fun hover => hnot ((overruns_iff_next hends hwhole hlast).1 hover),
    hends.noneOversized hsorted hwhole hnone, turns + 1, fun fuel all incomplete => ?_⟩
  obtain ⟨middle, hfirst⟩ := @listFrom_turn T ε answer limits overflow blockOf rows stop start cap last hsorted h
    hcap hends hwhole hlast (fuel + turns) all incomplete
  obtain ⟨incomplete', hafter⟩ := hturns fuel (all ++ span blockOf rows start (last + 1)) middle
  refine ⟨incomplete', ?_⟩
  rw [← remaining_append hsorted hends, ← List.append_assoc]
  exact hfirst.trans hafter

theorem Refused.turn (hrest : Refused answer limits overflow blockOf rows stop (last + 1)) :
    Refused answer limits overflow blockOf rows stop start := by
  obtain ⟨hnot, block, hlo, hhi, hblock, turns, hturns⟩ := hrest
  have hbounds := hends.bounds
  refine ⟨fun hover => hnot ((overruns_iff_next hends hwhole hlast).1 hover), block, by omega, hhi, hblock,
    turns + 1, fun fuel all incomplete => ?_⟩
  obtain ⟨middle, hfirst⟩ := @listFrom_turn T ε answer limits overflow blockOf rows stop start cap last hsorted h
    hcap hends hwhole hlast (fuel + turns) all incomplete
  exact hfirst.trans (hturns fuel _ middle)

theorem Overrun.turn (hrest : Overrun answer limits overflow blockOf rows stop (last + 1)) :
    Overrun answer limits overflow blockOf rows stop start := by
  obtain ⟨hover, hnone, turns, hturns⟩ := hrest
  refine ⟨(overruns_iff_next hends hwhole hlast).2 hover, hends.noneOversized hsorted hwhole hnone, turns + 1,
    fun fuel all incomplete => ?_⟩
  obtain ⟨middle, hfirst⟩ := @listFrom_turn T ε answer limits overflow blockOf rows stop start cap last hsorted h
    hcap hends hwhole hlast (fuel + (turns + 1)) all incomplete
  obtain ⟨incomplete', hafter⟩ := hturns fuel (all ++ span blockOf rows start (last + 1)) middle
  refine ⟨incomplete', ?_⟩
  rw [← remaining_append hsorted hends, ← List.append_assoc]
  exact hfirst.trans hafter

end Turn

/-- How the rest is read: whole, refused for a block that fills a window, or beyond the last number. The induction
is on what remains. -/
theorem ending (hsorted : rows.Pairwise fun a b => blockOf a ≤ blockOf b) (h : ShowsRows blockOf rows cap answer)
    (hcap : limits.window ≤ cap) (hstop : stop < 2 ^ 64) (start : ℕ) :
    ReadWhole answer limits overflow blockOf rows stop start ∨
      Refused answer limits overflow blockOf rows stop start ∨
      Overrun answer limits overflow blockOf rows stop start := by
  induction hleft : stop + 1 - start using Nat.strong_induction_on generalizing start with
  | _ left ih =>
    by_cases hle : start ≤ stop
    · rcases lt_or_ge (remaining blockOf rows stop start).length limits.window with hshort | hfull
      · refine .inl ⟨fun hover => ?_, noneOversized_of_short hshort, 1, fun fuel all incomplete => ?_⟩
        · obtain ⟨last, hends, -⟩ := hover.endsIn
          exact absurd hends.full (not_le.2 hshort)
        · exact listFrom_short h hcap hle hshort fuel all incomplete
      · obtain ⟨last, hends⟩ := exists_endsIn hle hfull
        have hbounds := hends.bounds
        by_cases hoversized : Oversized limits blockOf rows last
        · exact .inr (.inl (refused_turn hsorted h hcap hends hoversized))
        · rcases Nat.lt_or_ge (last + 1) (2 ^ 64) with hlast | hlast
          · rcases ih _ (by omega) (last + 1) rfl with hrest | hrest | hrest
            · exact .inl (hrest.turn hsorted h hcap hends hoversized hlast)
            · exact .inr (.inl (hrest.turn hsorted h hcap hends hoversized hlast))
            · exact .inr (.inr (hrest.turn hsorted h hcap hends hoversized hlast))
          · exact .inr (.inr (overrun_turn hsorted h hcap hends hoversized hstop hlast))
    · refine .inl ⟨fun hover => ?_, fun block hlo hhi => by omega, 1, fun fuel all incomplete => ?_⟩
      · obtain ⟨last, hends, -⟩ := hover.endsIn
        exact hle hends.le_stop
      · have hnone : remaining blockOf rows stop start = [] := span_eq_nil fun a _ hlo => by omega
        refine ⟨incomplete, ?_⟩
        conv_lhs => unfold listFrom
        rw [if_neg hle, hnone, List.append_nil]

end Run

section Listing

variable {T ε : Type} (answer : PageQuery → Except ε (Listing T)) (limits : Limits) (overflow : Overflow)
  (blockOf : T → ℕ) (rows : List T) (stop start : ℕ)

/-- What is listed is what lies between the two blocks; the loop ends; and where a block there has more rows than a
window, the list is refused. -/
structure ListsWhole : Prop where
  exact : ∀ fuel listing, Explorer.list answer limits overflow blockOf stop start fuel = .returned (.ok listing) →
    listing.rows = rows.filter fun row => start ≤ blockOf row ∧ blockOf row ≤ stop
  ends : ∃ fuel result, Explorer.list answer limits overflow blockOf stop start fuel = .returned result
  refuses : (∃ block, start ≤ block ∧ block ≤ stop ∧
      limits.window < (rows.filter fun row => blockOf row = block).length) →
    ∃ fuel block, Explorer.list answer limits overflow blockOf stop start fuel =
      .returned (.error (.blockTooLarge block))

variable {answer limits overflow blockOf rows stop start} {cap : ℕ}

theorem remaining_eq : remaining blockOf rows stop start =
    rows.filter fun row => start ≤ blockOf row ∧ blockOf row ≤ stop := by
  unfold remaining span
  refine List.filter_congr fun a _ => ?_
  rw [Bool.eq_iff_iff, decide_eq_true_eq, decide_eq_true_eq]
  omega

theorem oversized_of_more {block : ℕ}
    (h : limits.window < (rows.filter fun row => blockOf row = block).length) :
    Oversized limits blockOf rows block := by
  have hsame : (rows.filter fun row => blockOf row = block) = span blockOf rows block (block + 1) := by
    refine List.filter_congr fun a _ => ?_
    rw [Bool.eq_iff_iff, decide_eq_true_eq, decide_eq_true_eq]
    omega
  rw [hsame] at h
  exact h.le

/-- A call that is left stays as it is with more turns. -/
theorem listFrom_add {fuel : ℕ} {all : List T} {incomplete : Bool}
    (h : listFrom answer limits overflow blockOf stop fuel start all incomplete ≠ .running) (more : ℕ) :
    listFrom answer limits overflow blockOf stop (fuel + more) start all incomplete =
      listFrom answer limits overflow blockOf stop fuel start all incomplete := by
  induction fuel generalizing start all incomplete with
  | zero => exact absurd rfl h
  | succ fuel ih =>
    rw [Nat.add_right_comm]
    unfold listFrom at h ⊢
    split_ifs at h ⊢ with hle
    · generalize windowOf answer limits start stop limits.pages 1 [] false = window at h ⊢
      rcases window with _ | _ | e | ⟨found, full, warned⟩
      · rfl
      · rfl
      · rfl
      · dsimp only at h ⊢
        cases full with
        | false => rfl
        | true =>
          simp only [Bool.not_true, Bool.false_eq_true, if_false] at h ⊢
          cases hlast : found.getLast?.map blockOf with
          | none => rfl
          | some lastBlock =>
            rw [hlast] at h
            dsimp only at h ⊢
            split_ifs at h ⊢ with hsame
            · rfl
            · generalize windowOf answer limits lastBlock lastBlock limits.pages 1 [] false = block at h ⊢
              rcases block with _ | _ | e | ⟨blockRows, blockFull, warned'⟩
              · rfl
              · rfl
              · rfl
              · dsimp only at h ⊢
                split_ifs at h ⊢ with hfull
                · rfl
                · cases hnext : overflow.unsigned 64 (lastBlock + 1) with
                  | none => rfl
                  | some next =>
                    rw [hnext] at h
                    exact ih h
    · rfl

/-- Two calls that are left are left in the same way. -/
theorem listFrom_unique {fuel fuel' : ℕ} {all : List T} {incomplete : Bool}
    (h : listFrom answer limits overflow blockOf stop fuel start all incomplete ≠ .running)
    (h' : listFrom answer limits overflow blockOf stop fuel' start all incomplete ≠ .running) :
    listFrom answer limits overflow blockOf stop fuel start all incomplete =
      listFrom answer limits overflow blockOf stop fuel' start all incomplete := by
  rw [← listFrom_add h fuel', ← listFrom_add h' fuel, add_comm]

/-- A call that is left in one way is left in no other. -/
theorem listFrom_returned {fuel fuel' : ℕ} {all : List T} {incomplete : Bool}
    {result result' : Except (ExplorerError ε) (Listing T)}
    (h : listFrom answer limits overflow blockOf stop fuel start all incomplete = .returned result)
    (h' : listFrom answer limits overflow blockOf stop fuel' start all incomplete = .returned result') :
    result = result' := by
  have hsame := listFrom_unique (fun hrunning => by rw [h] at hrunning; cases hrunning)
    (fun hrunning => by rw [h'] at hrunning; cases hrunning)
  rw [h, h'] at hsame
  injection hsame

theorem listsWhole_of_readWhole (h : ReadWhole answer limits overflow blockOf rows stop start) :
    ListsWhole answer limits overflow blockOf rows stop start := by
  obtain ⟨-, hnone, turns, hturns⟩ := h
  obtain ⟨incomplete', hlist⟩ := hturns 0 [] false
  refine ⟨fun fuel listing hlisting => ?_, ⟨_, _, hlist⟩, ?_⟩
  · have hsame := listFrom_returned hlisting hlist
    injection hsame with hrows
    rw [hrows, List.nil_append, remaining_eq]
  · rintro ⟨block, hlo, hhi, hmore⟩
    exact absurd (oversized_of_more hmore) (hnone block hlo hhi)

theorem listsWhole_of_refused {fuel block : ℕ}
    (h : Explorer.list answer limits overflow blockOf stop start fuel = .returned (.error (.blockTooLarge block))) :
    ListsWhole answer limits overflow blockOf rows stop start := by
  refine ⟨fun fuel' listing hlisting => ?_, ⟨_, _, h⟩, fun _ => ⟨_, _, h⟩⟩
  cases listFrom_returned hlisting h

/-- A loop that comes back to zero without a block to refuse goes on for good. -/
theorem never_left (h : Overrun answer limits .wraps blockOf rows stop 0) (fuel : ℕ) (all : List T)
    (incomplete : Bool) : listFrom answer limits .wraps blockOf stop fuel 0 all incomplete = .running := by
  obtain ⟨-, -, turns, hturns⟩ := h
  induction fuel using Nat.strong_induction_on generalizing all incomplete with
  | _ fuel ih =>
    rcases Nat.lt_or_ge fuel (turns + 1) with hlt | hge
    · by_contra hleft
      obtain ⟨incomplete', hzero⟩ := hturns 0 all incomplete
      have hmore := listFrom_add hleft (turns + 1 - fuel)
      rw [Nat.add_sub_cancel' hlt.le] at hmore
      rw [zero_add] at hzero
      exact hleft (hmore.symm.trans hzero)
    · obtain ⟨incomplete', hback⟩ := hturns (fuel - (turns + 1)) all incomplete
      rw [Nat.sub_add_cancel hge] at hback
      exact hback.trans (ih _ (by omega) _ _)

theorem not_listsWhole_of_panics (h : Overrun answer limits .panics blockOf rows stop start) :
    ¬ ListsWhole answer limits .panics blockOf rows stop start := by
  intro hlists
  obtain ⟨-, -, turns, hturns⟩ := h
  obtain ⟨fuel, result, hresult⟩ := hlists.ends
  change listFrom answer limits .panics blockOf stop fuel start [] false = .returned result at hresult
  obtain ⟨_, hpanic⟩ := hturns 0 [] false
  have hsame := listFrom_unique (fun hrunning => by rw [hresult] at hrunning; cases hrunning)
    (fun hrunning => by rw [hpanic] at hrunning; cases hrunning)
  rw [hresult, hpanic] at hsame
  cases hsame

/-- What is read from zero is read a second time. -/
theorem not_listsWhole_of_wraps (h : Overrun answer limits .wraps blockOf rows stop start)
    (hnone : NoneOversized limits blockOf rows stop 0)
    (hzero : ReadWhole answer limits .wraps blockOf rows stop 0 ∨
      Refused answer limits .wraps blockOf rows stop 0 ∨ Overrun answer limits .wraps blockOf rows stop 0) :
    ¬ ListsWhole answer limits .wraps blockOf rows stop start := by
  intro hlists
  obtain ⟨hover, -, turns, hturns⟩ := h
  rcases hzero with hwhole | hrefused | hagain
  · obtain ⟨-, -, turns', hturns'⟩ := hwhole
    obtain ⟨middle, hback⟩ := hturns turns' [] false
    obtain ⟨incomplete', hrest⟩ := hturns' 0 ([] ++ remaining blockOf rows stop start) middle
    rw [zero_add] at hrest
    have hrows := hlists.exact _ _ (hback.trans hrest)
    rw [List.nil_append, ← remaining_eq] at hrows
    have hlength := congrArg List.length hrows
    rw [List.length_append] at hlength
    obtain ⟨last, hends, -⟩ := hover.endsIn
    have hsub : (remaining blockOf rows stop start).Sublist (remaining blockOf rows stop 0) := by
      unfold remaining span
      refine List.monotone_filter_right _ fun a ha => ?_
      rw [decide_eq_true_eq] at ha ⊢
      omega
    have := hsub.length_le
    have := hends.full
    have := limits.window_pos
    omega
  · obtain ⟨-, block, -, hhi, hoversized, -⟩ := hrefused
    exact hnone block (Nat.zero_le _) hhi hoversized
  · obtain ⟨fuel, result, hresult⟩ := hlists.ends
    change listFrom answer limits .wraps blockOf stop fuel start [] false = .returned result at hresult
    obtain ⟨middle, hback⟩ := hturns fuel [] false
    change listFrom answer limits .wraps blockOf stop (fuel + (turns + 1)) start [] false =
      listFrom answer limits .wraps blockOf stop fuel 0 ([] ++ remaining blockOf rows stop start) middle at hback
    have hmore := listFrom_add (fun hrunning => by rw [hresult] at hrunning; cases hrunning) (turns + 1)
    rw [hresult, hback, never_left hagain] at hmore
    cases hmore

theorem listsWhole_of_wraps (h : Overrun answer limits .wraps blockOf rows stop start)
    (hzero : Refused answer limits .wraps blockOf rows stop 0) :
    ListsWhole answer limits .wraps blockOf rows stop start := by
  obtain ⟨-, -, turns, hturns⟩ := h
  obtain ⟨-, block, -, -, -, turns', hturns'⟩ := hzero
  obtain ⟨middle, hback⟩ := hturns turns' [] false
  have hrest := hturns' 0 ([] ++ remaining blockOf rows stop start) middle
  rw [zero_add] at hrest
  exact listsWhole_of_refused (hback.trans hrest)

/-- A list is whole unless the windows overrun: then only a block to refuse before them ends the loop, if numbers wrap
around. -/
theorem explorer_list_iff (hsorted : rows.Pairwise fun a b => blockOf a ≤ blockOf b)
    (h : ShowsRows blockOf rows cap answer) (hcap : limits.window ≤ cap) (hstop : stop < 2 ^ 64) :
    ListsWhole answer limits overflow blockOf rows stop start ↔
      ¬ Overruns limits blockOf rows stop start ∨
        overflow = .wraps ∧ ∃ block < start, Oversized limits blockOf rows block := by
  have hending := @ending T ε answer limits overflow blockOf rows stop cap hsorted h hcap hstop
  rcases hending start with hwhole | hrefused | hoverrun
  · exact iff_of_true (listsWhole_of_readWhole hwhole) (.inl hwhole.1)
  · obtain ⟨hnot, block, -, -, -, turns, hturns⟩ := hrefused
    exact iff_of_true (listsWhole_of_refused (hturns 0 [] false)) (.inl hnot)
  · obtain ⟨last, hends, -⟩ := hoverrun.1.endsIn
    have hle := hends.le_stop
    cases overflow with
    | panics =>
      refine iff_of_false (not_listsWhole_of_panics hoverrun) ?_
      rintro (hnot | ⟨hwraps, -⟩)
      · exact hnot hoverrun.1
      · cases hwraps
    | wraps =>
      by_cases hbelow : ∃ block < start, Oversized limits blockOf rows block
      · refine iff_of_true ?_ (.inr ⟨rfl, hbelow⟩)
        obtain ⟨block, hblock, hoversized⟩ := hbelow
        rcases hending 0 with hwhole | hrefused | hagain
        · exact absurd hoversized (hwhole.2.1 block (Nat.zero_le _) (by omega))
        · exact listsWhole_of_wraps hoverrun hrefused
        · exact absurd hoversized (hagain.2.1 block (Nat.zero_le _) (by omega))
      · have hnone : NoneOversized limits blockOf rows stop 0 := by
          intro block _ hhi hoversized
          rcases Nat.lt_or_ge block start with hlt | hge
          · exact hbelow ⟨block, hlt, hoversized⟩
          · exact hoverrun.2.1 block hge hhi hoversized
        refine iff_of_false (not_listsWhole_of_wraps hoverrun hnone (hending 0)) ?_
        rintro (hnot | ⟨-, hoversized⟩)
        · exact hnot hoverrun.1
        · exact hbelow hoversized

/-- A server that never warns. -/
def served (blockOf : T → ℕ) (rows : List T) (cap : ℕ) (q : PageQuery) : Except ε (Listing T) :=
  .ok ⟨shown blockOf rows cap q, false⟩

theorem showsRows_served : ShowsRows (ε := ε) blockOf rows cap (served blockOf rows cap) := fun _ => ⟨false, rfl⟩

def fourRows : Limits := ⟨4, 2, by decide, by decide, by decide⟩

theorem explorer_list_six_rows :
    ListsWhole (ε := Unit) (served id [1, 2, 2, 3, 5, 6] 4) fourRows .panics id [1, 2, 2, 3, 5, 6] 7 0 := by
  have hsorted : [1, 2, 2, 3, 5, 6].Pairwise fun a b : ℕ => id a ≤ id b := by decide
  have hstop : 7 < 2 ^ 64 := by decide
  have hcap : fourRows.window ≤ 4 := le_rfl
  refine (explorer_list_iff hsorted showsRows_served hcap hstop).2 (.inl fun hover => ?_)
  have := hover.stop_lt
  omega

end Listing

section LastBlock

/-- One row early, one in the last block there is, and a window of two rows. -/
def lastRows : List ℕ := [5, 2 ^ 64 - 1]

def twoRows : Limits := ⟨2, 1, by decide, by decide, by decide⟩

theorem endsIn_lastRows {start : ℕ} (h : start ≤ 5) : EndsIn twoRows id lastRows (2 ^ 64 - 1) start (2 ^ 64 - 1) := by
  have hrows : remaining id lastRows (2 ^ 64 - 1) start = lastRows := by
    unfold remaining span
    rw [List.filter_eq_self]
    intro block hblock
    rw [lastRows, List.mem_cons, List.mem_singleton] at hblock
    rw [decide_eq_true_eq, id]
    omega
  exact ⟨by omega, by rw [hrows]; decide, by rw [hrows]; decide⟩

theorem overrun_lastRows (overflow : Overflow) {start : ℕ} (h : start ≤ 5) :
    Overrun (ε := Unit) (served id lastRows 2) twoRows overflow id lastRows (2 ^ 64 - 1) start :=
  overrun_turn (by decide) showsRows_served le_rfl (endsIn_lastRows h) (by decide) (by decide) (by decide)

theorem last_block_never_passed :
    ¬ ListsWhole (ε := Unit) (served id lastRows 2) twoRows .panics id lastRows (2 ^ 64 - 1) 5 ∧
      ¬ ListsWhole (ε := Unit) (served id lastRows 2) twoRows .wraps id lastRows (2 ^ 64 - 1) 5 := by
  have hzero := overrun_lastRows .wraps (Nat.zero_le 5)
  exact ⟨not_listsWhole_of_panics (overrun_lastRows .panics le_rfl),
    not_listsWhole_of_wraps (overrun_lastRows .wraps le_rfl) hzero.2.1 (.inr (.inr hzero))⟩

end LastBlock

end Linvesther.Wallet
