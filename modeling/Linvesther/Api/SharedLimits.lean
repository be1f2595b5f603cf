import Linvesther.Api.TrafficLimits

/-! The two limiters of `auth/rateLimiter.ts` over whole sequences of calls. One counts up to the maximum in memory, the
other counts every call in a column of a database; both are stores of the same windows that count no further than a
cap. -/

namespace Linvesther.Api.Traffic

open Window (next next_some next_count_pos next_lower next_after next_running Keeps)

section Code

/-- A call; `clears` is the database limiter's draw. -/
structure Call where
  key : String
  now : ℤ
  clears : Bool
deriving DecidableEq

/-- The largest count that the `INTEGER` column holds. -/
def MAX_INTEGER : ℕ := 2 ^ 31 - 1

variable (maxPerWindow : ℚ) (windowMs : ℤ)

/-- `allow` with the statement's failure: a count that does not fit is not written, and the call throws. -/
def PostgresRateLimiter.tryAllow (c : Call) (rows : Windows) : Option Bool × Windows :=
  if (upsert windowMs c.now rows[c.key]?).count ≤ MAX_INTEGER then
    let answered := PostgresRateLimiter.allow maxPerWindow windowMs c.key c.now c.clears rows
    (some answered.1, answered.2)
  else (none, rows)

def RateLimiter.answers : Windows → List Call → List Bool
  | _, [] => []
  | windows, c :: rest =>
    let answered := RateLimiter.allow maxPerWindow windowMs c.key c.now windows
    answered.1 :: RateLimiter.answers answered.2 rest

def PostgresRateLimiter.answers : Windows → List Call → List (Option Bool)
  | _, [] => []
  | rows, c :: rest =>
    let answered := PostgresRateLimiter.tryAllow maxPerWindow windowMs c rows
    answered.1 :: PostgresRateLimiter.answers answered.2 rest

end Code

section Tally

/-- The window of every key. -/
abbrev Current := String → Option Window

/-- A call's key, the window it falls in and its number there. -/
structure Entry where
  key : String
  window : Window
deriving DecidableEq

/-- Every call counted in its window, from the keys and the times alone. -/
def tally (windowMs : ℤ) : Current → List Call → List Entry
  | _, [] => []
  | a, c :: rest =>
    let w := next windowMs c.now (a c.key)
    ⟨c.key, w⟩ :: tally windowMs (Function.update a c.key (some w)) rest

def unused : Current := fun _ => none

variable {windowMs : ℤ} {a : Current} {calls : List Call}

/-- Calls that come later fall in the window that is open, with a larger number, or in a later one. -/
theorem tally_after (hspan : 0 < windowMs) {e : Entry} (he : e ∈ tally windowMs a calls) {v : Window}
    (hv : v ∈ a e.key) :
    (e.window.windowStart = v.windowStart ∧ v.count < e.window.count) ∨
      v.windowStart + windowMs ≤ e.window.windowStart := by
  induction calls generalizing a v with
  | nil => cases he
  | cons c rest ih =>
    rcases List.mem_cons.1 he with rfl | he
    · exact next_after hv
    · by_cases hkey : e.key = c.key
      · rw [hkey] at hv
        have hopen : next windowMs c.now (a c.key) ∈ Function.update a c.key (some (next windowMs c.now (a c.key))) e.key := by
          rw [hkey, Function.update_self]
          rfl
        have hstep : ((next windowMs c.now (a c.key)).windowStart = v.windowStart ∧
            v.count < (next windowMs c.now (a c.key)).count) ∨
            v.windowStart + windowMs ≤ (next windowMs c.now (a c.key)).windowStart := next_after hv
        have hlater := ih he hopen
        omega
      · exact ih he (by rwa [Function.update_of_ne hkey])

/-- The calls of one window are numbered in turn. -/
theorem tally_increasing (hspan : 0 < windowMs) (a : Current) (calls : List Call) :
    (tally windowMs a calls).Pairwise fun e f =>
      e.key = f.key → e.window.windowStart = f.window.windowStart → e.window.count < f.window.count := by
  induction calls generalizing a with
  | nil => exact .nil
  | cons c rest ih =>
    refine .cons (fun f hf hkey hstart => ?_) (ih _)
    have hafter := tally_after hspan hf (v := next windowMs c.now (a c.key)) (by rw [← hkey, Function.update_self]; rfl)
    dsimp only at hstart ⊢
    omega

/-- Where a number is reached, every smaller one has been. -/
theorem tally_lower {e : Entry} (he : e ∈ tally windowMs a calls) {k : ℕ} (hpos : 1 ≤ k) (hk : k ≤ e.window.count) :
    (∃ f ∈ tally windowMs a calls, f.window.count = k) ∨ ∃ v ∈ a e.key, k ≤ v.count := by
  induction calls generalizing a with
  | nil => cases he
  | cons c rest ih =>
    rcases List.mem_cons.1 he with rfl | he
    · exact (next_lower hpos hk).imp_left fun heq => ⟨_, List.mem_cons_self, heq.symm⟩
    · rcases ih he with ⟨f, hf, hcount⟩ | ⟨v, hv, hle⟩
      · exact .inl ⟨f, List.mem_cons_of_mem _ hf, hcount⟩
      · by_cases hkey : e.key = c.key
        · rw [hkey, Function.update_self] at hv
          obtain rfl := Option.some.inj hv
          rw [hkey]
          exact (next_lower hpos hle).imp_left fun heq => ⟨_, List.mem_cons_self, heq.symm⟩
        · rw [Function.update_of_ne hkey] at hv
          exact .inr ⟨v, hv, hle⟩

end Tally

section Stores

variable {maxPerWindow : ℚ} {windowMs now : ℤ} {cap : ℕ} {a : Current} {windows : Windows}

/-- A store of all windows that counts no further than a cap. -/
def Stores (cap : ℕ) (windowMs now : ℤ) (a : Current) (windows : Windows) : Prop :=
  ∀ key, Keeps cap windowMs now (a key) windows[key]?

theorem Stores.empty (cap : ℕ) (windowMs now : ℤ) : Stores cap windowMs now unused ∅ := by
  intro key
  rw [Std.TreeMap.getElem?_emptyc]
  exact .inl rfl

theorem Stores.sweep (h : Stores cap windowMs now a windows) : Stores cap windowMs now a (sweep windowMs now windows) := by
  intro key
  rw [getElem?_sweep]
  refine (h key).filter fun v hv => ?_
  simp only [decide_not, Bool.not_eq_false', decide_eq_true_eq] at hv
  omega

/-- The write of a call: a number within the cap. -/
def write (cap : ℕ) (windowMs : ℤ) (c : Call) (windows : Windows) : Windows :=
  if (next windowMs c.now windows[c.key]?).count ≤ cap then
    windows.insert c.key (next windowMs c.now windows[c.key]?)
  else windows

theorem Stores.write {c : Call} (hcap : 1 ≤ cap) (h : Stores cap windowMs c.now a windows) :
    Stores cap windowMs c.now (Function.update a c.key (some (next windowMs c.now (a c.key))))
      (write cap windowMs c windows) := by
  intro key
  have hstep := (h c.key).step hcap
  unfold Traffic.write
  by_cases hkey : key = c.key
  · subst hkey
    rw [Function.update_self]
    split_ifs at hstep ⊢
    · rwa [Std.TreeMap.getElem?_insert_self]
    · exact hstep
  · rw [Function.update_of_ne hkey]
    split_ifs
    · rw [Std.TreeMap.getElem?_insert, if_neg (by simpa using Ne.symm hkey)]
      exact h key
    · exact h key

theorem upsert_eq (windowMs now : ℤ) (row : Option Window) :
    PostgresRateLimiter.upsert windowMs now row = next windowMs now row := by
  cases row with
  | none => rfl
  | some w =>
    rw [PostgresRateLimiter.upsert, next_some]
    simp only [le_sub_iff_add_le]

/-- What the limiter in memory lets through in a window: a first call in any case. -/
def memoryCap (maxPerWindow : ℚ) : ℕ := max 1 ⌈maxPerWindow⌉₊

theorem lt_memoryCap {n : ℕ} (hn : 1 ≤ n) : n < memoryCap maxPerWindow ↔ (n : ℚ) < maxPerWindow := by
  unfold memoryCap
  rw [lt_max_iff, or_iff_right (by omega), Nat.lt_ceil]

theorem Stores.count_pos (hcap : 1 ≤ cap) (ha : ∀ key, ∀ v ∈ a key, 1 ≤ v.count)
    (h : Stores cap windowMs now a windows) {key : String} {w : Window} (hw : windows[key]? = some w) : 1 ≤ w.count := by
  rcases h key with hkept | ⟨hnone, -⟩
  · rw [hw] at hkept
    obtain ⟨v, hv, rfl⟩ := Option.map_eq_some_iff.1 hkept.symm
    exact le_min (ha key v hv) hcap
  · rw [hw] at hnone
    cases hnone

/-- What is in memory when a call is counted: the windows, swept if they are many. -/
def swept (windowMs now : ℤ) (windows : Windows) : Windows :=
  if SWEEP_THRESHOLD ≤ windows.size then sweep windowMs now windows else windows

theorem Stores.swept (h : Stores cap windowMs now a windows) :
    Stores cap windowMs now a (Traffic.swept windowMs now windows) := by
  unfold Traffic.swept
  split_ifs
  · exact h.sweep
  · exact h

/-- The limiter in memory counts up to its cap and lets through what it counts. -/
theorem RateLimiter.allow_eq {c : Call}
    (hpos : ∀ w, (Traffic.swept windowMs c.now windows)[c.key]? = some w → 1 ≤ w.count) :
    RateLimiter.allow maxPerWindow windowMs c.key c.now windows =
      (decide ((next windowMs c.now (Traffic.swept windowMs c.now windows)[c.key]?).count ≤ memoryCap maxPerWindow),
        Traffic.write (memoryCap maxPerWindow) windowMs c (Traffic.swept windowMs c.now windows)) := by
  have hone : 1 ≤ memoryCap maxPerWindow := le_max_left _ _
  have hswept : (if SWEEP_THRESHOLD ≤ windows.size then sweep windowMs c.now windows else windows) =
      Traffic.swept windowMs c.now windows := rfl
  unfold RateLimiter.allow Traffic.write
  rw [hswept]
  dsimp only
  rcases hfound : (Traffic.swept windowMs c.now windows)[c.key]? with _ | w
  · simp [next, hone]
  · have hw := hpos w hfound
    rw [next_some]
    by_cases hended : w.windowStart + windowMs ≤ c.now
    · have hended' : windowMs ≤ c.now - w.windowStart := by omega
      simp [hended, hended', hone]
    · have hended' : ¬ windowMs ≤ c.now - w.windowStart := by omega
      have hfull : maxPerWindow ≤ w.count ↔ ¬ w.count + 1 ≤ memoryCap maxPerWindow := by
        rw [← not_lt, ← lt_memoryCap hw, Nat.lt_iff_add_one_le]
      by_cases hroom : w.count + 1 ≤ memoryCap maxPerWindow
      · have hmax : ¬ maxPerWindow ≤ w.count := fun h => hfull.1 h hroom
        simp [hended, hended', hroom, hmax]
      · have hmax := hfull.2 hroom
        simp [hended, hended', hroom, hmax]

/-- The limiter in the database writes every number that fits and lets through those within the maximum. -/
theorem PostgresRateLimiter.tryAllow_eq (c : Call) :
    PostgresRateLimiter.tryAllow maxPerWindow windowMs c windows =
      if (next windowMs c.now windows[c.key]?).count ≤ MAX_INTEGER then
        (some (decide (((next windowMs c.now windows[c.key]?).count : ℚ) ≤ maxPerWindow)),
          if c.clears then sweep windowMs c.now (Traffic.write MAX_INTEGER windowMs c windows)
          else Traffic.write MAX_INTEGER windowMs c windows)
      else (none, Traffic.write MAX_INTEGER windowMs c windows) := by
  unfold PostgresRateLimiter.tryAllow PostgresRateLimiter.allow Traffic.write
  simp only [upsert_eq]
  split_ifs <;> rfl

end Stores

section Runs

variable {maxPerWindow : ℚ} {windowMs : ℤ} {cap : ℕ} {a : Current} {windows : Windows} {calls : List Call}

/-- Times that do not decrease. -/
def InTime (calls : List Call) : Prop := calls.Pairwise fun c d => c.now ≤ d.now

/-- A store as the next call finds it. -/
def Ready (cap : ℕ) (windowMs : ℤ) (a : Current) (windows : Windows) (calls : List Call) : Prop :=
  ∀ c ∈ calls, Stores cap windowMs c.now a windows

theorem Stores.ready {c : Call} (hcalls : InTime (c :: calls)) (h : Stores cap windowMs c.now a windows) :
    Ready cap windowMs a windows calls := fun d hd key =>
  (h key).later ((List.pairwise_cons.1 hcalls).1 d hd)

theorem counts_pos (ha : ∀ key, ∀ v ∈ a key, 1 ≤ v.count) (c : Call) :
    ∀ key, ∀ v ∈ Function.update a c.key (some (next windowMs c.now (a c.key))) key, 1 ≤ v.count := by
  intro key v hv
  by_cases hkey : key = c.key
  · subst hkey
    rw [Function.update_self] at hv
    rw [← Option.some.inj hv]
    exact next_count_pos
  · rw [Function.update_of_ne hkey] at hv
    exact ha key v hv

/-- The answers from memory are told by the number of each call in its window. -/
theorem RateLimiter.answers_eq (hcalls : InTime calls) (ha : ∀ key, ∀ v ∈ a key, 1 ≤ v.count)
    (h : Ready (memoryCap maxPerWindow) windowMs a windows calls) :
    RateLimiter.answers maxPerWindow windowMs windows calls =
      (tally windowMs a calls).map fun e => decide (e.window.count ≤ memoryCap maxPerWindow) := by
  have hone : 1 ≤ memoryCap maxPerWindow := le_max_left _ _
  induction calls generalizing a windows with
  | nil => rfl
  | cons c rest ih =>
    have hswept := (h c List.mem_cons_self).swept
    rw [RateLimiter.answers, RateLimiter.allow_eq fun _ hw => hswept.count_pos hone ha hw, tally, List.map_cons]
    dsimp only
    rw [ih (List.pairwise_cons.1 hcalls).2 (counts_pos ha c) ((hswept.write hone).ready hcalls),
      decide_eq_decide.2 (hswept c.key).next_le]

/-- The answers from the database as well. -/
theorem PostgresRateLimiter.answers_eq (hcalls : InTime calls) (h : Ready MAX_INTEGER windowMs a windows calls) :
    PostgresRateLimiter.answers maxPerWindow windowMs windows calls =
      (tally windowMs a calls).map fun e =>
        if e.window.count ≤ MAX_INTEGER then some (decide ((e.window.count : ℚ) ≤ maxPerWindow)) else none := by
  induction calls generalizing a windows with
  | nil => rfl
  | cons c rest ih =>
    have hstores := h c List.mem_cons_self
    have hwritten := hstores.write (by decide)
    have hfits := (hstores c.key).next_le
    have hrest := (List.pairwise_cons.1 hcalls).2
    rw [PostgresRateLimiter.answers, PostgresRateLimiter.tryAllow_eq, tally, List.map_cons]
    by_cases hle : (next windowMs c.now windows[c.key]?).count ≤ MAX_INTEGER
    · have hsame : (next windowMs c.now windows[c.key]?).count = (next windowMs c.now (a c.key)).count := by
        rw [(hstores c.key).next, Window.capped]
        exact min_eq_left ((hfits.1 hle).trans (Nat.le_succ _))
      rw [if_pos hle, if_pos (hfits.1 hle), hsame]
      dsimp only
      cases c.clears with
      | false => rw [if_neg Bool.false_ne_true, ih hrest (hwritten.ready hcalls)]
      | true => rw [if_pos rfl, ih hrest (hwritten.sweep.ready hcalls)]
    · rw [if_neg hle, if_neg fun h => hle (hfits.2 h)]
      dsimp only
      rw [ih hrest (hwritten.ready hcalls)]

/-- Both limiters give the same answers. -/
def Agree (maxPerWindow : ℚ) (windowMs : ℤ) (calls : List Call) : Prop :=
  PostgresRateLimiter.answers maxPerWindow windowMs ∅ calls =
    (RateLimiter.answers maxPerWindow windowMs ∅ calls).map some

/-- No window of a key lets more calls through than the maximum. -/
def Bounded (maxPerWindow : ℚ) (windowMs : ℤ) (calls : List Call) : Prop :=
  ∀ key start, ((((tally windowMs unused calls).zip (RateLimiter.answers maxPerWindow windowMs ∅ calls)).filter fun e =>
    e.1.key = key ∧ e.1.window.windowStart = start ∧ e.2 = true).length : ℚ) ≤ maxPerWindow

/-- The maximum is a positive integer, or no window of a key has more calls; and none has more than the column holds. -/
def Fits (maxPerWindow : ℚ) (windowMs : ℤ) (calls : List Call) : Prop :=
  ((∃ n : ℕ, 0 < n ∧ maxPerWindow = n) ∨ ∀ e ∈ tally windowMs unused calls, (e.window.count : ℚ) ≤ maxPerWindow) ∧
    ∀ e ∈ tally windowMs unused calls, e.window.count ≤ MAX_INTEGER

theorem tally_count_pos {e : Entry} (he : e ∈ tally windowMs a calls) : 1 ≤ e.window.count := by
  induction calls generalizing a with
  | nil => cases he
  | cons c rest ih =>
    rcases List.mem_cons.1 he with rfl | he
    · exact next_count_pos
    · exact ih he

theorem memory_answers (hcalls : InTime calls) : RateLimiter.answers maxPerWindow windowMs ∅ calls =
    (tally windowMs unused calls).map fun e => decide (e.window.count ≤ memoryCap maxPerWindow) :=
  RateLimiter.answers_eq hcalls (fun _ _ hv => by cases hv) fun c _ => .empty _ _ c.now

theorem database_answers (hcalls : InTime calls) : PostgresRateLimiter.answers maxPerWindow windowMs ∅ calls =
    (tally windowMs unused calls).map fun e =>
      if e.window.count ≤ MAX_INTEGER then some (decide ((e.window.count : ℚ) ≤ maxPerWindow)) else none :=
  PostgresRateLimiter.answers_eq hcalls fun c _ => .empty _ _ c.now

/-- They agree where every number fits and is on one side of both bounds. -/
theorem agree_iff_numbers (hcalls : InTime calls) : Agree maxPerWindow windowMs calls ↔
    ∀ e ∈ tally windowMs unused calls, e.window.count ≤ MAX_INTEGER ∧
      ((e.window.count : ℚ) ≤ maxPerWindow ↔ e.window.count ≤ memoryCap maxPerWindow) := by
  unfold Agree
  rw [memory_answers hcalls, database_answers hcalls, List.map_map, List.map_inj_left]
  refine forall₂_congr fun e _ => ?_
  by_cases hle : e.window.count ≤ MAX_INTEGER
  · rw [if_pos hle, Function.comp_apply, Option.some.injEq, decide_eq_decide]
    exact (and_iff_right hle).symm
  · rw [if_neg hle]
    exact iff_of_false (by simp) fun h => hle h.1

/-- The number after the largest that is within the maximum is within the cap, unless the maximum is a positive
integer. -/
theorem exists_between {n : ℕ} (hpos : 1 ≤ n) (hn : maxPerWindow < n) (hnat : ¬ ∃ k : ℕ, 0 < k ∧ maxPerWindow = k) :
    ∃ k, 1 ≤ k ∧ k ≤ n ∧ maxPerWindow < k ∧ k ≤ memoryCap maxPerWindow := by
  refine ⟨⌊maxPerWindow⌋₊ + 1, by omega, ?_, by exact_mod_cast Nat.lt_floor_add_one maxPerWindow, ?_⟩
  · rw [Nat.succ_le_iff]
    exact (Nat.floor_lt' (by omega)).2 hn
  · rcases Nat.eq_zero_or_pos ⌊maxPerWindow⌋₊ with hzero | hfloor
    · rw [hzero]
      exact le_max_left _ _
    · have hle := Nat.floor_le (Nat.pos_of_floor_pos hfloor).le
      have hlt := lt_of_le_of_ne hle fun heq => hnat ⟨_, hfloor, heq.symm⟩
      exact (Nat.lt_ceil.2 hlt).trans_le (le_max_right _ _)

theorem Fits.numbers (h : Fits maxPerWindow windowMs calls) {e : Entry} (he : e ∈ tally windowMs unused calls) :
    (e.window.count : ℚ) ≤ maxPerWindow ↔ e.window.count ≤ memoryCap maxPerWindow := by
  rcases h.1 with ⟨n, hn, rfl⟩ | hfew
  · have hcap : memoryCap n = n := by
      unfold memoryCap
      rw [Nat.ceil_natCast, max_eq_right hn]
    rw [hcap, Nat.cast_le]
  · have hle := hfew e he
    refine iff_of_true hle (le_trans ?_ (le_max_right _ _))
    exact_mod_cast hle.trans (Nat.le_ceil _)

/-- Different numbers from one up to a maximum are no more than that. -/
theorem length_le_of_numbers (hmax : 0 ≤ maxPerWindow) {entries : List Entry}
    (hincreasing : entries.Pairwise fun e f => e.window.count < f.window.count)
    (hpos : ∀ e ∈ entries, 1 ≤ e.window.count) (hle : ∀ e ∈ entries, (e.window.count : ℚ) ≤ maxPerWindow) :
    (entries.length : ℚ) ≤ maxPerWindow := by
  have hnodup : (entries.map fun e => e.window.count).Nodup := List.pairwise_map.2 (hincreasing.imp ne_of_lt)
  have hsub : (entries.map fun e => e.window.count).toFinset ⊆ Finset.Icc 1 ⌊maxPerWindow⌋₊ := by
    intro n hn
    obtain ⟨e, he, rfl⟩ := List.mem_map.1 (List.mem_toFinset.1 hn)
    exact Finset.mem_Icc.2 ⟨hpos e he, Nat.le_floor (hle e he)⟩
  have hcard := Finset.card_le_card hsub
  rw [List.toFinset_card_of_nodup hnodup, List.length_map, Nat.card_Icc, Nat.add_sub_cancel] at hcard
  exact (Nat.cast_le.2 hcard).trans (Nat.floor_le hmax)

theorem Fits.bounded (hmax : 0 ≤ maxPerWindow) (hspan : 0 < windowMs) (hcalls : InTime calls)
    (h : Fits maxPerWindow windowMs calls) : Bounded maxPerWindow windowMs calls := by
  intro key start
  rw [memory_answers hcalls, List.zip_map_right, List.zip_eq_zipWith, List.zipWith_self, List.map_map, List.filter_map,
    List.length_map]
  refine length_le_of_numbers hmax ?_ ?_ ?_
  · refine ((tally_increasing hspan unused calls).filter _).imp_of_mem fun he hf hlt => ?_
    obtain ⟨-, hekey⟩ := List.mem_filter.1 he
    obtain ⟨-, hfkey⟩ := List.mem_filter.1 hf
    have hfirst := of_decide_eq_true hekey
    have hsecond := of_decide_eq_true hfkey
    exact hlt (hfirst.1.trans hsecond.1.symm) (hfirst.2.1.trans hsecond.2.1.symm)
  · exact fun e he => tally_count_pos (List.mem_filter.1 he).1
  · intro e he
    obtain ⟨hmem, hallowed⟩ := List.mem_filter.1 he
    exact (h.numbers hmem).2 (of_decide_eq_true (of_decide_eq_true hallowed).2.2)

/-- Exactly when the two agree and no window lets more calls through than the maximum. -/
theorem limits_agree_iff (maxPerWindow : ℚ) (hmax : 0 ≤ maxPerWindow) (windowMs : ℤ) (hspan : 0 < windowMs) (calls : List Call)
    (hcalls : InTime calls) :
    Agree maxPerWindow windowMs calls ∧ Bounded maxPerWindow windowMs calls ↔ Fits maxPerWindow windowMs calls := by
  rw [agree_iff_numbers hcalls]
  constructor
  · intro ⟨hnumbers, _⟩
    refine ⟨or_iff_not_imp_left.2 fun hnat e he => ?_, fun e he => (hnumbers e he).1⟩
    by_contra hover
    obtain ⟨k, hpos, hk, hlt, hcap⟩ := exists_between (tally_count_pos he) (not_le.1 hover) hnat
    rcases tally_lower he hpos hk with ⟨f, hf, rfl⟩ | ⟨v, hv, -⟩
    · exact hlt.not_ge ((hnumbers f hf).2.2 hcap)
    · cases hv
  · exact fun h => ⟨fun e he => ⟨h.2 e he, h.numbers he⟩, h.bounded hmax hspan hcalls⟩

/-- Two of a client's three calls within a minute are let through, and one after it. -/
def fourCalls : List Call := [⟨"a", 0, false⟩, ⟨"a", 10, true⟩, ⟨"a", 20, false⟩, ⟨"a", 60000, false⟩]

theorem agree_fourCalls : InTime fourCalls ∧ (Agree 2 60000 fourCalls ∧ Bounded 2 60000 fourCalls) := by
  have hcalls : InTime fourCalls := by simp [InTime, fourCalls]
  have htally : ∀ e ∈ tally 60000 unused fourCalls, e.window.count ≤ MAX_INTEGER := by decide +kernel
  refine ⟨hcalls, (limits_agree_iff 2 (by norm_num) 60000 (by norm_num) fourCalls hcalls).2 ⟨.inl ⟨2, by norm_num, rfl⟩, htally⟩⟩

/-- With a maximum of zero memory lets a first call through, and the database none. -/
theorem zero_disagrees : ¬ Agree 0 60000 [⟨"a", 0, false⟩] := by
  have hmemory : RateLimiter.answers 0 60000 ∅ [⟨"a", 0, false⟩] = [true] := by decide +kernel
  have hdatabase : PostgresRateLimiter.answers 0 60000 ∅ [⟨"a", 0, false⟩] = [some false] := by decide +kernel
  unfold Agree
  rw [hmemory, hdatabase]
  decide

end Runs

end Linvesther.Api.Traffic
