import Mathlib

/-! Counting calls in fixed windows of time: a window opens with the first call after the one before has
ended, and lets calls through until they are as many as the limit. -/

structure Window where
  count : ℕ
  windowStart : ℤ
deriving DecidableEq

namespace Window

/-- What one moment does to a counter: whether a call was let through, and the window it leaves. -/
inductive Move (limit : ℚ) (span now : ℤ) : Option Window → Bool → Option Window → Prop
  | idle (w : Option Window) : Move limit span now w false w
  | opens {before : Option Window} (ended : ∀ w ∈ before, w.windowStart + span ≤ now)
      (allowed : Bool) : Move limit span now before allowed (some ⟨1, now⟩)
  | counts {w : Window} (running : now < w.windowStart + span) (room : (w.count : ℚ) < limit) :
      Move limit span now (some w) true (some ⟨w.count + 1, w.windowStart⟩)
  | refuses {w : Window} (n : ℕ) (more : w.count ≤ n) :
      Move limit span now (some w) false (some ⟨n, w.windowStart⟩)

/-- A moment of a counter's history. -/
structure Moment where
  now : ℤ
  allowed : Bool
  after : Option Window
deriving DecidableEq

/-- Moments in turn, each going on from the window the one before left. -/
def Moves (limit : ℚ) (span : ℤ) : Option Window → List Moment → Prop
  | _, [] => True
  | before, m :: rest => Move limit span m.now before m.allowed m.after ∧ Moves limit span m.after rest

/-- The calls let through in the window that opened at a time. -/
def through (start : ℤ) (moments : List Moment) : List Moment :=
  moments.filter fun m => m.allowed ∧ m.after.map windowStart = some start

variable {limit : ℚ} {span : ℤ}

/-- Windows follow each other: the next one is the same or opens after the first has ended. -/
def Follows (span : ℤ) (before after : Option Window) : Prop :=
  ∀ w ∈ before, ∃ w' ∈ after, w'.windowStart = w.windowStart ∨ w.windowStart + span ≤ w'.windowStart

theorem Move.follows {now : ℤ} {before after : Option Window} {allowed : Bool}
    (h : Move limit span now before allowed after) : Follows span before after := by
  intro w hw
  cases h with
  | idle => exact ⟨w, hw, Or.inl rfl⟩
  | opens ended => exact ⟨_, rfl, Or.inr (ended w hw)⟩
  | counts =>
    obtain rfl := Option.some.inj hw
    exact ⟨_, rfl, Or.inl rfl⟩
  | refuses =>
    obtain rfl := Option.some.inj hw
    exact ⟨_, rfl, Or.inl rfl⟩

/-- A call that is let through falls in the window it leaves. -/
theorem Move.running (hspan : 0 < span) {now : ℤ} {before after : Option Window}
    (h : Move limit span now before true after) : ∃ w ∈ after, now < w.windowStart + span := by
  cases h with
  | opens ended => exact ⟨_, rfl, by simpa using hspan⟩
  | counts running room => exact ⟨_, rfl, running⟩

theorem Follows.trans (hspan : 0 < span) {a b c : Option Window} (h : Follows span a b)
    (h' : Follows span b c) : Follows span a c := by
  intro w hw
  obtain ⟨v, hv, hwv⟩ := h w hw
  obtain ⟨u, hu, hvu⟩ := h' v hv
  refine ⟨u, hu, ?_⟩
  omega

/-- Later windows follow the one the history starts from. -/
theorem Moves.follows (hspan : 0 < span) {before : Option Window} {moments : List Moment}
    (h : Moves limit span before moments) : ∀ m ∈ moments, Follows span before m.after := by
  induction moments generalizing before with
  | nil => simp
  | cons m rest ih =>
    obtain ⟨hm, hrest⟩ := h
    intro m' hm'
    rcases List.mem_cons.1 hm' with rfl | hmem
    · exact hm.follows
    · exact hm.follows.trans hspan (ih hrest m' hmem)

/-- Each window follows all before it. -/
theorem Moves.pairwise (hspan : 0 < span) {before : Option Window} {moments : List Moment}
    (h : Moves limit span before moments) :
    moments.Pairwise fun a b => Follows span a.after b.after := by
  induction moments generalizing before with
  | nil => exact .nil
  | cons m rest ih => exact .cons (h.2.follows hspan) (ih h.2)

/-- Every call let through falls in a window that has not ended. -/
theorem Moves.running (hspan : 0 < span) {before : Option Window} {moments : List Moment}
    (h : Moves limit span before moments) {m : Moment} (hm : m ∈ moments) (hallowed : m.allowed = true) :
    ∃ w ∈ m.after, m.now < w.windowStart + span := by
  induction moments generalizing before with
  | nil => cases hm
  | cons m' rest ih =>
    rcases List.mem_cons.1 hm with rfl | hrest
    · have hmove := h.1
      rw [hallowed] at hmove
      exact hmove.running hspan
    · exact ih h.2 hrest

theorem through_cons (start : ℤ) (m : Moment) (rest : List Moment) :
    (through start (m :: rest)).length =
      (if m.allowed ∧ m.after.map windowStart = some start then 1 else 0) +
        (through start rest).length := by
  rw [through, List.filter_cons]
  split_ifs with h h' h'
  · rw [List.length_cons, Nat.add_comm]
    rfl
  · exact absurd (of_decide_eq_true h) h'
  · exact absurd (decide_eq_true h') h
  · rw [Nat.zero_add]
    rfl

/-- Once another window has opened, no call falls in an earlier one. -/
theorem through_eq_nil (hspan : 0 < span) {w : Window} {start : ℤ} (hlt : start < w.windowStart)
    {moments : List Moment} (h : Moves limit span (some w) moments) : through start moments = [] := by
  rw [through, List.filter_eq_nil_iff]
  intro m hm hthrough
  obtain ⟨-, hstart⟩ := of_decide_eq_true hthrough
  obtain ⟨w', hw', hfollows⟩ := h.follows hspan m hm w rfl
  rw [Option.mem_def.1 hw'] at hstart
  have heq : w'.windowStart = start := Option.some.inj hstart
  omega

/-- The calls that the current window still lets through. -/
theorem through_current_le (hspan : 0 < span) {w : Window} {moments : List Moment}
    (h : Moves limit span (some w) moments) :
    (through w.windowStart moments).length ≤ ⌈limit⌉₊ - w.count := by
  induction moments generalizing w with
  | nil => simp [through]
  | cons m rest ih =>
    obtain ⟨now, allowed, after⟩ := m
    obtain ⟨hm, hrest⟩ := h
    dsimp only at hm hrest
    rw [through_cons]
    cases hm with
    | idle =>
      have hle := ih hrest
      simpa using hle
    | opens ended =>
      have hlater : w.windowStart < now := by
        have hend := ended w rfl
        omega
      have hne : ¬ (allowed = true ∧ (some (⟨1, now⟩ : Window)).map windowStart = some w.windowStart) := by
        intro heq
        have hnow : now = w.windowStart := Option.some.inj heq.2
        omega
      rw [if_neg hne, through_eq_nil hspan hlater hrest]
      simp
    | counts running room =>
      have hroom : w.count < ⌈limit⌉₊ := Nat.lt_ceil.2 room
      have hle := ih hrest
      dsimp only at hle
      rw [if_pos ⟨rfl, rfl⟩]
      omega
    | refuses n more =>
      have hle := ih hrest
      dsimp only at hle
      rw [if_neg (by simp)]
      omega

/-- The window a call that is let through leaves has counted it. -/
theorem Move.count_pos {now : ℤ} {before : Option Window} {w : Window}
    (h : Move limit span now before true (some w)) : 1 ≤ w.count := by
  cases h with
  | opens => exact le_rfl
  | counts => exact Nat.succ_le_succ (Nat.zero_le _)

/-- No window lets through more calls than the limit, and one if that is less than one. -/
theorem through_le (hspan : 0 < span) {before : Option Window} {moments : List Moment}
    (h : Moves limit span before moments) (start : ℤ) :
    (through start moments).length ≤ max 1 ⌈limit⌉₊ := by
  induction moments generalizing before with
  | nil => simp [through]
  | cons m rest ih =>
    obtain ⟨now, allowed, after⟩ := m
    obtain ⟨hm, hrest⟩ := h
    rw [through_cons]
    by_cases hthrough : allowed = true ∧ after.map windowStart = some start
    · obtain ⟨rfl, hstart⟩ := hthrough
      obtain ⟨w, rfl, rfl⟩ := Option.map_eq_some_iff.1 hstart
      have hcurrent := through_current_le hspan hrest
      have hpos := hm.count_pos
      rw [if_pos ⟨rfl, rfl⟩]
      omega
    · have hle := ih hrest
      rw [if_neg hthrough]
      omega

section Counter

variable {cap : ℕ} {now : ℤ} {w kept : Option Window}

/-- The window of a call, with the call's number in it. -/
def next (span now : ℤ) : Option Window → Window
  | none => ⟨1, now⟩
  | some w => if w.windowStart + span ≤ now then ⟨1, now⟩ else ⟨w.count + 1, w.windowStart⟩

theorem next_some (v : Window) : next span now (some v) =
    if v.windowStart + span ≤ now then ⟨1, now⟩ else ⟨v.count + 1, v.windowStart⟩ := rfl

theorem next_of_ended (h : ∀ v ∈ w, v.windowStart + span ≤ now) : next span now w = ⟨1, now⟩ := by
  cases w with
  | none => rfl
  | some v => exact if_pos (h v rfl)

theorem next_of_running {v : Window} (h : ¬ v.windowStart + span ≤ now) :
    next span now (some v) = ⟨v.count + 1, v.windowStart⟩ := if_neg h

theorem next_running (hspan : 0 < span) : ¬ (next span now w).windowStart + span ≤ now := by
  cases w with
  | none => simpa [next] using hspan
  | some v =>
    rw [next_some]
    split_ifs with hended
    · simpa using hspan
    · exact hended

theorem next_count_pos : 1 ≤ (next span now w).count := by
  cases w with
  | none => exact le_rfl
  | some v =>
    rw [next_some]
    split_ifs
    · exact le_rfl
    · exact Nat.le_add_left _ _

/-- A smaller number is that of a call before. -/
theorem next_lower {k : ℕ} (hpos : 1 ≤ k) (hk : k ≤ (next span now w).count) :
    k = (next span now w).count ∨ ∃ v ∈ w, k ≤ v.count := by
  cases w with
  | none => exact .inl (le_antisymm hk hpos)
  | some v =>
    rw [next_some] at hk ⊢
    split_ifs at hk ⊢ with hended
    · exact .inl (le_antisymm hk hpos)
    · rcases Nat.lt_or_ge v.count k with hlt | hle
      · exact .inl (le_antisymm hk hlt)
      · exact .inr ⟨v, rfl, hle⟩

/-- The next window is the same with a larger number, or a later one. -/
theorem next_after {v : Window} (hv : v ∈ w) :
    ((next span now w).windowStart = v.windowStart ∧ v.count < (next span now w).count) ∨
      v.windowStart + span ≤ (next span now w).windowStart := by
  obtain rfl := Option.mem_def.1 hv
  rw [next_some]
  split_ifs with hended
  · exact .inr hended
  · exact .inl ⟨rfl, Nat.lt_succ_self _⟩

def capped (cap : ℕ) (w : Window) : Window := ⟨min w.count cap, w.windowStart⟩

/-- What a store that counts no further than a cap holds of a window: it may forget one that has ended. -/
def Keeps (cap : ℕ) (span now : ℤ) (w kept : Option Window) : Prop :=
  kept = w.map (capped cap) ∨ kept = none ∧ ∀ v ∈ w, v.windowStart + span ≤ now

theorem Keeps.later {later : ℤ} (hle : now ≤ later) (h : Keeps cap span now w kept) : Keeps cap span later w kept :=
  h.imp_right fun ⟨hnone, hended⟩ => ⟨hnone, fun v hv => (hended v hv).trans hle⟩

theorem Keeps.filter {q : Window → Bool} (hq : ∀ v : Window, q v = false → v.windowStart + span ≤ now)
    (h : Keeps cap span now w kept) : Keeps cap span now w (kept.filter q) := by
  rcases h with rfl | ⟨rfl, hended⟩
  · cases w with
    | none => exact .inl rfl
    | some v =>
      rw [Option.map_some]
      by_cases hv : q (capped cap v) = true
      · exact .inl (Option.filter_some_pos hv)
      · rw [Bool.not_eq_true] at hv
        rw [Option.filter_some_neg hv]
        refine .inr ⟨rfl, fun u hu => ?_⟩
        obtain rfl := Option.some.inj hu
        exact hq (capped cap v) hv
  · exact .inr ⟨rfl, hended⟩

theorem Keeps.next (h : Keeps cap span now w kept) : next span now kept = capped (cap + 1) (next span now w) := by
  rcases h with rfl | ⟨rfl, hended⟩
  · cases w with
    | none => simp [Window.next, capped]
    | some v =>
      by_cases hended : v.windowStart + span ≤ now
      · rw [next_of_ended (by simpa [capped] using hended), next_of_ended (by simpa using hended)]
        simp [capped]
      · rw [Option.map_some, next_of_running (by simpa [capped] using hended), next_of_running hended]
        simp only [capped, Nat.add_min_add_right]
  · rw [next_of_ended hended]
    simp [Window.next, capped]

theorem Keeps.next_le (h : Keeps cap span now w kept) :
    (Window.next span now kept).count ≤ cap ↔ (Window.next span now w).count ≤ cap := by
  rw [h.next, capped]
  dsimp only
  omega

/-- A call is written as long as its number is within the cap. -/
theorem Keeps.step (hcap : 1 ≤ cap) (h : Keeps cap span now w kept) :
    Keeps cap span now (some (Window.next span now w))
      (if (Window.next span now kept).count ≤ cap then some (Window.next span now kept) else kept) := by
  refine .inl ?_
  have hle := h.next_le
  split_ifs with hfits
  · rw [h.next, Option.map_some]
    have := hle.1 hfits
    unfold capped
    rw [min_eq_left (by omega), min_eq_left this]
  · rw [hle] at hfits
    -- the window goes on, since a new one begins with one
    rcases w with _ | v
    · exact absurd hcap hfits
    · by_cases hended : v.windowStart + span ≤ now
      · rw [next_of_ended (by simpa using hended)] at hfits
        exact absurd hcap hfits
      · rw [next_of_running hended] at hfits ⊢
        dsimp only at hfits
        rcases h with rfl | ⟨-, hend⟩
        · simp only [Option.map_some, capped, Option.some.injEq, Window.mk.injEq, and_true]
          omega
        · exact absurd (hend v rfl) hended

end Counter

end Window
