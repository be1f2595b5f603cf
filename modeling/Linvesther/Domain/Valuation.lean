import Mathlib

/-! One asset's quantity at a cut, from a balance that was read at another time and the events between
the two. -/

namespace Linvesther.Domain

section Reconstruct

structure BalanceSnapshot where
  free : ℚ
  locked : ℚ
  observedAtMs : ℕ
deriving DecidableEq

def BalanceSnapshot.total (s : BalanceSnapshot) : ℚ := s.free + s.locked

structure TimedDelta where
  timeMs : ℕ
  delta : ℚ
deriving DecidableEq

inductive ReconstructError where
  | ambiguousOrdering (eventTimeMs snapshotTimeMs : ℕ)
deriving DecidableEq

inductive ValuationError where
  | ambiguousOrdering (asset : String) (source : ReconstructError)
  | unsupportedAsset (text : String)
deriving DecidableEq

/-- An event at the very instant of the snapshot refuses the reconstruction. -/
def reconstructQuantity (snapshot : BalanceSnapshot) (events : List TimedDelta) (cutMs : ℕ) :
    Except ReconstructError ℚ :=
  match events.find? fun e => e.timeMs = snapshot.observedAtMs with
  | some e => .error (.ambiguousOrdering e.timeMs snapshot.observedAtMs)
  | none =>
    if snapshot.observedAtMs ≤ cutMs then
      .ok (events.foldl (fun quantity e =>
        if snapshot.observedAtMs < e.timeMs ∧ e.timeMs ≤ cutMs then quantity + e.delta else quantity)
        snapshot.total)
    else
      .ok (events.foldl (fun quantity e =>
        if cutMs < e.timeMs ∧ e.timeMs ≤ snapshot.observedAtMs then quantity - e.delta else quantity)
        snapshot.total)

end Reconstruct

section Cut

/-- What the events up to a time, and at it, add up to. -/
def addedUp (events : List TimedDelta) (untilMs : ℕ) : ℚ :=
  ((events.filter fun e => e.timeMs ≤ untilMs).map TimedDelta.delta).sum

theorem addedUp_cons (e : TimedDelta) (events : List TimedDelta) (untilMs : ℕ) :
    addedUp (e :: events) untilMs =
      (if e.timeMs ≤ untilMs then e.delta else 0) + addedUp events untilMs := by
  unfold addedUp
  by_cases h : e.timeMs ≤ untilMs
  · rw [List.filter_cons_of_pos (by simpa using h), if_pos h]
    rfl
  · rw [List.filter_cons_of_neg (by simpa using h), if_neg h, zero_add]

/-- A loop over the events after one time and up to another, that puts each delta in with a factor. -/
theorem foldl_between (put : ℚ → ℚ → ℚ) (c : ℚ) (hput : ∀ quantity delta, put quantity delta =
    quantity + c * delta) {from_ to_ : ℕ} (h : from_ ≤ to_) (events : List TimedDelta)
    (quantity : ℚ) :
    events.foldl (fun quantity e =>
      if from_ < e.timeMs ∧ e.timeMs ≤ to_ then put quantity e.delta else quantity) quantity =
      quantity + c * (addedUp events to_ - addedUp events from_) := by
  induction events generalizing quantity with
  | nil => simp [addedUp]
  | cons e events ih =>
    rw [List.foldl_cons, ih, addedUp_cons, addedUp_cons]
    by_cases hto : e.timeMs ≤ to_
    · by_cases hfrom : e.timeMs ≤ from_
      · rw [if_neg fun hin => absurd hin.1 (not_lt.2 hfrom), if_pos hto, if_pos hfrom]
        ring
      · rw [if_pos ⟨not_le.1 hfrom, hto⟩, if_pos hto, if_neg hfrom, hput]
        ring
    · rw [if_neg fun hin => hto hin.2, if_neg hto, if_neg fun hle => hto (hle.trans h)]
      ring

/-- Forwards or backwards, the events between the snapshot and the cut are what changes. -/
theorem reconstructQuantity_ok {snapshot : BalanceSnapshot} {events : List TimedDelta}
    {cutMs : ℕ} {quantity : ℚ} (h : reconstructQuantity snapshot events cutMs = .ok quantity) :
    quantity = snapshot.total + (addedUp events cutMs - addedUp events snapshot.observedAtMs) := by
  unfold reconstructQuantity at h
  split at h
  · cases h
  · split_ifs at h with hcut
    · rw [foldl_between (· + ·) 1 (fun _ _ => by ring) hcut, one_mul] at h
      exact (Except.ok.inj h).symm
    · rw [foldl_between (· - ·) (-1) (fun _ _ => by ring) (not_le.1 hcut).le] at h
      rw [← Except.ok.inj h]
      ring

end Cut

end Linvesther.Domain
