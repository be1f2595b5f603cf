import Mathlib

/-! How many of an asset's closed round trips were profitable: each sale closes the oldest lots that are
still open. -/

namespace Linvesther.Domain

section WinRate

structure Fill where
  timeMs : ℕ
  qty : ℚ
  price : ℚ
  isBuy : Bool
deriving DecidableEq

structure WinRateResult where
  closedRoundTrips : ℕ
  wins : ℕ
  winRate : ℚ
deriving DecidableEq

/-- The open lots, oldest first, each with its quantity and its price, and what was counted. -/
structure WinRateState where
  openLots : List (ℚ × ℚ)
  wins : ℕ
  closed : ℕ
deriving DecidableEq

/-- The `while` of a sale. A lot that is not used up took all that remained, so the loop ends there. -/
def matchLots (price : ℚ) : ℚ → List (ℚ × ℚ) → WinRateState
  | _, [] => ⟨[], 0, 0⟩
  | remaining, (lotQty, lotPrice) :: lots =>
    if remaining ≤ 0 then ⟨(lotQty, lotPrice) :: lots, 0, 0⟩
    else
      let matched := min remaining lotQty
      let win := if (price - lotPrice) * matched > 0 then 1 else 0
      let remainingLot := lotQty - matched
      if remainingLot = 0 then
        let rest := matchLots price (remaining - matched) lots
        ⟨rest.openLots, rest.wins + win, rest.closed + 1⟩
      else ⟨(remainingLot, lotPrice) :: lots, win, 1⟩

def winRateStep (s : WinRateState) (fill : Fill) : WinRateState :=
  if fill.isBuy then { s with openLots := s.openLots ++ [(fill.qty, fill.price)] }
  else
    let sale := matchLots fill.price fill.qty s.openLots
    ⟨sale.openLots, s.wins + sale.wins, s.closed + sale.closed⟩

/-- `none` where no round trip is closed. -/
def computeWinRate (fills : List Fill) : Option WinRateResult :=
  let s := (fills.insertionSort fun a b => a.timeMs ≤ b.timeMs).foldl winRateStep ⟨[], 0, 0⟩
  if s.closed = 0 then none else some ⟨s.closed, s.wins, s.wins / s.closed⟩

end WinRate

end Linvesther.Domain
