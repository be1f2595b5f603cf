import Linvesther.Base.Transaction
import Linvesther.Zkvm.Bracket

/-! The statistics guest: `stats.rs` and the dispatch of `lib.rs`. -/

namespace Linvesther.Statistics

open Transaction

section Definitions

def MIN_SHARPE_SORTINO_DAYS : ℕ := 30

def MIN_CAGR_DAYS : ℕ := 365

def DAYS_PER_YEAR : I128 := 365

def CAGR_EXPANSION_BITS : ℕ := 40

inductive StatsError where
  | insufficientSample (actual required : ℕ)
  | zeroVariance
  | noDownside
  | nonPositiveIndex
  | numericRange
deriving DecidableEq

inductive ClaimOperator where
  | greaterThan (k : I128)
  | lessThan (k : I128)
deriving DecidableEq

inductive ClaimVerdict where
  | approved
  | rejected
  | indeterminatePrecision
deriving DecidableEq

def evaluateClaim (bracket : Bracket) : ClaimOperator → ClaimVerdict
  | .greaterThan k =>
    if bracket.lower > k then .approved
    else if bracket.upper ≤ k then .rejected
    else .indeterminatePrecision
  | .lessThan k =>
    if bracket.upper < k then .approved
    else if bracket.lower ≥ k then .rejected
    else .indeterminatePrecision

/-- `ok_or(StatsError::NumericRange)?`. -/
def orRange {α : Type} (x : Option α) : Except StatsError α :=
  match x with
  | some a => .ok a
  | none => .error .numericRange

def sumChecked (values : List I128) : Except StatsError I128 :=
  orRange (values.foldlM Signed.checkedAdd 0)

def annualizationFactor : Except StatsError Bracket :=
  orRange (sqrtBracketScaled DAYS_PER_YEAR 1 SCALE)

/-- A `Vec` of returns: its length is a `usize`. -/
abbrev Returns := {returns : List I128 // returns.length < 2 ^ 64}

/-- The returns over the given one, by a subtraction that wraps around. -/
def excessOver (returns : Returns) (base : I128) : List I128 := returns.1.map (· - base)

/-- The loop body of `sharpe_bracket`. -/
def addSquare (n sumExcess vNum e : I128) : Option I128 := do
  let term ← (← e.checkedMul n).checkedSub sumExcess
  vNum.checkedAdd (← term.checkedMul term)

def sharpeBracket (returns : Returns) (rfDaily : I128) : Except StatsError Bracket := do
  revertIf (returns.1.length < MIN_SHARPE_SORTINO_DAYS)
    (.insufficientSample returns.1.length MIN_SHARPE_SORTINO_DAYS)
  let n := Signed.wrap 128 returns.1.length
  let excess := excessOver returns rfDaily
  let sumExcess ← sumChecked excess
  let vNum ← orRange (excess.foldlM (addSquare n sumExcess) 0)
  revertIf (vNum = 0) .zeroVariance
  let vDen ← orRange ((n.checkedMul n).bind fun nn => nn.checkedMul (n - 1))
  let stdev ← orRange (sqrtBracketScaled vNum vDen 1)
  let annual ← annualizationFactor
  orRange (ratioBracket annual sumExcess n stdev)

/-- The loop body of `sortino_bracket`. -/
def addDownside (downsideSqSum e : I128) : Option I128 := do
  if e < 0 then downsideSqSum.checkedAdd (← e.checkedMul e)
  else pure downsideSqSum

def sortinoBracket (returns : Returns) (marDaily : I128) : Except StatsError Bracket := do
  revertIf (returns.1.length < MIN_SHARPE_SORTINO_DAYS)
    (.insufficientSample returns.1.length MIN_SHARPE_SORTINO_DAYS)
  let n := Signed.wrap 128 returns.1.length
  let excess := excessOver returns marDaily
  let sumExcess ← sumChecked excess
  let downsideSqSum ← orRange (excess.foldlM addDownside 0)
  revertIf (downsideSqSum = 0) .noDownside
  let downsideDev ← orRange (sqrtBracketScaled downsideSqSum n 1)
  let annual ← annualizationFactor
  orRange (ratioBracket annual sumExcess n downsideDev)

/-- The state of the loop of `cagr_bracket`. -/
structure Expansion where
  remainingNum : I128
  result : Bracket
  term : Bracket

/-- The loop body of `cagr_bracket`: one more bit of the exponent. -/
def expandBit (den : I128) (s : Expansion) : Option Expansion := do
  let remainingNum ← s.remainingNum.checkedMul 2
  if remainingNum ≥ den then
    let result ← mulBracketNonneg s.result s.term
    let term ← sqrtOfBracket s.term
    pure ⟨remainingNum - den, result, term⟩
  else
    let term ← sqrtOfBracket s.term
    pure ⟨remainingNum, s.result, term⟩

def expandBits (den : I128) : ℕ → Expansion → Option Expansion
  | 0, s => some s
  | bits + 1, s => do expandBits den bits (← expandBit den s)

def cagrBracket (indexStart indexEnd : I128) (daysElapsed : UInt32) :
    Except StatsError Bracket := do
  revertIf (daysElapsed.toNat < MIN_CAGR_DAYS)
    (.insufficientSample daysElapsed.toNat MIN_CAGR_DAYS)
  revertIf (indexStart ≤ 0 ∨ indexEnd ≤ 0) .nonPositiveIndex
  let scaled ← orRange (indexEnd.checkedMul SCALE)
  let ratioLower := scaled / indexStart
  let ratioUpper := if scaled % indexStart ≠ 0 then scaled / indexStart + 1 else scaled / indexStart
  let term ← orRange (sqrtOfBracket ⟨ratioLower, ratioUpper⟩)
  let den := Signed.wrap 128 daysElapsed.toNat
  let s ← orRange (expandBits den CAGR_EXPANSION_BITS ⟨DAYS_PER_YEAR, .exact SCALE, term⟩)
  pure ⟨s.result.lower - SCALE, s.result.upper - SCALE⟩

end Definitions

section Run

inductive MetricClaim where
  | sharpe (returns : Returns) (rfDaily : I128) (operator : ClaimOperator)
  | sortino (returns : Returns) (marDaily : I128) (operator : ClaimOperator)
  | cagr (indexStart indexEnd : I128) (daysElapsed : UInt32) (operator : ClaimOperator)

structure GuestInput where
  claim : MetricClaim

structure GuestOutput where
  bracketLower : I128
  bracketUpper : I128
  verdict : ClaimVerdict
deriving DecidableEq

/-- The bracket of a claim and the comparison that is claimed of it. -/
def MetricClaim.bracket : MetricClaim → Except StatsError (Bracket × ClaimOperator)
  | .sharpe returns rfDaily operator => do
    let bracket ← sharpeBracket returns rfDaily
    pure (bracket, operator)
  | .sortino returns marDaily operator => do
    let bracket ← sortinoBracket returns marDaily
    pure (bracket, operator)
  | .cagr indexStart indexEnd daysElapsed operator => do
    let bracket ← cagrBracket indexStart indexEnd daysElapsed
    pure (bracket, operator)

inductive GuestError where
  | stats (e : StatsError)
deriving DecidableEq

def run (input : GuestInput) : Except GuestError GuestOutput := do
  let (bracket, operator) ← input.claim.bracket.mapError .stats
  let verdict := evaluateClaim bracket operator
  pure ⟨bracket.lower, bracket.upper, verdict⟩

theorem orRange_ok {α : Type} (x : Option α) (a : α) : orRange x = .ok a ↔ x = some a := by
  unfold orRange
  rcases x with - | b
  · simp
  · simp

end Run

end Linvesther.Statistics
