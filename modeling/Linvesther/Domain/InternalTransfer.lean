import Mathlib

/-! `transfer.rs`: two legs between members of one set are linked to an internal transfer. -/

namespace Linvesther.Domain

section Decimal

/-- At most 28 digits behind the point, and 96 bits for all of them. -/
def Holds (x : ℚ) : Prop := ∃ scale < 29, (x * 10 ^ scale).den = 1 ∧ |(x * 10 ^ scale).num| < 2 ^ 96

instance (x : ℚ) : Decidable (Holds x) := inferInstanceAs (Decidable (∃ scale < 29, _))

/-- A `Decimal`, which is compared by its value. -/
@[ext] structure Decimal where
  val : ℚ
  holds : Holds val
deriving DecidableEq

/-- An addition of decimals, which panics at `none`. -/
abbrev Addition := Decimal → Decimal → Option Decimal

/-- A sum that can be held is what the addition gives. Others it rounds, or it panics. -/
def Addition.Adds (add : Addition) : Prop := ∀ a b c : Decimal, c.val = a.val + b.val → add a b = some c

end Decimal

section InternalTransfer

structure TransferLeg where
  accountId : String
  asset : String
  amount : Decimal
deriving DecidableEq

structure InternalTransfer where
  linkId : String
  asset : String
  outgoing : TransferLeg
  incoming : TransferLeg
  fee : Decimal
deriving DecidableEq

inductive ConsolidationError
  | notAMember (outgoingAccount incomingAccount : String)
  | sameAccount (accountId : String)
  | assetMismatch (outgoingAsset incomingAsset : String)
  | unreconciledAmounts (outgoing incomingPlusFee : Decimal)
deriving DecidableEq

/-- `none` where the sum of the incoming amount and the fee panics. -/
def linkInternalTransfer (add : Addition) (linkId : String) (outgoing incoming : TransferLeg) (fee : Decimal)
    (memberIds : Finset String) : Option (Except ConsolidationError InternalTransfer) :=
  if outgoing.accountId ∉ memberIds ∨ incoming.accountId ∉ memberIds then
    some (.error (.notAMember outgoing.accountId incoming.accountId))
  else if outgoing.accountId = incoming.accountId then some (.error (.sameAccount outgoing.accountId))
  else if outgoing.asset ≠ incoming.asset then some (.error (.assetMismatch outgoing.asset incoming.asset))
  else
    match add incoming.amount fee with
    | none => none
    | some expectedOutgoing =>
      if outgoing.amount ≠ expectedOutgoing then
        some (.error (.unreconciledAmounts outgoing.amount expectedOutgoing))
      else some (.ok ⟨linkId, outgoing.asset, outgoing, incoming, fee⟩)

end InternalTransfer

section Conservation

/-- What the two legs add to the members together. -/
def InternalTransfer.netFlow (t : InternalTransfer) : ℚ := t.incoming.amount.val - t.outgoing.amount.val

/-- The members have no more after the transfer than before: what is missing is the fee. -/
structure InternalTransfer.Conserves (t : InternalTransfer) : Prop where
  incoming_le : t.incoming.amount.val ≤ t.outgoing.amount.val
  difference : t.outgoing.amount.val - t.incoming.amount.val = t.fee.val
  fee_nonneg : 0 ≤ t.fee.val
  asset : t.outgoing.asset = t.asset ∧ t.incoming.asset = t.asset
  netFlow : t.netFlow = -t.fee.val

variable {add : Addition} {linkId : String} {outgoing incoming : TransferLeg} {fee : Decimal}
  {memberIds : Finset String}

/-- A link is accepted between two members, for one asset, where the sum is the outgoing amount. -/
theorem linkInternalTransfer_ok {t : InternalTransfer} :
    linkInternalTransfer add linkId outgoing incoming fee memberIds = some (.ok t) ↔
      (outgoing.accountId ∈ memberIds ∧ incoming.accountId ∈ memberIds ∧
        outgoing.accountId ≠ incoming.accountId ∧ outgoing.asset = incoming.asset ∧
        add incoming.amount fee = some outgoing.amount) ∧
      t = ⟨linkId, outgoing.asset, outgoing, incoming, fee⟩ := by
  unfold linkInternalTransfer
  split_ifs with hmember haccount hasset
  · simp only [Option.some.injEq, reduceCtorEq, false_iff]
    tauto
  · simp [haccount]
  · simp [hasset]
  · push Not at hmember hasset
    cases hadd : add incoming.amount fee with
    | none => simp
    | some expectedOutgoing =>
      dsimp only
      split_ifs with hamount
      · simp [Ne.symm hamount]
      · push Not at hamount
        simp [hmember, haccount, hasset, hamount, eq_comm]

/-- An accepted transfer conserves value exactly if its fee is not negative and the sum can be held. -/
theorem conserves_iff (hadds : add.Adds) (hasset : outgoing.asset = incoming.asset)
    (hadd : add incoming.amount fee = some outgoing.amount) :
    InternalTransfer.Conserves ⟨linkId, outgoing.asset, outgoing, incoming, fee⟩ ↔
      0 ≤ fee.val ∧ Holds (incoming.amount.val + fee.val) := by
  constructor
  · intro h
    have hsum : outgoing.amount.val = incoming.amount.val + fee.val := by
      have : outgoing.amount.val - incoming.amount.val = fee.val := h.difference
      linarith
    refine ⟨h.fee_nonneg, ?_⟩
    rw [← hsum]
    exact outgoing.amount.holds
  · rintro ⟨hfee, hholds⟩
    have hexact := hadds incoming.amount fee ⟨_, hholds⟩ rfl
    rw [hadd, Option.some.injEq] at hexact
    have hsum : outgoing.amount.val = incoming.amount.val + fee.val := congrArg Decimal.val hexact
    refine ⟨?_, ?_, hfee, ⟨rfl, hasset.symm⟩, ?_⟩
    · show incoming.amount.val ≤ outgoing.amount.val
      linarith
    · show outgoing.amount.val - incoming.amount.val = fee.val
      linarith
    · show incoming.amount.val - outgoing.amount.val = -fee.val
      linarith

/-- Whatever is linked conserves value exactly if the fee is not negative and the sum can be held, or the link is
refused: an account is no member, both are the same, the assets differ or the amounts do not add up. -/
theorem link_internal_transfer_iff (hadds : add.Adds) :
    (∀ t, linkInternalTransfer add linkId outgoing incoming fee memberIds = some (.ok t) → t.Conserves) ↔
      outgoing.accountId ∉ memberIds ∨ incoming.accountId ∉ memberIds ∨
        outgoing.accountId = incoming.accountId ∨ outgoing.asset ≠ incoming.asset ∨
        add incoming.amount fee ≠ some outgoing.amount ∨
        0 ≤ fee.val ∧ Holds (incoming.amount.val + fee.val) := by
  constructor
  · intro h
    by_contra hnot
    push Not at hnot
    obtain ⟨hout, hin, haccount, hasset, hadd, hbad⟩ := hnot
    have hconserves := h _ (linkInternalTransfer_ok.2 ⟨⟨hout, hin, haccount, hasset, hadd⟩, rfl⟩)
    obtain ⟨hfee, hholds⟩ := (conserves_iff hadds hasset hadd).1 hconserves
    exact hbad hfee hholds
  · intro h t ht
    obtain ⟨⟨hout, hin, haccount, hasset, hadd⟩, rfl⟩ := linkInternalTransfer_ok.1 ht
    rw [conserves_iff hadds hasset hadd]
    tauto

/-- The addition that panics where it would have to round. -/
def exactAddition : Addition := fun a b => if h : Holds (a.val + b.val) then some ⟨_, h⟩ else none

theorem adds_exactAddition : exactAddition.Adds := by
  intro a b c hc
  have hholds : Holds (a.val + b.val) := by
    rw [← hc]
    exact c.holds
  unfold exactAddition
  rw [dif_pos hholds, Option.some.injEq]
  exact Decimal.ext hc.symm

def dec (n : ℤ) (h : Holds n) : Decimal := ⟨n, h⟩

/-- Forty leave, thirty-nine arrive, and one is the fee. -/
theorem link_internal_transfer_fee :
    exactAddition.Adds ∧
      ∀ t, linkInternalTransfer exactAddition "tx-2" ⟨"A", "USDT", dec 40 (by decide +kernel)⟩
        ⟨"B", "USDT", dec 39 (by decide +kernel)⟩ (dec 1 (by decide +kernel)) {"A", "B"} = some (.ok t) →
          t.Conserves :=
  ⟨adds_exactAddition, (link_internal_transfer_iff adds_exactAddition).2 (by decide +kernel)⟩

/-- Forty leave and fifty arrive: a fee of minus ten makes up for it, and the link is accepted. -/
theorem negative_fee_mints :
    ∃ t, linkInternalTransfer exactAddition "tx-2" ⟨"A", "USDT", dec 40 (by decide +kernel)⟩
        ⟨"B", "USDT", dec 50 (by decide +kernel)⟩ (dec (-10) (by decide +kernel)) {"A", "B"} = some (.ok t) ∧
      ¬ t.Conserves := by
  refine ⟨_, linkInternalTransfer_ok.2 ⟨by decide +kernel, rfl⟩, fun h => ?_⟩
  exact absurd h.fee_nonneg (by decide +kernel)

end Conservation

end Linvesther.Domain
