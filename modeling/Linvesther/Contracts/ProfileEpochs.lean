import Linvesther.Contracts.CommandReplay
import Linvesther.Contracts.ProfileRegistry

/-! A profile signature and the epochs of its identity. The signature names no epoch, so it outlives
the one it was made in: it is good again as soon as its signer owns the identity again. -/

namespace Linvesther

open Transaction ProfileRegistry

variable {A B : Type} [DecidableEq A] [DecidableEq B] [Zero A] [Zero B]

section Signatures

/-- A signature, and how many transactions had been mined when it was made. -/
structure Signing (A B : Type) where
  mined : ℕ
  signer : A
  digest : B
  signature : Bytes

variable (evm : Evm A B) (at_ : Deployment A) (this : A)

def Site.run (txs : List (Site.Tx A B)) : Site A B :=
  Transaction.run (Site.call evm at_ this) .init txs

/-- An identity once a number of transactions have been mined. -/
def identityAfter (txs : List (Site.Tx A B)) (mined : ℕ) (identityId : B) :
    IdentityRegistry.Identity A :=
  (Site.run evm at_ this (txs.take mined)).world.identity.identities identityId

/-- After `txs` the call is mined and accepted. -/
def Sets (txs : List (Site.Tx A B)) (tx : Site.Tx A B) (c : SetProfile B) : Prop :=
  tx.call = .setProfile c ∧
    ∃ r, Site.call evm at_ this (Site.run evm at_ this txs) tx = .ok r

/-- The owner of the identity made the signature in an epoch before the current one. -/
def Signing.Stale (s : Signing A B) (txs : List (Site.Tx A B)) (identityId : B) : Prop :=
  s.mined ≤ txs.length ∧
    (identityAfter evm at_ this txs s.mined identityId).exists_ = true ∧
    (identityAfter evm at_ this txs s.mined identityId).owner = s.signer ∧
    (identityAfter evm at_ this txs s.mined identityId).ownerEpoch <
      (identityAfter evm at_ this txs txs.length identityId).ownerEpoch

/-- No accepted call carries a signature of an earlier epoch. -/
def EpochBound (txs : List (Site.Tx A B)) (signings : List (Signing A B)) : Prop :=
  ∀ as tx bs c, txs = as ++ tx :: bs → Sets evm at_ this as tx c →
    ∀ s ∈ signings, s.digest = c.digest evm this → s.signature = c.signature →
      ¬ s.Stale evm at_ this as c.identityId

/-- The current owner has owned the identity in an earlier epoch. -/
def Returned (txs : List (Site.Tx A B)) (identityId : B) : Prop :=
  ∃ mined ≤ txs.length, (identityAfter evm at_ this txs mined identityId).exists_ = true ∧
    (identityAfter evm at_ this txs mined identityId).owner =
      (identityAfter evm at_ this txs txs.length identityId).owner ∧
    (identityAfter evm at_ this txs mined identityId).ownerEpoch <
      (identityAfter evm at_ this txs txs.length identityId).ownerEpoch

omit [DecidableEq A] [DecidableEq B] [Zero A] [Zero B] in
/-- Signatures are accepted as those of their signers only. -/
def Attributable (txs : List (Site.Tx A B)) (signings : List (Signing A B)) : Prop :=
  ∀ s ∈ signings, ∀ tx ∈ txs, ∀ owner,
    tx.block.isValidSignatureNow owner s.digest s.signature = true → owner = s.signer

/-- In no two blocks a signature over one digest is accepted for two owners. -/
def OneSigner (txs : List (Site.Tx A B)) : Prop :=
  ∀ tx ∈ txs, ∀ tx' ∈ txs, ∀ owner owner' digest signature,
    tx.block.isValidSignatureNow owner digest signature = true →
    tx'.block.isValidSignatureNow owner' digest signature = true → owner = owner'

end Signatures

section Runs

variable {evm : Evm A B} {at_ : Deployment A} {this : A}

theorem Sets.signed {txs : List (Site.Tx A B)} {tx : Site.Tx A B} {c : SetProfile B}
    (h : Sets evm at_ this txs tx c) :
    tx.block.isValidSignatureNow (identityAfter evm at_ this txs txs.length c.identityId).owner
      (c.digest evm this) c.signature = true := by
  obtain ⟨htx, r, hcall⟩ := h
  unfold identityAfter
  rw [List.take_length]
  unfold Site.call at hcall
  rw [htx] at hcall
  dsimp only at hcall
  split at hcall
  next p logs hok => exact (setProfile_ok hok).2.2.2.1
  next => cases hcall

/-- Along a run no accepted call carries a signature of an earlier epoch, whatever has been signed and
when, if and only if no call is accepted from an owner who has returned. -/
theorem profile_epoch_iff {txs : List (Site.Tx A B)} (hone : OneSigner txs) :
    (∀ signings, Attributable txs signings → EpochBound evm at_ this txs signings) ↔
      ∀ as tx bs c, txs = as ++ tx :: bs → Sets evm at_ this as tx c →
        ¬ Returned evm at_ this as c.identityId := by
  constructor
  · rintro hbound as tx bs c rfl hsets ⟨mined, hle, hexists, howner, hepoch⟩
    -- the owner signed this very call back then
    refine hbound [⟨mined, _, c.digest evm this, c.signature⟩] ?_ as tx bs c rfl hsets _
      List.mem_cons_self rfl rfl ⟨hle, hexists, howner, hepoch⟩
    intro s hs tx' htx' owner hvalid
    rw [List.mem_singleton.1 hs] at hvalid ⊢
    exact hone tx' htx' tx (by simp) _ _ _ _ hvalid hsets.signed
  · intro hreturned signings hattributable as tx bs c htxs hsets s hs hdigest hsignature hstale
    obtain ⟨hle, hexists, howner, hepoch⟩ := hstale
    refine hreturned as tx bs c htxs hsets ⟨s.mined, hle, hexists, ?_, hepoch⟩
    have hvalid := hsets.signed
    rw [← hdigest, ← hsignature] at hvalid
    rw [howner, hattributable s hs tx (by simp [htxs]) _ hvalid]

end Runs

section Return

def exampleProfile : SetProfile Symbol where
  identityId := exampleIdentity
  name := [65]
  bio := []
  nonce := 0
  deadline := 20
  signature := [9]

/-- 7 creates an identity, hands it to 8 and takes it back. -/
def exampleReturn : List (World.Call ℕ Symbol) :=
  [.identity (.createIdentity .person),
   .identity (.proposeOwnerRotation exampleIdentity 8 0 0 20 [1]),
   .identity (.confirmOwnerRotation exampleIdentity 8 0 1 20 [2]),
   .identity (.proposeOwnerRotation exampleIdentity 7 1 2 20 [3]),
   .identity (.confirmOwnerRotation exampleIdentity 7 1 3 20 [4])]

/-- Who signed what, as ECDSA would tell. -/
def exampleSigned : List (ℕ × Symbol × Bytes) :=
  (9, 0, []) :: (7, exampleProfile.digest Symbol.evm 4, [9]) ::
    ([7, 7, 8, 8, 7].zip exampleReturn).filterMap fun p =>
      (p.2.command Symbol.evm exampleDeployment).map fun cmd => (p.1, cmd.digest, cmd.signature)

def exampleBlock : Block ℕ Symbol where
  timestamp := 10
  isValidSignatureNow owner digest signature := (owner, digest, signature) ∈ exampleSigned

def returnedTxs : List (Site.Tx ℕ Symbol) :=
  exampleReturn.map fun c => ⟨exampleBlock, 7, .world c⟩

/-- The profile that 7 signed before handing the identity over is set afterwards. -/
def staleProfileTxs : List (Site.Tx ℕ Symbol) :=
  returnedTxs ++ [⟨exampleBlock, 9, .setProfile exampleProfile⟩]

def exampleSigning : Signing ℕ Symbol := ⟨1, 7, exampleProfile.digest Symbol.evm 4, [9]⟩

theorem exampleSigned_unique :
    ∀ p ∈ exampleSigned, ∀ q ∈ exampleSigned, p.2 = q.2 → p.1 = q.1 := by decide

theorem staleProfileTxs_block : ∀ tx ∈ staleProfileTxs, tx.block = exampleBlock := by
  simp [staleProfileTxs, returnedTxs, exampleReturn]

theorem staleProfileTxs_oneSigner : OneSigner staleProfileTxs := by
  intro tx htx tx' htx' owner owner' digest signature hvalid hvalid'
  rw [staleProfileTxs_block tx htx] at hvalid
  rw [staleProfileTxs_block tx' htx'] at hvalid'
  exact exampleSigned_unique _ (of_decide_eq_true hvalid) _ (of_decide_eq_true hvalid') rfl

theorem exampleSigning_attributable : Attributable staleProfileTxs [exampleSigning] := by
  intro s hs tx htx owner hvalid
  rw [List.mem_singleton.1 hs] at hvalid ⊢
  rw [staleProfileTxs_block tx htx] at hvalid
  have hsigned : (7, exampleProfile.digest Symbol.evm 4, [9]) ∈ exampleSigned := by decide
  exact exampleSigned_unique _ (of_decide_eq_true hvalid) _ hsigned rfl

theorem exampleProfile_sets :
    Sets Symbol.evm exampleDeployment 4 returnedTxs ⟨exampleBlock, 9, .setProfile exampleProfile⟩
      exampleProfile := by
  have hok : (Site.call Symbol.evm exampleDeployment 4
      (Site.run Symbol.evm exampleDeployment 4 returnedTxs)
      ⟨exampleBlock, 9, .setProfile exampleProfile⟩).toOption.isSome = true := by decide +kernel
  refine ⟨rfl, ?_⟩
  generalize Site.call Symbol.evm exampleDeployment 4 _ _ = x at hok
  rcases x with e | r
  · cases hok
  · exact ⟨r, rfl⟩

theorem profile_epoch_iff_return :
    (∀ signings, Attributable staleProfileTxs signings →
      EpochBound Symbol.evm exampleDeployment 4 staleProfileTxs signings) ↔
      ∀ as tx bs c, staleProfileTxs = as ++ tx :: bs →
        Sets Symbol.evm exampleDeployment 4 as tx c →
          ¬ Returned Symbol.evm exampleDeployment 4 as c.identityId :=
  profile_epoch_iff staleProfileTxs_oneSigner

/-- Signed by 7 in epoch 0, accepted in epoch 2. -/
theorem stale_profile_accepted :
    OneSigner staleProfileTxs ∧ Attributable staleProfileTxs [exampleSigning] ∧
      (identityAfter Symbol.evm exampleDeployment 4 staleProfileTxs 1 exampleIdentity).owner = 7 ∧
      (identityAfter Symbol.evm exampleDeployment 4 staleProfileTxs 1
        exampleIdentity).ownerEpoch = 0 ∧
      (identityAfter Symbol.evm exampleDeployment 4 staleProfileTxs 5
        exampleIdentity).ownerEpoch = 2 ∧
      ((Site.run Symbol.evm exampleDeployment 4 staleProfileTxs).profile.profiles
        exampleIdentity).name = [65] ∧
      ¬ EpochBound Symbol.evm exampleDeployment 4 staleProfileTxs [exampleSigning] := by
  refine ⟨staleProfileTxs_oneSigner, exampleSigning_attributable, by decide +kernel,
    by decide +kernel, by decide +kernel, by decide +kernel, fun hbound => ?_⟩
  have hstale : exampleSigning.Stale Symbol.evm exampleDeployment 4 returnedTxs exampleIdentity :=
    ⟨by decide, by decide +kernel, by decide +kernel, by decide +kernel⟩
  exact hbound returnedTxs _ [] exampleProfile rfl exampleProfile_sets exampleSigning
    List.mem_cons_self rfl rfl hstale

end Return

end Linvesther
