import Linvesther.Contracts.World

/-! What the owner's signature covers of an `AccountRegistry` command: every argument, except the
commitment that `rotateBindingCredential` writes. -/

namespace Linvesther.AccountRegistry

open Transaction

variable {A B : Type}

def Call.structHash (evm : Evm A B) : Call B → B
  | .registerAccount trackId venueId authenticatedIdCommitment environment ownerEpoch nonce deadline
      _ =>
    registerAccountStructHash evm trackId venueId authenticatedIdCommitment environment ownerEpoch
      nonce deadline
  | .activateAccount accountId eligibleFrom reasonHash ownerEpoch nonce deadline _ =>
    activateAccountStructHash evm accountId eligibleFrom reasonHash ownerEpoch nonce deadline
  | .removeAccount accountId reasonHash ownerEpoch nonce deadline _ =>
    removeAccountStructHash evm accountId reasonHash ownerEpoch nonce deadline
  | .rotateBindingCredential accountId _ ownerEpoch nonce deadline _ =>
    rotateBindingCredentialStructHash evm accountId ownerEpoch nonce deadline

/-- The commitment a call would write over the one the account was registered with. -/
def Call.newCommitment : Call B → Option B
  | .rotateBindingCredential _ newAuthenticatedIdCommitment _ _ _ _ =>
    some newAuthenticatedIdCommitment
  | _ => none

section Signed

variable {evm : Evm A B}

/-- Two commands with the same struct hash differ in the signature or in the new commitment. -/
theorem Call.eq_of_structHash (hk : Function.Injective evm.keccak256) {c c' : Call B}
    (hentry : c.entryPoint = c'.entryPoint) (hhash : c.structHash evm = c'.structHash evm)
    (hsig : c.signature = c'.signature) (hnew : c.newCommitment = c'.newCommitment) : c = c' := by
  cases c with
  | registerAccount =>
    cases c' with
    | registerAccount =>
      have := hk hhash
      simp_all [Call.signature, Environment.toUint8_injective.eq_iff]
    | _ => cases hentry
  | activateAccount =>
    cases c' with
    | activateAccount =>
      have := hk hhash
      simp_all [Call.signature]
    | _ => cases hentry
  | removeAccount =>
    cases c' with
    | removeAccount =>
      have := hk hhash
      simp_all [Call.signature]
    | _ => cases hentry
  | rotateBindingCredential =>
    cases c' with
    | rotateBindingCredential =>
      have := hk hhash
      simp_all [Call.signature, Call.newCommitment]
    | _ => cases hentry

variable [DecidableEq B] [Zero B] {this : A} {identityRegistry : IdentityRegistry.State A B}
  {s s' : State B} {b : Block A B}

/-- An accepted call carries a valid signature over its struct hash. -/
theorem call_signed {c : Call B} {logs : List (Event B)}
    (h : call evm this identityRegistry s b c = .ok (s', logs)) :
    ∃ signer, b.isValidSignatureNow signer (hashTypedDataV4 evm this (c.structHash evm))
      c.signature = true := by
  cases c with
  | registerAccount =>
    simp only [call, registerAccount, bind_ok] at h
    obtain ⟨owner, -, s₁, hconsumed, -⟩ := h
    exact ⟨owner, (consumeCommand_ok hconsumed).2.2.2.1⟩
  | activateAccount =>
    simp only [call, activateAccount, bind_ok] at h
    obtain ⟨_, -, -, -, -, -, owner, -, s₁, hconsumed, -⟩ := h
    exact ⟨owner, (consumeCommand_ok hconsumed).2.2.2.1⟩
  | removeAccount =>
    simp only [call, removeAccount, bind_ok] at h
    obtain ⟨_, -, -, -, owner, -, s₁, hconsumed, -⟩ := h
    exact ⟨owner, (consumeCommand_ok hconsumed).2.2.2.1⟩
  | rotateBindingCredential =>
    simp only [call, rotateBindingCredential, bind_ok] at h
    obtain ⟨_, -, -, -, owner, -, s₁, hconsumed, -⟩ := h
    exact ⟨owner, (consumeCommand_ok hconsumed).2.2.2.1⟩

omit [Zero B] in
/-- A rotation writes the commitment it was called with, so the state tells it. -/
theorem rotateBindingCredential_commitment {accountId commitment commitment' : B}
    {ownerEpoch nonce deadline : ℕ} {signature : Bytes} {logs logs' : List (Event B)}
    (h : rotateBindingCredential evm this identityRegistry s b accountId commitment ownerEpoch nonce
      deadline signature = .ok (s', logs))
    (h' : rotateBindingCredential evm this identityRegistry s b accountId commitment' ownerEpoch
      nonce deadline signature = .ok (s', logs')) : commitment = commitment' := by
  obtain ⟨-, -, hs⟩ := rotateBindingCredential_ok h
  obtain ⟨-, -, hs'⟩ := rotateBindingCredential_ok h'
  have : (s'.accounts accountId).authenticatedIdCommitment = commitment := by rw [hs]; simp
  rw [← this, hs']
  simp

/-- Two accepted calls of one entry point with the same signature leave the same state if and only
if they carry the same new commitment. -/
theorem same_signature_same_state_iff (hk : Function.Injective evm.keccak256)
    (hb : b.Unforgeable) {c c' : Call B} {s₁ s₂ : State B} {logs₁ logs₂ : List (Event B)}
    (hentry : c.entryPoint = c'.entryPoint) (hsig : c.signature = c'.signature)
    (h₁ : call evm this identityRegistry s b c = .ok (s₁, logs₁))
    (h₂ : call evm this identityRegistry s b c' = .ok (s₂, logs₂)) :
    s₁ = s₂ ↔ c.newCommitment = c'.newCommitment := by
  have hhash : c.structHash evm = c'.structHash evm := by
    obtain ⟨signer, hvalid⟩ := call_signed h₁
    obtain ⟨signer', hvalid'⟩ := call_signed h₂
    rw [← hsig] at hvalid'
    exact Evm.hashTypedDataV4_injective hk (hb _ _ _ _ _ hvalid hvalid')
  constructor
  · rintro rfl
    cases c with
    | rotateBindingCredential =>
      cases c' with
      | rotateBindingCredential =>
        have hargs := hk hhash
        simp only [Call.signature, Preimage.encode.injEq, List.cons.injEq, Word.bytes32.injEq,
          Word.uint.injEq] at hsig hargs
        obtain ⟨-, rfl, rfl, rfl, rfl, -⟩ := hargs
        subst hsig
        exact congrArg some (rotateBindingCredential_commitment h₁ h₂)
      | _ => cases hentry
    | _ =>
      cases c' with
      | rotateBindingCredential => cases hentry
      | _ => rfl
  · intro hnew
    obtain rfl := Call.eq_of_structHash hk hentry hhash hsig hnew
    rw [h₁] at h₂
    cases h₂
    rfl

end Signed

section Rotation

/-- The account registered on the track. -/
def exampleAccount : Symbol :=
  Symbol.keccak256 (.encodePacked [.uint 1, .address 2, .bytes32 exampleTrack, .uint 0])

def registration : Tx ℕ Symbol where
  block := .signed 11 7 (hashTypedDataV4 Symbol.evm 2 (registerAccountStructHash Symbol.evm
    exampleTrack 0 (.nat 30) .production 0 0 20)) [2]
  sender := 9
  call := .account (.registerAccount exampleTrack 0 (.nat 30) .production 0 0 20 [2])

/-- A reachable state: one account, registered under the commitment 30. -/
def registered : World ℕ Symbol :=
  World.run Symbol.evm exampleDeployment .init (exampleSetup ++ [registration])

/-- The block in which the owner's signature over a rotation is known. -/
def rotationBlock : Block ℕ Symbol :=
  .signed 12 7 (hashTypedDataV4 Symbol.evm 2
    (rotateBindingCredentialStructHash Symbol.evm exampleAccount 0 1 20)) [3]

def rotation (commitment : Symbol) : Call Symbol :=
  .rotateBindingCredential exampleAccount commitment 0 1 20 [3]

theorem registered_ready :
    Ready registered ∧ registered.account.trackNonce exampleTrack = 1 ∧
    registered.account.accounts exampleAccount =
      { (noAccount : AccountBinding Symbol) with
        trackId := exampleTrack, authenticatedIdCommitment := .nat 30, registeredAt := 11,
        exists_ := true } := by
  have hrun := run_append (World.call Symbol.evm exampleDeployment) .init exampleSetup
    [registration]
  rw [run_cons, run_nil] at hrun
  obtain ⟨hready, hinit, -⟩ := exampleSetup_ready
  unfold World.run at hready hinit
  generalize Transaction.run _ _ exampleSetup = w at hrun hready hinit
  obtain ⟨s, logs, hok, hs⟩ := @registerAccount_accepts _ _ _ Symbol.evm 2 w.identity w.account
    registration.block exampleTrack 0 (.nat 30) .production 0 0 20 [2]
    (by simp [hready.track]) (show 11 ≤ 20 by decide)
    (by simp [requireTrackOwnerEpoch, hready.track, hready.owner]) (by rw [hinit]; rfl) (by decide)
    (by rw [hinit]; decide) (by simp only [hready.track, hready.owner]; exact Block.signed_self ..)
  have hcall : World.call Symbol.evm exampleDeployment w registration =
      .ok ({ w with account := s }, logs.map .account) := by
    simp only [World.call, registration, call, exampleDeployment]
    simp only [registration] at hok
    rw [hok]
  rw [commit_ok hcall] at hrun
  have hlast : registered = { w with account := s } := hrun
  rw [hlast]
  refine ⟨⟨hready.track, hready.owner⟩, by simp [hs], ?_⟩
  simp only [hs, hinit]
  rfl

theorem rotation_accepted (commitment : Symbol) :
    ∃ s logs, call Symbol.evm 2 registered.identity registered.account rotationBlock
      (rotation commitment) = .ok (s, logs) := by
  obtain ⟨hready, hnonce, haccount⟩ := registered_ready
  generalize registered = w at hready hnonce haccount
  refine @rotateBindingCredential_accepts _ _ _ Symbol.evm 2 _ _ _ _ _ _ _ _ (by rw [haccount])
    (by rw [haccount]; decide) (by rw [haccount, hready.track]) (show 12 ≤ 20 by decide) ?_ ?_
    (by decide) (by rw [haccount]; decide) ?_ commitment
  · simp [requireTrackOwnerEpoch, haccount, hready.track, hready.owner]
  · rw [haccount, hnonce]
  · rw [haccount, hready.track, hready.owner]
    exact Block.signed_self ..

theorem same_signature_same_state_rotation :
    ∃ s₁ s₂ logs₁ logs₂,
      call Symbol.evm 2 registered.identity registered.account rotationBlock (rotation (.nat 40)) =
        .ok (s₁, logs₁) ∧
      call Symbol.evm 2 registered.identity registered.account rotationBlock (rotation (.nat 50)) =
        .ok (s₂, logs₂) ∧
      (s₁ = s₂ ↔ (rotation (.nat 40)).newCommitment = (rotation (.nat 50)).newCommitment) := by
  obtain ⟨s₁, logs₁, h₁⟩ := rotation_accepted (.nat 40)
  obtain ⟨s₂, logs₂, h₂⟩ := rotation_accepted (.nat 50)
  exact ⟨s₁, s₂, logs₁, logs₂, h₁, h₂, same_signature_same_state_iff Symbol.keccak256_injective
    (Block.signed_unforgeable _ _ _ _) rfl rfl h₁ h₂⟩

/-- One signature rotates the account to the commitment 40 or to 50, as the relayer likes. -/
theorem rotation_commitment_unsigned :
    Function.Injective Symbol.evm.keccak256 ∧ rotationBlock.Unforgeable ∧
    ∃ s₁ s₂ logs₁ logs₂,
      call Symbol.evm 2 registered.identity registered.account rotationBlock (rotation (.nat 40)) =
        .ok (s₁, logs₁) ∧
      call Symbol.evm 2 registered.identity registered.account rotationBlock (rotation (.nat 50)) =
        .ok (s₂, logs₂) ∧
      (rotation (.nat 40)).entryPoint = (rotation (.nat 50)).entryPoint ∧
      (rotation (.nat 40)).signature = (rotation (.nat 50)).signature ∧ s₁ ≠ s₂ := by
  obtain ⟨s₁, logs₁, h₁⟩ := rotation_accepted (.nat 40)
  obtain ⟨s₂, logs₂, h₂⟩ := rotation_accepted (.nat 50)
  refine ⟨Symbol.keccak256_injective, Block.signed_unforgeable _ _ _ _, s₁, s₂, logs₁, logs₂, h₁, h₂,
    rfl, rfl, ?_⟩
  rintro rfl
  exact absurd (rotateBindingCredential_commitment h₁ h₂) (by decide)

end Rotation

end Linvesther.AccountRegistry
