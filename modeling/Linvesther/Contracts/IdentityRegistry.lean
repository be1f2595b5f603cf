import Linvesther.Contracts.Evm

/-! `IdentityRegistry.sol`: identities, their tracks and the two-step owner rotation. -/

namespace Linvesther.IdentityRegistry

open Transaction

variable {A B : Type}

inductive IdentityType where
  | person | organization | strategy | bot
deriving DecidableEq

structure Identity (A : Type) where
  owner : A
  pendingOwner : A
  createdAt : ℕ
  ownerEpoch : ℕ
  nonce : ℕ
  identityType : IdentityType
  exists_ : Bool
deriving DecidableEq

structure Track (B : Type) where
  identityId : B
  financialProfileId : B
  denominationCommitment : B
  createdAt : ℕ
  exists_ : Bool
deriving DecidableEq

structure State (A B : Type) where
  identities : Mapping B (Identity A)
  tracks : Mapping B (Track B)
  identityCounter : ℕ
  trackCounter : ℕ

inductive Event (A B : Type) where
  | identityCreated (identityId : B) (owner : A) (identityType : IdentityType) (createdAt : ℕ)
  | trackCreated (identityId trackId financialProfileId denominationCommitment : B)
  | ownerRotationProposed (identityId : B) (currentOwner pendingOwner : A) (ownerEpoch : ℕ)
  | ownerRotated (identityId : B) (previousOwner newOwner : A) (newOwnerEpoch : ℕ)
deriving DecidableEq

inductive Error (A B : Type) where
  | identityNotFound (identityId : B)
  | invalidSignature
  | commandExpired (deadline blockTimestamp : ℕ)
  | ownerEpochMismatch (expected provided : ℕ)
  | nonceMismatch (expected provided : ℕ)
  | noPendingRotation (identityId : B)
  | pendingOwnerMismatch (expected provided : A)
  | zeroAddress
  | sameOwner
  | panic
deriving DecidableEq

/-- An external call of the contract, with its calldata. -/
inductive Call (A B : Type) where
  | createIdentity (identityType : IdentityType)
  | createTrack (identityId financialProfileId denominationCommitment : B)
      (ownerEpoch nonce deadline : ℕ) (signature : Bytes)
  | proposeOwnerRotation (identityId : B) (newOwner : A) (ownerEpoch nonce deadline : ℕ)
      (signature : Bytes)
  | confirmOwnerRotation (identityId : B) (newOwner : A) (ownerEpoch nonce deadline : ℕ)
      (signature : Bytes)

/-- What an untouched storage slot reads as. -/
def noIdentity [Zero A] : Identity A :=
  { owner := 0, pendingOwner := 0, createdAt := 0, ownerEpoch := 0, nonce := 0,
    identityType := .person, exists_ := false }

def noTrack [Zero B] : Track B :=
  { identityId := 0, financialProfileId := 0, denominationCommitment := 0, createdAt := 0,
    exists_ := false }

def State.init [Zero A] [Zero B] : State A B :=
  { identities := fun _ => noIdentity, tracks := fun _ => noTrack, identityCounter := 0,
    trackCounter := 0 }

def CREATE_TRACK_TYPEHASH (evm : Evm A B) : B := evm.keccak256 (.text
  "CreateTrack(bytes32 identityId,bytes32 financialProfileId,bytes32 denominationCommitment,uint64 ownerEpoch,uint64 nonce,uint256 deadline)")

def PROPOSE_OWNER_ROTATION_TYPEHASH (evm : Evm A B) : B := evm.keccak256 (.text
  "ProposeOwnerRotation(bytes32 identityId,address newOwner,uint64 ownerEpoch,uint64 nonce,uint256 deadline)")

def CONFIRM_OWNER_ROTATION_TYPEHASH (evm : Evm A B) : B := evm.keccak256 (.text
  "ConfirmOwnerRotation(bytes32 identityId,address newOwner,uint64 ownerEpoch,uint64 nonce,uint256 deadline)")

def hashTypedDataV4 (evm : Evm A B) (this : A) (structHash : B) : B :=
  evm.hashTypedDataV4 "LinvestherZK-IdentityRegistry" "1" this structHash

section Functions

variable [DecidableEq A] [DecidableEq B] [Zero A] (evm : Evm A B) (this : A)

def requireIdentity (s : State A B) (identityId : B) : Except (Error A B) (Identity A) := do
  revertIf ((s.identities identityId).exists_ = false) (.identityNotFound identityId)
  pure (s.identities identityId)

/-- Checks the command and returns the identity with its nonce consumed. -/
def consumeOwnerCommand (b : Block A B) (identity : Identity A) (signer : A) (structHash : B)
    (ownerEpoch nonce deadline : ℕ) (signature : Bytes) : Except (Error A B) (Identity A) := do
  revertIf (b.timestamp > deadline) (.commandExpired deadline b.timestamp)
  revertIf (ownerEpoch ≠ identity.ownerEpoch) (.ownerEpochMismatch identity.ownerEpoch ownerEpoch)
  revertIf (nonce ≠ identity.nonce) (.nonceMismatch identity.nonce nonce)
  revertIf (b.isValidSignatureNow signer (hashTypedDataV4 evm this structHash) signature = false)
    .invalidSignature
  let nextNonce ← checkedAdd 64 .panic identity.nonce 1
  pure { identity with nonce := nextNonce }

def createIdentity (s : State A B) (b : Block A B) (sender : A) (identityType : IdentityType) :
    Except (Error A B) (State A B × List (Event A B)) := do
  let identityCounter ← checkedAdd 256 .panic s.identityCounter 1
  let identityId := evm.keccak256
    (.encodePacked [.uint evm.chainid, .address this, .address sender, .uint s.identityCounter])
  pure ({ s with
    identityCounter
    identities := Function.update s.identities identityId
      { owner := sender, pendingOwner := 0, createdAt := b.timestamp64, ownerEpoch := 0,
        nonce := 0, identityType, exists_ := true } },
    [.identityCreated identityId sender identityType b.timestamp64])

def createTrack (s : State A B) (b : Block A B)
    (identityId financialProfileId denominationCommitment : B) (ownerEpoch nonce deadline : ℕ)
    (signature : Bytes) : Except (Error A B) (State A B × List (Event A B)) := do
  let identity ← requireIdentity s identityId
  let structHash := evm.keccak256 (.encode [.bytes32 (CREATE_TRACK_TYPEHASH evm),
    .bytes32 identityId, .bytes32 financialProfileId, .bytes32 denominationCommitment,
    .uint ownerEpoch, .uint nonce, .uint deadline])
  let identity ← consumeOwnerCommand evm this b identity identity.owner structHash ownerEpoch nonce
    deadline signature
  let trackCounter ← checkedAdd 256 .panic s.trackCounter 1
  let trackId := evm.keccak256
    (.encodePacked [.uint evm.chainid, .address this, .bytes32 identityId, .uint s.trackCounter])
  pure ({ s with
    identities := Function.update s.identities identityId identity
    trackCounter
    tracks := Function.update s.tracks trackId
      { identityId, financialProfileId, denominationCommitment, createdAt := b.timestamp64,
        exists_ := true } },
    [.trackCreated identityId trackId financialProfileId denominationCommitment])

def proposeOwnerRotation (s : State A B) (b : Block A B) (identityId : B) (newOwner : A)
    (ownerEpoch nonce deadline : ℕ) (signature : Bytes) :
    Except (Error A B) (State A B × List (Event A B)) := do
  revertIf (newOwner = 0) .zeroAddress
  let identity ← requireIdentity s identityId
  revertIf (newOwner = identity.owner) .sameOwner
  let structHash := evm.keccak256 (.encode [.bytes32 (PROPOSE_OWNER_ROTATION_TYPEHASH evm),
    .bytes32 identityId, .address newOwner, .uint ownerEpoch, .uint nonce, .uint deadline])
  let identity ← consumeOwnerCommand evm this b identity identity.owner structHash ownerEpoch nonce
    deadline signature
  pure ({ s with
    identities := Function.update s.identities identityId { identity with pendingOwner := newOwner } },
    [.ownerRotationProposed identityId identity.owner newOwner identity.ownerEpoch])

def confirmOwnerRotation (s : State A B) (b : Block A B) (identityId : B) (newOwner : A)
    (ownerEpoch nonce deadline : ℕ) (signature : Bytes) :
    Except (Error A B) (State A B × List (Event A B)) := do
  let identity ← requireIdentity s identityId
  revertIf (identity.pendingOwner = 0) (.noPendingRotation identityId)
  revertIf (identity.pendingOwner ≠ newOwner) (.pendingOwnerMismatch identity.pendingOwner newOwner)
  let structHash := evm.keccak256 (.encode [.bytes32 (CONFIRM_OWNER_ROTATION_TYPEHASH evm),
    .bytes32 identityId, .address newOwner, .uint ownerEpoch, .uint nonce, .uint deadline])
  let identity ← consumeOwnerCommand evm this b identity identity.pendingOwner structHash ownerEpoch
    nonce deadline signature
  let newOwnerEpoch ← checkedAdd 64 .panic identity.ownerEpoch 1
  pure ({ s with
    identities := Function.update s.identities identityId
      { identity with owner := newOwner, pendingOwner := 0, ownerEpoch := newOwnerEpoch } },
    [.ownerRotated identityId identity.owner newOwner newOwnerEpoch])

def call (s : State A B) (b : Block A B) (sender : A) :
    Call A B → Except (Error A B) (State A B × List (Event A B))
  | .createIdentity identityType => createIdentity evm this s b sender identityType
  | .createTrack identityId financialProfileId denominationCommitment ownerEpoch nonce deadline
      signature =>
    createTrack evm this s b identityId financialProfileId denominationCommitment ownerEpoch nonce
      deadline signature
  | .proposeOwnerRotation identityId newOwner ownerEpoch nonce deadline signature =>
    proposeOwnerRotation evm this s b identityId newOwner ownerEpoch nonce deadline signature
  | .confirmOwnerRotation identityId newOwner ownerEpoch nonce deadline signature =>
    confirmOwnerRotation evm this s b identityId newOwner ownerEpoch nonce deadline signature

end Functions

section Specifications

variable {evm : Evm A B} {this : A} {s s' : State A B} {b : Block A B}

theorem consumeOwnerCommand_ok {identity identity' : Identity A} {signer : A} {structHash : B}
    {ownerEpoch nonce deadline : ℕ} {signature : Bytes}
    (h : consumeOwnerCommand evm this b identity signer structHash ownerEpoch nonce deadline
      signature = .ok identity') :
    b.timestamp ≤ deadline ∧
    ownerEpoch = identity.ownerEpoch ∧
    nonce = identity.nonce ∧
    b.isValidSignatureNow signer (hashTypedDataV4 evm this structHash) signature = true ∧
    identity' = { identity with nonce := identity.nonce + 1 } := by
  simp only [consumeOwnerCommand, bind_ok, revertIf_ok, checkedAdd_ok, pure_ok] at h
  obtain ⟨-, hlive, -, hepoch, -, hnonce, -, hsigned, next, ⟨-, rfl⟩, rfl⟩ := h
  exact ⟨Nat.le_of_not_lt hlive, not_not.1 hepoch, not_not.1 hnonce, by simpa using hsigned, rfl⟩

theorem createIdentity_ok [DecidableEq B] [Zero A] {sender : A} {identityType : IdentityType}
    {logs : List (Event A B)}
    (h : createIdentity evm this s b sender identityType = .ok (s', logs)) :
    s' = { s with
      identityCounter := s.identityCounter + 1
      identities := Function.update s.identities (evm.keccak256 (.encodePacked [.uint evm.chainid,
          .address this, .address sender, .uint s.identityCounter]))
        { owner := sender, pendingOwner := 0, createdAt := b.timestamp64, ownerEpoch := 0,
          nonce := 0, identityType, exists_ := true } } := by
  simp only [createIdentity, bind_ok, checkedAdd_ok, pure_ok, Prod.mk.injEq] at h
  obtain ⟨counter, ⟨-, rfl⟩, rfl, -⟩ := h
  rfl

variable [DecidableEq A] [DecidableEq B] [Zero A] {logs : List (Event A B)}

omit [DecidableEq A] [Zero A] in
theorem createTrack_ok {identityId financialProfileId denominationCommitment : B}
    {ownerEpoch nonce deadline : ℕ} {signature : Bytes}
    (h : createTrack evm this s b identityId financialProfileId denominationCommitment ownerEpoch
      nonce deadline signature = .ok (s', logs)) :
    let identity := s.identities identityId
    s'.identities = Function.update s.identities identityId
      { identity with nonce := identity.nonce + 1 } := by
  simp only [createTrack, requireIdentity, bind_ok, revertIf_ok, checkedAdd_ok, pure_ok,
    Prod.mk.injEq] at h
  obtain ⟨_, ⟨-, hexists, rfl⟩, identity', hconsumed, counter, ⟨-, rfl⟩, rfl, -⟩ := h
  obtain ⟨-, -, -, -, rfl⟩ := consumeOwnerCommand_ok hconsumed
  rfl

/-- A proposal carries the owner's signature. -/
theorem proposeOwnerRotation_ok {identityId : B} {newOwner : A} {ownerEpoch nonce deadline : ℕ}
    {signature : Bytes} (h : proposeOwnerRotation evm this s b identityId newOwner ownerEpoch nonce
      deadline signature = .ok (s', logs)) :
    let identity := s.identities identityId
    newOwner ≠ 0 ∧ newOwner ≠ identity.owner ∧
    b.isValidSignatureNow identity.owner (hashTypedDataV4 evm this (evm.keccak256 (.encode [
      .bytes32 (PROPOSE_OWNER_ROTATION_TYPEHASH evm), .bytes32 identityId, .address newOwner,
      .uint ownerEpoch, .uint nonce, .uint deadline]))) signature = true ∧
    s'.identities = Function.update s.identities identityId
      { identity with nonce := identity.nonce + 1, pendingOwner := newOwner } := by
  simp only [proposeOwnerRotation, requireIdentity, bind_ok, revertIf_ok, pure_ok,
    Prod.mk.injEq] at h
  obtain ⟨-, hzero, _, ⟨-, -, rfl⟩, -, hsame, identity', hconsumed, rfl, -⟩ := h
  obtain ⟨-, -, -, hsigned, rfl⟩ := consumeOwnerCommand_ok hconsumed
  exact ⟨hzero, hsame, hsigned, rfl⟩

/-- A confirmation carries the signature of the proposed owner. -/
theorem confirmOwnerRotation_ok {identityId : B} {newOwner : A} {ownerEpoch nonce deadline : ℕ}
    {signature : Bytes} (h : confirmOwnerRotation evm this s b identityId newOwner ownerEpoch nonce
      deadline signature = .ok (s', logs)) :
    let identity := s.identities identityId
    identity.exists_ = true ∧ identity.pendingOwner ≠ 0 ∧ identity.pendingOwner = newOwner ∧
    b.isValidSignatureNow newOwner (hashTypedDataV4 evm this (evm.keccak256 (.encode [
      .bytes32 (CONFIRM_OWNER_ROTATION_TYPEHASH evm), .bytes32 identityId, .address newOwner,
      .uint ownerEpoch, .uint nonce, .uint deadline]))) signature = true ∧
    s'.identities = Function.update s.identities identityId
      { identity with
        nonce := identity.nonce + 1, owner := newOwner, pendingOwner := 0,
        ownerEpoch := identity.ownerEpoch + 1 } := by
  simp only [confirmOwnerRotation, requireIdentity, bind_ok, revertIf_ok, checkedAdd_ok, pure_ok,
    Prod.mk.injEq] at h
  obtain ⟨_, ⟨-, hexists, rfl⟩, -, hzero, -, hpending, identity', hconsumed, epoch, ⟨-, rfl⟩, rfl, -⟩ :=
    h
  obtain ⟨-, -, -, hsigned, rfl⟩ := consumeOwnerCommand_ok hconsumed
  obtain rfl : (s.identities identityId).pendingOwner = newOwner := not_not.1 hpending
  exact ⟨by simpa using hexists, hzero, rfl, hsigned, rfl⟩

end Specifications

end Linvesther.IdentityRegistry
