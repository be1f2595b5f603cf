import Linvesther.Contracts.IdentityRegistry

/-! `AccountRegistry.sol`: account bindings and membership epochs, authorised by the current owner
of the identity behind the track. -/

namespace Linvesther.AccountRegistry

open Transaction

variable {A B : Type}

inductive AccountState where
  | pendingBaseline | active | removed
deriving DecidableEq

inductive Environment where
  | production | test
deriving DecidableEq

/-- The `uint8` an enum is encoded as. -/
def Environment.toUint8 : Environment → ℕ
  | .production => 0
  | .test => 1

theorem Environment.toUint8_injective : Function.Injective Environment.toUint8 := by
  intro e e' h
  cases e <;> cases e' <;> first | rfl | cases h

structure AccountBinding (B : Type) where
  trackId : B
  venueId : B
  authenticatedIdCommitment : B
  environment : Environment
  registeredAt : ℕ
  eligibleFrom : ℕ
  removedAt : ℕ
  bindingEpoch : ℕ
  state : AccountState
  exists_ : Bool
deriving DecidableEq

structure MembershipEpoch (B : Type) where
  accountIds : List B
  accountSetRoot : B
  previousRoot : B
  effectiveFrom : ℕ
  reasonHash : B
deriving DecidableEq

structure State (B : Type) where
  accounts : Mapping B (AccountBinding B)
  membershipEpochs : Mapping B (List (MembershipEpoch B))
  trackNonce : Mapping B ℕ
  accountCounter : ℕ

inductive Event (B : Type) where
  | accountRegistered (trackId accountId venueId : B) (environment : Environment)
      (registeredAt : ℕ)
  | accountActivated (trackId accountId : B) (eligibleFrom : ℕ) (reasonHash : B)
  | accountRemoved (trackId accountId : B) (removedAt : ℕ) (reasonHash : B)
  | bindingCredentialRotated (accountId : B) (newBindingEpoch : ℕ)
  | membershipChanged (trackId : B) (epochIndex : ℕ) (accountSetRoot previousRoot : B)
      (effectiveFrom : ℕ)
deriving DecidableEq

inductive Error (B : Type) where
  | trackNotFound (trackId : B)
  | accountNotFound (accountId : B)
  | accountNotPendingBaseline (accountId : B) (actual : AccountState)
  | accountAlreadyRemoved (accountId : B)
  | invalidEligibleFrom (registeredAt eligibleFrom : ℕ)
  | invalidSignature
  | commandExpired (deadline blockTimestamp : ℕ)
  | ownerEpochMismatch (expected provided : ℕ)
  | nonceMismatch (expected provided : ℕ)
  | panic
deriving DecidableEq

/-- The four entry points that change the registry. -/
inductive EntryPoint where
  | registerAccount | activateAccount | removeAccount | rotateBindingCredential
deriving DecidableEq

inductive Call (B : Type) where
  | registerAccount (trackId venueId authenticatedIdCommitment : B) (environment : Environment)
      (ownerEpoch nonce deadline : ℕ) (signature : Bytes)
  | activateAccount (accountId : B) (eligibleFrom : ℕ) (reasonHash : B)
      (ownerEpoch nonce deadline : ℕ) (signature : Bytes)
  | removeAccount (accountId reasonHash : B) (ownerEpoch nonce deadline : ℕ) (signature : Bytes)
  | rotateBindingCredential (accountId newAuthenticatedIdCommitment : B)
      (ownerEpoch nonce deadline : ℕ) (signature : Bytes)

def Call.entryPoint : Call B → EntryPoint
  | .registerAccount .. => .registerAccount
  | .activateAccount .. => .activateAccount
  | .removeAccount .. => .removeAccount
  | .rotateBindingCredential .. => .rotateBindingCredential

def Call.signature : Call B → Bytes
  | .registerAccount _ _ _ _ _ _ _ signature => signature
  | .activateAccount _ _ _ _ _ _ signature => signature
  | .removeAccount _ _ _ _ _ signature => signature
  | .rotateBindingCredential _ _ _ _ _ signature => signature

def noAccount [Zero B] : AccountBinding B :=
  { trackId := 0, venueId := 0, authenticatedIdCommitment := 0, environment := .production,
    registeredAt := 0, eligibleFrom := 0, removedAt := 0, bindingEpoch := 0,
    state := .pendingBaseline, exists_ := false }

def State.init [Zero B] : State B :=
  { accounts := fun _ => noAccount, membershipEpochs := fun _ => [], trackNonce := fun _ => 0,
    accountCounter := 0 }

def REGISTER_ACCOUNT_TYPEHASH (evm : Evm A B) : B := evm.keccak256 (.text
  "RegisterAccount(bytes32 trackId,bytes32 venueId,bytes32 authenticatedIdCommitment,uint8 environment,uint64 ownerEpoch,uint64 nonce,uint256 deadline)")

def ACTIVATE_ACCOUNT_TYPEHASH (evm : Evm A B) : B := evm.keccak256 (.text
  "ActivateAccount(bytes32 accountId,uint64 eligibleFrom,bytes32 reasonHash,uint64 ownerEpoch,uint64 nonce,uint256 deadline)")

def REMOVE_ACCOUNT_TYPEHASH (evm : Evm A B) : B := evm.keccak256 (.text
  "RemoveAccount(bytes32 accountId,bytes32 reasonHash,uint64 ownerEpoch,uint64 nonce,uint256 deadline)")

def ROTATE_BINDING_CREDENTIAL_TYPEHASH (evm : Evm A B) : B := evm.keccak256 (.text
  "RotateBindingCredential(bytes32 accountId,uint64 ownerEpoch,uint64 nonce,uint256 deadline)")

def hashTypedDataV4 (evm : Evm A B) (this : A) (structHash : B) : B :=
  evm.hashTypedDataV4 "LinvestherZK-AccountRegistry" "1" this structHash

section StructHashes

variable (evm : Evm A B)

def registerAccountStructHash (trackId venueId authenticatedIdCommitment : B)
    (environment : Environment) (ownerEpoch nonce deadline : ℕ) : B :=
  evm.keccak256 (.encode [.bytes32 (REGISTER_ACCOUNT_TYPEHASH evm), .bytes32 trackId,
    .bytes32 venueId, .bytes32 authenticatedIdCommitment, .uint environment.toUint8,
    .uint ownerEpoch, .uint nonce, .uint deadline])

def activateAccountStructHash (accountId : B) (eligibleFrom : ℕ) (reasonHash : B)
    (ownerEpoch nonce deadline : ℕ) : B :=
  evm.keccak256 (.encode [.bytes32 (ACTIVATE_ACCOUNT_TYPEHASH evm), .bytes32 accountId,
    .uint eligibleFrom, .bytes32 reasonHash, .uint ownerEpoch, .uint nonce, .uint deadline])

def removeAccountStructHash (accountId reasonHash : B) (ownerEpoch nonce deadline : ℕ) : B :=
  evm.keccak256 (.encode [.bytes32 (REMOVE_ACCOUNT_TYPEHASH evm), .bytes32 accountId,
    .bytes32 reasonHash, .uint ownerEpoch, .uint nonce, .uint deadline])

-- The new commitment is not among the hashed arguments.
def rotateBindingCredentialStructHash (accountId : B) (ownerEpoch nonce deadline : ℕ) : B :=
  evm.keccak256 (.encode [.bytes32 (ROTATE_BINDING_CREDENTIAL_TYPEHASH evm), .bytes32 accountId,
    .uint ownerEpoch, .uint nonce, .uint deadline])

end StructHashes

section Functions

variable [DecidableEq B] [Zero B] (evm : Evm A B) (this : A)
  (identityRegistry : IdentityRegistry.State A B)

def requireTrackOwner (trackId : B) : Except (Error B) A := do
  let track := identityRegistry.tracks trackId
  revertIf (track.exists_ = false) (.trackNotFound trackId)
  pure (identityRegistry.identities track.identityId).owner

def requireTrackOwnerEpoch (trackId : B) : ℕ :=
  (identityRegistry.identities (identityRegistry.tracks trackId).identityId).ownerEpoch

def requireAccount (s : State B) (accountId : B) : Except (Error B) (AccountBinding B) := do
  revertIf ((s.accounts accountId).exists_ = false) (.accountNotFound accountId)
  pure (s.accounts accountId)

def consumeCommand (s : State B) (b : Block A B) (trackId : B) (signer : A) (structHash : B)
    (ownerEpoch nonce deadline : ℕ) (signature : Bytes) : Except (Error B) (State B) := do
  revertIf (b.timestamp > deadline) (.commandExpired deadline b.timestamp)
  let currentOwnerEpoch := requireTrackOwnerEpoch identityRegistry trackId
  revertIf (ownerEpoch ≠ currentOwnerEpoch) (.ownerEpochMismatch currentOwnerEpoch ownerEpoch)
  let currentNonce := s.trackNonce trackId
  revertIf (nonce ≠ currentNonce) (.nonceMismatch currentNonce nonce)
  revertIf (b.isValidSignatureNow signer (hashTypedDataV4 evm this structHash) signature = false)
    .invalidSignature
  let nextNonce ← checkedAdd 64 .panic currentNonce 1
  pure { s with trackNonce := Function.update s.trackNonce trackId nextNonce }

def currentMembers (s : State B) (trackId : B) : List B :=
  match (s.membershipEpochs trackId).getLast? with
  | none => []
  | some epoch => epoch.accountIds

/-- Appends an epoch and returns the event that announces it. -/
def openMembershipEpoch (s : State B) (b : Block A B) (trackId : B) (newAccountIds : List B)
    (reasonHash : B) : State B × Event B :=
  let epochs := s.membershipEpochs trackId
  let previousRoot := match epochs.getLast? with
    | none => 0
    | some epoch => epoch.accountSetRoot
  let root := evm.keccak256 (.encodeArray newAccountIds)
  let epoch : MembershipEpoch B :=
    { accountIds := newAccountIds, accountSetRoot := root, previousRoot,
      effectiveFrom := b.timestamp64, reasonHash }
  ({ s with membershipEpochs := Function.update s.membershipEpochs trackId (epochs ++ [epoch]) },
    .membershipChanged trackId (epochs.length % 2 ^ 64) root previousRoot b.timestamp64)

def registerAccount (s : State B) (b : Block A B) (trackId venueId authenticatedIdCommitment : B)
    (environment : Environment) (ownerEpoch nonce deadline : ℕ) (signature : Bytes) :
    Except (Error B) (State B × List (Event B)) := do
  let owner ← requireTrackOwner identityRegistry trackId
  let structHash := registerAccountStructHash evm trackId venueId authenticatedIdCommitment
    environment ownerEpoch nonce deadline
  let s ← consumeCommand evm this identityRegistry s b trackId owner structHash ownerEpoch nonce
    deadline signature
  let accountCounter ← checkedAdd 256 .panic s.accountCounter 1
  let accountId := evm.keccak256
    (.encodePacked [.uint evm.chainid, .address this, .bytes32 trackId, .uint s.accountCounter])
  pure ({ s with
    accountCounter
    accounts := Function.update s.accounts accountId
      { trackId, venueId, authenticatedIdCommitment, environment, registeredAt := b.timestamp64,
        eligibleFrom := 0, removedAt := 0, bindingEpoch := 0, state := .pendingBaseline,
        exists_ := true } },
    [.accountRegistered trackId accountId venueId environment b.timestamp64])

def activateAccount (s : State B) (b : Block A B) (accountId : B) (eligibleFrom : ℕ)
    (reasonHash : B) (ownerEpoch nonce deadline : ℕ) (signature : Bytes) :
    Except (Error B) (State B × List (Event B)) := do
  let account ← requireAccount s accountId
  revertIf (account.state ≠ .pendingBaseline) (.accountNotPendingBaseline accountId account.state)
  revertIf (eligibleFrom < account.registeredAt)
    (.invalidEligibleFrom account.registeredAt eligibleFrom)
  let owner ← requireTrackOwner identityRegistry account.trackId
  let structHash := activateAccountStructHash evm accountId eligibleFrom reasonHash ownerEpoch nonce
    deadline
  let s ← consumeCommand evm this identityRegistry s b account.trackId owner structHash ownerEpoch
    nonce deadline signature
  let s := { s with
    accounts := Function.update s.accounts accountId { account with state := .active, eligibleFrom } }
  let nextMembers := currentMembers s account.trackId ++ [accountId]
  let (s, changed) := openMembershipEpoch evm s b account.trackId nextMembers reasonHash
  pure (s, [.accountActivated account.trackId accountId eligibleFrom reasonHash, changed])

/-- The loop of `removeAccount` writes every other member into an array one shorter than the
current one: it panics on an empty array, and past the end when nothing was left out. -/
def membersWithout (members : List B) (accountId : B) : Except (Error B) (List B) := do
  let kept := members.filter (· ≠ accountId)
  revertIf (members = []) .panic
  revertIf (kept.length > members.length - 1) .panic
  -- Slots the loop never writes stay zero.
  pure (kept ++ List.replicate (members.length - 1 - kept.length) 0)

def removeAccount (s : State B) (b : Block A B) (accountId reasonHash : B)
    (ownerEpoch nonce deadline : ℕ) (signature : Bytes) :
    Except (Error B) (State B × List (Event B)) := do
  let account ← requireAccount s accountId
  revertIf (account.state = .removed) (.accountAlreadyRemoved accountId)
  let owner ← requireTrackOwner identityRegistry account.trackId
  let structHash := removeAccountStructHash evm accountId reasonHash ownerEpoch nonce deadline
  let s ← consumeCommand evm this identityRegistry s b account.trackId owner structHash ownerEpoch
    nonce deadline signature
  let s := { s with
    accounts := Function.update s.accounts accountId
      { account with state := .removed, removedAt := b.timestamp64 } }
  let removed := Event.accountRemoved account.trackId accountId b.timestamp64 reasonHash
  if account.state = .active then
    let nextMembers ← membersWithout (currentMembers s account.trackId) accountId
    let (s, changed) := openMembershipEpoch evm s b account.trackId nextMembers reasonHash
    pure (s, [removed, changed])
  else
    pure (s, [removed])

def rotateBindingCredential (s : State B) (b : Block A B)
    (accountId newAuthenticatedIdCommitment : B) (ownerEpoch nonce deadline : ℕ)
    (signature : Bytes) : Except (Error B) (State B × List (Event B)) := do
  let account ← requireAccount s accountId
  revertIf (account.state = .removed) (.accountAlreadyRemoved accountId)
  let owner ← requireTrackOwner identityRegistry account.trackId
  let structHash := rotateBindingCredentialStructHash evm accountId ownerEpoch nonce deadline
  let s ← consumeCommand evm this identityRegistry s b account.trackId owner structHash ownerEpoch
    nonce deadline signature
  let bindingEpoch ← checkedAdd 64 .panic account.bindingEpoch 1
  pure ({ s with
    accounts := Function.update s.accounts accountId
      { account with authenticatedIdCommitment := newAuthenticatedIdCommitment, bindingEpoch } },
    [.bindingCredentialRotated accountId bindingEpoch])

def call (s : State B) (b : Block A B) : Call B → Except (Error B) (State B × List (Event B))
  | .registerAccount trackId venueId authenticatedIdCommitment environment ownerEpoch nonce deadline
      signature =>
    registerAccount evm this identityRegistry s b trackId venueId authenticatedIdCommitment
      environment ownerEpoch nonce deadline signature
  | .activateAccount accountId eligibleFrom reasonHash ownerEpoch nonce deadline signature =>
    activateAccount evm this identityRegistry s b accountId eligibleFrom reasonHash ownerEpoch nonce
      deadline signature
  | .removeAccount accountId reasonHash ownerEpoch nonce deadline signature =>
    removeAccount evm this identityRegistry s b accountId reasonHash ownerEpoch nonce deadline
      signature
  | .rotateBindingCredential accountId newAuthenticatedIdCommitment ownerEpoch nonce deadline
      signature =>
    rotateBindingCredential evm this identityRegistry s b accountId newAuthenticatedIdCommitment
      ownerEpoch nonce deadline signature

end Functions

section Specifications

variable [DecidableEq B] {evm : Evm A B} {this : A}
  {identityRegistry : IdentityRegistry.State A B} {s s' : State B} {b : Block A B}

theorem consumeCommand_ok {trackId : B} {signer : A} {structHash : B}
    {ownerEpoch nonce deadline : ℕ} {signature : Bytes}
    (h : consumeCommand evm this identityRegistry s b trackId signer structHash ownerEpoch nonce
      deadline signature = .ok s') :
    b.timestamp ≤ deadline ∧
    ownerEpoch = requireTrackOwnerEpoch identityRegistry trackId ∧
    nonce = s.trackNonce trackId ∧
    b.isValidSignatureNow signer (hashTypedDataV4 evm this structHash) signature = true ∧
    s' = { s with trackNonce := Function.update s.trackNonce trackId (s.trackNonce trackId + 1) } := by
  simp only [consumeCommand, bind_ok, revertIf_ok, checkedAdd_ok, pure_ok] at h
  obtain ⟨-, hlive, -, hepoch, -, hnonce, -, hsigned, next, ⟨-, rfl⟩, rfl⟩ := h
  exact ⟨Nat.le_of_not_lt hlive, not_not.1 hepoch, not_not.1 hnonce, by simpa using hsigned, rfl⟩

theorem rotateBindingCredential_ok {accountId newAuthenticatedIdCommitment : B}
    {ownerEpoch nonce deadline : ℕ} {signature : Bytes} {logs : List (Event B)}
    (h : rotateBindingCredential evm this identityRegistry s b accountId
      newAuthenticatedIdCommitment ownerEpoch nonce deadline signature = .ok (s', logs)) :
    let account := s.accounts accountId
    account.exists_ = true ∧ account.state ≠ .removed ∧
    s' = { s with
      trackNonce := Function.update s.trackNonce account.trackId (s.trackNonce account.trackId + 1)
      accounts := Function.update s.accounts accountId
        { account with
          authenticatedIdCommitment := newAuthenticatedIdCommitment
          bindingEpoch := account.bindingEpoch + 1 } } := by
  simp only [rotateBindingCredential, requireAccount, bind_ok, revertIf_ok, checkedAdd_ok, pure_ok,
    Prod.mk.injEq] at h
  obtain ⟨account, ⟨-, hexists, rfl⟩, -, hstate, owner, -, s₁, hconsumed, epoch, ⟨-, rfl⟩, rfl, -⟩ := h
  obtain ⟨-, -, -, -, rfl⟩ := consumeCommand_ok hconsumed
  exact ⟨by simpa using hexists, hstate, rfl⟩

theorem registerAccount_ok {trackId venueId authenticatedIdCommitment : B}
    {environment : Environment} {ownerEpoch nonce deadline : ℕ} {signature : Bytes}
    {logs : List (Event B)}
    (h : registerAccount evm this identityRegistry s b trackId venueId authenticatedIdCommitment
      environment ownerEpoch nonce deadline signature = .ok (s', logs)) :
    let accountId := evm.keccak256 (.encodePacked [.uint evm.chainid, .address this,
      .bytes32 trackId, .uint s.accountCounter])
    s'.membershipEpochs = s.membershipEpochs ∧
    s'.accounts = Function.update s.accounts accountId
      { trackId, venueId, authenticatedIdCommitment, environment, registeredAt := b.timestamp64,
        eligibleFrom := 0, removedAt := 0, bindingEpoch := 0, state := .pendingBaseline,
        exists_ := true } := by
  simp only [registerAccount, bind_ok, checkedAdd_ok, pure_ok, Prod.mk.injEq] at h
  obtain ⟨owner, -, s₁, hconsumed, counter, ⟨-, rfl⟩, rfl, -⟩ := h
  obtain ⟨-, -, -, -, rfl⟩ := consumeCommand_ok hconsumed
  exact ⟨rfl, rfl⟩

/-- The epoch that a change of the members opens. -/
def nextEpoch [Zero B] (evm : Evm A B) (s : State B) (b : Block A B) (trackId : B)
    (newAccountIds : List B) (reasonHash : B) : MembershipEpoch B where
  accountIds := newAccountIds
  accountSetRoot := evm.keccak256 (.encodeArray newAccountIds)
  previousRoot := match (s.membershipEpochs trackId).getLast? with
    | none => 0
    | some epoch => epoch.accountSetRoot
  effectiveFrom := b.timestamp64
  reasonHash

theorem activateAccount_ok [Zero B] {accountId : B} {eligibleFrom : ℕ} {reasonHash : B}
    {ownerEpoch nonce deadline : ℕ} {signature : Bytes} {logs : List (Event B)}
    (h : activateAccount evm this identityRegistry s b accountId eligibleFrom reasonHash ownerEpoch
      nonce deadline signature = .ok (s', logs)) :
    let account := s.accounts accountId
    account.exists_ = true ∧ account.state = .pendingBaseline ∧
    s'.accounts = Function.update s.accounts accountId
      { account with state := .active, eligibleFrom } ∧
    s'.membershipEpochs = Function.update s.membershipEpochs account.trackId
      (s.membershipEpochs account.trackId ++ [nextEpoch evm s b account.trackId
        (currentMembers s account.trackId ++ [accountId]) reasonHash]) := by
  simp only [activateAccount, requireAccount, bind_ok, revertIf_ok, pure_ok, Prod.mk.injEq] at h
  obtain ⟨_, ⟨-, hexists, rfl⟩, -, hstate, -, -, owner, -, s₁, hconsumed, rfl, -⟩ := h
  obtain ⟨-, -, -, -, rfl⟩ := consumeCommand_ok hconsumed
  exact ⟨by simpa using hexists, not_not.1 hstate, rfl, rfl⟩

/-- The removal of an active account opens an epoch, that of a pending one does not. -/
theorem removeAccount_ok [Zero B] {accountId reasonHash : B} {ownerEpoch nonce deadline : ℕ}
    {signature : Bytes} {logs : List (Event B)}
    (h : removeAccount evm this identityRegistry s b accountId reasonHash ownerEpoch nonce deadline
      signature = .ok (s', logs)) :
    let account := s.accounts accountId
    account.exists_ = true ∧
    s'.accounts = Function.update s.accounts accountId
      { account with state := .removed, removedAt := b.timestamp64 } ∧
    ((account.state = .active ∧ ∃ members,
        membersWithout (currentMembers s account.trackId) accountId = .ok members ∧
        s'.membershipEpochs = Function.update s.membershipEpochs account.trackId
          (s.membershipEpochs account.trackId ++
            [nextEpoch evm s b account.trackId members reasonHash])) ∨
      account.state ≠ .active ∧ s'.membershipEpochs = s.membershipEpochs) := by
  simp only [removeAccount, requireAccount, bind_ok, revertIf_ok, pure_ok] at h
  obtain ⟨_, ⟨-, hexists, rfl⟩, -, -, owner, -, s₁, hconsumed, h⟩ := h
  obtain ⟨-, -, -, -, rfl⟩ := consumeCommand_ok hconsumed
  refine ⟨by simpa using hexists, ?_⟩
  split_ifs at h with hactive
  · simp only [bind_ok, pure_ok, Prod.mk.injEq] at h
    obtain ⟨members, hmembers, rfl, -⟩ := h
    exact ⟨rfl, .inl ⟨hactive, members, hmembers, rfl⟩⟩
  · simp only [pure_ok, Prod.mk.injEq] at h
    obtain ⟨rfl, -⟩ := h
    exact ⟨rfl, .inr ⟨hactive, rfl⟩⟩

/-- A command the owner signed is consumed, whatever else the relayer passes along. -/
theorem consumeCommand_accepts {trackId : B} {signer : A} {structHash : B}
    {ownerEpoch nonce deadline : ℕ} {signature : Bytes} (hlive : b.timestamp ≤ deadline)
    (hepoch : ownerEpoch = requireTrackOwnerEpoch identityRegistry trackId)
    (hnonce : nonce = s.trackNonce trackId) (hlast : nonce + 1 < 2 ^ 64)
    (hsigned : b.isValidSignatureNow signer (hashTypedDataV4 evm this structHash) signature = true) :
    consumeCommand evm this identityRegistry s b trackId signer structHash ownerEpoch nonce deadline
      signature = .ok { s with trackNonce := Function.update s.trackNonce trackId (nonce + 1) } := by
  simp [consumeCommand, revertIf, checkedAdd_of_lt hlast, bind, Except.bind, pure, Except.pure,
    hsigned, Nat.not_lt.2 hlive, ← hepoch, ← hnonce]

theorem registerAccount_accepts {trackId venueId authenticatedIdCommitment : B}
    {environment : Environment} {ownerEpoch nonce deadline : ℕ} {signature : Bytes}
    (htrack : (identityRegistry.tracks trackId).exists_ = true) (hlive : b.timestamp ≤ deadline)
    (hepoch : ownerEpoch = requireTrackOwnerEpoch identityRegistry trackId)
    (hnonce : nonce = s.trackNonce trackId) (hlast : nonce + 1 < 2 ^ 64)
    (hcounter : s.accountCounter + 1 < 2 ^ 256)
    (hsigned : b.isValidSignatureNow
      (identityRegistry.identities (identityRegistry.tracks trackId).identityId).owner
      (hashTypedDataV4 evm this (registerAccountStructHash evm trackId venueId
        authenticatedIdCommitment environment ownerEpoch nonce deadline)) signature = true) :
    ∃ s' logs, registerAccount evm this identityRegistry s b trackId venueId
        authenticatedIdCommitment environment ownerEpoch nonce deadline signature = .ok (s', logs) ∧
      s' = { s with
        accountCounter := s.accountCounter + 1
        trackNonce := Function.update s.trackNonce trackId (nonce + 1)
        accounts := Function.update s.accounts (evm.keccak256 (.encodePacked [.uint evm.chainid,
            .address this, .bytes32 trackId, .uint s.accountCounter]))
          { trackId, venueId, authenticatedIdCommitment, environment,
            registeredAt := b.timestamp64, eligibleFrom := 0, removedAt := 0, bindingEpoch := 0,
            state := .pendingBaseline, exists_ := true } } := by
  simp [registerAccount, requireTrackOwner, htrack, revertIf, bind, Except.bind, pure, Except.pure,
    consumeCommand_accepts hlive hepoch hnonce hlast hsigned,
    checkedAdd_of_lt hcounter]

/-- The commitment plays no part in what is checked. -/
theorem rotateBindingCredential_accepts {accountId : B} {ownerEpoch nonce deadline : ℕ}
    {signature : Bytes} (hexists : (s.accounts accountId).exists_ = true)
    (hstate : (s.accounts accountId).state ≠ .removed)
    (htrack : (identityRegistry.tracks (s.accounts accountId).trackId).exists_ = true)
    (hlive : b.timestamp ≤ deadline)
    (hepoch : ownerEpoch = requireTrackOwnerEpoch identityRegistry (s.accounts accountId).trackId)
    (hnonce : nonce = s.trackNonce (s.accounts accountId).trackId) (hlast : nonce + 1 < 2 ^ 64)
    (hbinding : (s.accounts accountId).bindingEpoch + 1 < 2 ^ 64)
    (hsigned : b.isValidSignatureNow (identityRegistry.identities
        (identityRegistry.tracks (s.accounts accountId).trackId).identityId).owner
      (hashTypedDataV4 evm this (rotateBindingCredentialStructHash evm accountId ownerEpoch nonce
        deadline)) signature = true) (newAuthenticatedIdCommitment : B) :
    ∃ s' logs, rotateBindingCredential evm this identityRegistry s b accountId
      newAuthenticatedIdCommitment ownerEpoch nonce deadline signature = .ok (s', logs) := by
  simp [rotateBindingCredential, requireAccount, requireTrackOwner, hexists, hstate, htrack,
    revertIf, bind, Except.bind, pure, Except.pure,
    consumeCommand_accepts hlive hepoch hnonce hlast hsigned,
    checkedAdd_of_lt hbinding]

end Specifications

end Linvesther.AccountRegistry
