import Linvesther.Contracts.Evm

/-! `PolicyRegistry.sol`: policy versions under a two-of-three approval, with a timelock for new
versions and none for invalidations. -/

namespace Linvesther.PolicyRegistry

open Transaction

variable {A B : Type}

inductive ActionKind where
  | scheduleVersion | invalidateVersion
deriving DecidableEq

inductive VersionStatus where
  | scheduled | invalidated
deriving DecidableEq

structure GovernanceAction (A B : Type) where
  kind : ActionKind
  policyKind : B
  policyHash : B
  dataHash : B
  exposureStart : ℕ
  exposureEnd : ℕ
  proposedAt : ℕ
  proposer : A
  approvalCount : ℕ
  executed : Bool
  exists_ : Bool
deriving DecidableEq

structure PolicyVersion (A B : Type) where
  policyKind : B
  policyHash : B
  metadataHash : B
  proposer : A
  publishedAt : ℕ
  effectiveFrom : ℕ
  status : VersionStatus
  invalidationReasonHash : B
  invalidatedAt : ℕ
  exposureStart : ℕ
  exposureEnd : ℕ
  exists_ : Bool
deriving DecidableEq

def TIMELOCK_DELAY : ℕ := 72 * 60 * 60
def REQUIRED_APPROVALS : ℕ := 2

structure State (A B : Type) where
  governors : List A
  isGovernor : Mapping A Bool
  actions : Mapping B (GovernanceAction A B)
  hasApproved : Mapping B (Mapping A Bool)
  actionCounter : ℕ
  versions : Mapping B (Mapping B (PolicyVersion A B))
  versionHistory : Mapping B (List B)

inductive Event (A B : Type) where
  | versionProposed (actionId policyKind policyHash : B) (proposer : A)
  | actionApproved (actionId : B) (approver : A) (approvalCount : ℕ)
  | policyPublished (policyKind policyHash metadataHash : B) (publishedAt effectiveFrom : ℕ)
  | invalidationProposed (actionId policyKind policyHash : B) (proposer : A)
  | policyInvalidated (policyKind policyHash reasonHash : B)
      (exposureStart exposureEnd invalidatedAt : ℕ)
deriving DecidableEq

inductive Error (A B : Type) where
  | zeroAddress
  | duplicateGovernor (governor : A)
  | notGovernor (caller : A)
  | actionNotFound (actionId : B)
  | actionAlreadyExecuted (actionId : B)
  | alreadyApproved (actionId : B) (governor : A)
  | wrongActionKind (expected actual : ActionKind)
  | policyVersionAlreadyExists (policyKind policyHash : B)
  | policyVersionNotFound (policyKind policyHash : B)
  | policyVersionAlreadyInvalidated (policyKind policyHash : B)
  | panic
deriving DecidableEq

inductive Call (B : Type) where
  | proposeVersion (policyKind policyHash metadataHash : B)
  | approveVersion (actionId : B)
  | proposeInvalidation (policyKind policyHash reasonHash : B) (exposureStart exposureEnd : ℕ)
  | approveInvalidation (actionId : B)

/-- A transaction of a governor, or of anybody else. -/
structure Tx (A B : Type) where
  timestamp : ℕ
  sender : A
  call : Call B

/-- `uint64(block.timestamp)`. -/
def Tx.timestamp64 (tx : Tx A B) : ℕ := tx.timestamp % 2 ^ 64

def noAction [Zero A] [Zero B] : GovernanceAction A B :=
  { kind := .scheduleVersion, policyKind := 0, policyHash := 0, dataHash := 0, exposureStart := 0,
    exposureEnd := 0, proposedAt := 0, proposer := 0, approvalCount := 0, executed := false,
    exists_ := false }

def noVersion [Zero A] [Zero B] : PolicyVersion A B :=
  { policyKind := 0, policyHash := 0, metadataHash := 0, proposer := 0, publishedAt := 0,
    effectiveFrom := 0, status := .scheduled, invalidationReasonHash := 0, invalidatedAt := 0,
    exposureStart := 0, exposureEnd := 0, exists_ := false }

def State.init [Zero A] [Zero B] : State A B :=
  { governors := [], isGovernor := fun _ => false, actions := fun _ => noAction,
    hasApproved := fun _ _ => false, actionCounter := 0, versions := fun _ _ => noVersion,
    versionHistory := fun _ => [] }

section Functions

variable [DecidableEq A] [DecidableEq B] [Zero A] [Zero B]

/-- One pass of the constructor's loop. -/
def addGovernor (s : State A B) (governor : A) : Except (Error A B) (State A B) := do
  revertIf (governor = 0) .zeroAddress
  revertIf (s.isGovernor governor = true) (.duplicateGovernor governor)
  pure { s with
    isGovernor := Function.update s.isGovernor governor true
    governors := s.governors ++ [governor] }

def constructor_ (governor₁ governor₂ governor₃ : A) : Except (Error A B) (State A B) := do
  let s ← addGovernor .init governor₁
  let s ← addGovernor s governor₂
  addGovernor s governor₃

variable (evm : Evm A B) (this : A)

def onlyGovernor (s : State A B) (sender : A) : Except (Error A B) Unit :=
  revertIf (s.isGovernor sender = false) (.notGovernor sender)

def requirePendingAction (s : State A B) (actionId : B) (expectedKind : ActionKind) :
    Except (Error A B) (GovernanceAction A B) := do
  let action := s.actions actionId
  revertIf (action.exists_ = false) (.actionNotFound actionId)
  revertIf (action.executed = true) (.actionAlreadyExecuted actionId)
  revertIf (action.kind ≠ expectedKind) (.wrongActionKind expectedKind action.kind)
  pure action

/-- Stores an action together with the approval of `sender`. -/
def withApproval (s : State A B) (sender : A) (actionId : B) (action : GovernanceAction A B) :
    State A B :=
  { s with
    actions := Function.update s.actions actionId action
    hasApproved := Function.update s.hasApproved actionId
      (Function.update (s.hasApproved actionId) sender true) }

/-- Records the approval and returns the action with its new count. -/
def approve (s : State A B) (sender : A) (actionId : B) (action : GovernanceAction A B) :
    Except (Error A B) (State A B × GovernanceAction A B) := do
  revertIf (s.hasApproved actionId sender = true) (.alreadyApproved actionId sender)
  let approvalCount ← checkedAdd 8 .panic action.approvalCount 1
  let action := { action with approvalCount }
  pure (withApproval s sender actionId action, action)

def setVersion (s : State A B) (policyKind policyHash : B) (version : PolicyVersion A B) :
    State A B :=
  { s with
    versions := Function.update s.versions policyKind
      (Function.update (s.versions policyKind) policyHash version) }

def setExecuted (s : State A B) (actionId : B) (action : GovernanceAction A B) : State A B :=
  { s with actions := Function.update s.actions actionId { action with executed := true } }

def proposeVersion (s : State A B) (tx : Tx A B) (policyKind policyHash metadataHash : B) :
    Except (Error A B) (State A B × List (Event A B)) := do
  onlyGovernor s tx.sender
  revertIf ((s.versions policyKind policyHash).exists_ = true)
    (.policyVersionAlreadyExists policyKind policyHash)
  let actionCounter ← checkedAdd 256 .panic s.actionCounter 1
  let actionId := evm.keccak256 (.encodePacked [.uint evm.chainid, .address this,
    .bytes32 policyKind, .bytes32 policyHash, .uint s.actionCounter])
  let action : GovernanceAction A B :=
    { kind := .scheduleVersion, policyKind, policyHash, dataHash := metadataHash,
      exposureStart := 0, exposureEnd := 0, proposedAt := tx.timestamp64, proposer := tx.sender,
      approvalCount := 1, executed := false, exists_ := true }
  pure ({ withApproval s tx.sender actionId action with actionCounter },
    [.versionProposed actionId policyKind policyHash tx.sender])

def approveVersion (s : State A B) (tx : Tx A B) (actionId : B) :
    Except (Error A B) (State A B × List (Event A B)) := do
  onlyGovernor s tx.sender
  let action ← requirePendingAction s actionId .scheduleVersion
  let (s, action) ← approve s tx.sender actionId action
  let approved := Event.actionApproved actionId tx.sender action.approvalCount
  if action.approvalCount ≥ REQUIRED_APPROVALS then
    let s := setExecuted s actionId action
    let effectiveFrom ← checkedAdd 64 .panic tx.timestamp64 TIMELOCK_DELAY
    -- Whether the version exists was asked at the proposal only.
    let version : PolicyVersion A B :=
      { policyKind := action.policyKind, policyHash := action.policyHash,
        metadataHash := action.dataHash, proposer := action.proposer,
        publishedAt := action.proposedAt, effectiveFrom, status := .scheduled,
        invalidationReasonHash := 0, invalidatedAt := 0, exposureStart := 0, exposureEnd := 0,
        exists_ := true }
    pure ({ setVersion s action.policyKind action.policyHash version with
      versionHistory := Function.update s.versionHistory action.policyKind
        (s.versionHistory action.policyKind ++ [action.policyHash]) },
      [approved, .policyPublished action.policyKind action.policyHash action.dataHash
        action.proposedAt effectiveFrom])
  else
    pure (s, [approved])

def proposeInvalidation (s : State A B) (tx : Tx A B) (policyKind policyHash reasonHash : B)
    (exposureStart exposureEnd : ℕ) : Except (Error A B) (State A B × List (Event A B)) := do
  onlyGovernor s tx.sender
  let version := s.versions policyKind policyHash
  revertIf (version.exists_ = false) (.policyVersionNotFound policyKind policyHash)
  revertIf (version.status = .invalidated) (.policyVersionAlreadyInvalidated policyKind policyHash)
  let actionCounter ← checkedAdd 256 .panic s.actionCounter 1
  let actionId := evm.keccak256 (.encodePacked [.uint evm.chainid, .address this,
    .text "invalidate", .bytes32 policyKind, .bytes32 policyHash, .uint s.actionCounter])
  let action : GovernanceAction A B :=
    { kind := .invalidateVersion, policyKind, policyHash, dataHash := reasonHash, exposureStart,
      exposureEnd, proposedAt := tx.timestamp64, proposer := tx.sender, approvalCount := 1,
      executed := false, exists_ := true }
  pure ({ withApproval s tx.sender actionId action with actionCounter },
    [.invalidationProposed actionId policyKind policyHash tx.sender])

def approveInvalidation (s : State A B) (tx : Tx A B) (actionId : B) :
    Except (Error A B) (State A B × List (Event A B)) := do
  onlyGovernor s tx.sender
  let action ← requirePendingAction s actionId .invalidateVersion
  let (s, action) ← approve s tx.sender actionId action
  let approved := Event.actionApproved actionId tx.sender action.approvalCount
  if action.approvalCount ≥ REQUIRED_APPROVALS then
    let s := setExecuted s actionId action
    let version := s.versions action.policyKind action.policyHash
    revertIf (version.status = .invalidated)
      (.policyVersionAlreadyInvalidated action.policyKind action.policyHash)
    pure (setVersion s action.policyKind action.policyHash
        { version with
          status := .invalidated, invalidationReasonHash := action.dataHash,
          invalidatedAt := tx.timestamp64, exposureStart := action.exposureStart,
          exposureEnd := action.exposureEnd },
      [approved, .policyInvalidated action.policyKind action.policyHash action.dataHash
        action.exposureStart action.exposureEnd tx.timestamp64])
  else
    pure (s, [approved])

def call (s : State A B) (tx : Tx A B) : Except (Error A B) (State A B × List (Event A B)) :=
  match tx.call with
  | .proposeVersion policyKind policyHash metadataHash =>
    proposeVersion evm this s tx policyKind policyHash metadataHash
  | .approveVersion actionId => approveVersion s tx actionId
  | .proposeInvalidation policyKind policyHash reasonHash exposureStart exposureEnd =>
    proposeInvalidation evm this s tx policyKind policyHash reasonHash exposureStart exposureEnd
  | .approveInvalidation actionId => approveInvalidation s tx actionId

/-- True once the timelock has elapsed, for a version that was never invalidated. -/
def isEffective (s : State A B) (timestamp : ℕ) (policyKind policyHash : B) : Bool :=
  let version := s.versions policyKind policyHash
  if version.exists_ = false ∨ version.status = .invalidated then false
  else timestamp ≥ version.effectiveFrom

end Functions

section Specifications

/-- The id of the `n`-th action, if it proposes a version. -/
def versionActionId (evm : Evm A B) (this : A) (policyKind policyHash : B) (n : ℕ) : B :=
  evm.keccak256 (.encodePacked [.uint evm.chainid, .address this, .bytes32 policyKind,
    .bytes32 policyHash, .uint n])

/-- The id of the `n`-th action, if it proposes an invalidation. -/
def invalidationActionId (evm : Evm A B) (this : A) (policyKind policyHash : B) (n : ℕ) : B :=
  evm.keccak256 (.encodePacked [.uint evm.chainid, .address this, .text "invalidate",
    .bytes32 policyKind, .bytes32 policyHash, .uint n])

variable [DecidableEq A] [DecidableEq B] [Zero A] [Zero B] {evm : Evm A B} {this : A}
  {s s' : State A B} {tx : Tx A B} {logs : List (Event A B)}

omit [DecidableEq B] [Zero B] in
theorem addGovernor_ok {governor : A} (h : addGovernor s governor = .ok s') :
    ∃ governors isGovernor, s' = { s with governors, isGovernor } := by
  simp only [addGovernor, bind_ok, revertIf_ok, pure_ok] at h
  obtain ⟨-, -, -, -, rfl⟩ := h
  exact ⟨_, _, rfl⟩

omit [DecidableEq B] in
/-- The constructor fills in the governors and nothing else. -/
theorem constructor_ok {governor₁ governor₂ governor₃ : A}
    (h : constructor_ governor₁ governor₂ governor₃ = .ok s) :
    ∃ governors isGovernor, s = { (State.init : State A B) with governors, isGovernor } := by
  simp only [constructor_, bind_ok] at h
  obtain ⟨s₁, h₁, s₂, h₂, h₃⟩ := h
  obtain ⟨_, _, rfl⟩ := addGovernor_ok h₁
  obtain ⟨_, _, rfl⟩ := addGovernor_ok h₂
  obtain ⟨governors, isGovernor, rfl⟩ := addGovernor_ok h₃
  exact ⟨governors, isGovernor, rfl⟩

omit [DecidableEq A] [DecidableEq B] [Zero A] [Zero B] in
theorem requirePendingAction_ok {actionId : B} {kind : ActionKind} {action : GovernanceAction A B}
    (h : requirePendingAction s actionId kind = .ok action) :
    action = s.actions actionId ∧ action.exists_ = true ∧ action.executed = false ∧
      action.kind = kind := by
  simp only [requirePendingAction, bind_ok, revertIf_ok, pure_ok] at h
  obtain ⟨-, hexists, -, hpending, -, hkind, rfl⟩ := h
  exact ⟨rfl, by simpa using hexists, by simpa using hpending, not_not.1 hkind⟩

omit [Zero A] [Zero B] in
theorem approve_ok {sender : A} {actionId : B} {action action' : GovernanceAction A B}
    (h : approve s sender actionId action = .ok (s', action')) :
    s.hasApproved actionId sender = false ∧
    action' = { action with approvalCount := action.approvalCount + 1 } ∧
    s' = withApproval s sender actionId action' := by
  simp only [approve, bind_ok, revertIf_ok, checkedAdd_ok, pure_ok, Prod.mk.injEq] at h
  obtain ⟨-, happroved, count, ⟨-, rfl⟩, rfl, rfl⟩ := h
  exact ⟨by simpa using happroved, rfl, rfl⟩

omit [Zero A] [Zero B] in
theorem setExecuted_withApproval (s : State A B) (sender : A) (actionId : B)
    (action action' : GovernanceAction A B) :
    setExecuted (withApproval s sender actionId action) actionId action' =
      withApproval s sender actionId { action' with executed := true } := by
  simp [setExecuted, withApproval]

omit [DecidableEq A] [Zero A] [Zero B] in
theorem setVersion_versions (s : State A B) (k p : B) (v : PolicyVersion A B) (k' p' : B) :
    (setVersion s k p v).versions k' p' = if k' = k ∧ p' = p then v else s.versions k' p' := by
  by_cases hk : k' = k
  · subst hk
    simp [setVersion, Function.update_apply]
  · simp [setVersion, hk]

omit [Zero A] [Zero B] in
theorem proposeVersion_ok {policyKind policyHash metadataHash : B}
    (h : proposeVersion evm this s tx policyKind policyHash metadataHash = .ok (s', logs)) :
    s.isGovernor tx.sender = true ∧ (s.versions policyKind policyHash).exists_ = false ∧
    s' = { withApproval s tx.sender (versionActionId evm this policyKind policyHash s.actionCounter)
      { kind := .scheduleVersion, policyKind, policyHash, dataHash := metadataHash,
        exposureStart := 0, exposureEnd := 0, proposedAt := tx.timestamp64, proposer := tx.sender,
        approvalCount := 1, executed := false, exists_ := true } with
      actionCounter := s.actionCounter + 1 } := by
  simp only [proposeVersion, onlyGovernor, bind_ok, revertIf_ok, checkedAdd_ok, pure_ok,
    Prod.mk.injEq] at h
  obtain ⟨-, hgovernor, -, hnew, counter, ⟨-, rfl⟩, rfl, -⟩ := h
  exact ⟨by simpa using hgovernor, by simpa using hnew, rfl⟩

omit [Zero A] [Zero B] in
theorem proposeInvalidation_ok {policyKind policyHash reasonHash : B}
    {exposureStart exposureEnd : ℕ}
    (h : proposeInvalidation evm this s tx policyKind policyHash reasonHash exposureStart
      exposureEnd = .ok (s', logs)) :
    s.isGovernor tx.sender = true ∧ (s.versions policyKind policyHash).exists_ = true ∧
    (s.versions policyKind policyHash).status ≠ .invalidated ∧
    s' = { withApproval s tx.sender
      (invalidationActionId evm this policyKind policyHash s.actionCounter)
      { kind := .invalidateVersion, policyKind, policyHash, dataHash := reasonHash, exposureStart,
        exposureEnd, proposedAt := tx.timestamp64, proposer := tx.sender, approvalCount := 1,
        executed := false, exists_ := true } with
      actionCounter := s.actionCounter + 1 } := by
  simp only [proposeInvalidation, onlyGovernor, bind_ok, revertIf_ok, checkedAdd_ok, pure_ok,
    Prod.mk.injEq] at h
  obtain ⟨-, hgovernor, -, hexists, -, hstatus, counter, ⟨-, rfl⟩, rfl, -⟩ := h
  exact ⟨by simpa using hgovernor, by simpa using hexists, hstatus, rfl⟩

omit [Zero A] in
/-- An approval short of the quorum changes no version; the one that reaches it publishes. -/
theorem approveVersion_ok {actionId : B} (h : approveVersion s tx actionId = .ok (s', logs)) :
    let action := s.actions actionId
    let approved := { action with approvalCount := action.approvalCount + 1 }
    s.isGovernor tx.sender = true ∧ action.exists_ = true ∧ action.executed = false ∧
    action.kind = .scheduleVersion ∧ s.hasApproved actionId tx.sender = false ∧
    (approved.approvalCount < REQUIRED_APPROVALS ∧
        s' = withApproval s tx.sender actionId approved ∨
      REQUIRED_APPROVALS ≤ approved.approvalCount ∧
        s' = { setVersion (withApproval s tx.sender actionId { approved with executed := true })
            action.policyKind action.policyHash
            { policyKind := action.policyKind, policyHash := action.policyHash,
              metadataHash := action.dataHash, proposer := action.proposer,
              publishedAt := action.proposedAt,
              effectiveFrom := tx.timestamp64 + TIMELOCK_DELAY, status := .scheduled,
              invalidationReasonHash := 0, invalidatedAt := 0, exposureStart := 0,
              exposureEnd := 0, exists_ := true } with
          versionHistory := Function.update s.versionHistory action.policyKind
            (s.versionHistory action.policyKind ++ [action.policyHash]) }) := by
  simp only [approveVersion, onlyGovernor, bind_ok, revertIf_ok] at h
  obtain ⟨-, hgovernor, action, haction, ⟨s₁, approved⟩, happrove, h⟩ := h
  obtain ⟨rfl, hexists, hpending, hkind⟩ := requirePendingAction_ok haction
  obtain ⟨hnew, rfl, rfl⟩ := approve_ok happrove
  refine ⟨by simpa using hgovernor, hexists, hpending, hkind, hnew, ?_⟩
  by_cases hquorum : REQUIRED_APPROVALS ≤ (s.actions actionId).approvalCount + 1
  · simp only [ge_iff_le, hquorum, ite_true, bind_ok, checkedAdd_ok, pure_ok,
      Prod.mk.injEq] at h
    obtain ⟨effectiveFrom, ⟨-, rfl⟩, rfl, -⟩ := h
    exact .inr ⟨hquorum, by rw [setExecuted_withApproval]; rfl⟩
  · simp only [ge_iff_le, hquorum, ite_false, pure_ok, Prod.mk.injEq] at h
    exact .inl ⟨Nat.lt_of_not_le hquorum, h.1.symm⟩

omit [Zero A] [Zero B] in
/-- The approval that reaches the quorum invalidates a version that is not invalidated yet. -/
theorem approveInvalidation_ok {actionId : B}
    (h : approveInvalidation s tx actionId = .ok (s', logs)) :
    let action := s.actions actionId
    let approved := { action with approvalCount := action.approvalCount + 1 }
    let version := s.versions action.policyKind action.policyHash
    s.isGovernor tx.sender = true ∧ action.exists_ = true ∧ action.executed = false ∧
    action.kind = .invalidateVersion ∧ s.hasApproved actionId tx.sender = false ∧
    (approved.approvalCount < REQUIRED_APPROVALS ∧
        s' = withApproval s tx.sender actionId approved ∨
      REQUIRED_APPROVALS ≤ approved.approvalCount ∧ version.status ≠ .invalidated ∧
        s' = setVersion (withApproval s tx.sender actionId { approved with executed := true })
          action.policyKind action.policyHash
          { version with
            status := .invalidated, invalidationReasonHash := action.dataHash,
            invalidatedAt := tx.timestamp64, exposureStart := action.exposureStart,
            exposureEnd := action.exposureEnd }) := by
  simp only [approveInvalidation, onlyGovernor, bind_ok, revertIf_ok] at h
  obtain ⟨-, hgovernor, action, haction, ⟨s₁, approved⟩, happrove, h⟩ := h
  obtain ⟨rfl, hexists, hpending, hkind⟩ := requirePendingAction_ok haction
  obtain ⟨hnew, rfl, rfl⟩ := approve_ok happrove
  refine ⟨by simpa using hgovernor, hexists, hpending, hkind, hnew, ?_⟩
  by_cases hquorum : REQUIRED_APPROVALS ≤ (s.actions actionId).approvalCount + 1
  · simp only [ge_iff_le, hquorum, ite_true, bind_ok, revertIf_ok, pure_ok, Prod.mk.injEq,
      setExecuted_withApproval] at h
    obtain ⟨-, hstatus, rfl, -⟩ := h
    exact .inr ⟨hquorum, hstatus, rfl⟩
  · simp only [ge_iff_le, hquorum, ite_false, pure_ok, Prod.mk.injEq] at h
    exact .inl ⟨Nat.lt_of_not_le hquorum, h.1.symm⟩

end Specifications

end Linvesther.PolicyRegistry
