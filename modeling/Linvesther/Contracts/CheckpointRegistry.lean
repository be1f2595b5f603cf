import Linvesther.Contracts.IdentityRegistry

/-! `CheckpointRegistry.sol`: checkpoint headers per track, proof digests and correction
proposals. -/

namespace Linvesther.CheckpointRegistry

open Transaction

variable {A B : Type}

inductive CoverageStatus where
  | policyComplete | incomplete | unavailable
deriving DecidableEq

def CoverageStatus.toUint8 : CoverageStatus → ℕ
  | .policyComplete => 0
  | .incomplete => 1
  | .unavailable => 2

inductive CheckpointTiming where
  | onTime | late
deriving DecidableEq

inductive CorrectionState where
  | proposed
deriving DecidableEq

structure CheckpointInput (B : Type) where
  trackId : B
  checkpointHash : B
  sequence : ℕ
  previousCheckpointHash : B
  periodStart : ℕ
  periodEnd : ℕ
  membershipEpoch : ℕ
  accountSetRoot : B
  sourcePolicyHash : B
  metricPolicyHash : B
  pricePolicyHash : B
  rawEvidenceRoot : B
  normalizedRoot : B
  valuationRoot : B
  previousStateCommitment : B
  nextStateCommitment : B
  coverageStatus : CoverageStatus
  coverageManifestHash : B
  publicationDeadline : ℕ
  sourceAttestationHash : B
deriving DecidableEq

structure StoredCheckpoint (B : Type) where
  input : CheckpointInput B
  timing : CheckpointTiming
  anchoredAt : ℕ
  proofAnchored : Bool
  proofVerifiedOnChain : Bool
  proofDigest : B
  claimSetDigest : B
  correctionHead : B
  exists_ : Bool
deriving DecidableEq

structure Correction (A B : Type) where
  targetCheckpointHash : B
  replacementDigest : B
  sourceEvidenceDigest : B
  reasonCode : B
  previousCorrectionHead : B
  proposer : A
  proposedAt : ℕ
  state : CorrectionState
  exists_ : Bool
deriving DecidableEq

structure State (A B : Type) where
  checkpoints : Mapping B (StoredCheckpoint B)
  head : Mapping B B
  headSequence : Mapping B ℕ
  headPeriodEnd : Mapping B ℕ
  trackNonce : Mapping B ℕ
  corrections : Mapping B (Correction A B)
  correctionCounter : ℕ

inductive Event (B : Type) where
  | checkpointCommitted (trackId checkpointHash : B) (sequence : ℕ) (timing : CheckpointTiming)
      (anchoredAt : ℕ)
  | proofAttached (checkpointHash proofDigest claimSetDigest : B)
  | correctionPublished (correctionId targetCheckpointHash replacementDigest reasonCode : B)
deriving DecidableEq

inductive Error (B : Type) where
  | trackNotFound (trackId : B)
  | checkpointNotFound (checkpointHash : B)
  | checkpointAlreadyExists (checkpointHash : B)
  | sequenceMismatch (expected provided : ℕ)
  | previousHashMismatch (expected provided : B)
  | invalidPeriod (periodStart periodEnd : ℕ)
  | periodOverlapsOrRegresses (requiredMinimumStart providedStart : ℕ)
  | invalidSignature
  | commandExpired (deadline blockTimestamp : ℕ)
  | ownerEpochMismatch (expected provided : ℕ)
  | nonceMismatch (expected provided : ℕ)
  | panic
deriving DecidableEq

inductive Call (B : Type) where
  | appendCheckpoint (input : CheckpointInput B) (ownerEpoch nonce deadline : ℕ) (signature : Bytes)
  | attachProof (checkpointHash proofDigest claimSetDigest : B) (ownerEpoch nonce deadline : ℕ)
      (signature : Bytes)
  | publishCorrection (targetCheckpointHash replacementDigest sourceEvidenceDigest reasonCode : B)

def noInput [Zero B] : CheckpointInput B :=
  { trackId := 0, checkpointHash := 0, sequence := 0, previousCheckpointHash := 0,
    periodStart := 0, periodEnd := 0, membershipEpoch := 0, accountSetRoot := 0,
    sourcePolicyHash := 0, metricPolicyHash := 0, pricePolicyHash := 0, rawEvidenceRoot := 0,
    normalizedRoot := 0, valuationRoot := 0, previousStateCommitment := 0,
    nextStateCommitment := 0, coverageStatus := .policyComplete, coverageManifestHash := 0,
    publicationDeadline := 0, sourceAttestationHash := 0 }

def noCheckpoint [Zero B] : StoredCheckpoint B :=
  { input := noInput, timing := .onTime, anchoredAt := 0, proofAnchored := false,
    proofVerifiedOnChain := false, proofDigest := 0, claimSetDigest := 0, correctionHead := 0,
    exists_ := false }

def noCorrection [Zero A] [Zero B] : Correction A B :=
  { targetCheckpointHash := 0, replacementDigest := 0, sourceEvidenceDigest := 0, reasonCode := 0,
    previousCorrectionHead := 0, proposer := 0, proposedAt := 0, state := .proposed,
    exists_ := false }

def State.init [Zero A] [Zero B] : State A B :=
  { checkpoints := fun _ => noCheckpoint, head := fun _ => 0, headSequence := fun _ => 0,
    headPeriodEnd := fun _ => 0, trackNonce := fun _ => 0, corrections := fun _ => noCorrection,
    correctionCounter := 0 }

def CHECKPOINT_INPUT_TYPEHASH (evm : Evm A B) : B := evm.keccak256 (.text
  "CheckpointInput(bytes32 trackId,bytes32 checkpointHash,uint64 sequence,bytes32 previousCheckpointHash,uint64 periodStart,uint64 periodEnd,uint64 membershipEpoch,bytes32 accountSetRoot,bytes32 sourcePolicyHash,bytes32 metricPolicyHash,bytes32 pricePolicyHash,bytes32 rawEvidenceRoot,bytes32 normalizedRoot,bytes32 valuationRoot,bytes32 previousStateCommitment,bytes32 nextStateCommitment,uint8 coverageStatus,bytes32 coverageManifestHash,uint64 publicationDeadline,bytes32 sourceAttestationHash)")

def APPEND_CHECKPOINT_TYPEHASH (evm : Evm A B) : B := evm.keccak256 (.text
  "AppendCheckpoint(CheckpointInput input,uint64 ownerEpoch,uint64 nonce,uint256 deadline)CheckpointInput(bytes32 trackId,bytes32 checkpointHash,uint64 sequence,bytes32 previousCheckpointHash,uint64 periodStart,uint64 periodEnd,uint64 membershipEpoch,bytes32 accountSetRoot,bytes32 sourcePolicyHash,bytes32 metricPolicyHash,bytes32 pricePolicyHash,bytes32 rawEvidenceRoot,bytes32 normalizedRoot,bytes32 valuationRoot,bytes32 previousStateCommitment,bytes32 nextStateCommitment,uint8 coverageStatus,bytes32 coverageManifestHash,uint64 publicationDeadline,bytes32 sourceAttestationHash)")

def ATTACH_PROOF_TYPEHASH (evm : Evm A B) : B := evm.keccak256 (.text
  "AttachProof(bytes32 checkpointHash,bytes32 proofDigest,bytes32 claimSetDigest,uint64 ownerEpoch,uint64 nonce,uint256 deadline)")

def hashTypedDataV4 (evm : Evm A B) (this : A) (structHash : B) : B :=
  evm.hashTypedDataV4 "LinvestherZK-CheckpointRegistry" "1" this structHash

def hashAppendCheckpoint (evm : Evm A B) (input : CheckpointInput B)
    (ownerEpoch nonce deadline : ℕ) : B :=
  let inputHash := evm.keccak256 (.encode [.bytes32 (CHECKPOINT_INPUT_TYPEHASH evm),
    .bytes32 input.trackId, .bytes32 input.checkpointHash, .uint input.sequence,
    .bytes32 input.previousCheckpointHash, .uint input.periodStart, .uint input.periodEnd,
    .uint input.membershipEpoch, .bytes32 input.accountSetRoot, .bytes32 input.sourcePolicyHash,
    .bytes32 input.metricPolicyHash, .bytes32 input.pricePolicyHash,
    .bytes32 input.rawEvidenceRoot, .bytes32 input.normalizedRoot, .bytes32 input.valuationRoot,
    .bytes32 input.previousStateCommitment, .bytes32 input.nextStateCommitment,
    .uint input.coverageStatus.toUint8, .bytes32 input.coverageManifestHash,
    .uint input.publicationDeadline, .bytes32 input.sourceAttestationHash])
  evm.keccak256 (.encode [.bytes32 (APPEND_CHECKPOINT_TYPEHASH evm), .bytes32 inputHash,
    .uint ownerEpoch, .uint nonce, .uint deadline])

section Functions

variable [DecidableEq B] [Zero B] (evm : Evm A B) (this : A)
  (identityRegistry : IdentityRegistry.State A B)

def requireTrackOwner (trackId : B) : Except (Error B) A := do
  let track := identityRegistry.tracks trackId
  revertIf (track.exists_ = false) (.trackNotFound trackId)
  pure (identityRegistry.identities track.identityId).owner

def requireTrackOwnerEpoch (trackId : B) : ℕ :=
  (identityRegistry.identities (identityRegistry.tracks trackId).identityId).ownerEpoch

def consumeCommand (s : State A B) (b : Block A B) (trackId : B) (signer : A) (structHash : B)
    (ownerEpoch nonce deadline : ℕ) (signature : Bytes) : Except (Error B) (State A B) := do
  revertIf (b.timestamp > deadline) (.commandExpired deadline b.timestamp)
  let currentOwnerEpoch := requireTrackOwnerEpoch identityRegistry trackId
  revertIf (ownerEpoch ≠ currentOwnerEpoch) (.ownerEpochMismatch currentOwnerEpoch ownerEpoch)
  let currentNonce := s.trackNonce trackId
  revertIf (nonce ≠ currentNonce) (.nonceMismatch currentNonce nonce)
  revertIf (b.isValidSignatureNow signer (hashTypedDataV4 evm this structHash) signature = false)
    .invalidSignature
  let nextNonce ← checkedAdd 64 .panic currentNonce 1
  pure { s with trackNonce := Function.update s.trackNonce trackId nextNonce }

/-- The sequence the next checkpoint of a track must carry. -/
def requiredSequence (s : State A B) (trackId : B) : Except (Error B) ℕ :=
  if s.head trackId ≠ 0 then checkedAdd 64 .panic (s.headSequence trackId) 1 else pure 0

def appendCheckpoint (s : State A B) (b : Block A B) (input : CheckpointInput B)
    (ownerEpoch nonce deadline : ℕ) (signature : Bytes) :
    Except (Error B) (State A B × List (Event B)) := do
  revertIf ((s.checkpoints input.checkpointHash).exists_ = true)
    (.checkpointAlreadyExists input.checkpointHash)
  let owner ← requireTrackOwner identityRegistry input.trackId
  -- A track has a head when the stored head hash is not zero.
  let hasHead : Bool := s.head input.trackId ≠ 0
  let requiredSequence ← requiredSequence s input.trackId
  revertIf (input.sequence ≠ requiredSequence) (.sequenceMismatch requiredSequence input.sequence)
  let requiredPreviousHash := if hasHead then s.head input.trackId else 0
  revertIf (input.previousCheckpointHash ≠ requiredPreviousHash)
    (.previousHashMismatch requiredPreviousHash input.previousCheckpointHash)
  revertIf (input.periodEnd ≤ input.periodStart) (.invalidPeriod input.periodStart input.periodEnd)
  let minimumStart := if hasHead then s.headPeriodEnd input.trackId else 0
  revertIf (hasHead = true ∧ input.periodStart < minimumStart)
    (.periodOverlapsOrRegresses minimumStart input.periodStart)
  let structHash := hashAppendCheckpoint evm input ownerEpoch nonce deadline
  let s ← consumeCommand evm this identityRegistry s b input.trackId owner structHash ownerEpoch
    nonce deadline signature
  let anchoredAt := b.timestamp64
  let timing : CheckpointTiming := if anchoredAt > input.publicationDeadline then .late else .onTime
  pure ({ s with
    checkpoints := Function.update s.checkpoints input.checkpointHash
      { input, timing, anchoredAt, proofAnchored := false, proofVerifiedOnChain := false,
        proofDigest := 0, claimSetDigest := 0, correctionHead := 0, exists_ := true }
    head := Function.update s.head input.trackId input.checkpointHash
    headSequence := Function.update s.headSequence input.trackId input.sequence
    headPeriodEnd := Function.update s.headPeriodEnd input.trackId input.periodEnd },
    [.checkpointCommitted input.trackId input.checkpointHash input.sequence timing anchoredAt])

def attachProof (s : State A B) (b : Block A B) (checkpointHash proofDigest claimSetDigest : B)
    (ownerEpoch nonce deadline : ℕ) (signature : Bytes) :
    Except (Error B) (State A B × List (Event B)) := do
  let checkpoint := s.checkpoints checkpointHash
  revertIf (checkpoint.exists_ = false) (.checkpointNotFound checkpointHash)
  let owner ← requireTrackOwner identityRegistry checkpoint.input.trackId
  let structHash := evm.keccak256 (.encode [.bytes32 (ATTACH_PROOF_TYPEHASH evm),
    .bytes32 checkpointHash, .bytes32 proofDigest, .bytes32 claimSetDigest, .uint ownerEpoch,
    .uint nonce, .uint deadline])
  let s ← consumeCommand evm this identityRegistry s b checkpoint.input.trackId owner structHash
    ownerEpoch nonce deadline signature
  pure ({ s with
    checkpoints := Function.update s.checkpoints checkpointHash
      { checkpoint with proofAnchored := true, proofDigest, claimSetDigest } },
    [.proofAttached checkpointHash proofDigest claimSetDigest])

def publishCorrection (s : State A B) (b : Block A B) (sender : A)
    (targetCheckpointHash replacementDigest sourceEvidenceDigest reasonCode : B) :
    Except (Error B) (State A B × List (Event B)) := do
  let target := s.checkpoints targetCheckpointHash
  revertIf (target.exists_ = false) (.checkpointNotFound targetCheckpointHash)
  let correctionCounter ← checkedAdd 256 .panic s.correctionCounter 1
  let correctionId := evm.keccak256 (.encodePacked [.uint evm.chainid, .address this,
    .bytes32 targetCheckpointHash, .uint s.correctionCounter])
  let correction : Correction A B :=
    { targetCheckpointHash, replacementDigest, sourceEvidenceDigest, reasonCode,
      previousCorrectionHead := target.correctionHead, proposer := sender,
      proposedAt := b.timestamp64, state := .proposed, exists_ := true }
  pure ({ s with
    correctionCounter
    corrections := Function.update s.corrections correctionId correction
    checkpoints := Function.update s.checkpoints targetCheckpointHash
      { target with correctionHead := correctionId } },
    [.correctionPublished correctionId targetCheckpointHash replacementDigest reasonCode])

def call (s : State A B) (b : Block A B) (sender : A) :
    Call B → Except (Error B) (State A B × List (Event B))
  | .appendCheckpoint input ownerEpoch nonce deadline signature =>
    appendCheckpoint evm this identityRegistry s b input ownerEpoch nonce deadline signature
  | .attachProof checkpointHash proofDigest claimSetDigest ownerEpoch nonce deadline signature =>
    attachProof evm this identityRegistry s b checkpointHash proofDigest claimSetDigest ownerEpoch
      nonce deadline signature
  | .publishCorrection targetCheckpointHash replacementDigest sourceEvidenceDigest reasonCode =>
    publishCorrection evm this s b sender targetCheckpointHash replacementDigest
      sourceEvidenceDigest reasonCode

end Functions

section Specifications

variable [DecidableEq B] [Zero B] {evm : Evm A B} {this : A}
  {identityRegistry : IdentityRegistry.State A B} {s s' : State A B} {b : Block A B}

omit [Zero B] in
theorem consumeCommand_ok {trackId : B} {signer : A} {structHash : B}
    {ownerEpoch nonce deadline : ℕ} {signature : Bytes}
    (h : consumeCommand evm this identityRegistry s b trackId signer structHash ownerEpoch nonce
      deadline signature = .ok s') :
    b.timestamp ≤ deadline ∧
    ownerEpoch = requireTrackOwnerEpoch identityRegistry trackId ∧
    nonce = s.trackNonce trackId ∧
    b.isValidSignatureNow signer (hashTypedDataV4 evm this structHash) signature = true ∧
    s' = { s with trackNonce := Function.update s.trackNonce trackId (s.trackNonce trackId + 1) } := by
  simp only [consumeCommand, bind_ok, revertIf_ok, checkedAdd_ok, pure_ok] at h
  obtain ⟨-, hlive, -, hepoch, -, hnonce, -, hsigned, next, ⟨-, rfl⟩, rfl⟩ := h
  exact ⟨Nat.le_of_not_lt hlive, not_not.1 hepoch, not_not.1 hnonce, by simpa using hsigned, rfl⟩

/-- What an accepted append has checked and what it stores. -/
theorem appendCheckpoint_ok {input : CheckpointInput B} {ownerEpoch nonce deadline : ℕ}
    {signature : Bytes} {logs : List (Event B)}
    (h : appendCheckpoint evm this identityRegistry s b input ownerEpoch nonce deadline signature =
      .ok (s', logs)) :
    (s.checkpoints input.checkpointHash).exists_ = false ∧
    (s.head input.trackId = 0 → input.sequence = 0) ∧
    (s.head input.trackId ≠ 0 → input.sequence = s.headSequence input.trackId + 1 ∧
      s.headPeriodEnd input.trackId ≤ input.periodStart) ∧
    input.previousCheckpointHash = s.head input.trackId ∧
    input.periodStart < input.periodEnd ∧
    s' = { s with
      trackNonce := Function.update s.trackNonce input.trackId (s.trackNonce input.trackId + 1)
      checkpoints := Function.update s.checkpoints input.checkpointHash
        { input, timing := if b.timestamp64 > input.publicationDeadline then .late else .onTime,
          anchoredAt := b.timestamp64, proofAnchored := false, proofVerifiedOnChain := false,
          proofDigest := 0, claimSetDigest := 0, correctionHead := 0, exists_ := true }
      head := Function.update s.head input.trackId input.checkpointHash
      headSequence := Function.update s.headSequence input.trackId input.sequence
      headPeriodEnd := Function.update s.headPeriodEnd input.trackId input.periodEnd } := by
  simp only [appendCheckpoint, bind_ok, revertIf_ok, pure_ok, Prod.mk.injEq] at h
  obtain ⟨-, hnew, owner, -, required, hrequired, -, hsequence, -, hprevious, -, hperiod, -,
    hminimum, s₁, hconsumed, rfl, -⟩ := h
  obtain ⟨-, -, -, -, rfl⟩ := consumeCommand_ok hconsumed
  have hsequence : input.sequence = required := not_not.1 hsequence
  have hprevious := not_not.1 hprevious
  refine ⟨by simpa using hnew, ?_, ?_, ?_, Nat.lt_of_not_le hperiod, rfl⟩
  · intro hnone
    simp only [requiredSequence, hnone, ne_eq, not_true_eq_false, ite_false, pure_ok] at hrequired
    rw [hsequence, ← hrequired]
  · intro hsome
    simp only [requiredSequence, hsome, ne_eq, not_false_eq_true, ite_true, checkedAdd_ok]
      at hrequired
    refine ⟨by rw [hsequence, hrequired.2], ?_⟩
    simpa [hsome] using hminimum
  · by_cases hnone : s.head input.trackId = 0
    · simpa [hnone] using hprevious
    · simpa [hnone] using hprevious

/-- A track whose stored head is zero takes a genesis that its owner signed. -/
theorem appendCheckpoint_genesis {input : CheckpointInput B} {ownerEpoch nonce deadline : ℕ}
    {signature : Bytes} (hnew : (s.checkpoints input.checkpointHash).exists_ = false)
    (htrack : (identityRegistry.tracks input.trackId).exists_ = true)
    (hhead : s.head input.trackId = 0) (hsequence : input.sequence = 0)
    (hprevious : input.previousCheckpointHash = 0) (hperiod : input.periodStart < input.periodEnd)
    (hlive : b.timestamp ≤ deadline)
    (hepoch : ownerEpoch = requireTrackOwnerEpoch identityRegistry input.trackId)
    (hnonce : nonce = s.trackNonce input.trackId) (hlast : nonce + 1 < 2 ^ 64)
    (hsigned : b.isValidSignatureNow
      (identityRegistry.identities (identityRegistry.tracks input.trackId).identityId).owner
      (hashTypedDataV4 evm this (hashAppendCheckpoint evm input ownerEpoch nonce deadline))
      signature = true) :
    ∃ s' logs, appendCheckpoint evm this identityRegistry s b input ownerEpoch nonce deadline
      signature = .ok (s', logs) := by
  subst hepoch
  simp only [appendCheckpoint, requireTrackOwner, requiredSequence, consumeCommand]
  simp [revertIf, checkedAdd_of_lt hlast, bind, Except.bind, pure, Except.pure, hnew, htrack,
    hhead, hsequence, hprevious, Nat.not_le.2 hperiod, ← hnonce, hsigned, Nat.not_lt.2 hlive]

omit [Zero B] in
theorem attachProof_ok {checkpointHash proofDigest claimSetDigest : B}
    {ownerEpoch nonce deadline : ℕ} {signature : Bytes} {logs : List (Event B)}
    (h : attachProof evm this identityRegistry s b checkpointHash proofDigest claimSetDigest
      ownerEpoch nonce deadline signature = .ok (s', logs)) :
    let trackId := (s.checkpoints checkpointHash).input.trackId
    (s.checkpoints checkpointHash).exists_ = true ∧
    s' = { s with
      trackNonce := Function.update s.trackNonce trackId (s.trackNonce trackId + 1)
      checkpoints := Function.update s.checkpoints checkpointHash
        { s.checkpoints checkpointHash with
          proofAnchored := true, proofDigest, claimSetDigest } } := by
  simp only [attachProof, bind_ok, revertIf_ok, pure_ok, Prod.mk.injEq] at h
  obtain ⟨-, hexists, owner, -, s₁, hconsumed, rfl, -⟩ := h
  obtain ⟨-, -, -, -, rfl⟩ := consumeCommand_ok hconsumed
  exact ⟨by simpa using hexists, rfl⟩

omit [Zero B] in
theorem publishCorrection_ok {sender : A}
    {targetCheckpointHash replacementDigest sourceEvidenceDigest reasonCode : B}
    {logs : List (Event B)}
    (h : publishCorrection evm this s b sender targetCheckpointHash replacementDigest
      sourceEvidenceDigest reasonCode = .ok (s', logs)) :
    let correctionId := evm.keccak256 (.encodePacked [.uint evm.chainid, .address this,
      .bytes32 targetCheckpointHash, .uint s.correctionCounter])
    let target := s.checkpoints targetCheckpointHash
    target.exists_ = true ∧
    s' = { s with
      correctionCounter := s.correctionCounter + 1
      corrections := Function.update s.corrections correctionId
        { targetCheckpointHash, replacementDigest, sourceEvidenceDigest, reasonCode,
          previousCorrectionHead := target.correctionHead, proposer := sender,
          proposedAt := b.timestamp64, state := .proposed, exists_ := true }
      checkpoints := Function.update s.checkpoints targetCheckpointHash
        { target with correctionHead := correctionId } } := by
  simp only [publishCorrection, bind_ok, revertIf_ok, checkedAdd_ok, pure_ok, Prod.mk.injEq] at h
  obtain ⟨-, hexists, counter, ⟨-, rfl⟩, rfl, -⟩ := h
  exact ⟨by simpa using hexists, rfl⟩

end Specifications

end Linvesther.CheckpointRegistry
