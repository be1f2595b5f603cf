import Linvesther.Contracts.AccountAuthorization

/-! Replay and epochs over the three registries. Every signed command consumes the nonce of its
identity or track and carries the identity's current owner epoch; nonces and epochs only grow, so a
command is spent by being accepted and revoked by an owner rotation. -/

namespace Linvesther

open Transaction

variable {A B : Type}

/-- Whose nonce sequence a command belongs to: the registries keep separate ones for a track. -/
inductive NonceKey (B : Type) where
  | identity (identityId : B)
  | account (trackId : B)
  | checkpoint (trackId : B)
deriving DecidableEq

/-- What a command names. The track of an account or of a checkpoint is read from storage. -/
inductive Subject (B : Type) where
  | identity (identityId : B)
  | track (trackId : B)
  | account (accountId : B)
  | chain (trackId : B)
  | checkpoint (checkpointHash : B)
deriving DecidableEq

/-- The part of a call that its signer answers for. -/
structure SignedCommand (B : Type) where
  subject : Subject B
  ownerEpoch : ℕ
  nonce : ℕ
  digest : B
  signature : Bytes
deriving DecidableEq

section Commands

variable (evm : Evm A B) (this : A)

/-- Creating an identity takes no signature. -/
def IdentityRegistry.Call.command : IdentityRegistry.Call A B → Option (SignedCommand B)
  | .createIdentity _ => none
  | .createTrack identityId financialProfileId denominationCommitment ownerEpoch nonce deadline
      signature =>
    some ⟨.identity identityId, ownerEpoch, nonce,
      hashTypedDataV4 evm this (evm.keccak256 (.encode [.bytes32 (CREATE_TRACK_TYPEHASH evm),
        .bytes32 identityId, .bytes32 financialProfileId, .bytes32 denominationCommitment,
        .uint ownerEpoch, .uint nonce, .uint deadline])), signature⟩
  | .proposeOwnerRotation identityId newOwner ownerEpoch nonce deadline signature =>
    some ⟨.identity identityId, ownerEpoch, nonce,
      hashTypedDataV4 evm this (evm.keccak256 (.encode [
        .bytes32 (PROPOSE_OWNER_ROTATION_TYPEHASH evm), .bytes32 identityId, .address newOwner,
        .uint ownerEpoch, .uint nonce, .uint deadline])), signature⟩
  | .confirmOwnerRotation identityId newOwner ownerEpoch nonce deadline signature =>
    some ⟨.identity identityId, ownerEpoch, nonce,
      hashTypedDataV4 evm this (evm.keccak256 (.encode [
        .bytes32 (CONFIRM_OWNER_ROTATION_TYPEHASH evm), .bytes32 identityId, .address newOwner,
        .uint ownerEpoch, .uint nonce, .uint deadline])), signature⟩

def AccountRegistry.Call.command (c : AccountRegistry.Call B) : SignedCommand B :=
  match c with
  | .registerAccount trackId _ _ _ ownerEpoch nonce _ signature =>
    ⟨.track trackId, ownerEpoch, nonce, hashTypedDataV4 evm this (c.structHash evm), signature⟩
  | .activateAccount accountId _ _ ownerEpoch nonce _ signature
  | .removeAccount accountId _ ownerEpoch nonce _ signature
  | .rotateBindingCredential accountId _ ownerEpoch nonce _ signature =>
    ⟨.account accountId, ownerEpoch, nonce, hashTypedDataV4 evm this (c.structHash evm), signature⟩

/-- Anybody may publish a correction, unsigned. -/
def CheckpointRegistry.Call.command : CheckpointRegistry.Call B → Option (SignedCommand B)
  | .appendCheckpoint input ownerEpoch nonce deadline signature =>
    some ⟨.chain input.trackId, ownerEpoch, nonce,
      hashTypedDataV4 evm this (hashAppendCheckpoint evm input ownerEpoch nonce deadline), signature⟩
  | .attachProof checkpointHash proofDigest claimSetDigest ownerEpoch nonce deadline signature =>
    some ⟨.checkpoint checkpointHash, ownerEpoch, nonce,
      hashTypedDataV4 evm this (evm.keccak256 (.encode [.bytes32 (ATTACH_PROOF_TYPEHASH evm),
        .bytes32 checkpointHash, .bytes32 proofDigest, .bytes32 claimSetDigest, .uint ownerEpoch,
        .uint nonce, .uint deadline])), signature⟩
  | .publishCorrection .. => none

def World.Call.command (at_ : Deployment A) : World.Call A B → Option (SignedCommand B)
  | .identity c => c.command evm at_.identityRegistry
  | .account c => some (c.command evm at_.accountRegistry)
  | .checkpoint c => c.command evm at_.checkpointRegistry

end Commands

section Reads

def World.nonce (w : World A B) : NonceKey B → ℕ
  | .identity identityId => (w.identity.identities identityId).nonce
  | .account trackId => w.account.trackNonce trackId
  | .checkpoint trackId => w.checkpoint.trackNonce trackId

/-- The identity a nonce sequence belongs to. -/
def World.identityOf (w : World A B) : NonceKey B → B
  | .identity identityId => identityId
  | .account trackId | .checkpoint trackId => (w.identity.tracks trackId).identityId

def World.ownerEpoch (w : World A B) (identityId : B) : ℕ :=
  (w.identity.identities identityId).ownerEpoch

def World.nonceKey (w : World A B) : Subject B → NonceKey B
  | .identity identityId => .identity identityId
  | .track trackId => .account trackId
  | .account accountId => .account (w.account.accounts accountId).trackId
  | .chain trackId => .checkpoint trackId
  | .checkpoint checkpointHash =>
    .checkpoint (w.checkpoint.checkpoints checkpointHash).input.trackId

/-- The stored account or checkpoint a command names is there. -/
def World.Has (w : World A B) : Subject B → Prop
  | .account accountId => (w.account.accounts accountId).exists_ = true
  | .checkpoint checkpointHash => (w.checkpoint.checkpoints checkpointHash).exists_ = true
  | _ => True

end Reads

section IdentityCalls

open IdentityRegistry

variable [DecidableEq A] [DecidableEq B] [Zero A] {evm : Evm A B} {this : A}
  {s s' : IdentityRegistry.State A B} {b : Block A B} {sender : A}

/-- The identity whose rotation a call confirms. -/
def IdentityRegistry.Call.confirms : IdentityRegistry.Call A B → Option B
  | .confirmOwnerRotation identityId .. => some identityId
  | _ => none

/-- An accepted command of an identity: what was checked, and what it leaves of the identity. -/
theorem IdentityRegistry.call_command {c : IdentityRegistry.Call A B} {cmd : SignedCommand B}
    {logs : List (IdentityRegistry.Event A B)} (hcmd : c.command evm this = some cmd)
    (h : IdentityRegistry.call evm this s b sender c = .ok (s', logs)) :
    ∃ identityId identity', cmd.subject = .identity identityId ∧
      (s.identities identityId).exists_ = true ∧
      cmd.ownerEpoch = (s.identities identityId).ownerEpoch ∧
      cmd.nonce = (s.identities identityId).nonce ∧
      (∃ signer, b.isValidSignatureNow signer cmd.digest cmd.signature = true) ∧
      s'.identityCounter = s.identityCounter ∧
      s'.identities = Function.update s.identities identityId identity' ∧
      identity'.nonce = cmd.nonce + 1 ∧
      identity'.ownerEpoch = cmd.ownerEpoch + (if c.confirms = some identityId then 1 else 0) := by
  cases c with
  | createIdentity => cases hcmd
  | createTrack identityId =>
    cases hcmd
    simp only [call, createTrack, requireIdentity, bind_ok, revertIf_ok, checkedAdd_ok, pure_ok,
      Prod.mk.injEq] at h
    obtain ⟨_, ⟨-, hexists, rfl⟩, identity', hconsumed, counter, ⟨-, rfl⟩, rfl, -⟩ := h
    obtain ⟨-, hepoch, hnonce, hsigned, rfl⟩ := consumeOwnerCommand_ok hconsumed
    exact ⟨identityId, _, rfl, by simpa using hexists, hepoch, hnonce, ⟨_, hsigned⟩, rfl, rfl,
      congrArg (· + 1) hnonce.symm, by simp [Call.confirms, hepoch]⟩
  | proposeOwnerRotation identityId =>
    cases hcmd
    simp only [call, proposeOwnerRotation, requireIdentity, bind_ok, revertIf_ok, pure_ok,
      Prod.mk.injEq] at h
    obtain ⟨-, -, _, ⟨-, hexists, rfl⟩, -, -, identity', hconsumed, rfl, -⟩ := h
    obtain ⟨-, hepoch, hnonce, hsigned, rfl⟩ := consumeOwnerCommand_ok hconsumed
    exact ⟨identityId, _, rfl, by simpa using hexists, hepoch, hnonce, ⟨_, hsigned⟩, rfl, rfl,
      congrArg (· + 1) hnonce.symm, by simp [Call.confirms, hepoch]⟩
  | confirmOwnerRotation identityId =>
    cases hcmd
    simp only [call, confirmOwnerRotation, requireIdentity, bind_ok, revertIf_ok, checkedAdd_ok,
      pure_ok, Prod.mk.injEq] at h
    obtain ⟨_, ⟨-, hexists, rfl⟩, -, -, -, -, identity', hconsumed, epoch, ⟨-, rfl⟩, rfl, -⟩ := h
    obtain ⟨-, hepoch, hnonce, hsigned, rfl⟩ := consumeOwnerCommand_ok hconsumed
    exact ⟨identityId, _, rfl, by simpa using hexists, hepoch, hnonce, ⟨_, hsigned⟩, rfl, rfl,
      congrArg (· + 1) hnonce.symm, by simp [Call.confirms, hepoch]⟩

end IdentityCalls

section AccountCalls

open AccountRegistry

variable [DecidableEq B] [Zero B] {evm : Evm A B} {this : A}
  {identityRegistry : IdentityRegistry.State A B} {s s' : AccountRegistry.State B} {b : Block A B}

/-- The track an account command consumes a nonce of. -/
def AccountRegistry.Call.trackId (s : AccountRegistry.State B) : AccountRegistry.Call B → B
  | .registerAccount trackId .. => trackId
  | .activateAccount accountId .. | .removeAccount accountId ..
  | .rotateBindingCredential accountId .. => (s.accounts accountId).trackId

/-- The accounts after a call: a new one under the next number, or one rewritten on its track. -/
def AccountRegistry.Stores (evm : Evm A B) (this : A) (s s' : AccountRegistry.State B) :
    Subject B → Prop
  | .track trackId => s'.accountCounter = s.accountCounter + 1 ∧
      ∃ account, s'.accounts = Function.update s.accounts
        (evm.keccak256 (.encodePacked [.uint evm.chainid, .address this, .bytes32 trackId,
          .uint s.accountCounter])) account ∧ account.exists_ = true
  | .account accountId => s'.accountCounter = s.accountCounter ∧
      (s.accounts accountId).exists_ = true ∧
      ∃ account, s'.accounts = Function.update s.accounts accountId account ∧
        account.exists_ = true ∧ account.trackId = (s.accounts accountId).trackId
  | _ => False

/-- Every accepted call is a command of a track that consumes the track's nonce. -/
theorem AccountRegistry.call_command {c : AccountRegistry.Call B}
    {logs : List (AccountRegistry.Event B)}
    (h : AccountRegistry.call evm this identityRegistry s b c = .ok (s', logs)) :
    (c.command evm this).ownerEpoch = requireTrackOwnerEpoch identityRegistry (c.trackId s) ∧
    (c.command evm this).nonce = s.trackNonce (c.trackId s) ∧
    (∃ signer, b.isValidSignatureNow signer (c.command evm this).digest
      (c.command evm this).signature = true) ∧
    s'.trackNonce =
      Function.update s.trackNonce (c.trackId s) (s.trackNonce (c.trackId s) + 1) ∧
    Stores evm this s s' (c.command evm this).subject := by
  cases c with
  | registerAccount trackId =>
    simp only [call, registerAccount, bind_ok, checkedAdd_ok, pure_ok, Prod.mk.injEq] at h
    obtain ⟨owner, -, s₁, hconsumed, counter, ⟨-, rfl⟩, rfl, -⟩ := h
    obtain ⟨-, hepoch, hnonce, hsigned, rfl⟩ := consumeCommand_ok hconsumed
    exact ⟨hepoch, hnonce, ⟨owner, hsigned⟩, rfl, rfl, _, rfl, rfl⟩
  | activateAccount accountId =>
    simp only [call, activateAccount, requireAccount, bind_ok, revertIf_ok, pure_ok,
      Prod.mk.injEq] at h
    obtain ⟨_, ⟨-, hexists, rfl⟩, -, -, -, -, owner, -, s₁, hconsumed, rfl, -⟩ := h
    obtain ⟨-, hepoch, hnonce, hsigned, rfl⟩ := consumeCommand_ok hconsumed
    have hexists : (s.accounts accountId).exists_ = true := by simpa using hexists
    exact ⟨hepoch, hnonce, ⟨owner, hsigned⟩, rfl, rfl, hexists, _, rfl, hexists, rfl⟩
  | removeAccount accountId =>
    simp only [call, removeAccount, requireAccount, bind_ok, revertIf_ok, pure_ok] at h
    obtain ⟨_, ⟨-, hexists, rfl⟩, -, -, owner, -, s₁, hconsumed, h⟩ := h
    obtain ⟨-, hepoch, hnonce, hsigned, rfl⟩ := consumeCommand_ok hconsumed
    have hexists : (s.accounts accountId).exists_ = true := by simpa using hexists
    refine ⟨hepoch, hnonce, ⟨owner, hsigned⟩, ?_⟩
    split_ifs at h
    · simp only [bind_ok, pure_ok, Prod.mk.injEq] at h
      obtain ⟨members, -, rfl, -⟩ := h
      exact ⟨rfl, rfl, hexists, _, rfl, hexists, rfl⟩
    · simp only [pure_ok, Prod.mk.injEq] at h
      obtain ⟨rfl, -⟩ := h
      exact ⟨rfl, rfl, hexists, _, rfl, hexists, rfl⟩
  | rotateBindingCredential accountId =>
    simp only [call, rotateBindingCredential, requireAccount, bind_ok, revertIf_ok, checkedAdd_ok,
      pure_ok, Prod.mk.injEq] at h
    obtain ⟨_, ⟨-, hexists, rfl⟩, -, -, owner, -, s₁, hconsumed, epoch, ⟨-, rfl⟩, rfl, -⟩ := h
    obtain ⟨-, hepoch, hnonce, hsigned, rfl⟩ := consumeCommand_ok hconsumed
    have hexists : (s.accounts accountId).exists_ = true := by simpa using hexists
    exact ⟨hepoch, hnonce, ⟨owner, hsigned⟩, rfl, rfl, hexists, _, rfl, hexists, rfl⟩

end AccountCalls

section CheckpointCalls

open CheckpointRegistry

variable [DecidableEq B] [Zero B] {evm : Evm A B} {this : A}
  {identityRegistry : IdentityRegistry.State A B} {s s' : CheckpointRegistry.State A B}
  {b : Block A B} {sender : A}

/-- The track a checkpoint command consumes a nonce of. -/
def CheckpointRegistry.Call.trackId (s : CheckpointRegistry.State A B) :
    CheckpointRegistry.Call B → B
  | .appendCheckpoint input .. => input.trackId
  | .attachProof checkpointHash .. | .publishCorrection checkpointHash .. =>
    (s.checkpoints checkpointHash).input.trackId

/-- The checkpoints after a call: a new one, or one whose input stays. -/
def CheckpointRegistry.Stores (s s' : CheckpointRegistry.State A B) : Prop :=
  ∃ hash checkpoint, s'.checkpoints = Function.update s.checkpoints hash checkpoint ∧
    checkpoint.exists_ = true ∧
    ((s.checkpoints hash).exists_ = true →
      checkpoint.input.trackId = (s.checkpoints hash).input.trackId)

theorem CheckpointRegistry.call_command {c : CheckpointRegistry.Call B}
    {logs : List (CheckpointRegistry.Event B)}
    (h : CheckpointRegistry.call evm this identityRegistry s b sender c = .ok (s', logs)) :
    Stores s s' ∧
    match c.command evm this with
    | none => s'.trackNonce = s.trackNonce
    | some cmd =>
      cmd.ownerEpoch = requireTrackOwnerEpoch identityRegistry (c.trackId s) ∧
      cmd.nonce = s.trackNonce (c.trackId s) ∧
      (∃ signer, b.isValidSignatureNow signer cmd.digest cmd.signature = true) ∧
      s'.trackNonce = Function.update s.trackNonce (c.trackId s) (s.trackNonce (c.trackId s) + 1) ∧
      ∀ hash, cmd.subject = .checkpoint hash → (s.checkpoints hash).exists_ = true := by
  cases c with
  | appendCheckpoint input =>
    obtain ⟨hnew, -, -, -, -, hs'⟩ := appendCheckpoint_ok h
    refine ⟨⟨input.checkpointHash, _, by rw [hs'], rfl, by simp [hnew]⟩, ?_⟩
    simp only [call, appendCheckpoint, bind_ok, revertIf_ok, pure_ok, Prod.mk.injEq] at h
    obtain ⟨-, -, owner, -, required, -, -, -, -, -, -, -, -, -, s₁, hconsumed, rfl, -⟩ := h
    obtain ⟨-, hepoch, hnonce, hsigned, rfl⟩ := consumeCommand_ok hconsumed
    exact ⟨hepoch, hnonce, ⟨owner, hsigned⟩, rfl, fun hash hsubject => by cases hsubject⟩
  | attachProof checkpointHash =>
    simp only [call, attachProof, bind_ok, revertIf_ok, pure_ok, Prod.mk.injEq] at h
    obtain ⟨-, hexists, owner, -, s₁, hconsumed, rfl, -⟩ := h
    obtain ⟨-, hepoch, hnonce, hsigned, rfl⟩ := consumeCommand_ok hconsumed
    have hexists : (s.checkpoints checkpointHash).exists_ = true := by simpa using hexists
    refine ⟨⟨checkpointHash, _, rfl, hexists, fun _ => rfl⟩, hepoch, hnonce, ⟨owner, hsigned⟩, rfl, ?_⟩
    intro hash hsubject
    cases hsubject
    exact hexists
  | publishCorrection target =>
    obtain ⟨hexists, rfl⟩ := publishCorrection_ok h
    exact ⟨⟨target, _, rfl, hexists, fun _ => rfl⟩, rfl⟩

end CheckpointCalls

section Steps

theorem update_succ {K : Type*} [DecidableEq K] (f : K → ℕ) (k key : K) :
    Function.update f k (f k + 1) key = f key + (if k = key then 1 else 0) := by
  rw [Function.update_apply]
  by_cases h : k = key
  · rw [if_pos h.symm, if_pos h, h]
  · rw [if_neg (Ne.symm h), if_neg h]; rfl

variable (evm : Evm A B) (at_ : Deployment A)

/-- Identities and accounts sit under hashes of their numbers, so the next one is new. -/
structure World.Numbered [Zero A] (w : World A B) : Prop where
  identity : ∀ identityId, w.identity.identities identityId = IdentityRegistry.noIdentity ∨
    ∃ sender n, n < w.identity.identityCounter ∧ identityId = evm.keccak256 (.encodePacked
      [.uint evm.chainid, .address at_.identityRegistry, .address sender, .uint n])
  account : ∀ accountId, (w.account.accounts accountId).exists_ = true →
    ∃ trackId n, n < w.account.accountCounter ∧ accountId = evm.keccak256 (.encodePacked
      [.uint evm.chainid, .address at_.accountRegistry, .bytes32 trackId, .uint n])

/-- What no transaction takes back: nonces and epochs grow, and what commands name stays on its
track. -/
structure World.Later (w w' : World A B) : Prop where
  nonce : ∀ key, w.nonce key ≤ w'.nonce key
  ownerEpoch : ∀ identityId, w.ownerEpoch identityId ≤ w'.ownerEpoch identityId
  has : ∀ subject, w.Has subject → w'.Has subject ∧ w'.nonceKey subject = w.nonceKey subject

/-- What the registries check of a command and what they keep of it. -/
structure World.Consumes [DecidableEq B] (w w' : World A B) (b : Block A B) (cmd : SignedCommand B) : Prop where
  nonce : cmd.nonce = w.nonce (w.nonceKey cmd.subject)
  ownerEpoch : cmd.ownerEpoch = w.ownerEpoch (w.identityOf (w.nonceKey cmd.subject))
  signed : ∃ signer, b.isValidSignatureNow signer cmd.digest cmd.signature = true
  has : w.Has cmd.subject
  next : ∀ key, w'.nonce key = w.nonce key + (if w.nonceKey cmd.subject = key then 1 else 0)

theorem World.Later.refl (w : World A B) : w.Later w :=
  ⟨fun _ => le_rfl, fun _ => le_rfl, fun _ h => ⟨h, rfl⟩⟩

theorem World.Later.trans {w w' w'' : World A B} (h : w.Later w') (h' : w'.Later w'') :
    w.Later w'' where
  nonce key := (h.nonce key).trans (h'.nonce key)
  ownerEpoch identityId := (h.ownerEpoch identityId).trans (h'.ownerEpoch identityId)
  has subject hsubject := by
    obtain ⟨hhas, hkey⟩ := h.has subject hsubject
    obtain ⟨hhas', hkey'⟩ := h'.has subject hhas
    exact ⟨hhas', hkey'.trans hkey⟩

theorem World.init_numbered [Zero A] [Zero B] : (World.init : World A B).Numbered evm at_ :=
  ⟨fun _ => .inl rfl, fun _ h => by cases h⟩

variable [DecidableEq B] [Zero A] {evm at_} {w : World A B} {b : Block A B} {sender : A}

/-- A new identity starts where its empty slot stood, at nonce 0 and epoch 0. -/
theorem World.createIdentity_step (hk : Function.Injective evm.keccak256) (hw : w.Numbered evm at_)
    {s : IdentityRegistry.State A B} {identityType : IdentityRegistry.IdentityType}
    {l : List (IdentityRegistry.Event A B)}
    (h : IdentityRegistry.createIdentity evm at_.identityRegistry w.identity b sender identityType =
      .ok (s, l)) :
    ({ w with identity := s } : World A B).Numbered evm at_ ∧
    ({ w with identity := s } : World A B).nonce = w.nonce ∧
    ({ w with identity := s } : World A B).ownerEpoch = w.ownerEpoch := by
  obtain rfl := IdentityRegistry.createIdentity_ok h
  set identityId := evm.keccak256 (.encodePacked [.uint evm.chainid, .address at_.identityRegistry,
    .address sender, .uint w.identity.identityCounter]) with hid
  have hnew : w.identity.identities identityId = IdentityRegistry.noIdentity := by
    rcases hw.identity identityId with hnone | ⟨sender', n, hn, heq⟩
    · exact hnone
    · have := hk (hid.symm.trans heq)
      simp only [Preimage.encodePacked.injEq, List.cons.injEq, Word.uint.injEq] at this
      omega
  refine ⟨⟨fun i => ?_, hw.account⟩, funext fun key => ?_, funext fun i => ?_⟩
  · by_cases hi : i = identityId
    · exact .inr ⟨sender, _, Nat.lt_succ_self _, hi⟩
    · rcases hw.identity i with hnone | ⟨sender', n, hn, heq⟩
      · exact .inl (by simpa [Function.update_of_ne hi] using hnone)
      · exact .inr ⟨sender', n, Nat.lt_succ_of_lt hn, heq⟩
  · cases key with
    | identity i =>
      simp only [World.nonce, Function.update_apply]
      split_ifs with hi
      · rw [hi, hnew]; rfl
      · rfl
    | _ => rfl
  · simp only [World.ownerEpoch, Function.update_apply]
    split_ifs with hi
    · rw [hi, hnew]; rfl
    · rfl

theorem World.identityCommand_step [DecidableEq A] (hw : w.Numbered evm at_) {s : IdentityRegistry.State A B}
    {c : IdentityRegistry.Call A B} {cmd : SignedCommand B} {l : List (IdentityRegistry.Event A B)}
    (hcmd : c.command evm at_.identityRegistry = some cmd)
    (h : IdentityRegistry.call evm at_.identityRegistry w.identity b sender c = .ok (s, l)) :
    ({ w with identity := s } : World A B).Numbered evm at_ ∧
    w.Consumes { w with identity := s } b cmd ∧
    (∀ i, w.ownerEpoch i ≤ ({ w with identity := s } : World A B).ownerEpoch i) := by
  obtain ⟨identityId, identity', hsubject, hexists, hepoch, hnonce, hsigned, hcounter, hidentities,
    hnext, hepoch'⟩ := IdentityRegistry.call_command hcmd h
  have hkey : w.nonceKey cmd.subject = .identity identityId := by rw [hsubject]; rfl
  refine ⟨⟨fun i => ?_, hw.account⟩, ⟨?_, ?_, hsigned, ?_, fun key => ?_⟩, fun i => ?_⟩
  · by_cases hi : i = identityId
    · rcases hw.identity i with hnone | ⟨sender', n, hn, heq⟩
      · rw [← hi, hnone] at hexists
        cases hexists
      · exact .inr ⟨sender', n, hcounter ▸ hn, heq⟩
    · simpa [hidentities, hcounter, Function.update_of_ne hi] using hw.identity i
  · rw [hkey]; exact hnonce
  · rw [hkey]; exact hepoch
  · rw [hsubject]; trivial
  · rw [hkey]
    cases key with
    | identity i =>
      simp only [World.nonce, hidentities, Function.update_apply, NonceKey.identity.injEq]
      split_ifs with h₁ h₂ h₂
      · rw [hnext, hnonce, h₁]
      · exact absurd h₁.symm h₂
      · exact absurd h₂.symm h₁
      · rfl
    | _ => simp [World.nonce]
  · simp only [World.ownerEpoch, hidentities, Function.update_apply]
    split_ifs with hi
    · rw [hepoch', hepoch, hi]; omega
    · exact le_rfl

variable [Zero B]

theorem World.accountCommand_step (hk : Function.Injective evm.keccak256) (hw : w.Numbered evm at_)
    {s : AccountRegistry.State B} {c : AccountRegistry.Call B} {l : List (AccountRegistry.Event B)}
    (h : AccountRegistry.call evm at_.accountRegistry w.identity w.account b c = .ok (s, l)) :
    ({ w with account := s } : World A B).Numbered evm at_ ∧
    w.Consumes { w with account := s } b (c.command evm at_.accountRegistry) ∧
    ∀ subject, w.Has subject → ({ w with account := s } : World A B).Has subject ∧
      ({ w with account := s } : World A B).nonceKey subject = w.nonceKey subject := by
  obtain ⟨hepoch, hnonce, hsigned, htrackNonce, hstores⟩ := AccountRegistry.call_command h
  have hkey : w.nonceKey (c.command evm at_.accountRegistry).subject =
      .account (c.trackId w.account) := by
    cases c <;> rfl
  have hnext : ∀ key, ({ w with account := s } : World A B).nonce key = w.nonce key +
      (if w.nonceKey (c.command evm at_.accountRegistry).subject = key then 1 else 0) := by
    intro key
    rw [hkey]
    cases key with
    | account trackId =>
      simp only [World.nonce, htrackNonce, update_succ, NonceKey.account.injEq]
    | _ => simp [World.nonce]
  have hconsumes : w.Has (c.command evm at_.accountRegistry).subject →
      w.Consumes { w with account := s } b (c.command evm at_.accountRegistry) :=
    fun hhas => ⟨by rw [hkey]; exact hnonce, by rw [hkey]; exact hepoch, hsigned, hhas, hnext⟩
  generalize (c.command evm at_.accountRegistry).subject = subject at hstores hconsumes
  cases subject with
  | track trackId =>
    obtain ⟨hcounter, account, haccounts, hexists⟩ := hstores
    have hnew : ∀ accountId, (w.account.accounts accountId).exists_ = true →
        s.accounts accountId = w.account.accounts accountId := by
      intro accountId hold
      rw [haccounts, Function.update_of_ne]
      rintro rfl
      obtain ⟨trackId', n, hn, heq⟩ := hw.account _ hold
      have := hk heq
      simp only [Preimage.encodePacked.injEq, List.cons.injEq, Word.uint.injEq] at this
      omega
    refine ⟨⟨hw.identity, fun accountId hin => ?_⟩, hconsumes trivial, fun subject hhas => ?_⟩
    · simp only [haccounts, Function.update_apply] at hin
      split_ifs at hin with hid
      · exact ⟨trackId, _, hcounter ▸ Nat.lt_succ_self _, hid⟩
      · obtain ⟨trackId', n, hn, heq⟩ := hw.account _ hin
        exact ⟨trackId', n, hcounter ▸ Nat.lt_succ_of_lt hn, heq⟩
    · cases subject with
      | account accountId => simpa [World.Has, World.nonceKey, hnew accountId hhas] using hhas
      | _ => exact ⟨hhas, rfl⟩
  | account accountId =>
    obtain ⟨hcounter, hhas, account, haccounts, hexists, htrack⟩ := hstores
    refine ⟨⟨hw.identity, fun accountId' hin => ?_⟩, hconsumes hhas, fun subject hold => ?_⟩
    · simp only [haccounts, Function.update_apply] at hin
      split_ifs at hin with hid
      · exact hcounter ▸ hw.account _ (hid ▸ hhas)
      · exact hcounter ▸ hw.account _ hin
    · cases subject with
      | account accountId' =>
        simp only [World.Has, World.nonceKey, haccounts, Function.update_apply]
        split_ifs with hid
        · exact ⟨hexists, by rw [htrack, hid]⟩
        · exact ⟨hold, rfl⟩
      | _ => exact ⟨hold, rfl⟩
  | _ => exact hstores.elim

omit [Zero A] in
theorem World.checkpointCommand_step {s : CheckpointRegistry.State A B} {c : CheckpointRegistry.Call B}
    {l : List (CheckpointRegistry.Event B)}
    (h : CheckpointRegistry.call evm at_.checkpointRegistry w.identity w.checkpoint b sender c =
      .ok (s, l)) :
    (match c.command evm at_.checkpointRegistry with
      | none => ({ w with checkpoint := s } : World A B).nonce = w.nonce
      | some cmd => w.Consumes { w with checkpoint := s } b cmd) ∧
    ∀ subject, w.Has subject → ({ w with checkpoint := s } : World A B).Has subject ∧
      ({ w with checkpoint := s } : World A B).nonceKey subject = w.nonceKey subject := by
  obtain ⟨⟨hash, checkpoint, hcheckpoints, hexists, htrack⟩, hcommand⟩ :=
    CheckpointRegistry.call_command h
  refine ⟨?_, fun subject hhas => ?_⟩
  · cases hcmd : c.command evm at_.checkpointRegistry with
    | none =>
      rw [hcmd] at hcommand
      funext key
      cases key with
      | checkpoint trackId => exact congrFun hcommand trackId
      | _ => rfl
    | some cmd =>
      rw [hcmd] at hcommand
      obtain ⟨hepoch, hnonce, hsigned, htrackNonce, hnamed⟩ := hcommand
      have hkey : w.nonceKey cmd.subject = .checkpoint (c.trackId w.checkpoint) := by
        cases c with
        | publishCorrection => cases hcmd
        | _ => cases hcmd; rfl
      refine ⟨by rw [hkey]; exact hnonce, by rw [hkey]; exact hepoch, hsigned, ?_, fun key => ?_⟩
      · cases c with
        | publishCorrection => cases hcmd
        | appendCheckpoint => cases hcmd; trivial
        | attachProof => cases hcmd; exact hnamed _ rfl
      · rw [hkey]
        cases key with
        | checkpoint trackId =>
          simp only [World.nonce, htrackNonce, update_succ, NonceKey.checkpoint.injEq]
        | _ => simp [World.nonce]
  · cases subject with
    | checkpoint hash' =>
      simp only [World.Has, World.nonceKey, hcheckpoints, Function.update_apply]
      split_ifs with hid
      · subst hid
        exact ⟨hexists, by rw [htrack hhas]⟩
      · exact ⟨hhas, rfl⟩
    | _ => exact ⟨hhas, rfl⟩

variable [DecidableEq A] {w' : World A B} {tx : Tx A B} {logs : List (World.Event A B)}

/-- Every accepted transaction: the numbering stays, nothing is taken back, and it either is a
signed command that consumes one nonce or leaves every nonce as it was. -/
theorem World.call_step (hk : Function.Injective evm.keccak256) (hw : w.Numbered evm at_)
    (h : World.call evm at_ w tx = .ok (w', logs)) :
    w'.Numbered evm at_ ∧ w.Later w' ∧
    match tx.call.command evm at_ with
    | none => w'.nonce = w.nonce
    | some cmd => w.Consumes w' tx.block cmd := by
  rcases World.call_ok h with ⟨c, s, l, htx, hcall, rfl, -⟩ | ⟨c, s, l, htx, hcall, rfl, -⟩ |
    ⟨c, s, l, htx, hcall, rfl, -⟩
  · rw [htx, World.Call.command]
    cases hcmd : c.command evm at_.identityRegistry with
    | none =>
      cases c with
      | createIdentity =>
        obtain ⟨hnumbered, hnonce, hepoch⟩ := World.createIdentity_step hk hw hcall
        exact ⟨hnumbered, ⟨fun key => by rw [hnonce], fun i => by rw [hepoch], fun _ hhas => ⟨hhas, by
          cases ‹Subject B› <;> rfl⟩⟩, hnonce⟩
      | _ => cases hcmd
    | some cmd =>
      obtain ⟨hnumbered, hconsumes, hepoch⟩ := World.identityCommand_step hw hcmd hcall
      refine ⟨hnumbered, ⟨fun key => ?_, hepoch, fun subject hhas => ⟨?_, ?_⟩⟩, hconsumes⟩
      · rw [hconsumes.next]; exact Nat.le_add_right _ _
      · cases subject <;> exact hhas
      · cases subject <;> rfl
  · obtain ⟨hnumbered, hconsumes, hkept⟩ := World.accountCommand_step hk hw hcall
    rw [htx, World.Call.command]
    refine ⟨hnumbered, ⟨fun key => ?_, fun _ => le_rfl, hkept⟩, hconsumes⟩
    rw [hconsumes.next]; exact Nat.le_add_right _ _
  · obtain ⟨hconsumes, hkept⟩ := World.checkpointCommand_step hcall
    rw [htx, World.Call.command]
    refine ⟨⟨hw.identity, hw.account⟩, ⟨fun key => ?_, fun _ => le_rfl, hkept⟩, hconsumes⟩
    cases hcmd : c.command evm at_.checkpointRegistry with
    | none => rw [hcmd] at hconsumes; rw [hconsumes]
    | some cmd => rw [hcmd] at hconsumes; rw [hconsumes.next]; exact Nat.le_add_right _ _

/-- The same over a run. -/
theorem World.run_later (hk : Function.Injective evm.keccak256) (hw : w.Numbered evm at_)
    (txs : List (Tx A B)) :
    (World.run evm at_ w txs).Numbered evm at_ ∧ w.Later (World.run evm at_ w txs) := by
  refine @run_invariant_all _ _ _ _ (World.call evm at_) (fun w' => w'.Numbered evm at_ ∧ w.Later w')
    (fun s i s' o ⟨hs, hlater⟩ hc => ?_) w txs ⟨hw, .refl w⟩
  obtain ⟨hs', hstep, -⟩ := World.call_step hk hs hc
  exact ⟨hs', hlater.trans hstep⟩

end Steps

section Digests

variable {evm : Evm A B}

theorem Evm.hashTypedDataV4_determines (hk : Function.Injective evm.keccak256)
    {name name' version version' : String} {this this' : A} {h h' : B}
    (heq : evm.hashTypedDataV4 name version this h = evm.hashTypedDataV4 name' version' this' h') :
    name = name' ∧ h = h' := by
  have htyped := hk heq
  simp only [Preimage.typedData.injEq] at htyped
  have hdomain := hk htyped.1
  simp only [Preimage.encode.injEq, List.cons.injEq, Word.bytes32.injEq] at hdomain
  have hname := hk hdomain.2.1
  exact ⟨by simpa using hname, htyped.2⟩

theorem IdentityRegistry.Call.command_of_digest (hk : Function.Injective evm.keccak256) {this : A}
    {c c' : IdentityRegistry.Call A B} {cmd cmd' : SignedCommand B}
    (hc : c.command evm this = some cmd) (hc' : c'.command evm this = some cmd')
    (h : cmd.digest = cmd'.digest) : cmd.subject = cmd'.subject ∧ cmd.nonce = cmd'.nonce := by
  cases c <;> cases c' <;> cases hc <;> cases hc' <;>
    have hargs := hk (Evm.hashTypedDataV4_determines hk h).2 <;>
    simp [CREATE_TRACK_TYPEHASH, PROPOSE_OWNER_ROTATION_TYPEHASH, CONFIRM_OWNER_ROTATION_TYPEHASH,
      hk.eq_iff] at hargs ⊢ <;> tauto

theorem AccountRegistry.Call.command_of_digest (hk : Function.Injective evm.keccak256) {this : A}
    {c c' : AccountRegistry.Call B} (h : (c.command evm this).digest = (c'.command evm this).digest) :
    (c.command evm this).subject = (c'.command evm this).subject ∧
    (c.command evm this).nonce = (c'.command evm this).nonce := by
  cases c <;> cases c' <;>
    have hargs := hk (Evm.hashTypedDataV4_determines hk h).2 <;>
    simp [REGISTER_ACCOUNT_TYPEHASH, ACTIVATE_ACCOUNT_TYPEHASH, REMOVE_ACCOUNT_TYPEHASH,
      ROTATE_BINDING_CREDENTIAL_TYPEHASH, hk.eq_iff, Call.command] at hargs ⊢ <;> tauto

theorem CheckpointRegistry.Call.command_of_digest (hk : Function.Injective evm.keccak256) {this : A}
    {c c' : CheckpointRegistry.Call B} {cmd cmd' : SignedCommand B}
    (hc : c.command evm this = some cmd) (hc' : c'.command evm this = some cmd')
    (h : cmd.digest = cmd'.digest) : cmd.subject = cmd'.subject ∧ cmd.nonce = cmd'.nonce := by
  cases c <;> cases c' <;> cases hc <;> cases hc' <;>
    have hargs := hk (Evm.hashTypedDataV4_determines hk h).2 <;>
    simp [APPEND_CHECKPOINT_TYPEHASH, ATTACH_PROOF_TYPEHASH, hk.eq_iff] at hargs ⊢ <;> tauto

/-- The name in the signing domain of the registry that is called. -/
def World.Call.domainName : World.Call A B → String
  | .identity _ => "LinvestherZK-IdentityRegistry"
  | .account _ => "LinvestherZK-AccountRegistry"
  | .checkpoint _ => "LinvestherZK-CheckpointRegistry"

theorem World.Call.command_domainName {at_ : Deployment A} {c : World.Call A B}
    {cmd : SignedCommand B} (hc : c.command evm at_ = some cmd) :
    ∃ this h, cmd.digest = evm.hashTypedDataV4 c.domainName "1" this h := by
  rcases c with c | c | c
  · cases c <;> cases hc <;> exact ⟨_, _, rfl⟩
  · cases c <;> cases hc <;> exact ⟨_, _, rfl⟩
  · cases c <;> cases hc <;> exact ⟨_, _, rfl⟩

/-- The digest of a command tells what it names and its nonce, whichever registry it is for. -/
theorem World.Call.command_of_digest (hk : Function.Injective evm.keccak256) {at_ : Deployment A}
    {c c' : World.Call A B} {cmd cmd' : SignedCommand B} (hc : c.command evm at_ = some cmd)
    (hc' : c'.command evm at_ = some cmd') (h : cmd.digest = cmd'.digest) :
    cmd.subject = cmd'.subject ∧ cmd.nonce = cmd'.nonce := by
  obtain ⟨this, hash, hdigest⟩ := command_domainName hc
  obtain ⟨this', hash', hdigest'⟩ := command_domainName hc'
  have hname : c.domainName = c'.domainName :=
    (Evm.hashTypedDataV4_determines hk (hdigest.symm.trans (h.trans hdigest'))).1
  rcases c with c | c | c <;> rcases c' with c' | c' | c'
  case identity.identity => exact IdentityRegistry.Call.command_of_digest hk hc hc' h
  case account.account =>
    cases hc
    cases hc'
    exact AccountRegistry.Call.command_of_digest hk h
  case checkpoint.checkpoint => exact CheckpointRegistry.Call.command_of_digest hk hc hc' h
  all_goals simp [domainName] at hname

end Digests

section Runs

variable [DecidableEq A] [DecidableEq B] [Zero A] [Zero B] (evm : Evm A B) (at_ : Deployment A)

/-- The nonces of the accepted commands of one sequence, in the order they were accepted. -/
def noncesOf (key : NonceKey B)
    (accepted : List (Accepted (World A B) (Tx A B) (List (World.Event A B)))) : List ℕ :=
  accepted.filterMap fun a =>
    ((a.input.call.command evm at_).filter (a.pre.nonceKey ·.subject = key)).map (·.nonce)

/-- Signatures cannot be forged, from one block of the run to another either. -/
def SignaturesUnforgeable (txs : List (Tx A B)) : Prop :=
  ∀ tx ∈ txs, ∀ tx' ∈ txs, ∀ signer signer' digest digest' signature,
    tx.block.isValidSignatureNow signer digest signature = true →
    tx'.block.isValidSignatureNow signer' digest' signature = true → digest = digest'

/-- The identity whose rotation a transaction confirms. -/
def Tx.confirms (tx : Tx A B) : Option B :=
  match tx.call with
  | .identity c => c.confirms
  | _ => none

variable {evm at_}

theorem nonces_range (hk : Function.Injective evm.keccak256) (txs : List (Tx A B))
    (key : NonceKey B) :
    noncesOf evm at_ key (World.accepted evm at_ .init txs) =
      List.range (noncesOf evm at_ key (World.accepted evm at_ .init txs)).length := by
  rw [List.range_eq_range']
  have hzero : (World.init : World A B).nonce key = 0 := by cases key <;> rfl
  rw [← hzero]
  refine @accepted_numbers _ _ _ _ (World.call evm at_) (fun w => w.Numbered evm at_)
    (fun w => w.nonce key) _ (fun w tx w' logs hw hcall => ?_) _ txs (World.init_numbered evm at_)
  obtain ⟨hw', -, hcommand⟩ := World.call_step hk hw hcall
  refine ⟨hw', ?_⟩
  cases hcmd : tx.call.command evm at_ with
  | none => rw [hcmd] at hcommand; exact .inl ⟨rfl, congrFun hcommand key⟩
  | some cmd =>
    rw [hcmd] at hcommand
    by_cases hkey : w.nonceKey cmd.subject = key
    · refine .inr ⟨?_, ?_⟩
      · simp [Option.filter, hkey, hcommand.nonce]
      · rw [hcommand.next, if_pos hkey]
    · refine .inl ⟨by simp [Option.filter, hkey], ?_⟩
      rw [hcommand.next, if_neg hkey]; rfl

/-- The next accepted transaction that is a command consumed its nonce. -/
theorem World.accepted_consumes (hk : Function.Injective evm.keccak256) {w : World A B}
    (hw : w.Numbered evm at_) {txs : List (Tx A B)}
    {a : Accepted (World A B) (Tx A B) (List (World.Event A B))}
    (ha : a ∈ World.accepted evm at_ w txs) :
    w.Later a.pre ∧ a.input ∈ txs ∧ ∀ cmd, a.input.call.command evm at_ = some cmd →
      ∃ w', a.pre.Consumes w' a.input.block cmd := by
  obtain ⟨as, bs, w', rfl, hrun, hcall⟩ := mem_accepted ha
  obtain ⟨hnumbered, hlater⟩ := World.run_later hk hw as
  rw [World.run, hrun] at hnumbered hlater
  obtain ⟨-, -, hcommand⟩ := World.call_step hk hnumbered hcall
  refine ⟨hlater, by simp, fun cmd hcmd => ⟨w', ?_⟩⟩
  rw [hcmd] at hcommand
  exact hcommand

theorem digests_distinct (hk : Function.Injective evm.keccak256) (txs : List (Tx A B)) :
    (World.accepted evm at_ .init txs).Pairwise fun a a' => ∀ cmd cmd',
      a.input.call.command evm at_ = some cmd → a'.input.call.command evm at_ = some cmd' →
      cmd.digest ≠ cmd'.digest := by
  refine @accepted_pairwise _ _ _ _ (World.call evm at_) (fun w => w.Numbered evm at_) _
    (fun w tx w' logs hw hcall => ?_) _ txs (World.init_numbered evm at_)
  obtain ⟨hw', hlater, hcommand⟩ := World.call_step hk hw hcall
  refine ⟨hw', fun txs' a' ha' cmd cmd' hcmd hcmd' hdigest => ?_⟩
  obtain ⟨hlater', -, hconsumed⟩ := World.accepted_consumes hk hw' ha'
  obtain ⟨w'', hconsumed⟩ := hconsumed cmd' hcmd'
  rw [hcmd] at hcommand
  obtain ⟨hsubject, hnonce⟩ := World.Call.command_of_digest hk hcmd hcmd' hdigest
  -- What the command names is on the same track later, where the nonce has moved on.
  have hkey : a'.pre.nonceKey cmd'.subject = w.nonceKey cmd.subject := by
    rw [← hsubject]
    exact ((hlater.trans hlater').has _ hcommand.has).2
  have hgrown := hlater'.nonce (w.nonceKey cmd.subject)
  rw [hcommand.next, if_pos rfl, ← hcommand.nonce, ← hkey, ← hconsumed.nonce] at hgrown
  omega

theorem epochs_grow (hk : Function.Injective evm.keccak256) (txs : List (Tx A B)) :
    (World.accepted evm at_ .init txs).Pairwise fun a a' => ∀ identityId cmd cmd',
      a.input.confirms = some identityId → a.input.call.command evm at_ = some cmd →
      a'.input.call.command evm at_ = some cmd' →
      a'.pre.identityOf (a'.pre.nonceKey cmd'.subject) = identityId →
      cmd.ownerEpoch < cmd'.ownerEpoch := by
  refine @accepted_pairwise _ _ _ _ (World.call evm at_) (fun w => w.Numbered evm at_) _
    (fun w tx w' logs hw hcall => ?_) _ txs (World.init_numbered evm at_)
  obtain ⟨hw', hlater, -⟩ := World.call_step hk hw hcall
  refine ⟨hw', fun txs' a' ha' identityId cmd cmd' hconfirms hcmd hcmd' hidentity => ?_⟩
  obtain ⟨hlater', -, hconsumed⟩ := World.accepted_consumes hk hw' ha'
  obtain ⟨w'', hconsumed⟩ := hconsumed cmd' hcmd'
  have hraised : w'.ownerEpoch identityId = cmd.ownerEpoch + 1 := by
    rcases World.call_ok hcall with ⟨c, s, l, htx, hc, rfl, -⟩ | ⟨c, s, l, htx, -⟩ |
      ⟨c, s, l, htx, -⟩
    · simp only [Tx.confirms, htx] at hconfirms
      simp only [htx, World.Call.command] at hcmd
      obtain ⟨i, identity', hsubject, -, -, -, -, -, hidentities, -, hepoch⟩ :=
        IdentityRegistry.call_command hcmd hc
      obtain rfl : i = identityId := by
        cases c with
        | confirmOwnerRotation => cases hconfirms; cases hcmd; cases hsubject; rfl
        | _ => cases hconfirms
      simp [World.ownerEpoch, hidentities, hepoch, hconfirms]
    · simp [Tx.confirms, htx] at hconfirms
    · simp [Tx.confirms, htx] at hconfirms
  have hgrown := hlater'.ownerEpoch identityId
  rw [hraised, ← hidentity, ← hconsumed.ownerEpoch] at hgrown
  omega

/-- Over every run: the accepted commands of an identity, and of a track in either registry, carry
the nonces 0, 1, 2, …; no digest is accepted twice, nor a signature where signatures cannot be
forged; every accepted command carries the current epoch of its identity; and what is accepted after
an owner rotation carries a later epoch than the rotation itself did. -/
theorem replay_and_epoch_safety (hk : Function.Injective evm.keccak256) (txs : List (Tx A B)) :
    let accepted := World.accepted evm at_ .init txs
    (∀ key, noncesOf evm at_ key accepted = List.range (noncesOf evm at_ key accepted).length) ∧
    accepted.Pairwise (fun a a' => ∀ cmd cmd', a.input.call.command evm at_ = some cmd →
      a'.input.call.command evm at_ = some cmd' → cmd.digest ≠ cmd'.digest ∧
        (SignaturesUnforgeable txs → cmd.signature ≠ cmd'.signature)) ∧
    (∀ a ∈ accepted, ∀ cmd, a.input.call.command evm at_ = some cmd →
      cmd.ownerEpoch = a.pre.ownerEpoch (a.pre.identityOf (a.pre.nonceKey cmd.subject))) ∧
    accepted.Pairwise fun a a' => ∀ identityId cmd cmd',
      a.input.confirms = some identityId → a.input.call.command evm at_ = some cmd →
      a'.input.call.command evm at_ = some cmd' →
      a'.pre.identityOf (a'.pre.nonceKey cmd'.subject) = identityId →
      cmd.ownerEpoch < cmd'.ownerEpoch := by
  intro accepted
  have hinit := World.init_numbered (A := A) (B := B) evm at_
  refine ⟨nonces_range hk txs, ?_, fun a ha cmd hcmd => ?_, epochs_grow hk txs⟩
  · refine (digests_distinct hk txs).imp_of_mem fun {a a'} ha ha' hne cmd cmd' hcmd hcmd' => ?_
    refine ⟨hne cmd cmd' hcmd hcmd', fun hsig heq => hne cmd cmd' hcmd hcmd' ?_⟩
    obtain ⟨-, hmem, hconsumed⟩ := World.accepted_consumes hk hinit ha
    obtain ⟨-, hmem', hconsumed'⟩ := World.accepted_consumes hk hinit ha'
    obtain ⟨w, hconsumed⟩ := hconsumed cmd hcmd
    obtain ⟨w', hconsumed'⟩ := hconsumed' cmd' hcmd'
    obtain ⟨signer, hvalid⟩ := hconsumed.signed
    obtain ⟨signer', hvalid'⟩ := hconsumed'.signed
    exact hsig _ hmem _ hmem' _ _ _ _ _ hvalid (heq ▸ hvalid')
  · obtain ⟨-, -, hconsumed⟩ := World.accepted_consumes hk hinit ha
    obtain ⟨w, hconsumed⟩ := hconsumed cmd hcmd
    exact hconsumed.ownerEpoch

end Runs

section Rotation

/-- A transaction whose command the signer has signed. -/
def signedBy (signer : ℕ) (c : World.Call ℕ Symbol) : Tx ℕ Symbol where
  block := match c.command Symbol.evm exampleDeployment with
    | some cmd => .signed 10 signer cmd.digest cmd.signature
    | none => .signed 10 0 0 []
  sender := 7
  call := c

/-- The owner 7 creates an identity and a track and hands them to 8, who registers an account. -/
def exampleRotation : List (Tx ℕ Symbol) :=
  [signedBy 7 (.identity (.createIdentity .person)),
   signedBy 7 (.identity (.createTrack exampleIdentity 0 0 0 0 20 [1])),
   signedBy 7 (.identity (.proposeOwnerRotation exampleIdentity 8 0 1 20 [2])),
   signedBy 8 (.identity (.confirmOwnerRotation exampleIdentity 8 0 2 20 [3])),
   signedBy 8 (.account (.registerAccount exampleTrack 0 0 .production 1 0 20 [4]))]

theorem replay_and_epoch_safety_rotation :
    let accepted := World.accepted Symbol.evm exampleDeployment .init exampleRotation
    accepted.length = 5 ∧
    noncesOf Symbol.evm exampleDeployment (.identity exampleIdentity) accepted = [0, 1, 2] ∧
    noncesOf Symbol.evm exampleDeployment (.account exampleTrack) accepted = [0] := by
  intro accepted
  obtain ⟨hnonces, -⟩ := @replay_and_epoch_safety _ _ _ _ _ _ Symbol.evm exampleDeployment
    Symbol.keccak256_injective exampleRotation
  have hidentity : (noncesOf Symbol.evm exampleDeployment (.identity exampleIdentity)
      accepted).length = 3 := by decide +kernel
  have htrack : (noncesOf Symbol.evm exampleDeployment (.account exampleTrack)
      accepted).length = 1 := by decide +kernel
  refine ⟨by decide +kernel, ?_, ?_⟩
  · rw [hnonces, hidentity]; rfl
  · rw [hnonces, htrack]; rfl

end Rotation

end Linvesther
