import Linvesther.ChainWorker.ProjectionReplay
import Linvesther.Contracts.CommandReplay

/-! The projection against the contracts: folded in block and log order, the events of a run leave the rows
that the storage says, whatever the order of the calls. -/

namespace Linvesther

open Transaction

variable {A B : Type}

section Emits

variable [DecidableEq A] [DecidableEq B] [Zero A] {evm : Evm A B} {this : A} {b : Block A B}

omit [DecidableEq A] in
theorem IdentityRegistry.createIdentity_emits {s s' : State A B} {sender : A}
    {identityType : IdentityType} {logs : List (Event A B)}
    (h : createIdentity evm this s b sender identityType = .ok (s', logs)) :
    let identityId := evm.keccak256 (.encodePacked [.uint evm.chainid, .address this, .address sender,
      .uint s.identityCounter])
    s' = { s with
      identityCounter := s.identityCounter + 1
      identities := Function.update s.identities identityId
        { owner := sender, pendingOwner := 0, createdAt := b.timestamp64, ownerEpoch := 0, nonce := 0,
          identityType, exists_ := true } } ∧
    logs = [.identityCreated identityId sender identityType b.timestamp64] := by
  simp only [createIdentity, bind_ok, checkedAdd_ok, pure_ok, Prod.mk.injEq] at h
  obtain ⟨counter, ⟨-, rfl⟩, rfl, rfl⟩ := h
  exact ⟨rfl, rfl⟩

omit [DecidableEq A] [Zero A] in
/-- What a new track writes and says. -/
theorem IdentityRegistry.createTrack_emits {s s' : State A B} {logs : List (Event A B)}
    {identityId financialProfileId denominationCommitment : B} {ownerEpoch nonce deadline : ℕ}
    {signature : Bytes}
    (h : createTrack evm this s b identityId financialProfileId denominationCommitment ownerEpoch nonce
      deadline signature = .ok (s', logs)) :
    let trackId := evm.keccak256 (.encodePacked [.uint evm.chainid, .address this, .bytes32 identityId,
      .uint s.trackCounter])
    (s.identities identityId).exists_ = true ∧ (s.identities identityId).nonce + 1 < 2 ^ 64 ∧
    s' = { s with
      identities := Function.update s.identities identityId
        { s.identities identityId with nonce := (s.identities identityId).nonce + 1 }
      trackCounter := s.trackCounter + 1
      tracks := Function.update s.tracks trackId
        { identityId, financialProfileId, denominationCommitment, createdAt := b.timestamp64,
          exists_ := true } } ∧
    logs = [.trackCreated identityId trackId financialProfileId denominationCommitment] := by
  simp only [createTrack, requireIdentity, consumeOwnerCommand, bind_ok, revertIf_ok, checkedAdd_ok,
    pure_ok, Prod.mk.injEq] at h
  obtain ⟨_, ⟨-, hexists, rfl⟩, _, ⟨-, -, -, -, -, -, -, -, next, ⟨hnext, rfl⟩, rfl⟩, counter, ⟨-, rfl⟩,
    rfl, rfl⟩ := h
  exact ⟨by simpa using hexists, hnext, rfl, rfl⟩

theorem IdentityRegistry.proposeOwnerRotation_emits {s s' : State A B} {logs : List (Event A B)}
    {identityId : B} {newOwner : A} {ownerEpoch nonce deadline : ℕ} {signature : Bytes}
    (h : proposeOwnerRotation evm this s b identityId newOwner ownerEpoch nonce deadline signature =
      .ok (s', logs)) :
    newOwner ≠ 0 ∧ (s.identities identityId).nonce + 1 < 2 ^ 64 ∧
    s' = { s with
      identities := Function.update s.identities identityId
        { s.identities identityId with
          nonce := (s.identities identityId).nonce + 1, pendingOwner := newOwner } } ∧
    logs = [.ownerRotationProposed identityId (s.identities identityId).owner newOwner
      (s.identities identityId).ownerEpoch] := by
  simp only [proposeOwnerRotation, requireIdentity, consumeOwnerCommand, bind_ok, revertIf_ok,
    checkedAdd_ok, pure_ok, Prod.mk.injEq] at h
  obtain ⟨-, hzero, _, ⟨-, -, rfl⟩, -, -, _, ⟨-, -, -, -, -, -, -, -, next, ⟨hnext, rfl⟩, rfl⟩, rfl,
    rfl⟩ := h
  exact ⟨hzero, hnext, rfl, rfl⟩

theorem IdentityRegistry.confirmOwnerRotation_emits {s s' : State A B} {logs : List (Event A B)}
    {identityId : B} {newOwner : A} {ownerEpoch nonce deadline : ℕ} {signature : Bytes}
    (h : confirmOwnerRotation evm this s b identityId newOwner ownerEpoch nonce deadline signature =
      .ok (s', logs)) :
    (s.identities identityId).pendingOwner ≠ 0 ∧ (s.identities identityId).nonce + 1 < 2 ^ 64 ∧
    s' = { s with
      identities := Function.update s.identities identityId
        { s.identities identityId with
          nonce := (s.identities identityId).nonce + 1, owner := newOwner, pendingOwner := 0
          ownerEpoch := (s.identities identityId).ownerEpoch + 1 } } ∧
    logs = [.ownerRotated identityId (s.identities identityId).owner newOwner
      ((s.identities identityId).ownerEpoch + 1)] := by
  simp only [confirmOwnerRotation, requireIdentity, consumeOwnerCommand, bind_ok, revertIf_ok,
    checkedAdd_ok, pure_ok, Prod.mk.injEq] at h
  obtain ⟨_, ⟨-, -, rfl⟩, -, hzero, -, -, _, ⟨-, -, -, -, -, -, -, -, next, ⟨hnext, rfl⟩, rfl⟩, epoch,
    ⟨-, rfl⟩, rfl, rfl⟩ := h
  exact ⟨hzero, hnext, rfl, rfl⟩

variable [Zero B] {identityRegistry : IdentityRegistry.State A B}

omit [DecidableEq A] [Zero A] [Zero B] in
theorem AccountRegistry.registerAccount_emits {s s' : State B} {logs : List (Event B)}
    {trackId venueId authenticatedIdCommitment : B} {environment : Environment}
    {ownerEpoch nonce deadline : ℕ} {signature : Bytes}
    (h : registerAccount evm this identityRegistry s b trackId venueId authenticatedIdCommitment
      environment ownerEpoch nonce deadline signature = .ok (s', logs)) :
    let accountId := evm.keccak256 (.encodePacked [.uint evm.chainid, .address this, .bytes32 trackId,
      .uint s.accountCounter])
    (identityRegistry.tracks trackId).exists_ = true ∧
    s'.accounts = Function.update s.accounts accountId
      { trackId, venueId, authenticatedIdCommitment, environment, registeredAt := b.timestamp64,
        eligibleFrom := 0, removedAt := 0, bindingEpoch := 0, state := .pendingBaseline,
        exists_ := true } ∧
    logs = [.accountRegistered trackId accountId venueId environment b.timestamp64] := by
  simp only [registerAccount, requireTrackOwner, bind_ok, revertIf_ok, checkedAdd_ok, pure_ok,
    Prod.mk.injEq] at h
  obtain ⟨_, ⟨-, htrack, rfl⟩, s₁, hconsumed, counter, ⟨-, rfl⟩, rfl, rfl⟩ := h
  obtain ⟨-, -, -, -, rfl⟩ := consumeCommand_ok hconsumed
  exact ⟨by simpa using htrack, rfl, rfl⟩

omit [DecidableEq A] [Zero A] in
theorem AccountRegistry.activateAccount_emits {s s' : State B} {logs : List (Event B)} {accountId : B}
    {eligibleFrom : ℕ} {reasonHash : B} {ownerEpoch nonce deadline : ℕ} {signature : Bytes}
    (h : activateAccount evm this identityRegistry s b accountId eligibleFrom reasonHash ownerEpoch nonce
      deadline signature = .ok (s', logs)) :
    s'.accounts = Function.update s.accounts accountId
      { s.accounts accountId with state := .active, eligibleFrom } ∧
    ∃ epochIndex root previousRoot effectiveFrom,
      logs = [.accountActivated (s.accounts accountId).trackId accountId eligibleFrom reasonHash,
        .membershipChanged (s.accounts accountId).trackId epochIndex root previousRoot effectiveFrom] := by
  simp only [activateAccount, requireAccount, bind_ok, revertIf_ok, pure_ok, Prod.mk.injEq] at h
  obtain ⟨_, ⟨-, -, rfl⟩, -, -, -, -, owner, -, s₁, hconsumed, rfl, rfl⟩ := h
  obtain ⟨-, -, -, -, rfl⟩ := consumeCommand_ok hconsumed
  exact ⟨rfl, _, _, _, _, rfl⟩

omit [DecidableEq A] [Zero A] in
theorem AccountRegistry.removeAccount_emits {s s' : State B} {logs : List (Event B)}
    {accountId reasonHash : B} {ownerEpoch nonce deadline : ℕ} {signature : Bytes}
    (h : removeAccount evm this identityRegistry s b accountId reasonHash ownerEpoch nonce deadline
      signature = .ok (s', logs)) :
    s'.accounts = Function.update s.accounts accountId
      { s.accounts accountId with state := .removed, removedAt := b.timestamp64 } ∧
    (logs = [.accountRemoved (s.accounts accountId).trackId accountId b.timestamp64 reasonHash] ∨
      ∃ epochIndex root previousRoot effectiveFrom,
        logs = [.accountRemoved (s.accounts accountId).trackId accountId b.timestamp64 reasonHash,
          .membershipChanged (s.accounts accountId).trackId epochIndex root previousRoot
            effectiveFrom]) := by
  simp only [removeAccount, requireAccount, bind_ok, revertIf_ok, pure_ok] at h
  obtain ⟨_, ⟨-, -, rfl⟩, -, -, owner, -, s₁, hconsumed, h⟩ := h
  obtain ⟨-, -, -, -, rfl⟩ := consumeCommand_ok hconsumed
  split_ifs at h with hactive
  · simp only [bind_ok, pure_ok, Prod.mk.injEq] at h
    obtain ⟨members, -, rfl, rfl⟩ := h
    exact ⟨rfl, .inr ⟨_, _, _, _, rfl⟩⟩
  · simp only [pure_ok, Prod.mk.injEq] at h
    obtain ⟨rfl, rfl⟩ := h
    exact ⟨rfl, .inl rfl⟩

omit [DecidableEq A] [Zero A] [Zero B] in
theorem AccountRegistry.rotateBindingCredential_emits {s s' : State B} {logs : List (Event B)}
    {accountId newAuthenticatedIdCommitment : B} {ownerEpoch nonce deadline : ℕ} {signature : Bytes}
    (h : rotateBindingCredential evm this identityRegistry s b accountId newAuthenticatedIdCommitment
      ownerEpoch nonce deadline signature = .ok (s', logs)) :
    s'.accounts = Function.update s.accounts accountId
      { s.accounts accountId with
        authenticatedIdCommitment := newAuthenticatedIdCommitment
        bindingEpoch := (s.accounts accountId).bindingEpoch + 1 } ∧
    logs = [.bindingCredentialRotated accountId ((s.accounts accountId).bindingEpoch + 1)] := by
  simp only [rotateBindingCredential, requireAccount, bind_ok, revertIf_ok, checkedAdd_ok, pure_ok,
    Prod.mk.injEq] at h
  obtain ⟨_, ⟨-, -, rfl⟩, -, -, owner, -, s₁, hconsumed, epoch, ⟨-, rfl⟩, rfl, rfl⟩ := h
  obtain ⟨-, -, -, -, rfl⟩ := consumeCommand_ok hconsumed
  exact ⟨rfl, rfl⟩

end Emits

namespace ChainWorker

section Relation

/-- The row shows what the registry holds of an identity. -/
structure IdentityRow.Shows [DecidableEq A] [Zero A] (row : IdentityRow A)
    (identity : IdentityRegistry.Identity A) : Prop where
  owner : row.owner = identity.owner
  pendingOwner : row.pendingOwner =
    if identity.pendingOwner = 0 then none else some identity.pendingOwner
  ownerEpoch : row.ownerEpoch = identity.ownerEpoch
  state : row.state = .active ↔ 0 < identity.ownerEpoch

structure TrackRow.Shows (row : TrackRow B) (track : IdentityRegistry.Track B) : Prop where
  identityId : row.identityId = track.identityId
  financialProfileId : row.financialProfileId = track.financialProfileId
  denominationCommitment : row.denominationCommitment = track.denominationCommitment

structure AccountRow.Shows (row : AccountRow B) (account : AccountRegistry.AccountBinding B) : Prop where
  trackId : row.trackId = account.trackId
  venueId : row.venueId = account.venueId
  state : row.state = account.state

/-- A table has a row just for the slots in use, and it shows the slot. -/
def Mirrors {V R : Type} (used : V → Bool) (shows_ : R → V → Prop) (storage : Mapping B V)
    (table : B → Option R) : Prop :=
  ∀ key, (table key).isSome = used (storage key) ∧ ∀ row ∈ table key, shows_ row (storage key)

structure Projection.Shows [DecidableEq A] [Zero A] (p : Projection A B) (w : World A B) : Prop where
  identities : Mirrors (·.exists_) IdentityRow.Shows w.identity.identities p.identities
  tracks : Mirrors (·.exists_) TrackRow.Shows w.identity.tracks p.tracks
  accounts : Mirrors (·.exists_) AccountRow.Shows w.account.accounts p.accounts

variable [DecidableEq B] {V R : Type} {used : V → Bool} {shows_ : R → V → Prop} {storage : Mapping B V}
  {table : B → Option R}

omit [DecidableEq B] in
theorem Mirrors.row_eq_none (h : Mirrors used shows_ storage table) (id : B) :
    table id = none ↔ used (storage id) = false := by
  rw [← (h id).1, Option.isSome_eq_false_iff, Option.isNone_iff_eq_none]

/-- A slot that was free and the row inserted for it. -/
theorem Mirrors.insert (h : Mirrors used shows_ storage table) {id : B} {v : V} {row : R}
    (hfree : used (storage id) = false) (hused : used v = true) (hshows : shows_ row v) :
    Mirrors used shows_ (Function.update storage id v) (insertRow table id row) := by
  intro key
  rw [insertRow_apply, Function.update_apply]
  by_cases hkey : key = id
  · subst hkey
    rw [if_pos rfl, if_pos rfl, (h.row_eq_none key).2 hfree]
    refine ⟨hused.symm, fun row' hrow => ?_⟩
    obtain rfl := Option.some.inj hrow
    exact hshows
  · rw [if_neg hkey, if_neg (Ne.symm hkey)]
    exact h key

/-- A slot that is written and its row updated with it. -/
theorem Mirrors.update (h : Mirrors used shows_ storage table) {id : B} {v : V} {f : R → R}
    (hused : used v = used (storage id)) (hshows : ∀ row, shows_ row (storage id) → shows_ (f row) v) :
    Mirrors used shows_ (Function.update storage id v) (updateRow table id f) := by
  intro key
  rw [updateRow_apply, Function.update_apply]
  by_cases hkey : key = id
  · subst hkey
    rw [if_pos rfl, if_pos rfl, Option.isSome_map, hused]
    refine ⟨(h key).1, fun row' hrow => ?_⟩
    obtain ⟨row, hmem, rfl⟩ := Option.map_eq_some_iff.1 hrow
    exact hshows row ((h key).2 row hmem)
  · rw [if_neg hkey, if_neg (Ne.symm hkey)]
    exact h key

/-- A slot that is written in a part its row does not show. -/
theorem Mirrors.keep (h : Mirrors used shows_ storage table) {id : B} {v : V}
    (hused : used v = used (storage id)) (hshows : ∀ row, shows_ row (storage id) → shows_ row v) :
    Mirrors used shows_ (Function.update storage id v) table := by
  intro key
  rw [Function.update_apply]
  by_cases hkey : key = id
  · subst hkey
    rw [if_pos rfl, hused]
    exact ⟨(h key).1, fun row hmem => hshows row ((h key).2 row hmem)⟩
  · rw [if_neg hkey]
    exact h key

end Relation

section Steps

variable [DecidableEq A] [DecidableEq B] [Zero A] [Zero B] {evm : Evm A B} {at_ : Deployment A}
  {w : World A B} {b : Block A B} {sender : A} {number : ℕ} {p : Projection A B}

/-- A proposal and a confirmation take a nonce each, so the epoch stays below half the nonce. -/
structure EpochFits (identity : IdentityRegistry.Identity A) : Prop where
  epoch_le : 2 * identity.ownerEpoch + (if identity.pendingOwner = 0 then 0 else 1) ≤ identity.nonce
  nonce_lt : identity.nonce < 2 ^ 64

/-- What the rows rest on: tracks sit under hashes of their numbers, as identities and accounts do, and
epochs fit their column. -/
structure Projectable (evm : Evm A B) (at_ : Deployment A) (w : World A B) : Prop where
  numbered : w.Numbered evm at_
  tracks : ∀ trackId, (w.identity.tracks trackId).exists_ = true → ∃ identityId n,
    n < w.identity.trackCounter ∧ trackId = evm.keccak256 (.encodePacked
      [.uint evm.chainid, .address at_.identityRegistry, .bytes32 identityId, .uint n])
  epochs : ∀ identityId, EpochFits (w.identity.identities identityId)

omit [DecidableEq B] in
theorem projectable_init : Projectable evm at_ (World.init : World A B) :=
  ⟨World.init_numbered evm at_, fun _ h => (by cases h), fun _ => ⟨by simp [World.init, IdentityRegistry.State.init,
    IdentityRegistry.noIdentity], by simp [World.init, IdentityRegistry.State.init,
    IdentityRegistry.noIdentity]⟩⟩

omit [DecidableEq B] in
theorem shows_init : (Projection.empty : Projection A B).Shows World.init :=
  ⟨fun _ => ⟨rfl, by simp [Projection.empty]⟩, fun _ => ⟨rfl, by simp [Projection.empty]⟩,
    fun _ => ⟨rfl, by simp [Projection.empty]⟩⟩

omit [DecidableEq A] [Zero A] [Zero B] in
theorem applyEvents_singleton (event : DomainEvent A B) (number : ℕ) (p : Projection A B) :
    applyEvents [event] number p = applyEvent event number p := by
  rw [applyEvents, List.foldlM_cons]
  cases applyEvent event number p <;> rfl

omit [Zero B] in
/-- The epochs of the other identities are not touched. -/
theorem epochs_update {identities : Mapping B (IdentityRegistry.Identity A)} {identityId : B}
    {identity : IdentityRegistry.Identity A} (h : ∀ i, EpochFits (identities i))
    (hnew : EpochFits identity) : ∀ i, EpochFits (Function.update identities identityId identity i) := by
  intro i
  rw [Function.update_apply]
  split_ifs
  · exact hnew
  · exact h i

/-- The events of a call take the rows along with the storage. -/
def Follows (number : ℕ) (p : Projection A B) (w' : World A B) (logs : List (World.Event A B)) : Prop :=
  ∃ p', applyEvents (logs.filterMap decodeDomainEvent) number p = .ok p' ∧ p'.Shows w'

omit [DecidableEq A] [DecidableEq B] [Zero B] in
theorem fresh_identity (hk : Function.Injective evm.keccak256) (hw : w.Numbered evm at_) (sender : A) :
    (w.identity.identities (evm.keccak256 (.encodePacked [.uint evm.chainid,
      .address at_.identityRegistry, .address sender, .uint w.identity.identityCounter]))).exists_ =
      false := by
  rcases hw.identity (evm.keccak256 (.encodePacked [.uint evm.chainid, .address at_.identityRegistry,
    .address sender, .uint w.identity.identityCounter])) with hnone | ⟨sender', n, hn, heq⟩
  · rw [hnone]
    rfl
  · have hargs := hk heq
    simp only [Preimage.encodePacked.injEq, List.cons.injEq, Word.uint.injEq] at hargs
    omega

omit [DecidableEq B] [Zero B] in
theorem fresh_track (hk : Function.Injective evm.keccak256) (hw : Projectable evm at_ w) (identityId : B) :
    (w.identity.tracks (evm.keccak256 (.encodePacked [.uint evm.chainid, .address at_.identityRegistry,
      .bytes32 identityId, .uint w.identity.trackCounter]))).exists_ = false := by
  by_contra hexists
  rw [Bool.not_eq_false] at hexists
  obtain ⟨identityId', n, hn, heq⟩ := hw.tracks _ hexists
  have hargs := hk heq
  simp only [Preimage.encodePacked.injEq, List.cons.injEq, Word.uint.injEq] at hargs
  omega

omit [DecidableEq A] [DecidableEq B] [Zero B] in
theorem fresh_account (hk : Function.Injective evm.keccak256) (hw : w.Numbered evm at_) (trackId : B) :
    (w.account.accounts (evm.keccak256 (.encodePacked [.uint evm.chainid, .address at_.accountRegistry,
      .bytes32 trackId, .uint w.account.accountCounter]))).exists_ = false := by
  by_contra hexists
  rw [Bool.not_eq_false] at hexists
  obtain ⟨trackId', n, hn, heq⟩ := hw.account _ hexists
  have hargs := hk heq
  simp only [Preimage.encodePacked.injEq, List.cons.injEq, Word.uint.injEq] at hargs
  omega

omit [Zero B] in
theorem createIdentity_follows (hk : Function.Injective evm.keccak256) (hw : Projectable evm at_ w)
    (hp : p.Shows w) {s : IdentityRegistry.State A B} {identityType : IdentityRegistry.IdentityType}
    {l : List (IdentityRegistry.Event A B)}
    (h : IdentityRegistry.createIdentity evm at_.identityRegistry w.identity b sender identityType =
      .ok (s, l)) :
    (∀ i, EpochFits (s.identities i)) ∧
      Follows number p { w with identity := s } (l.map World.Event.identity) := by
  obtain ⟨rfl, rfl⟩ := IdentityRegistry.createIdentity_emits h
  have hfree := fresh_identity hk hw.numbered sender
  refine ⟨epochs_update hw.epochs ⟨by simp, by simp⟩, _, applyEvents_singleton _ _ _, ?_, hp.tracks,
    hp.accounts⟩
  exact hp.identities.insert hfree rfl ⟨rfl, by simp, rfl, by simp⟩

omit [Zero B] in
theorem createTrack_follows (hk : Function.Injective evm.keccak256) (hw : Projectable evm at_ w)
    (hp : p.Shows w) {s : IdentityRegistry.State A B}
    {identityId financialProfileId denominationCommitment : B} {ownerEpoch nonce deadline : ℕ}
    {signature : Bytes} {l : List (IdentityRegistry.Event A B)}
    (h : IdentityRegistry.createTrack evm at_.identityRegistry w.identity b identityId financialProfileId
      denominationCommitment ownerEpoch nonce deadline signature = .ok (s, l)) :
    (∀ i, EpochFits (s.identities i)) ∧
      Follows number p { w with identity := s } (l.map World.Event.identity) := by
  obtain ⟨hexists, hnonce, rfl, rfl⟩ := IdentityRegistry.createTrack_emits h
  have hfree := fresh_track hk hw identityId
  have hfits := hw.epochs identityId
  have hrow : p.identities identityId ≠ none := by
    intro hnone
    rw [hp.identities.row_eq_none] at hnone
    rw [hnone] at hexists
    cases hexists
  refine ⟨epochs_update hw.epochs ⟨hfits.epoch_le.trans (Nat.le_succ _), hnonce⟩, ?_⟩
  refine ⟨_, (applyEvents_singleton _ _ _).trans (if_neg fun hmissing => hrow hmissing.2), ?_, ?_,
    hp.accounts⟩
  · exact hp.identities.keep rfl fun row hrow => ⟨hrow.owner, hrow.pendingOwner, hrow.ownerEpoch, hrow.state⟩
  · exact hp.tracks.insert hfree rfl ⟨rfl, rfl, rfl⟩

omit [Zero B] in
theorem proposeOwnerRotation_follows (hw : Projectable evm at_ w) (hp : p.Shows w)
    {s : IdentityRegistry.State A B} {identityId : B} {newOwner : A} {ownerEpoch nonce deadline : ℕ}
    {signature : Bytes} {l : List (IdentityRegistry.Event A B)}
    (h : IdentityRegistry.proposeOwnerRotation evm at_.identityRegistry w.identity b identityId newOwner
      ownerEpoch nonce deadline signature = .ok (s, l)) :
    (∀ i, EpochFits (s.identities i)) ∧
      Follows number p { w with identity := s } (l.map World.Event.identity) := by
  obtain ⟨hzero, hnonce, rfl, rfl⟩ := IdentityRegistry.proposeOwnerRotation_emits h
  have hfits := hw.epochs identityId
  refine ⟨epochs_update hw.epochs ⟨?_, hnonce⟩, _, applyEvents_singleton _ _ _, ?_, hp.tracks,
    hp.accounts⟩
  · have hle := hfits.epoch_le
    dsimp only
    rw [if_neg hzero]
    omega
  · refine hp.identities.update rfl fun row hrow => ⟨hrow.owner, ?_, hrow.ownerEpoch, hrow.state⟩
    exact (if_neg hzero).symm

omit [Zero B] in
theorem confirmOwnerRotation_follows (hw : Projectable evm at_ w) (hp : p.Shows w)
    {s : IdentityRegistry.State A B} {identityId : B} {newOwner : A} {ownerEpoch nonce deadline : ℕ}
    {signature : Bytes} {l : List (IdentityRegistry.Event A B)}
    (h : IdentityRegistry.confirmOwnerRotation evm at_.identityRegistry w.identity b identityId newOwner
      ownerEpoch nonce deadline signature = .ok (s, l)) :
    (∀ i, EpochFits (s.identities i)) ∧
      Follows number p { w with identity := s } (l.map World.Event.identity) := by
  obtain ⟨hzero, hnonce, rfl, rfl⟩ := IdentityRegistry.confirmOwnerRotation_emits h
  have hfits := hw.epochs identityId
  have hle := hfits.epoch_le
  rw [if_neg hzero] at hle
  -- the pending owner was proposed, so two nonces of the epoch are gone
  have hbigint : bigint ((w.identity.identities identityId).ownerEpoch + 1) =
      .ok ((w.identity.identities identityId).ownerEpoch + 1) := by
    rw [bigint, if_pos (by omega)]
  refine ⟨epochs_update hw.epochs ⟨?_, hnonce⟩, ?_⟩
  · dsimp only
    rw [if_pos rfl]
    omega
  · have happly : applyEvent (.ownerRotated identityId (w.identity.identities identityId).owner newOwner
        ((w.identity.identities identityId).ownerEpoch + 1)) number p =
        .ok { p with
          identities := updateRow p.identities identityId fun row =>
            { row with
              owner := newOwner, pendingOwner := none,
              ownerEpoch := (w.identity.identities identityId).ownerEpoch + 1, state := .active } } := by
      rw [applyEvent, hbigint]
      rfl
    refine ⟨_, (applyEvents_singleton _ _ _).trans happly, ?_, hp.tracks, hp.accounts⟩
    exact hp.identities.update rfl fun row hrow => ⟨rfl, by simp, rfl, by simp⟩

/-- The calls of `AccountRegistry`: two of them have events the projection passes over. -/
theorem account_follows (hk : Function.Injective evm.keccak256) (hw : Projectable evm at_ w)
    (hp : p.Shows w) {s : AccountRegistry.State B} {c : AccountRegistry.Call B}
    {l : List (AccountRegistry.Event B)}
    (h : AccountRegistry.call evm at_.accountRegistry w.identity w.account b c = .ok (s, l)) :
    Follows number p { w with account := s } (l.map World.Event.account) := by
  cases c with
  | registerAccount trackId =>
    obtain ⟨htrack, haccounts, rfl⟩ := AccountRegistry.registerAccount_emits h
    have hfree := fresh_account hk hw.numbered trackId
    have hrow : p.tracks trackId ≠ none := by
      intro hnone
      rw [hp.tracks.row_eq_none] at hnone
      rw [hnone] at htrack
      cases htrack
    refine ⟨_, (applyEvents_singleton _ _ _).trans (if_neg fun hmissing => hrow hmissing.2),
      hp.identities, hp.tracks, ?_⟩
    dsimp only
    rw [haccounts]
    exact hp.accounts.insert hfree rfl ⟨rfl, rfl, rfl⟩
  | activateAccount accountId =>
    obtain ⟨haccounts, _, _, _, _, rfl⟩ := AccountRegistry.activateAccount_emits h
    refine ⟨_, applyEvents_singleton _ _ _, hp.identities, hp.tracks, ?_⟩
    dsimp only
    rw [haccounts]
    exact hp.accounts.update rfl fun row hrow => ⟨hrow.trackId, hrow.venueId, rfl⟩
  | removeAccount accountId =>
    obtain ⟨haccounts, hlogs⟩ := AccountRegistry.removeAccount_emits h
    have hshows : Mirrors (·.exists_) AccountRow.Shows s.accounts
        (updateRow p.accounts accountId fun row => { row with state := .removed }) := by
      rw [haccounts]
      exact hp.accounts.update rfl fun row hrow => ⟨hrow.trackId, hrow.venueId, rfl⟩
    rcases hlogs with rfl | ⟨_, _, _, _, rfl⟩
    · exact ⟨_, applyEvents_singleton _ _ _, hp.identities, hp.tracks, hshows⟩
    · exact ⟨_, applyEvents_singleton _ _ _, hp.identities, hp.tracks, hshows⟩
  | rotateBindingCredential accountId =>
    obtain ⟨haccounts, rfl⟩ := AccountRegistry.rotateBindingCredential_emits h
    refine ⟨p, rfl, hp.identities, hp.tracks, ?_⟩
    dsimp only
    rw [haccounts]
    exact hp.accounts.keep rfl fun row hrow => ⟨hrow.trackId, hrow.venueId, hrow.state⟩

omit [Zero B] in
theorem identity_follows (hk : Function.Injective evm.keccak256) (hw : Projectable evm at_ w)
    (hp : p.Shows w) {s : IdentityRegistry.State A B} {c : IdentityRegistry.Call A B}
    {l : List (IdentityRegistry.Event A B)}
    (h : IdentityRegistry.call evm at_.identityRegistry w.identity b sender c = .ok (s, l)) :
    (∀ i, EpochFits (s.identities i)) ∧
      Follows number p { w with identity := s } (l.map World.Event.identity) := by
  cases c with
  | createIdentity => exact createIdentity_follows hk hw hp h
  | createTrack => exact createTrack_follows hk hw hp h
  | proposeOwnerRotation => exact proposeOwnerRotation_follows hw hp h
  | confirmOwnerRotation => exact confirmOwnerRotation_follows hw hp h

omit [Zero B] in
/-- Tracks stay numbered. -/
theorem identity_tracks (hw : Projectable evm at_ w) {s : IdentityRegistry.State A B}
    {c : IdentityRegistry.Call A B} {l : List (IdentityRegistry.Event A B)}
    (h : IdentityRegistry.call evm at_.identityRegistry w.identity b sender c = .ok (s, l)) :
    ∀ trackId, (s.tracks trackId).exists_ = true → ∃ identityId n,
      n < s.trackCounter ∧ trackId = evm.keccak256 (.encodePacked
        [.uint evm.chainid, .address at_.identityRegistry, .bytes32 identityId, .uint n]) := by
  intro trackId hexists
  cases c with
  | createIdentity =>
    obtain ⟨rfl, -⟩ := IdentityRegistry.createIdentity_emits h
    exact hw.tracks trackId hexists
  | createTrack identityId =>
    obtain ⟨-, -, rfl, -⟩ := IdentityRegistry.createTrack_emits h
    dsimp only at hexists ⊢
    rw [Function.update_apply] at hexists
    split_ifs at hexists with hnew
    · exact ⟨identityId, _, Nat.lt_succ_self _, hnew⟩
    · obtain ⟨identityId', n, hn, heq⟩ := hw.tracks trackId hexists
      exact ⟨identityId', n, Nat.lt_succ_of_lt hn, heq⟩
  | proposeOwnerRotation =>
    obtain ⟨-, -, rfl, -⟩ := IdentityRegistry.proposeOwnerRotation_emits h
    exact hw.tracks trackId hexists
  | confirmOwnerRotation =>
    obtain ⟨-, -, rfl, -⟩ := IdentityRegistry.confirmOwnerRotation_emits h
    exact hw.tracks trackId hexists

omit [DecidableEq A] [DecidableEq B] [Zero A] [Zero B] in
theorem filterMap_checkpoint (l : List (CheckpointRegistry.Event B)) :
    (l.map World.Event.checkpoint).filterMap (@decodeDomainEvent A B) = [] := by
  rw [List.filterMap_map, List.filterMap_eq_nil_iff]
  exact fun _ _ => rfl

/-- Every accepted transaction takes the rows along. -/
theorem call_follows (number : ℕ) (hk : Function.Injective evm.keccak256) (hw : Projectable evm at_ w)
    (hp : p.Shows w) {w' : World A B} {tx : Tx A B} {logs : List (World.Event A B)}
    (h : World.call evm at_ w tx = .ok (w', logs)) :
    Projectable evm at_ w' ∧ Follows number p w' logs := by
  have hnumbered := (World.call_step hk hw.numbered h).1
  rcases World.call_ok h with ⟨c, s, l, -, hcall, rfl, rfl⟩ | ⟨c, s, l, -, hcall, rfl, rfl⟩ |
    ⟨c, s, l, -, -, rfl, rfl⟩
  · obtain ⟨hepochs, hfollows⟩ := identity_follows hk hw hp hcall
    exact ⟨⟨hnumbered, identity_tracks hw hcall, hepochs⟩, hfollows⟩
  · exact ⟨⟨hnumbered, hw.tracks, hw.epochs⟩, account_follows hk hw hp hcall⟩
  · refine ⟨⟨hnumbered, hw.tracks, hw.epochs⟩, p, ?_, hp.identities, hp.tracks, hp.accounts⟩
    rw [filterMap_checkpoint]
    rfl

end Steps

section Runs

variable [DecidableEq B]

/-- `applyEvent` of the logs of some blocks, in block and log order. -/
def project (p : Projection A B) (blocks : List (ℕ × List (World.Event A B))) :
    Except Error (Projection A B) :=
  blocks.foldlM (fun p block => applyEvents (block.2.filterMap decodeDomainEvent) block.1 p) p

/-- The fold of the indexer's model is this one. -/
theorem projectionOf_eq_project {H : Type} (logs : H → List (World.Event A B))
    (headers : List (BlockHeader H)) :
    projectionOf logs headers = project .empty (headers.map fun h => (h.number, logs h.hash)) := by
  rw [projectionOf, project, List.foldlM_map]
  rfl

theorem applyEvents_flatMap (outs : List (List (World.Event A B))) (number : ℕ) (p : Projection A B) :
    applyEvents (outs.flatten.filterMap decodeDomainEvent) number p =
      outs.foldlM (fun p out => applyEvents (out.filterMap decodeDomainEvent) number p) p := by
  induction outs generalizing p with
  | nil => rfl
  | cons out outs ih =>
    rw [List.flatten_cons, List.filterMap_append, List.foldlM_cons, applyEvents, List.foldlM_append]
    exact bind_congr fun p' => ih p'

variable [DecidableEq A] [Zero A] [Zero B] (evm : Evm A B) (at_ : Deployment A)

/-- The logs of blocks with these numbers and transactions. -/
def emitted : World A B → List (ℕ × List (Tx A B)) → List (ℕ × List (World.Event A B))
  | _, [] => []
  | w, (number, txs) :: rest =>
    (number, (World.accepted evm at_ w txs).flatMap (·.out)) ::
      emitted (World.run evm at_ w txs) rest

variable {evm at_}

/-- A block takes the rows along. -/
theorem block_follows (hk : Function.Injective evm.keccak256) {w : World A B} {p : Projection A B}
    (hw : Projectable evm at_ w) (hp : p.Shows w) (number : ℕ) (txs : List (Tx A B)) :
    Projectable evm at_ (World.run evm at_ w txs) ∧ Follows number p (World.run evm at_ w txs)
      ((World.accepted evm at_ w txs).flatMap (·.out)) := by
  have hstep : ∀ w tx w' logs (p : Projection A B), Projectable evm at_ w → p.Shows w →
      World.call evm at_ w tx = .ok (w', logs) → Projectable evm at_ w' ∧
        ∃ p', applyEvents (logs.filterMap decodeDomainEvent) number p = .ok p' ∧ p'.Shows w' :=
    fun _ _ _ _ _ hw hp h => call_follows number hk hw hp h
  obtain ⟨hrun, p', hfold, hshows⟩ := accepted_simulates hstep txs hw hp
  refine ⟨hrun, p', ?_, hshows⟩
  rw [List.flatMap_def, applyEvents_flatMap]
  exact hfold

theorem run_follows (hk : Function.Injective evm.keccak256) {w : World A B} {p : Projection A B}
    (hw : Projectable evm at_ w) (hp : p.Shows w) (blocks : List (ℕ × List (Tx A B))) :
    ∃ p', project p (emitted evm at_ w blocks) = .ok p' ∧
      p'.Shows (World.run evm at_ w (blocks.flatMap Prod.snd)) := by
  induction blocks generalizing w p with
  | nil => exact ⟨p, rfl, hp⟩
  | cons block rest ih =>
    obtain ⟨number, txs⟩ := block
    obtain ⟨hw₁, p₁, hblock, hp₁⟩ := block_follows hk hw hp number txs
    obtain ⟨p', hrest, hp'⟩ := ih hw₁ hp₁
    refine ⟨p', ?_, ?_⟩
    · rw [emitted, project, List.foldlM_cons, hblock]
      exact hrest
    · rw [List.flatMap_cons, World.run, run_append]
      exact hp'

/-- The projection refines the contracts: after every run, the fold of the events it emitted succeeds and
has a row for every identity, track and account there is, and for nothing else, that shows what the
storage holds. -/
theorem projection_refines_contracts (hk : Function.Injective evm.keccak256)
    (blocks : List (ℕ × List (Tx A B))) :
    ∃ p, project .empty (emitted evm at_ .init blocks) = .ok p ∧
      p.Shows (World.run evm at_ .init (blocks.flatMap Prod.snd)) :=
  run_follows hk projectable_init shows_init blocks

/-- Over three blocks: an identity with a track changes hands, and its new owner proposes another. -/
theorem projection_refines_contracts_rotation :
    ∃ p, project .empty (emitted Symbol.evm exampleDeployment .init [(3, exampleRotation.take 2),
        (4, exampleRotation.drop 2),
        (7, [signedBy 8 (.identity (.proposeOwnerRotation exampleIdentity 9 1 3 20 [5]))])]) = .ok p ∧
      p.Shows (World.run Symbol.evm exampleDeployment .init (exampleRotation ++
        [signedBy 8 (.identity (.proposeOwnerRotation exampleIdentity 9 1 3 20 [5]))])) :=
  projection_refines_contracts Symbol.keccak256_injective _

end Runs

end ChainWorker

end Linvesther
