import Linvesther.Contracts.World

/-! `ProfileRegistry.sol`: a public name and bio for each identity, changed with the signature of
its current owner. -/

namespace Linvesther.ProfileRegistry

open Transaction

variable {A B : Type}

def MAX_NAME_BYTES : ℕ := 40
def MAX_BIO_BYTES : ℕ := 280

structure Profile where
  name : Bytes
  bio : Bytes
  updatedAt : ℕ
deriving DecidableEq

structure State (B : Type) where
  profiles : Mapping B Profile
  nonces : Mapping B ℕ

inductive Event (A B : Type) where
  | profileUpdated (identityId : B) (owner : A) (name bio : Bytes) (updatedAt : ℕ)
deriving DecidableEq

inductive Error (B : Type) where
  | identityNotFound (identityId : B)
  | commandExpired (deadline blockTimestamp : ℕ)
  | nonceMismatch (expected provided : ℕ)
  | invalidSignature
  | nameTooLong (length : ℕ)
  | bioTooLong (length : ℕ)
  | panic
deriving DecidableEq

/-- The calldata of `setProfile`, the one entry point. -/
structure SetProfile (B : Type) where
  identityId : B
  name : Bytes
  bio : Bytes
  nonce : ℕ
  deadline : ℕ
  signature : Bytes

def State.init : State B :=
  { profiles := fun _ => ⟨[], [], 0⟩, nonces := fun _ => 0 }

section Digests

variable (evm : Evm A B) (this : A)

def SET_PROFILE_TYPEHASH : B := evm.keccak256 (.text
  "SetProfile(bytes32 identityId,string name,string bio,uint64 nonce,uint256 deadline)")

/-- `keccak256(bytes(text))`. -/
def hashText (text : Bytes) : B := evm.keccak256 (.encodePacked (text.map fun byte => .uint byte.toNat))

-- The owner's epoch is not among the hashed arguments.
def setProfileStructHash (c : SetProfile B) : B :=
  evm.keccak256 (.encode [.bytes32 (SET_PROFILE_TYPEHASH evm), .bytes32 c.identityId,
    .bytes32 (hashText evm c.name), .bytes32 (hashText evm c.bio), .uint c.nonce, .uint c.deadline])

def hashTypedDataV4 (structHash : B) : B :=
  evm.hashTypedDataV4 "LinvestherZK-ProfileRegistry" "1" this structHash

/-- What the owner signs. -/
def SetProfile.digest (c : SetProfile B) : B :=
  hashTypedDataV4 evm this (setProfileStructHash evm c)

end Digests

section Functions

variable [DecidableEq B] (evm : Evm A B) (this : A)
  (identityRegistry : IdentityRegistry.State A B)

def setProfile (s : State B) (b : Block A B) (c : SetProfile B) :
    Except (Error B) (State B × List (Event A B)) := do
  let identity := identityRegistry.identities c.identityId
  revertIf (identity.exists_ = false) (.identityNotFound c.identityId)
  revertIf (c.name.length > MAX_NAME_BYTES) (.nameTooLong c.name.length)
  revertIf (c.bio.length > MAX_BIO_BYTES) (.bioTooLong c.bio.length)
  revertIf (b.timestamp > c.deadline) (.commandExpired c.deadline b.timestamp)
  revertIf (c.nonce ≠ s.nonces c.identityId) (.nonceMismatch (s.nonces c.identityId) c.nonce)
  revertIf (b.isValidSignatureNow identity.owner (c.digest evm this) c.signature = false)
    .invalidSignature
  let nextNonce ← checkedAdd 64 .panic c.nonce 1
  pure ({
    nonces := Function.update s.nonces c.identityId nextNonce
    profiles := Function.update s.profiles c.identityId ⟨c.name, c.bio, b.timestamp64⟩ },
    [.profileUpdated c.identityId identity.owner c.name c.bio b.timestamp64])

variable {evm this identityRegistry}

/-- What an accepted call has checked and what it stores. -/
theorem setProfile_ok {s s' : State B} {b : Block A B} {c : SetProfile B} {logs : List (Event A B)}
    (h : setProfile evm this identityRegistry s b c = .ok (s', logs)) :
    let identity := identityRegistry.identities c.identityId
    identity.exists_ = true ∧ c.nonce = s.nonces c.identityId ∧ b.timestamp ≤ c.deadline ∧
    b.isValidSignatureNow identity.owner (c.digest evm this) c.signature = true ∧
    s' = {
      nonces := Function.update s.nonces c.identityId (c.nonce + 1)
      profiles := Function.update s.profiles c.identityId ⟨c.name, c.bio, b.timestamp64⟩ } := by
  simp only [setProfile, bind_ok, revertIf_ok, checkedAdd_ok, pure_ok, Prod.mk.injEq] at h
  obtain ⟨-, hexists, -, -, -, -, -, hlive, -, hnonce, -, hsigned, next, ⟨-, rfl⟩, rfl, -⟩ := h
  exact ⟨by simpa using hexists, not_not.1 hnonce, Nat.le_of_not_lt hlive, by simpa using hsigned,
    rfl⟩

end Functions

end Linvesther.ProfileRegistry

namespace Linvesther

open Transaction

variable {A B : Type}

/-- The registries together with the profiles of their identities. -/
structure Site (A B : Type) where
  world : World A B
  profile : ProfileRegistry.State B

inductive Site.Call (A B : Type) where
  | world (c : World.Call A B)
  | setProfile (c : ProfileRegistry.SetProfile B)

inductive Site.Event (A B : Type) where
  | world (e : World.Event A B)
  | profile (e : ProfileRegistry.Event A B)
deriving DecidableEq

inductive Site.Error (A B : Type) where
  | world (e : World.Error A B)
  | profile (e : ProfileRegistry.Error B)
deriving DecidableEq

structure Site.Tx (A B : Type) where
  block : Block A B
  sender : A
  call : Site.Call A B

def Site.init [Zero A] [Zero B] : Site A B := ⟨.init, .init⟩

/-- A transaction to the registries at `at_` or to the profiles at `this`. -/
def Site.call [DecidableEq A] [DecidableEq B] [Zero A] [Zero B] (evm : Evm A B) (at_ : Deployment A)
    (this : A) (s : Site A B) (tx : Site.Tx A B) :
    Except (Site.Error A B) (Site A B × List (Site.Event A B)) :=
  match tx.call with
  | .world c =>
    match World.call evm at_ s.world ⟨tx.block, tx.sender, c⟩ with
    | .ok (w, logs) => .ok ({ s with world := w }, logs.map .world)
    | .error e => .error (.world e)
  | .setProfile c =>
    match ProfileRegistry.setProfile evm this s.world.identity s.profile tx.block c with
    | .ok (p, logs) => .ok ({ s with profile := p }, logs.map .profile)
    | .error e => .error (.profile e)

end Linvesther
