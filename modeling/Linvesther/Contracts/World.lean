import Linvesther.Contracts.AccountRegistry
import Linvesther.Contracts.CheckpointRegistry

/-! The registries as one system: every transaction goes to one of them, and the two that hang on
`IdentityRegistry` read its current state. -/

namespace Linvesther

variable {A B : Type}

/-- Where the registries are deployed. -/
structure Deployment (A : Type) where
  identityRegistry : A
  accountRegistry : A
  checkpointRegistry : A

structure World (A B : Type) where
  identity : IdentityRegistry.State A B
  account : AccountRegistry.State B
  checkpoint : CheckpointRegistry.State A B

inductive World.Call (A B : Type) where
  | identity (c : IdentityRegistry.Call A B)
  | account (c : AccountRegistry.Call B)
  | checkpoint (c : CheckpointRegistry.Call B)

inductive World.Event (A B : Type) where
  | identity (e : IdentityRegistry.Event A B)
  | account (e : AccountRegistry.Event B)
  | checkpoint (e : CheckpointRegistry.Event B)
deriving DecidableEq

inductive World.Error (A B : Type) where
  | identity (e : IdentityRegistry.Error A B)
  | account (e : AccountRegistry.Error B)
  | checkpoint (e : CheckpointRegistry.Error B)
deriving DecidableEq

/-- A transaction: the block it is mined in, who sent it and what it calls. -/
structure Tx (A B : Type) where
  block : Block A B
  sender : A
  call : World.Call A B

def World.init [Zero A] [Zero B] : World A B := ⟨.init, .init, .init⟩

section Call

variable [DecidableEq A] [DecidableEq B] [Zero A] [Zero B] (evm : Evm A B) (at_ : Deployment A)

def World.call (w : World A B) (tx : Tx A B) :
    Except (World.Error A B) (World A B × List (World.Event A B)) :=
  match tx.call with
  | .identity c =>
    match IdentityRegistry.call evm at_.identityRegistry w.identity tx.block tx.sender c with
    | .ok (s, logs) => .ok ({ w with identity := s }, logs.map .identity)
    | .error e => .error (.identity e)
  | .account c =>
    match AccountRegistry.call evm at_.accountRegistry w.identity w.account tx.block c with
    | .ok (s, logs) => .ok ({ w with account := s }, logs.map .account)
    | .error e => .error (.account e)
  | .checkpoint c =>
    match CheckpointRegistry.call evm at_.checkpointRegistry w.identity w.checkpoint tx.block
        tx.sender c with
    | .ok (s, logs) => .ok ({ w with checkpoint := s }, logs.map .checkpoint)
    | .error e => .error (.checkpoint e)

variable {evm at_}

/-- An accepted transaction is an accepted call of one registry; the others keep their state. -/
theorem World.call_ok {w w' : World A B} {tx : Tx A B} {logs : List (World.Event A B)}
    (h : World.call evm at_ w tx = .ok (w', logs)) :
    (∃ c s l, tx.call = .identity c ∧
      IdentityRegistry.call evm at_.identityRegistry w.identity tx.block tx.sender c = .ok (s, l) ∧
      w' = { w with identity := s } ∧ logs = l.map .identity) ∨
    (∃ c s l, tx.call = .account c ∧
      AccountRegistry.call evm at_.accountRegistry w.identity w.account tx.block c = .ok (s, l) ∧
      w' = { w with account := s } ∧ logs = l.map .account) ∨
    (∃ c s l, tx.call = .checkpoint c ∧
      CheckpointRegistry.call evm at_.checkpointRegistry w.identity w.checkpoint tx.block
        tx.sender c = .ok (s, l) ∧
      w' = { w with checkpoint := s } ∧ logs = l.map .checkpoint) := by
  unfold World.call at h
  cases hc : tx.call with
  | identity c =>
    simp only [hc] at h
    split at h
    next s l hok => cases h; exact .inl ⟨c, s, l, rfl, hok, rfl, rfl⟩
    next => cases h
  | account c =>
    simp only [hc] at h
    split at h
    next s l hok => cases h; exact .inr (.inl ⟨c, s, l, rfl, hok, rfl, rfl⟩)
    next => cases h
  | checkpoint c =>
    simp only [hc] at h
    split at h
    next s l hok => cases h; exact .inr (.inr ⟨c, s, l, rfl, hok, rfl, rfl⟩)
    next => cases h

variable (evm at_)

/-- The registries after a list of transactions, reverted ones included. -/
def World.run (w : World A B) (txs : List (Tx A B)) : World A B :=
  Transaction.run (World.call evm at_) w txs

def World.accepted (w : World A B) (txs : List (Tx A B)) :
    List (Transaction.Accepted (World A B) (Tx A B) (List (World.Event A B))) :=
  Transaction.accepted (World.call evm at_) w txs

end Call

section Example

open Transaction

/-- One deployment, one owner (7) with one identity, and the track created under it. -/
def exampleDeployment : Deployment ℕ := ⟨1, 2, 3⟩

def exampleIdentity : Symbol :=
  Symbol.keccak256 (.encodePacked [.uint 1, .address 1, .address 7, .uint 0])

def exampleTrack : Symbol :=
  Symbol.keccak256 (.encodePacked [.uint 1, .address 1, .bytes32 exampleIdentity, .uint 0])

/-- The owner creates the identity and signs the creation of a track. -/
def exampleSetup : List (Tx ℕ Symbol) :=
  [{ block := .signed 10 0 0 [], sender := 7, call := .identity (.createIdentity .person) },
   { block := .signed 10 7 (IdentityRegistry.hashTypedDataV4 Symbol.evm 1 (Symbol.keccak256
       (.encode [.bytes32 (IdentityRegistry.CREATE_TRACK_TYPEHASH Symbol.evm),
         .bytes32 exampleIdentity, .bytes32 0, .bytes32 0, .uint 0, .uint 0, .uint 20]))) [1],
     sender := 9, call := .identity (.createTrack exampleIdentity 0 0 0 0 20 [1]) }]

/-- The registries once the track and its owner are there. -/
structure Ready (w : World ℕ Symbol) : Prop where
  track : w.identity.tracks exampleTrack =
    { identityId := exampleIdentity, financialProfileId := 0, denominationCommitment := 0,
      createdAt := 10, exists_ := true }
  owner : w.identity.identities exampleIdentity =
    { owner := 7, pendingOwner := 0, createdAt := 10, ownerEpoch := 0, nonce := 1,
      identityType := .person, exists_ := true }

theorem exampleSetup_ready :
    Ready (World.run Symbol.evm exampleDeployment .init exampleSetup) ∧
    (World.run Symbol.evm exampleDeployment .init exampleSetup).account = .init ∧
    (World.run Symbol.evm exampleDeployment .init exampleSetup).checkpoint = .init := by
  refine ⟨⟨?_, ?_⟩, ?_, ?_⟩
  all_goals
    simp [World.run, exampleSetup, Transaction.run, commit, World.call, IdentityRegistry.call,
      IdentityRegistry.createIdentity, IdentityRegistry.createTrack,
      IdentityRegistry.requireIdentity, IdentityRegistry.consumeOwnerCommand, checkedAdd,
      revertIf, bind, Except.bind, pure, Except.pure, World.init, IdentityRegistry.State.init,
      exampleDeployment, exampleIdentity, exampleTrack, Symbol.evm, Block.signed,
      Block.timestamp64]

end Example

end Linvesther
