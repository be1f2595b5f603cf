import Linvesther.ChainWorker.Indexer
import Linvesther.Contracts.World

/-! `postgresProjectionStore.ts` over the schema of `0001_init.sql`: the tables a block's events are
written to, and the rows a reverted block takes away. -/

namespace Linvesther.ChainWorker

variable {H A B : Type}

/-- `events.ts`: the contract events the projection has a meaning for. -/
inductive DomainEvent (A B : Type) where
  | identityCreated (identityId : B) (owner : A) (identityType : IdentityRegistry.IdentityType)
      (createdAt : ℕ)
  | trackCreated (identityId trackId financialProfileId denominationCommitment : B)
  | ownerRotationProposed (identityId : B) (currentOwner pendingOwner : A) (ownerEpoch : ℕ)
  | ownerRotated (identityId : B) (previousOwner newOwner : A) (newOwnerEpoch : ℕ)
  | accountRegistered (trackId accountId venueId : B) (environment : AccountRegistry.Environment)
      (registeredAt : ℕ)
  | accountActivated (trackId accountId : B) (eligibleFrom : ℕ) (reasonHash : B)
  | accountRemoved (trackId accountId : B) (removedAt : ℕ) (reasonHash : B)
deriving DecidableEq

def decodeDomainEvent : World.Event A B → Option (DomainEvent A B)
  | .identity (.identityCreated identityId owner identityType createdAt) =>
    some (.identityCreated identityId owner identityType createdAt)
  | .identity (.trackCreated identityId trackId financialProfileId denominationCommitment) =>
    some (.trackCreated identityId trackId financialProfileId denominationCommitment)
  | .identity (.ownerRotationProposed identityId currentOwner pendingOwner ownerEpoch) =>
    some (.ownerRotationProposed identityId currentOwner pendingOwner ownerEpoch)
  | .identity (.ownerRotated identityId previousOwner newOwner newOwnerEpoch) =>
    some (.ownerRotated identityId previousOwner newOwner newOwnerEpoch)
  | .account (.accountRegistered trackId accountId venueId environment registeredAt) =>
    some (.accountRegistered trackId accountId venueId environment registeredAt)
  | .account (.accountActivated trackId accountId eligibleFrom reasonHash) =>
    some (.accountActivated trackId accountId eligibleFrom reasonHash)
  | .account (.accountRemoved trackId accountId removedAt reasonHash) =>
    some (.accountRemoved trackId accountId removedAt reasonHash)
  | _ => none

inductive IdentityState where
  | pendingConfirmation | active
deriving DecidableEq

structure IdentityRow (A : Type) where
  owner : A
  pendingOwner : Option A
  ownerEpoch : ℕ
  state : IdentityState
  createdAtBlock : ℕ
deriving DecidableEq

structure TrackRow (B : Type) where
  identityId : B
  financialProfileId : B
  denominationCommitment : B
  createdAtBlock : ℕ
deriving DecidableEq

structure AccountRow (B : Type) where
  trackId : B
  venueId : B
  state : AccountRegistry.AccountState
  createdAtBlock : ℕ
deriving DecidableEq

/-- The tables the API reads, by primary key. -/
structure Projection (A B : Type) where
  identities : B → Option (IdentityRow A)
  tracks : B → Option (TrackRow B)
  accounts : B → Option (AccountRow B)

def Projection.empty : Projection A B := ⟨fun _ => none, fun _ => none, fun _ => none⟩

/-- All tables; `indexed_blocks` in the order of insertion. -/
structure Tables (H A B : Type) where
  indexedBlocks : List (IndexedBlock H)
  projection : Projection A B

def Tables.empty : Tables H A B := ⟨[], .empty⟩

section Functions

variable [DecidableEq B]

/-- `INSERT … ON CONFLICT DO NOTHING`. -/
def insertRow {R : Type} (table : B → Option R) (id : B) (row : R) : B → Option R :=
  Function.update table id (some ((table id).getD row))

/-- `UPDATE … WHERE id = …`. -/
def updateRow {R : Type} (table : B → Option R) (id : B) (f : R → R) : B → Option R :=
  Function.update table id ((table id).map f)

/-- A `BIGINT` parameter. -/
def bigint (n : ℕ) : Except Error ℕ := if n < 2 ^ 63 then .ok n else .error .store

/-- One statement. A new track needs its identity and a new account its track (the foreign keys);
the block's own row has been inserted before. -/
def applyEvent (event : DomainEvent A B) (blockNumber : ℕ) (p : Projection A B) :
    Except Error (Projection A B) :=
  match event with
  | .identityCreated identityId owner _ _ =>
    .ok { p with
      identities := insertRow p.identities identityId
        { owner, pendingOwner := none, ownerEpoch := 0, state := .pendingConfirmation,
          createdAtBlock := blockNumber } }
  | .trackCreated identityId trackId financialProfileId denominationCommitment =>
    if p.tracks trackId = none ∧ p.identities identityId = none then .error .store
    else .ok { p with
      tracks := insertRow p.tracks trackId
        { identityId, financialProfileId, denominationCommitment, createdAtBlock := blockNumber } }
  | .ownerRotationProposed identityId _ pendingOwner _ =>
    .ok { p with
      identities := updateRow p.identities identityId fun row =>
        { row with pendingOwner := some pendingOwner } }
  | .ownerRotated identityId _ newOwner newOwnerEpoch => do
    let ownerEpoch ← bigint newOwnerEpoch
    .ok { p with
      identities := updateRow p.identities identityId fun row =>
        { row with owner := newOwner, pendingOwner := none, ownerEpoch, state := .active } }
  | .accountRegistered trackId accountId venueId _ _ =>
    if p.accounts accountId = none ∧ p.tracks trackId = none then .error .store
    else .ok { p with
      accounts := insertRow p.accounts accountId
        { trackId, venueId, state := .pendingBaseline, createdAtBlock := blockNumber } }
  | .accountActivated _ accountId _ _ =>
    .ok { p with
      accounts := updateRow p.accounts accountId fun row => { row with state := .active } }
  | .accountRemoved _ accountId _ _ =>
    .ok { p with
      accounts := updateRow p.accounts accountId fun row => { row with state := .removed } }

/-- The loop of `apply`: each event is a statement of its own. -/
def applyLogs (blockNumber : ℕ) : List (DomainEvent A B) → EStateM Error (Tables H A B) Unit
  | [] => pure ()
  | event :: rest => do
    let t ← get
    match applyEvent event blockNumber t.projection with
    | .ok projection => set { t with projection }
    | .error e => throw e
    applyLogs blockNumber rest

variable (tree : BlockTree H) (logs : H → List (World.Event A B))

/-- What the node returns for a block number: the logs of the canonical block of the moment. -/
def getLogs (m : Moment H) (number : ℕ) : List (World.Event A B) :=
  if number ≤ tree.number m.tip then logs (tree.canonical m.tip number) else []

/-- `INSERT INTO indexed_blocks … ON CONFLICT (number) DO UPDATE`. -/
def upsertBlock (blocks : List (IndexedBlock H)) (block : IndexedBlock H) :
    List (IndexedBlock H) :=
  if blocks.any (·.header.number = block.header.number) then
    blocks.map fun row => if row.header.number = block.header.number then block else row
  else blocks ++ [block]

def PostgresProjectionStore.apply (m : Moment H) (block : IndexedBlock H) :
    EStateM Error (Tables H A B) Unit := do
  modify fun t => { t with indexedBlocks := upsertBlock t.indexedBlocks block }
  if m.rpcUp then
    let events := (getLogs tree logs m block.header.number).filterMap decodeDomainEvent
    match m.cutAfter with
    | none => applyLogs block.header.number events
    | some n => do
      -- no transaction around them: the statements before the cut stay
      applyLogs block.header.number (events.take n)
      throw .store
  else throw .rpc

/-- Deleting a block's row takes away the rows created at the block, and the rows that refer to
those. -/
def Projection.cascade (p : Projection A B) (number : ℕ) : Projection A B :=
  let identities := fun id => (p.identities id).filter (·.createdAtBlock ≠ number)
  let tracks := fun id => (p.tracks id).filter fun row =>
    row.createdAtBlock ≠ number ∧ (identities row.identityId).isSome
  { identities, tracks
    accounts := fun id => (p.accounts id).filter fun row =>
      row.createdAtBlock ≠ number ∧ (tracks row.trackId).isSome }

def PostgresProjectionStore.revert (block : IndexedBlock H) : EStateM Error (Tables H A B) Unit :=
  modify fun t =>
    if t.indexedBlocks.any (·.header.number = block.header.number) then
      { indexedBlocks := t.indexedBlocks.filter (·.header.number ≠ block.header.number)
        projection := t.projection.cascade block.header.number }
    else t

def PostgresProjectionStore : ProjectionStore H (Tables H A B) :=
  ⟨PostgresProjectionStore.apply tree logs, PostgresProjectionStore.revert⟩

omit [DecidableEq B] in
/-- `SELECT max(number) FROM indexed_blocks`. -/
def latestIndexedBlock (t : Tables H A B) : Option ℕ :=
  (t.indexedBlocks.map (·.header.number)).max?

end Functions

section Service

variable [DecidableEq H] [DecidableEq B] (tree : BlockTree H) (logs : H → List (World.Event A B))

/-- A process of the API: its indexer over the shared tables, and the number it starts from. -/
structure Service (H A B : Type) where
  indexer : Indexer H (Tables H A B)
  fromNumber : ℕ

/-- What happens to the service: a tick at some moments of the chain, or a restart of the process,
whose indexer starts empty and resumes at the last persisted block. -/
inductive ServiceStep (H : Type) where
  | tick (moments : ℕ → Moment H)
  | restart

def Service.init (deployBlock : ℕ) : Service H A B := ⟨.init .empty, deployBlock⟩

def Service.step (deployBlock : ℕ) (s : Service H A B) : ServiceStep H → Service H A B
  | .tick moments =>
    { s with
      indexer := Program.final (s.indexer.sync tree (PostgresProjectionStore tree logs)
        ⟨s.fromNumber, moments⟩) }
  | .restart =>
    { indexer := { s.indexer with chain := [] }
      fromNumber := (latestIndexedBlock s.indexer.store).getD deployBlock }

def Service.run (deployBlock : ℕ) (s : Service H A B) (steps : List (ServiceStep H)) :
    Service H A B :=
  steps.foldl (Service.step tree logs deployBlock) s

end Service

end Linvesther.ChainWorker
