import Linvesther.Base.Program
import Linvesther.ChainWorker.BlockTree

/-! `indexer.ts`: the indexer's polling tick over a chain that may reorganise between any two of
its calls. What a tick did before it threw stays done. -/

namespace Linvesther.ChainWorker

open Program

variable {H σ : Type}

inductive BlockTag where
  | included | safe | finalized
deriving DecidableEq

structure ChainSnapshot (H : Type) where
  included : BlockHeader H
  safe : Option (BlockHeader H)
  finalized : Option (BlockHeader H)

structure IndexedBlock (H : Type) where
  header : BlockHeader H
  tag : BlockTag
deriving DecidableEq

structure ReorgReport (H : Type) where
  commonAncestor : ℤ
  reverted : List (IndexedBlock H)
  applied : List (IndexedBlock H)

inductive Error where
  | rpc | blockNotFound | store
deriving DecidableEq

/-- The world at the moment of one call: the tip of the canonical chain, how far the other two tags
have come, whether the node and the store answer, and after how many of its statements a call of the
store is cut off, if it is. -/
structure Moment (H : Type) where
  tip : H
  safe : Option ℕ
  finalized : Option ℕ
  rpcUp : Bool
  storeUp : Bool
  cutAfter : Option ℕ

structure ProjectionStore (H σ : Type) where
  apply : Moment H → IndexedBlock H → EStateM Error σ Unit
  revert : IndexedBlock H → EStateM Error σ Unit

inductive StoreOp (H : Type) where
  | apply (block : IndexedBlock H)
  | revert (block : IndexedBlock H)
deriving DecidableEq

/-- A call of the store, with the state and the view it was made in. -/
structure StoreCall (H σ : Type) where
  store : σ
  view : List (IndexedBlock H)
  moment : Moment H
  op : StoreOp H
  completed : Bool

/-- The indexer's view and the store, with the calls the store has had and the number of calls made
in the current tick. -/
structure Indexer (H σ : Type) where
  chain : List (IndexedBlock H)
  store : σ
  calls : List (StoreCall H σ)
  clock : ℕ

def Indexer.init (store : σ) : Indexer H σ := ⟨[], store, [], 0⟩

def Indexer.blocks (i : Indexer H σ) : List (IndexedBlock H) := i.chain

/-- One polling tick: the block number to start from, and the moments its calls are made at. -/
structure Tick (H : Type) where
  fromNumber : ℕ
  moments : ℕ → Moment H

def tagFor (number : ℕ) (snapshot : ChainSnapshot H) : BlockTag :=
  if snapshot.finalized.any (number ≤ ·.number) then .finalized
  else if snapshot.safe.any (number ≤ ·.number) then .safe
  else .included

section Sync

variable (tree : BlockTree H) (projections : ProjectionStore H σ) (moments : ℕ → Moment H)

def nextMoment : EStateM Error (Indexer H σ) (Moment H) := do
  let i ← get
  modify fun i => { i with clock := i.clock + 1 }
  pure (moments i.clock)

def getSnapshot : EStateM Error (Indexer H σ) (ChainSnapshot H) := do
  let m ← nextMoment moments
  if m.rpcUp then
    pure { included := tree.header m.tip
           safe := m.safe.map fun n => tree.header (tree.canonical m.tip n)
           finalized := m.finalized.map fun n => tree.header (tree.canonical m.tip n) }
  else throw .rpc

def getBlockByNumber (number : ℕ) : EStateM Error (Indexer H σ) (BlockHeader H) := do
  let m ← nextMoment moments
  if m.rpcUp then
    if number ≤ tree.number m.tip then pure (tree.header (tree.canonical m.tip number))
    else throw .blockNotFound
  else throw .rpc

/-- The store's own code for a call. -/
def ProjectionStore.run (m : Moment H) : StoreOp H → EStateM Error σ Unit
  | .apply block => projections.apply m block
  | .revert block => projections.revert block

/-- A call of the store: down, it does nothing and throws. -/
def callStore (op : StoreOp H) : EStateM Error (Indexer H σ) Unit := do
  let m ← nextMoment moments
  let i ← get
  let record (completed : Bool) (store : σ) : Indexer H σ :=
    { i with store, calls := i.calls ++ [⟨i.store, i.chain, m, op, completed⟩] }
  if m.storeUp then
    match projections.run m op i.store with
    | .ok _ store => set (record true store)
    | .error e store =>
      set (record false store)
      throw e
  else
    set (record false i.store)
    throw .store

/-- The loop of `extendTo` over the numbers that are left. -/
def applyBlocks (snapshot : ChainSnapshot H) :
    List ℕ → EStateM Error (Indexer H σ) (List (IndexedBlock H))
  | [] => pure []
  | n :: ns => do
    let header ← getBlockByNumber tree moments n
    -- the parent hash is not compared with the block before
    let block : IndexedBlock H := { header, tag := tagFor n snapshot }
    callStore projections moments (.apply block)
    modify fun i => { i with chain := i.chain ++ [block] }
    let applied ← applyBlocks snapshot ns
    pure (block :: applied)

def extendTo (first last : ℕ) (snapshot : ChainSnapshot H) :
    EStateM Error (Indexer H σ) (List (IndexedBlock H)) :=
  applyBlocks tree projections moments snapshot (List.range' first (last + 1 - first))

variable [DecidableEq H]

/-- The walk of `findDivergence` over the local blocks from the tip down. -/
def findDivergence :
    List (IndexedBlock H) → Option ℕ → EStateM Error (Indexer H σ) (Option ℕ)
  | [], divergedAt => pure divergedAt
  | block :: rest, divergedAt => do
    let remote ← getBlockByNumber tree moments block.header.number
    if remote.hash = block.header.hash then pure divergedAt
    else findDivergence rest (some block.header.number)

def revertBlocks : List (IndexedBlock H) → EStateM Error (Indexer H σ) Unit
  | [] => pure ()
  | block :: rest => do
    callStore projections moments (.revert block)
    revertBlocks rest

def retag (snapshot : ChainSnapshot H) : EStateM Error (Indexer H σ) Unit :=
  modify fun i => { i with
    chain := i.chain.map fun block => { block with tag := tagFor block.header.number snapshot } }

/-- The two branches of a tick over a view that is not empty: undo what diverged and replace it, or
go on after the tip. -/
def reconcile (snapshot : ChainSnapshot H) (tip : IndexedBlock H) :
    Option ℕ → EStateM Error (Indexer H σ) (Option (ReorgReport H))
  | some divergedAt => do
    let i ← get
    let revertIndex := i.chain.findIdx (·.header.number = divergedAt)
    let reverted := (i.chain.drop revertIndex).reverse
    revertBlocks projections moments reverted
    modify fun i => { i with chain := i.chain.take revertIndex }
    let applied ← extendTo tree projections moments divergedAt snapshot.included.number snapshot
    pure (some { commonAncestor := divergedAt - 1, reverted, applied })
  | none => do
    let _ ← extendTo tree projections moments (tip.header.number + 1) snapshot.included.number
      snapshot
    pure none

def syncOnce (fromNumber : ℕ) : EStateM Error (Indexer H σ) (Option (ReorgReport H)) := do
  let snapshot ← getSnapshot tree moments
  let i ← get
  match i.chain.getLast? with
  | none => do
    let _ ← extendTo tree projections moments fromNumber snapshot.included.number snapshot
    retag snapshot
    pure none
  | some tip => do
    let divergedAt ← findDivergence tree moments i.chain.reverse none
    let report ← reconcile tree projections moments snapshot tip divergedAt
    retag snapshot
    pure report

end Sync

section Specifications

/-- The number of calls made is bookkeeping: an assertion does not look at it. -/
def Timeless (P : Indexer H σ → Prop) : Prop := ∀ i clock, P i → P { i with clock }

variable {tree : BlockTree H} {projections : ProjectionStore H σ} {moments : ℕ → Moment H}
  {P Q : Indexer H σ → Prop}
  {E : Error → Indexer H σ → Prop}

theorem nextMoment_triple (hP : Timeless P) :
    Triple P (nextMoment moments) (fun m i => P i ∧ ∃ t, m = moments t) E := by
  intro i hi
  exact ⟨hP i _ hi, i.clock, rfl⟩

/-- What a call of the node throws. -/
def NodeFails (moments : ℕ → Moment H) (e : Error) : Prop :=
  (e = .rpc ∧ ∃ t, (moments t).rpcUp = false) ∨ e = .blockNotFound

theorem getSnapshot_outcome (hP : Timeless P) :
    Triple P (getSnapshot tree moments)
      (fun snapshot i => P i ∧ ∃ t, snapshot.included = tree.header (moments t).tip)
      fun e i => P i ∧ NodeFails moments e := by
  refine (nextMoment_triple hP).bind fun m => ?_
  by_cases hup : m.rpcUp
  · simp only [hup, ite_true]
    refine .pure ?_
    rintro i ⟨hi, t, rfl⟩
    exact ⟨hi, t, rfl⟩
  · simp only [hup]
    refine .throw ?_
    rintro i ⟨hi, t, rfl⟩
    exact ⟨hi, .inl ⟨rfl, t, Bool.eq_false_iff.2 hup⟩⟩

theorem getSnapshot_triple (hP : Timeless P) :
    Triple P (getSnapshot tree moments)
      (fun snapshot i => P i ∧ ∃ t, snapshot.included = tree.header (moments t).tip) (fun _ => P) :=
  (getSnapshot_outcome hP).conseq (fun _ hi => hi) (fun _ _ hi => hi) fun _ _ hi => hi.1

/-- The node answers with the canonical block of the moment. -/
theorem getBlockByNumber_outcome (hP : Timeless P) (n : ℕ) :
    Triple P (getBlockByNumber tree moments n)
      (fun header i => P i ∧ ∃ t, n ≤ tree.number (moments t).tip ∧
        header = tree.header (tree.canonical (moments t).tip n))
      fun e i => P i ∧ NodeFails moments e := by
  refine (nextMoment_triple hP).bind fun m => ?_
  by_cases hup : m.rpcUp
  · by_cases hn : n ≤ tree.number m.tip
    · simp only [hup, hn, ite_true]
      refine .pure ?_
      rintro i ⟨hi, t, rfl⟩
      exact ⟨hi, t, hn, rfl⟩
    · simp only [hup, hn]
      exact .throw fun i hi => ⟨hi.1, .inr rfl⟩
  · simp only [hup]
    refine .throw ?_
    rintro i ⟨hi, t, rfl⟩
    exact ⟨hi, .inl ⟨rfl, t, Bool.eq_false_iff.2 hup⟩⟩

theorem getBlockByNumber_triple (hP : Timeless P) (n : ℕ) :
    Triple P (getBlockByNumber tree moments n)
      (fun header i => P i ∧ ∃ t, n ≤ tree.number (moments t).tip ∧
        header = tree.header (tree.canonical (moments t).tip n)) (fun _ => P) :=
  (getBlockByNumber_outcome hP n).conseq (fun _ hi => hi) (fun _ _ hi => hi) fun _ _ hi => hi.1

/-- What a call of the store leaves behind, completed or not. -/
theorem callStore_outcome (hP : Timeless P) {op : StoreOp H}
    (hdone : ∀ i t store, P i → (moments t).storeUp = true →
      projections.run (moments t) op i.store = .ok () store →
      Q { i with store, calls := i.calls ++ [⟨i.store, i.chain, moments t, op, true⟩] })
    (hfail : ∀ i t e store, P i →
      ((moments t).storeUp = false ∧ store = i.store ∨
        (moments t).storeUp = true ∧ projections.run (moments t) op i.store = .error e store) →
      E e { i with store, calls := i.calls ++ [⟨i.store, i.chain, moments t, op, false⟩] }) :
    Triple P (callStore projections moments op) (fun _ => Q) E := by
  refine (nextMoment_triple hP).bind fun m => ?_
  refine (Triple.get (Q := fun i s => i = s ∧ P i ∧ ∃ t, m = moments t) fun s hs => ⟨rfl, hs⟩).bind
    fun i => ?_
  by_cases hup : m.storeUp
  · cases hrun : projections.run m op i.store with
    | ok u store =>
      simp only [hup, ite_true]
      rintro _ ⟨rfl, hi, t, rfl⟩
      exact hdone i t store hi hup hrun
    | error e store =>
      simp only [hup, ite_true]
      rintro _ ⟨rfl, hi, t, rfl⟩
      exact hfail i t e store hi (.inr ⟨hup, hrun⟩)
  · simp only [hup]
    rintro _ ⟨rfl, hi, t, rfl⟩
    exact hfail i t .store i.store hi (.inl ⟨by simpa using hup, rfl⟩)

theorem callStore_triple (hP : Timeless P) {op : StoreOp H}
    (hdone : ∀ i m store, P i → m.storeUp = true → projections.run m op i.store = .ok () store →
      Q { i with store, calls := i.calls ++ [⟨i.store, i.chain, m, op, true⟩] })
    (hfail : ∀ i m e store, P i →
      (m.storeUp = false ∧ store = i.store ∨
        m.storeUp = true ∧ projections.run m op i.store = .error e store) →
      E e { i with store, calls := i.calls ++ [⟨i.store, i.chain, m, op, false⟩] }) :
    Triple P (callStore projections moments op) (fun _ => Q) E :=
  callStore_outcome hP (fun i t => hdone i (moments t)) fun i t => hfail i (moments t)

/-- Reverting is one call of the store a block, and the walk stops at the first that throws. -/
theorem revertBlocks_triple (hP : Timeless P)
    (hstep : ∀ i m store block completed, P i →
      P { i with store, calls := i.calls ++ [⟨i.store, i.chain, m, .revert block, completed⟩] })
    (blocks : List (IndexedBlock H)) :
    Triple P (revertBlocks projections moments blocks) (fun _ => P) (fun _ => P) := by
  induction blocks with
  | nil => exact .pure fun _ hi => hi
  | cons block rest ih =>
    exact (callStore_triple hP (fun i m store hi _ _ => hstep i m store block true hi)
      fun i m _ store hi _ => hstep i m store block false hi).bind fun _ => ih

/-- The outcome of a call of the store, completed or not. -/
def Outcome (projections : ProjectionStore H σ) (m : Moment H) (op : StoreOp H) (before after : σ)
    (completed : Bool) : Prop :=
  if m.storeUp then
    if completed then projections.run m op before = .ok () after
    else ∃ e, projections.run m op before = .error e after
  else completed = false ∧ after = before

/-- An assertion about the store and the calls it has had, kept by every call of the store. -/
structure StoreInvariant (projections : ProjectionStore H σ) (I : Indexer H σ → Prop) : Prop where
  timeless : Timeless I
  viewless : ∀ i chain, I i → I { i with chain }
  call : ∀ i m op store completed, I i → Outcome projections m op i.store store completed →
    I { i with store, calls := i.calls ++ [⟨i.store, i.chain, m, op, completed⟩] }

variable {I : Indexer H σ → Prop} (hI : StoreInvariant projections I)

include hI

theorem callStore_keeps (op : StoreOp H) :
    Triple I (callStore projections moments op) (fun _ => I) (fun _ => I) :=
  callStore_triple hI.timeless
    (fun i m store hi hup hrun => hI.call i m op store true hi (by simp [Outcome, hup, hrun]))
    (fun i m e store hi hfail => hI.call i m op store false hi (by
      rcases hfail with ⟨hup, rfl⟩ | ⟨hup, hrun⟩
      · simp [Outcome, hup]
      · simpa [Outcome, hup] using ⟨e, hrun⟩))

theorem applyBlocks_keeps (snapshot : ChainSnapshot H) (ns : List ℕ) :
    Triple I (applyBlocks tree projections moments snapshot ns) (fun _ => I) (fun _ => I) := by
  induction ns with
  | nil => exact .pure fun _ hi => hi
  | cons n ns ih =>
    refine Triple.bind ((getBlockByNumber_triple hI.timeless n).conseq (fun _ hi => hi)
      (fun _ _ hi => hi.1) fun _ _ hi => hi) fun header => ?_
    refine (callStore_keeps hI _).bind fun _ => ?_
    exact Triple.bind (.modify fun i hi => hI.viewless i _ hi) fun _ =>
      ih.bind fun _ => .pure fun _ hi => hi

theorem revertBlocks_keeps (blocks : List (IndexedBlock H)) :
    Triple I (revertBlocks projections moments blocks) (fun _ => I) (fun _ => I) := by
  induction blocks with
  | nil => exact .pure fun _ hi => hi
  | cons block rest ih => exact (callStore_keeps hI _).bind fun _ => ih

theorem reconcile_keeps (snapshot : ChainSnapshot H) (tip : IndexedBlock H)
    (divergedAt : Option ℕ) :
    Triple I (reconcile tree projections moments snapshot tip divergedAt) (fun _ => I) (fun _ => I) := by
  cases divergedAt with
  | none => exact (applyBlocks_keeps hI _ _).bind fun _ => .pure fun _ hi => hi
  | some divergedAt =>
    refine Triple.bind (Q := fun _ => I) (.get fun _ hi => hi) fun i => ?_
    refine (revertBlocks_keeps hI _).bind fun _ => ?_
    exact Triple.bind (.modify fun i hi => hI.viewless i _ hi) fun _ =>
      (applyBlocks_keeps hI _ _).bind fun _ => .pure fun _ hi => hi

variable [DecidableEq H]

omit hI in
theorem findDivergence_outcome (hP : Timeless P) (blocks : List (IndexedBlock H))
    (divergedAt : Option ℕ) :
    Triple P (findDivergence tree moments blocks divergedAt)
      (fun r i => P i ∧ (r = divergedAt ∨ ∃ block ∈ blocks, r = some block.header.number))
      fun e i => P i ∧ NodeFails moments e := by
  induction blocks generalizing divergedAt with
  | nil => exact .pure fun _ hi => ⟨hi, .inl rfl⟩
  | cons block rest ih =>
    refine (getBlockByNumber_outcome hP _).bind fun remote => ?_
    refine .ite (fun _ => .pure fun _ hi => ⟨hi.1, .inl rfl⟩) fun _ => ?_
    refine (ih _).conseq (fun _ hi => hi.1) (fun r i hi => ⟨hi.1, ?_⟩) fun _ _ hi => hi
    rcases hi.2 with rfl | ⟨b, hb, rfl⟩
    · exact .inr ⟨block, by simp, rfl⟩
    · exact .inr ⟨b, by simp [hb], rfl⟩

omit hI in
theorem findDivergence_triple (hP : Timeless P) (blocks : List (IndexedBlock H))
    (divergedAt : Option ℕ) :
    Triple P (findDivergence tree moments blocks divergedAt)
      (fun r i => P i ∧ (r = divergedAt ∨ ∃ block ∈ blocks, r = some block.header.number)) (fun _ => P) :=
  (findDivergence_outcome hP blocks divergedAt).conseq (fun _ hi => hi) (fun _ _ hi => hi)
    fun _ _ hi => hi.1

/-- A tick keeps what every call of the store keeps, wherever it stops. -/
theorem syncOnce_keeps (fromNumber : ℕ) :
    Triple I (syncOnce tree projections moments fromNumber) (fun _ => I) (fun _ => I) := by
  have hretag : ∀ snapshot, Triple I (retag snapshot : EStateM Error (Indexer H σ) Unit)
      (fun _ => I) (fun _ => I) := fun snapshot => .modify fun i hi => hI.viewless i _ hi
  refine (getSnapshot_triple hI.timeless).bind fun snapshot => ?_
  refine Triple.bind (Q := fun _ => I) (.get fun _ hi => hi.1) fun i => ?_
  split
  · exact (applyBlocks_keeps hI _ _).bind fun _ => (hretag _).bind fun _ => .pure fun _ hi => hi
  · refine Triple.bind (Q := fun _ => I) ?_ fun divergedAt =>
      (reconcile_keeps hI _ _ _).bind fun _ => (hretag _).bind fun _ => .pure fun _ hi => hi
    exact (findDivergence_triple hI.timeless _ _).conseq (fun _ hi => hi) (fun _ _ hi => hi.1)
      fun _ _ hi => hi

end Specifications

variable [DecidableEq H] (tree : BlockTree H) (projections : ProjectionStore H σ)

/-- A tick starts once the one before has ended, however it ended. -/
def Indexer.sync (tick : Tick H) (i : Indexer H σ) :
    EStateM.Result Error (Indexer H σ) (Option (ReorgReport H)) :=
  syncOnce tree projections tick.moments tick.fromNumber { i with clock := 0 }

def Indexer.run (i : Indexer H σ) (ticks : List (Tick H)) : Indexer H σ :=
  ticks.foldl (fun i tick => final (i.sync tree projections tick)) i

end Linvesther.ChainWorker
