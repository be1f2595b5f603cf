import Linvesther.Wallet.Snapshot

/-! Reading one network again and again: what is kept of each reading, and how the balances add up over
all of them. A sync that is turned away (another one runs, or the last was too recent) changes nothing
and is not among those of a run. -/

namespace Linvesther.Wallet

open Transaction

section Tables

structure AnchorRow where
  quantity : ℚ
  block : ℕ
  symbol : String
  decimals : ℕ
  unrepresentable : Bool

inductive RowKind where
  | transfer
  | gas
  | unexplained
deriving DecidableEq

structure EffectRow where
  txHash : String
  asset : String
  kind : RowKind
  block : ℕ
  timeMs : ℕ
  delta : ℚ

structure ChainState where
  syncedBlock : ℕ
  syncedAtMs : ℕ
  transfersIncomplete : Bool

/-- The rows of one connection and one network. -/
structure ChainRows where
  state : Option ChainState
  anchors : Std.TreeMap String AnchorRow
  effects : List EffectRow

def ChainRows.init : ChainRows := ⟨none, ∅, []⟩

/-- The primary key of an effect. -/
def EffectRow.key (e : EffectRow) : String × String × RowKind := (e.txHash, e.asset, e.kind)

/-- `ON CONFLICT DO NOTHING`. -/
def insertEffect (rows : List EffectRow) (e : EffectRow) : List EffectRow :=
  if e.key ∈ rows.map EffectRow.key then rows else rows ++ [e]

def RowKind.of : EffectKind → RowKind
  | .transfer => .transfer
  | .gas => .gas

def Effect.row (e : Effect) : EffectRow :=
  ⟨e.txHash, e.asset, .of e.kind, e.block, e.timeMs, e.delta⟩

def unexplainedRow (reading : Reading) (nowMs : ℕ) (d : String × ℚ) : EffectRow :=
  ⟨"unexplained:" ++ Nat.repr reading.end_, d.1, .unexplained, reading.end_, nowMs, d.2⟩

def isNative (asset : String) : Bool := asset.endsWith ":native"

def decimalsOf (reading : Reading) (previous : Std.TreeMap String (ℚ × ℕ)) (asset : String) : ℕ :=
  if isNative asset then 18
  else ((reading.tokens[asset]?.map TokenMeta.decimals).or (previous[asset]?.map Prod.snd)).getD 18

def anchorRow (chain : Chain) (reading : Reading) (asset : String) (quantity : ℚ) : AnchorRow :=
  let known := if isNative asset then (chain.nativeSymbol, 18)
    else (reading.tokens[asset]?.map fun t => (t.symbol, t.decimals)).getD ("", 0)
  ⟨quantity, reading.end_, known.1, known.2, false⟩

/-- The row of an asset that cannot be represented; one that is there is marked. -/
def markUnrepresentable (reading : Reading) (row : Option AnchorRow) : AnchorRow :=
  match row with
  | some row => { row with unrepresentable := true }
  | none => ⟨0, reading.end_, "", 18, true⟩

def anchorRows (chain : Chain) (reading : Reading) : Std.TreeMap String AnchorRow :=
  let rows := reading.anchor.map fun asset quantity => anchorRow chain reading asset quantity
  (reading.unrepresentable.sort (· ≤ ·)).foldl (fun rows asset =>
    rows.alter asset fun row => some (markUnrepresentable reading row)) rows

/-- The unexplained differences to record: none at the first reading. -/
def differencesOf (reading : Reading) (previous : Option (Std.TreeMap String (ℚ × ℕ))) :
    Option (List (String × ℚ)) :=
  match previous with
  | none => some []
  | some previous => unexplained (previous.map fun _ p => p.1) reading.confirmed reading.anchor
      (decimalsOf reading previous)

/-- What is kept of a reading, or `none` where the code panics. -/
def persist (rows : ChainRows) (chain : Chain) (reading : Reading)
    (previous : Option (Std.TreeMap String (ℚ × ℕ))) (nowMs : ℕ) : Option ChainRows :=
  (differencesOf reading previous).map fun differences =>
    let effects := (reading.confirmed.map Effect.row).foldl insertEffect rows.effects
    { state := some ⟨reading.end_, nowMs, reading.transfersIncomplete⟩
      anchors := anchorRows chain reading
      effects := (differences.map (unexplainedRow reading nowMs)).foldl insertEffect effects }

end Tables

section Sync

variable {ReadError PriceError : Type}

/-- The balances of the last reading that can be represented, with their decimals. -/
def ChainRows.previous (rows : ChainRows) : Std.TreeMap String (ℚ × ℕ) :=
  (rows.anchors.filter fun _ row => !row.unrepresentable).map fun _ row =>
    (row.quantity, row.decimals)

def ChainRows.known (rows : ChainRows) : Finset String :=
  rows.anchors.keys.toFinset ∪ (rows.effects.map EffectRow.asset).toFinset

/-- What a sync of the network meets: the explorer and the node, the prices, the time, and whether the
database takes what is written. -/
structure SyncInput (ReadError PriceError : Type) where
  reader : ChainReader ReadError
  prices : PriceProvider PriceError
  nowMs : ℕ
  committed : Bool

inductive SyncError (ReadError PriceError : Type) where
  | snapshot (e : SnapshotError ReadError PriceError)
  | nothingNew
  | panicked
  | database

variable (lib : Lib) (chain : Chain) (address : String)

def ChainRows.request (rows : ChainRows) : ReadRequest :=
  ⟨chain, address, rows.state.map ChainState.syncedBlock, rows.known⟩

/-- The sync of one network: the rows it leaves and the reading it keeps. -/
def syncChain (rows : ChainRows) (i : SyncInput ReadError PriceError) :
    Except (SyncError ReadError PriceError) (ChainRows × Reading) :=
  match readChain lib i.reader i.prices (rows.request chain address) with
  | .error e => .error (.snapshot e)
  | .ok none => .error .nothingNew
  | .ok (some reading) =>
    let previous := if rows.state.isNone then none else some rows.previous
    match persist rows chain reading previous i.nowMs with
    | none => .error .panicked
    | some rows' => if i.committed then .ok (rows', reading) else .error .database

end Sync

end Linvesther.Wallet
