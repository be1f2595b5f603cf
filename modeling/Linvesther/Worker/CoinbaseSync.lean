import Linvesther.Base.Runs
import Linvesther.Worker.Coinbase

/-! Syncs of one Coinbase account: any number of them, each a sequence of requests and statements that the
others come between. A run that crashes leaves what it has written. -/

namespace Linvesther.Worker.Coinbase

section Exchange

/-- Coinbase's side. A trade is executed at one moment; it comes into the list of fills and into the balances
at moments of its own, `SETTLE_MS` later at most. -/
structure Exchange where
  clock : ℕ
  accounts : List AccountBalance
  executed : List Fill
  listed : List Fill
  settled : List Fill
  transfers : List (String × ℚ)

def Exchange.init (clock : ℕ) (accounts : List AccountBalance) : Exchange := ⟨clock, accounts, [], [], [], []⟩

inductive Event where
  | wait (ms : ℕ)
  | transfer (asset : String) (amount : ℚ)
  | trade (fill : Fill)
  | list (fill : Fill)
  | settle (fill : Fill)
  /-- An order is placed, or taken back. -/
  | hold (asset : String) (amount : ℚ)

def credit (accounts : List AccountBalance) (p : String × ℚ) : List AccountBalance :=
  match accounts with
  | [] => [⟨p.1, p.2, 0⟩]
  | b :: rest => if b.asset = p.1 then { b with free := b.free + p.2 } :: rest else b :: credit rest p

def Exchange.step (x : Exchange) : Event → Exchange
  | .wait ms =>
    if x.executed.all fun f => x.clock + ms < f.tradeTimeMs + SETTLE_MS || f ∈ x.listed && f ∈ x.settled then
      { x with clock := x.clock + ms }
    else x
  | .transfer asset amount =>
    { x with accounts := credit x.accounts (asset, amount), transfers := x.transfers ++ [(asset, amount)] }
  | .trade fill =>
    if fill.tradeTimeMs = x.clock && x.executed.all (·.entryId ≠ fill.entryId) then
      { x with executed := x.executed ++ [fill] }
    else x
  | .list fill => if fill ∈ x.executed && fill ∉ x.listed then { x with listed := x.listed ++ [fill] } else x
  | .settle fill =>
    if fill ∈ x.executed && fill ∉ x.settled then
      { x with accounts := (fillEffects fill).foldl credit x.accounts, settled := x.settled ++ [fill] }
    else x
  | .hold asset amount =>
    { x with
      accounts := x.accounts.map fun b =>
        if b.asset = asset then { b with free := b.free - amount, locked := b.locked + amount } else b }

end Exchange

section Model

/-- A row of `coinbase_balance_snapshots`. Beside it stand the transfers that had been made when the balances
were read. -/
structure Snapshot where
  takenAtMs : ℕ
  balances : Amounts
  transfers : List (String × ℚ)

/-- A row of `coinbase_inferred_flows`. -/
structure Flow where
  atMs : ℕ
  asset : String
  amount : ℚ

/-- The tables, of one connection. A fill stands with its `reconciled`. -/
structure Db where
  fills : List (Fill × Bool)
  snapshots : List Snapshot
  flows : List Flow

def Db.init : Db := ⟨[], [], []⟩

def Db.insertFill (db : Db) (fill : Fill) : Db :=
  { db with fills := FirstWins.insertNew (fun row => row.1.entryId) db.fills (fill, false) }

def Db.storedFills (db : Db) : List (Fill × Bool) :=
  db.fills.insertionSort fun a b =>
    a.1.tradeTimeMs < b.1.tradeTimeMs ∨ a.1.tradeTimeMs = b.1.tradeTimeMs ∧ a.1.entryId ≤ b.1.entryId

def Db.latestSnapshot (db : Db) : Option Snapshot := db.snapshots.argmax Snapshot.takenAtMs

def Db.insertFlow (db : Db) (flow : Flow) : Db :=
  { db with flows := FirstWins.insertNew (fun w => (w.atMs, w.asset)) db.flows flow }

def Db.insertSnapshot (db : Db) (snapshot : Snapshot) : Db :=
  { db with snapshots := FirstWins.insertNew Snapshot.takenAtMs db.snapshots snapshot }

def Db.markReconciled (db : Db) : Db := { db with fills := db.fills.map fun row => (row.1, true) }

/-- The statements of `record` with nothing between them. -/
def Db.record (db : Db) (snapshot : Snapshot) (flows : List (String × ℚ)) : Db :=
  let recorded := flows.foldl (fun db p => db.insertFlow ⟨snapshot.takenAtMs, p.1, p.2⟩) db
  (recorded.insertSnapshot snapshot).markReconciled

def unreconciled (stored : List (Fill × Bool)) : List Fill := (stored.filter fun row => !row.2).map Prod.fst

/-- Where a run of `sync` stands. `recording` is in `record`, `begun` once something is written. -/
inductive Phase where
  | opened
  | reading
  | storing (fills : List Fill)
  | comparing (stored : List (Fill × Bool))
  | recording (stored : List (Fill × Bool)) (previous : Option Snapshot) (flows : List (String × ℚ)) (begun : Bool)
  | marking
  | recorded
  | ended

/-- A run with the balances it has read. `transfers` and `settled` are what these come from. -/
structure Run where
  nowMs : ℕ
  phase : Phase
  balances : Amounts
  transfers : List (String × ℚ)
  settled : List Fill

def Run.snapshot (r : Run) : Snapshot := ⟨r.nowMs, r.balances, r.transfers⟩

/-- The `match previous` of `sync`. -/
def Run.compared (r : Run) (stored : List (Fill × Bool)) : Option Snapshot → Phase
  | none => .recording stored none [] false
  | some before =>
    if stored.any fun row => r.nowMs < row.1.tradeTimeMs + SETTLE_MS then .ended
    else
      .recording stored (some before) (inferTransfers before.balances r.balances (unreconciled stored)).toList false

structure System where
  exchange : Exchange
  db : Db
  runs : List Run

def System.init (x : Exchange) : System := ⟨x, Db.init, []⟩

inductive Move where
  | exchange (event : Event)
  | sync
  | next (i : ℕ)
  | crash (i : ℕ)

def System.setRun (s : System) (i : ℕ) (r : Run) (phase : Phase) : System :=
  { s with runs := s.runs.set i { r with phase := phase } }

/-- The next request or statement of a run. -/
def System.next (s : System) (i : ℕ) (r : Run) : System :=
  match r.phase with
  | .opened =>
    let r' : Run := ⟨r.nowMs, .reading, totals s.exchange.accounts, s.exchange.transfers, s.exchange.settled⟩
    { s with runs := s.runs.set i r' }
  | .reading => s.setRun i r (.storing s.exchange.listed)
  | .storing (fill :: rest) => { s with db := s.db.insertFill fill }.setRun i r (.storing rest)
  | .storing [] => s.setRun i r (.comparing s.db.storedFills)
  | .comparing stored => s.setRun i r (r.compared stored s.db.latestSnapshot)
  | .recording stored previous (p :: rest) _ =>
    { s with db := s.db.insertFlow ⟨r.nowMs, p.1, p.2⟩ }.setRun i r (.recording stored previous rest true)
  | .recording _ _ [] _ => { s with db := s.db.insertSnapshot r.snapshot }.setRun i r .marking
  | .marking => { s with db := s.db.markReconciled }.setRun i r .recorded
  | .recorded => s
  | .ended => s

def System.step (s : System) : Move → System
  | .exchange event => { s with exchange := s.exchange.step event }
  | .sync => { s with runs := s.runs ++ [⟨s.exchange.clock, .opened, ∅, [], []⟩] }
  | .next i =>
    match s.runs[i]? with
    | some r => s.next i r
    | none => s
  | .crash i =>
    match s.runs[i]? with
    | some r => s.setRun i r .ended
    | none => s

def System.run (s : System) (moves : List Move) : System := moves.foldl System.step s

end Model

section Spec

/-- The amounts recorded for an asset, in order. -/
def amountsOf (asset : String) (flows : List Flow) : List ℚ :=
  flows.filterMap fun w => if w.asset = asset then some w.amount else none

/-- What was transferred between two snapshots. -/
def moved (asset : String) (before now : Snapshot) : ℚ := sumOf asset now.transfers - sumOf asset before.transfers

/-- The transfers that the snapshots, each with the one before it, allow to be detected. -/
def detected (asset : String) : List Snapshot → List ℚ
  | before :: now :: rest => (asTransfer asset (moved asset before now)).toList ++ detected asset (now :: rest)
  | _ => []

/-- What is detected is recorded once, and nothing else is. -/
def Accounted (db : Db) : Prop := ∀ asset, amountsOf asset db.flows = detected asset db.snapshots

/-- A run that has written something and has more to write. -/
def Run.begun (r : Run) : Bool :=
  match r.phase with
  | .recording _ _ _ begun => begun
  | .marking => true
  | _ => false

def System.partway (s : System) : Bool := s.runs.any Run.begun

/-- No run stores a new fill, or begins to record, while another is partway. A run begins with what is still
stored, later than every snapshot, and with the trades that are in its balances stored; at the first look those
that are stored are in its balances too. None crashes partway, unless all is written but for marks that stand. -/
def undisturbed (s : System) : Move → Bool
  | .next i =>
    match s.runs[i]? with
    | some r =>
      match r.phase with
      | .storing (fill :: _) => s.db.fills.any (fun row => row.1.entryId = fill.entryId) || !s.partway
      | .recording stored previous _ false =>
        !s.partway && s.db.storedFills = stored &&
          s.db.latestSnapshot.map Snapshot.takenAtMs = previous.map Snapshot.takenAtMs &&
          s.db.snapshots.all (fun sn => sn.takenAtMs < r.nowMs) &&
          r.settled.all (fun f => f ∈ stored.map Prod.fst) &&
          (previous.isSome || stored.all fun row => row.1 ∈ r.settled)
      | _ => true
    | none => true
  | .crash i =>
    match s.runs[i]? with
    | some r =>
      match r.phase with
      | .marking => s.db.fills.all fun row => row.2
      | _ => !r.begun
    | none => true
  | _ => true

end Spec

section Exchange

variable {asset : String} {accounts : List AccountBalance} {base : String → ℚ} {x : Exchange} {e : Event}
  {f : Fill}

theorem held_credit (p : String × ℚ) :
    held asset (credit accounts p) = held asset accounts + if p.1 = asset then p.2 else 0 := by
  induction accounts with
  | nil => simp [credit, held]
  | cons b rest ih =>
    unfold credit
    unfold held at ih ⊢
    split_ifs with hb ha ha
    · simp only [List.map_cons, sumOf_cons, hb, ha, if_true]
      ring
    · simp [hb, ha]
    · simp only [List.map_cons, sumOf_cons, ih, ha, if_true]
      ring
    · simp [ih, ha]

theorem held_foldl_credit (changes : List (String × ℚ)) :
    held asset (changes.foldl credit accounts) = held asset accounts + sumOf asset changes := by
  induction changes generalizing accounts with
  | nil => simp
  | cons p changes ih => rw [List.foldl_cons, ih, held_credit, sumOf_cons, add_assoc]

theorem held_hold (reserved : String) (amount : ℚ) :
    held asset (accounts.map fun b =>
      if b.asset = reserved then { b with free := b.free - amount, locked := b.locked + amount } else b) =
      held asset accounts := by
  unfold held
  rw [List.map_map]
  congr 1
  refine List.map_congr_left fun b _ => ?_
  dsimp only [Function.comp_apply]
  split_ifs
  · simp
  · rfl

/-- The accounts hold what they held at first, what was transferred and what the trades in them made. -/
structure Exchange.Ok (base : String → ℚ) (x : Exchange) : Prop where
  balance : ∀ asset, held asset x.accounts = base asset + sumOf asset x.transfers + explained asset x.settled
  listed : ∀ f ∈ x.listed, f ∈ x.executed
  nodup : x.settled.Nodup
  due : ∀ f ∈ x.executed, f.tradeTimeMs + SETTLE_MS ≤ x.clock → f ∈ x.settled

theorem Exchange.ok_init (clock : ℕ) (accounts : List AccountBalance) :
    Exchange.Ok (fun asset => held asset accounts) (Exchange.init clock accounts) where
  balance asset := by simp [Exchange.init, explained]
  listed f hf := by simp [Exchange.init] at hf
  nodup := List.nodup_nil
  due f hf := by simp [Exchange.init] at hf

theorem Exchange.clock_le_step (x : Exchange) (e : Event) : x.clock ≤ (x.step e).clock := by
  cases e with
  | transfer a amount => exact le_rfl
  | hold a amount => exact le_rfl
  | _ =>
    dsimp only [Exchange.step]
    split_ifs <;> simp

theorem Exchange.mem_executed_step : f ∈ (x.step e).executed ↔
    f ∈ x.executed ∨ e = .trade f ∧ f.tradeTimeMs = x.clock ∧ ∀ g ∈ x.executed, g.entryId ≠ f.entryId := by
  cases e with
  | trade fill =>
    dsimp only [Exchange.step]
    split_ifs with h
    · simp only [Bool.and_eq_true, decide_eq_true_eq, List.all_eq_true] at h
      rw [List.mem_append, List.mem_singleton]
      refine or_congr_right ⟨?_, fun hf => (Event.trade.inj hf.1).symm⟩
      rintro rfl
      exact ⟨rfl, h⟩
    · simp only [Bool.and_eq_true, decide_eq_true_eq, List.all_eq_true] at h
      refine (or_iff_left ?_).symm
      rintro ⟨heq, hf⟩
      cases heq
      exact h hf
  | wait ms =>
    dsimp only [Exchange.step]
    split_ifs <;> simp
  | list fill =>
    dsimp only [Exchange.step]
    split_ifs <;> simp
  | settle fill =>
    dsimp only [Exchange.step]
    split_ifs <;> simp
  | transfer a amount => simp [Exchange.step]
  | hold a amount => simp [Exchange.step]

/-- A trade that is executed has its time within `SETTLE_MS` of any that was before. -/
theorem Exchange.recent_of_executed {now : ℕ} (hnow : now ≤ x.clock) (hf : f ∈ (x.step e).executed)
    (hdue : f.tradeTimeMs + SETTLE_MS ≤ now) : f ∈ x.executed := by
  rcases Exchange.mem_executed_step.1 hf with hold | ⟨-, htime, -⟩
  · exact hold
  · unfold SETTLE_MS at hdue
    omega

theorem Exchange.Ok.step (h : x.Ok base) (e : Event) : (x.step e).Ok base := by
  cases e with
  | wait ms =>
    dsimp only [Exchange.step]
    split_ifs with hall
    · refine ⟨h.balance, h.listed, h.nodup, fun f hf hdue => ?_⟩
      have hin := List.all_eq_true.1 hall f hf
      simp only [Bool.or_eq_true, Bool.and_eq_true, decide_eq_true_eq] at hin
      rcases hin with hlater | hsettled
      · dsimp only at hdue
        omega
      · exact hsettled.2
    · exact h
  | transfer a amount =>
    refine ⟨fun asset => ?_, h.listed, h.nodup, h.due⟩
    dsimp only [Exchange.step]
    rw [held_credit, h.balance, sumOf_append, sumOf_cons, sumOf_nil]
    ring
  | trade fill =>
    dsimp only [Exchange.step]
    split_ifs with hnew
    · simp only [Bool.and_eq_true, decide_eq_true_eq, List.all_eq_true] at hnew
      refine ⟨h.balance, fun f hf => List.mem_append_left _ (h.listed f hf), h.nodup, fun f hf hdue => ?_⟩
      dsimp only at hf hdue
      rcases List.mem_append.1 hf with hold | hlast
      · exact h.due f hold hdue
      · rw [List.mem_singleton.1 hlast] at hdue
        unfold SETTLE_MS at hdue
        omega
    · exact h
  | list fill =>
    dsimp only [Exchange.step]
    split_ifs with hnew
    · simp only [Bool.and_eq_true, decide_eq_true_eq] at hnew
      refine ⟨h.balance, fun f hf => ?_, h.nodup, h.due⟩
      rcases List.mem_append.1 hf with hold | hlast
      · exact h.listed f hold
      · rw [List.mem_singleton.1 hlast]
        exact hnew.1
    · exact h
  | settle fill =>
    dsimp only [Exchange.step]
    split_ifs with hnew
    · simp only [Bool.and_eq_true, decide_eq_true_eq] at hnew
      refine ⟨fun asset => ?_, h.listed, ?_, fun f hf hdue => List.mem_append_left _ (h.due f hf hdue)⟩
      · dsimp only
        rw [held_foldl_credit, h.balance]
        unfold explained
        rw [List.flatMap_append, sumOf_append, List.flatMap_singleton]
        ring
      · exact List.nodup_append.2 ⟨h.nodup, List.nodup_singleton _, fun f hf g hg heq => hnew.2 (by
          rw [← List.mem_singleton.1 hg, ← heq]
          exact hf)⟩
    · exact h
  | hold a amount =>
    refine ⟨fun asset => ?_, h.listed, h.nodup, h.due⟩
    dsimp only [Exchange.step]
    rw [held_hold, h.balance]

end Exchange

section Tally

variable {asset : String} {base : String → ℚ} {db : Db} {sn last : Snapshot} {flows : List (String × ℚ)}

def reconciled (stored : List (Fill × Bool)) : List Fill := (stored.filter fun row => row.2).map Prod.fst

theorem explained_map_fst (stored : List (Fill × Bool)) : explained asset (stored.map Prod.fst) =
    explained asset (reconciled stored) + explained asset (unreconciled stored) := by
  unfold explained reconciled unreconciled
  induction stored with
  | nil => simp
  | cons row stored ih =>
    obtain ⟨fill, done⟩ := row
    cases done
    · simp [ih]
      ring
    · simp [ih]
      ring

theorem reconciled_markReconciled : reconciled db.markReconciled.fills = db.fills.map Prod.fst := by
  unfold reconciled Db.markReconciled
  rw [List.filter_eq_self.2, List.map_map]
  · rfl
  · intro row hrow
    obtain ⟨old, -, rfl⟩ := List.mem_map.1 hrow
    rfl

theorem perm_storedFills (db : Db) : db.storedFills.Perm db.fills := List.perm_insertionSort _ _

/-- Where each snapshot is later than those before it, the latest is the last. -/
theorem latestSnapshot_eq (h : db.snapshots.Pairwise fun a b => a.takenAtMs < b.takenAtMs) :
    db.latestSnapshot = db.snapshots.getLast? := by
  unfold Db.latestSnapshot
  induction hsnapshots : db.snapshots using List.reverseRecOn generalizing db with
  | nil => rfl
  | append_singleton l sn ih =>
    rw [hsnapshots, List.pairwise_append] at h
    rw [List.argmax_concat, @ih { db with snapshots := l } h.1 rfl, List.getLast?_concat]
    cases hl : l.getLast? with
    | none => rfl
    | some last =>
      have hlt := h.2.2 last (List.mem_of_getLast? hl) sn (List.mem_singleton.2 rfl)
      simp [hlt]

theorem detected_concat (snapshots : List Snapshot) : detected asset (snapshots ++ [sn]) =
    detected asset snapshots ++ (snapshots.getLast?.bind fun last => asTransfer asset (moved asset last sn)).toList := by
  induction snapshots with
  | nil => simp [detected]
  | cons before rest ih =>
    cases rest with
    | nil => simp [detected]
    | cons now rest =>
      simp only [List.cons_append, detected] at ih ⊢
      rw [ih, List.append_assoc, List.getLast?_cons_cons]

theorem amountsOf_append (flows more : List Flow) :
    amountsOf asset (flows ++ more) = amountsOf asset flows ++ amountsOf asset more :=
  List.filterMap_append

/-- The tables as they are between two runs: what is detected is recorded, and the last snapshot holds what the
reconciled fills explain. -/
structure Tallied (base : String → ℚ) (db : Db) : Prop where
  ordered : db.snapshots.Pairwise fun a b => a.takenAtMs < b.takenAtMs
  flowsAt : ∀ w ∈ db.flows, ∃ sn ∈ db.snapshots, w.atMs = sn.takenAtMs
  accounted : Accounted db
  held : ∀ sn, db.snapshots.getLast? = some sn → ∀ asset,
    sn.balances.getD asset 0 = base asset + sumOf asset sn.transfers + explained asset (reconciled db.fills)

theorem tallied_init (base : String → ℚ) : Tallied base Db.init where
  ordered := List.Pairwise.nil
  flowsAt w hw := by simp [Db.init] at hw
  accounted asset := rfl
  held sn hsn := by simp [Db.init] at hsn

theorem foldl_insertFlow (now : ℕ) : flows.foldl (fun db p => db.insertFlow ⟨now, p.1, p.2⟩) db =
    { db with
      flows := FirstWins.insertAll (fun w => (w.atMs, w.asset)) db.flows (flows.map fun p => ⟨now, p.1, p.2⟩) } := by
  induction flows generalizing db with
  | nil => rfl
  | cons p flows ih =>
    rw [List.foldl_cons, ih]
    rfl

/-- At a time that is later than all before, `record` puts down every flow and the snapshot. -/
theorem record_eq (hflowsAt : ∀ w ∈ db.flows, ∃ old ∈ db.snapshots, w.atMs = old.takenAtMs)
    (hlater : ∀ old ∈ db.snapshots, old.takenAtMs < sn.takenAtMs) (hkeys : (flows.map Prod.fst).Nodup) :
    db.record sn flows = ⟨db.fills.map fun row => (row.1, true), db.snapshots ++ [sn],
      db.flows ++ flows.map fun p => ⟨sn.takenAtMs, p.1, p.2⟩⟩ := by
  have hfresh : FirstWins.insertAll (fun w : Flow => (w.atMs, w.asset)) db.flows
      (flows.map fun p => ⟨sn.takenAtMs, p.1, p.2⟩) = db.flows ++ flows.map fun p => ⟨sn.takenAtMs, p.1, p.2⟩ := by
    apply FirstWins.insertAll_of_fresh
    · intro w hw w' hw' heq
      obtain ⟨old, hold, hat⟩ := hflowsAt w hw
      obtain ⟨p, -, rfl⟩ := List.mem_map.1 hw'
      have hlt := hlater old hold
      rw [Prod.mk.injEq] at heq
      dsimp only at heq
      omega
    · rw [List.map_map]
      rw [List.Nodup, List.pairwise_map] at hkeys ⊢
      refine hkeys.imp fun hne heq => hne ?_
      simpa using heq
  have hsnapshots : FirstWins.insertNew Snapshot.takenAtMs db.snapshots sn = db.snapshots ++ [sn] :=
    FirstWins.insertNew_of_fresh fun old hold => (hlater old hold).ne
  unfold Db.record
  rw [foldl_insertFlow, hfresh]
  dsimp only [Db.insertSnapshot, Db.markReconciled]
  rw [hsnapshots]

/-- What `record` makes of tables that are tallied, with the balances all explained. -/
theorem Tallied.record (h : Tallied base db) (hlater : ∀ old ∈ db.snapshots, old.takenAtMs < sn.takenAtMs)
    (hkeys : (flows.map Prod.fst).Nodup)
    (hflows : ∀ asset, (flows.filterMap fun p => if p.1 = asset then some p.2 else none) =
      (db.snapshots.getLast?.bind fun last => asTransfer asset (moved asset last sn)).toList)
    (hheld : ∀ asset, sn.balances.getD asset 0 =
      base asset + sumOf asset sn.transfers + explained asset (db.fills.map Prod.fst)) :
    Tallied base (db.record sn flows) := by
  have hreconciled : reconciled (db.fills.map fun row => (row.1, true)) = db.fills.map Prod.fst :=
    reconciled_markReconciled
  rw [record_eq h.flowsAt hlater hkeys]
  constructor
  · rw [List.pairwise_append]
    refine ⟨h.ordered, List.pairwise_singleton _ _, fun old hold new hnew => ?_⟩
    rw [List.mem_singleton.1 hnew]
    exact hlater old hold
  · intro w hw
    rcases List.mem_append.1 hw with hold | hnew
    · obtain ⟨old, hmem, hat⟩ := h.flowsAt w hold
      exact ⟨old, List.mem_append_left _ hmem, hat⟩
    · obtain ⟨p, -, rfl⟩ := List.mem_map.1 hnew
      exact ⟨sn, List.mem_append_right _ (List.mem_singleton.2 rfl), rfl⟩
  · intro asset
    rw [amountsOf_append, h.accounted, detected_concat, ← hflows]
    unfold amountsOf
    rw [List.filterMap_map]
    rfl
  · intro new hnew asset
    rw [List.getLast?_concat, Option.some.injEq] at hnew
    rw [← hnew, hheld, hreconciled]

end Tally

section Runs

variable {base : String → ℚ} {s s' : System} {r r' : Run} {i : ℕ} {db : Db}

/-- The balances that a run has read, and the trades in them. -/
structure Run.Reading (base : String → ℚ) (x : Exchange) (r : Run) : Prop where
  balance : ∀ asset, r.balances.getD asset 0 = base asset + sumOf asset r.transfers + explained asset r.settled
  nodup : r.settled.Nodup
  due : ∀ f ∈ x.executed, f.tradeTimeMs + SETTLE_MS ≤ r.nowMs → f ∈ r.settled

/-- The flows are those between the snapshot that was read and the balances. -/
def Run.Planned (db : Db) (r : Run) (stored : List (Fill × Bool)) (flows : List (String × ℚ)) :
    Option Snapshot → Prop
  | none => flows = []
  | some before =>
    before ∈ db.snapshots ∧ (∀ row ∈ stored, row.1.tradeTimeMs + SETTLE_MS ≤ r.nowMs) ∧
      flows = (inferTransfers before.balances r.balances (unreconciled stored)).toList

/-- The balances are read, and may yet be used. -/
def Phase.read : Phase → Bool
  | .opened => false
  | .ended => false
  | _ => true

structure Run.Ok (base : String → ℚ) (x : Exchange) (db : Db) (r : Run) : Prop where
  now : r.nowMs ≤ x.clock
  reading : r.phase.read = true → r.Reading base x
  fills : ∀ fills, r.phase = .storing fills → ∀ f ∈ fills, f ∈ x.executed
  planned : ∀ stored previous flows, r.phase = .recording stored previous flows false →
    r.Planned db stored flows previous
  recorded : r.phase = .recorded → r.snapshot ∈ db.snapshots

/-- The tables as they are once a run that is partway has written the rest. -/
def Run.completed (r : Run) (db : Db) : Db :=
  match r.phase with
  | .recording _ _ flows true => db.record r.snapshot flows
  | .marking => db.markReconciled
  | _ => db

structure Inv (base : String → ℚ) (s : System) : Prop where
  exchange : s.exchange.Ok base
  runs : ∀ r ∈ s.runs, r.Ok base s.exchange s.db
  executed : ∀ row ∈ s.db.fills, row.1 ∈ s.exchange.executed
  nodup : (s.db.fills.map fun row => row.1.entryId).Nodup
  tallied : s.partway = false → Tallied base s.db
  completed : ∀ (i : ℕ) (r : Run), s.runs[i]? = some r → r.begun = true →
    Tallied base (r.completed s.db) ∧ r.snapshot ∈ (r.completed s.db).snapshots
  alone : ∀ (i : ℕ) (r : Run) (j : ℕ) (r' : Run), s.runs[i]? = some r → s.runs[j]? = some r' →
    r.begun = true → r'.begun = true → i = j

theorem inv_init (clock : ℕ) (accounts : List AccountBalance) :
    Inv (fun asset => held asset accounts) (System.init (Exchange.init clock accounts)) where
  exchange := Exchange.ok_init clock accounts
  runs r hr := by simp [System.init] at hr
  executed row hrow := by simp [System.init, Db.init] at hrow
  nodup := by simp [System.init, Db.init]
  tallied _ := tallied_init _
  completed i r hr := by simp [System.init] at hr
  alone i r j r' hr := by simp [System.init] at hr

theorem Run.Reading.withPhase {x : Exchange} (h : r.Reading base x) (phase : Phase) :
    { r with phase := phase : Run }.Reading base x :=
  ⟨h.balance, h.nodup, h.due⟩

/-- A phase in which a run has nothing to be checked. -/
def Phase.plain : Phase → Bool
  | .storing _ => false
  | .recording _ _ _ false => false
  | .recorded => false
  | _ => true

theorem Run.Ok.withPhase {x : Exchange} (h : r.Ok base x db) (hread : r.phase.read = true) {phase : Phase}
    (hplain : phase.plain = true) : { r with phase := phase : Run }.Ok base x db := by
  refine ⟨h.now, fun _ => (h.reading hread).withPhase _, fun fills hfills => ?_,
    fun stored previous flows hrecording => ?_, fun hrecorded => ?_⟩
  · cases hfills
    cases hplain
  · cases hrecording
    cases hplain
  · cases hrecorded
    cases hplain

theorem Run.Ok.ended {x : Exchange} (h : r.Ok base x db) : { r with phase := .ended : Run }.Ok base x db := by
  refine ⟨h.now, fun hread => ?_, fun fills hfills => ?_, fun stored previous flows hrecording => ?_,
    fun hrecorded => ?_⟩
  · cases hread
  · cases hfills
  · cases hrecording
  · cases hrecorded

theorem Run.Ok.exchange {x : Exchange} (h : r.Ok base x db) (e : Event) : r.Ok base (x.step e) db where
  now := h.now.trans (x.clock_le_step e)
  reading hphase :=
    { balance := (h.reading hphase).balance
      nodup := (h.reading hphase).nodup
      due := fun f hf hdue => (h.reading hphase).due f (Exchange.recent_of_executed h.now hf hdue) hdue }
  fills fills hphase f hf := Exchange.mem_executed_step.2 (.inl (h.fills fills hphase f hf))
  planned := h.planned
  recorded := h.recorded

theorem Run.Planned.mono {db' : Db} {stored : List (Fill × Bool)} {flows : List (String × ℚ)}
    {previous : Option Snapshot} (h : r.Planned db stored flows previous) (hsnapshots : ∀ sn ∈ db.snapshots, sn ∈ db'.snapshots) :
    r.Planned db' stored flows previous := by
  cases previous with
  | none => exact h
  | some before => exact ⟨hsnapshots before h.1, h.2⟩

/-- What stands in the tables stays there. -/
theorem Run.Ok.mono {x : Exchange} {db' : Db} (h : r.Ok base x db)
    (hsnapshots : ∀ sn ∈ db.snapshots, sn ∈ db'.snapshots) : r.Ok base x db' :=
  { h with
    planned := fun stored previous flows hphase => (h.planned stored previous flows hphase).mono hsnapshots
    recorded := fun hphase => hsnapshots _ (h.recorded hphase) }

theorem Inv.exchangeStep (h : Inv base s) (e : Event) : Inv base { s with exchange := s.exchange.step e } :=
  { h with
    exchange := h.exchange.step e
    runs := fun r hr => (h.runs r hr).exchange e
    executed := fun row hrow => Exchange.mem_executed_step.2 (.inl (h.executed row hrow)) }

theorem partway_eq_false : s.partway = false ↔ ∀ (i : ℕ) (r : Run), s.runs[i]? = some r → r.begun = false := by
  unfold System.partway
  rw [List.any_eq_false]
  constructor
  · intro h i r hr
    simpa using h r (List.mem_of_getElem? hr)
  · intro h r hr
    obtain ⟨i, hi⟩ := List.mem_iff_getElem?.1 hr
    simp [h i r hi]

/-- A run that has written nothing goes on without writing. -/
theorem Inv.idle (h : Inv base s) (hr : s.runs[i]? = some r) (hbegun : r.begun = false) (hbegun' : r'.begun = false)
    (hok : r'.Ok base s.exchange s.db) : Inv base { s with runs := s.runs.set i r' } := by
  have hrun : ∀ (j : ℕ) (q : Run), (s.runs.set i r')[j]? = some q → q.begun = true → s.runs[j]? = some q := by
    intro j q hq hqbegun
    rw [List.getElem?_set] at hq
    split_ifs at hq with hij hlt
    · cases hq
      rw [hbegun'] at hqbegun
      cases hqbegun
    · exact hq
  refine ⟨h.exchange, fun q hq => ?_, h.executed, h.nodup, fun hpartway => h.tallied ?_, fun j q hq hqbegun => ?_,
    fun j q k q' hq hq' hqbegun hqbegun' => ?_⟩
  · rcases List.mem_or_eq_of_mem_set hq with hold | rfl
    · exact h.runs q hold
    · exact hok
  · rw [partway_eq_false] at hpartway ⊢
    intro j q hq
    by_cases hij : i = j
    · subst hij
      rw [hr] at hq
      cases hq
      exact hbegun
    · exact hpartway j q (by rw [List.getElem?_set, if_neg hij, hq])
  · exact h.completed j q (hrun j q hq hqbegun) hqbegun
  · exact h.alone j q k q' (hrun j q hq hqbegun) (hrun k q' hq' hqbegun') hqbegun hqbegun'

/-- A run writes while no other is partway. -/
theorem Inv.write (h : Inv base s) (halone : ∀ (j : ℕ) (q : Run), s.runs[j]? = some q → q.begun = true → j = i)
    (hsnapshots : ∀ sn ∈ s.db.snapshots, sn ∈ db.snapshots) (hok : r'.Ok base s.exchange db)
    (hexecuted : ∀ row ∈ db.fills, row.1 ∈ s.exchange.executed)
    (hnodup : (db.fills.map fun row => row.1.entryId).Nodup)
    (htallied : r'.begun = false → Tallied base db)
    (hcompleted : r'.begun = true → Tallied base (r'.completed db) ∧ r'.snapshot ∈ (r'.completed db).snapshots)
    (hlt : i < s.runs.length) :
    Inv base { s with db := db, runs := s.runs.set i r' } := by
  have hrun : ∀ (j : ℕ) (q : Run), (s.runs.set i r')[j]? = some q → q.begun = true → j = i ∧ q = r' := by
    intro j q hq hqbegun
    rw [List.getElem?_set] at hq
    split_ifs at hq with hij
    · cases hq
      exact ⟨hij.symm, rfl⟩
    · exact absurd (halone j q hq hqbegun).symm hij
  refine ⟨h.exchange, fun q hq => ?_, hexecuted, hnodup, fun hpartway => htallied ?_, fun j q hq hqbegun => ?_,
    fun j q k q' hq hq' hqbegun hqbegun' => ?_⟩
  · rcases List.mem_or_eq_of_mem_set hq with hold | rfl
    · exact (h.runs q hold).mono hsnapshots
    · exact hok
  · exact partway_eq_false.1 hpartway i r' (by rw [List.getElem?_set, if_pos rfl, if_pos hlt])
  · obtain ⟨-, rfl⟩ := hrun j q hq hqbegun
    exact hcompleted hqbegun
  · exact (hrun j q hq hqbegun).1.trans (hrun k q' hq' hqbegun').1.symm

/-- Where every fill that is stored is due, the fills of the table are those in the balances that were read. -/
theorem Inv.perm_settled (h : Inv base s) {stored : List (Fill × Bool)} (hreading : r.Reading base s.exchange)
    (hstored : stored.Perm s.db.fills) (hsettled : ∀ f ∈ r.settled, f ∈ stored.map Prod.fst)
    (hin : ∀ row ∈ stored, row.1 ∈ r.settled) : (s.db.fills.map Prod.fst).Perm r.settled := by
  have hnodup : (s.db.fills.map Prod.fst).Nodup := by
    apply List.Nodup.of_map Fill.entryId
    rw [List.map_map]
    exact h.nodup
  rw [List.perm_ext_iff_of_nodup hnodup hreading.nodup]
  intro f
  constructor
  · intro hf
    obtain ⟨row, hrow, rfl⟩ := List.mem_map.1 hf
    exact hin row (hstored.symm.subset hrow)
  · intro hf
    exact (hstored.map Prod.fst).subset (hsettled f hf)

/-- The flows that are planned are what was moved since the latest snapshot, and no asset comes twice. -/
theorem Run.Planned.flows {stored : List (Fill × Bool)} {previous : Option Snapshot} {flows : List (String × ℚ)}
    (h : r.Planned db stored flows previous) (htallied : Tallied base db) (hstored : stored.Perm db.fills)
    (hlatest : db.latestSnapshot.map Snapshot.takenAtMs = previous.map Snapshot.takenAtMs)
    (hheld : ∀ asset, r.snapshot.balances.getD asset 0 =
      base asset + sumOf asset r.snapshot.transfers + explained asset (db.fills.map Prod.fst)) :
    (flows.map Prod.fst).Nodup ∧ ∀ asset, (flows.filterMap fun p => if p.1 = asset then some p.2 else none) =
      (db.snapshots.getLast?.bind fun last => asTransfer asset (moved asset last r.snapshot)).toList := by
  rw [latestSnapshot_eq htallied.ordered] at hlatest
  cases previous with
  | none =>
    rw [Option.map_none, Option.map_eq_none_iff] at hlatest
    have hnil : flows = [] := h
    rw [hlatest, hnil]
    exact ⟨List.nodup_nil, fun asset => rfl⟩
  | some before =>
    obtain ⟨hmem, -, hfound⟩ := h
    rw [Option.map_some, Option.map_eq_some_iff] at hlatest
    obtain ⟨last, hlast, htaken⟩ := hlatest
    have hnodup : (db.snapshots.map Snapshot.takenAtMs).Nodup := by
      rw [List.Nodup, List.pairwise_map]
      exact htallied.ordered.imp ne_of_lt
    have hsame : last = before := List.inj_on_of_nodup_map hnodup (List.mem_of_getLast? hlast) hmem htaken
    subst hsame
    rw [hfound, hlast]
    refine ⟨OrderedMap.nodup_keys _, fun asset => ?_⟩
    rw [OrderedMap.filterMap_toList, getElem?_inferTransfers, Option.bind_some]
    -- what neither the reconciled nor the other fills explain is what was transferred
    have hbefore := htallied.held last hlast asset
    have hnow := hheld asset
    have hrest : explained asset (unreconciled stored) = explained asset (unreconciled db.fills) :=
      explained_perm ((hstored.filter _).map _)
    rw [explained_map_fst] at hnow
    congr 2
    unfold moved
    rw [hbefore, hrest]
    change r.balances.getD asset 0 = _ at hnow
    rw [hnow]
    ring

/-- The tables as they will be when a run that begins to record has written everything. -/
theorem Inv.record (h : Inv base s) {stored : List (Fill × Bool)} {previous : Option Snapshot}
    {flows : List (String × ℚ)} (hr : r ∈ s.runs) (hphase : r.phase = .recording stored previous flows false)
    (hpartway : s.partway = false) (hstored : s.db.storedFills = stored)
    (hlatest : s.db.latestSnapshot.map Snapshot.takenAtMs = previous.map Snapshot.takenAtMs)
    (hlater : ∀ sn ∈ s.db.snapshots, sn.takenAtMs < r.nowMs)
    (hsettled : ∀ f ∈ r.settled, f ∈ stored.map Prod.fst)
    (hfirst : previous = none → ∀ row ∈ stored, row.1 ∈ r.settled) :
    Tallied base (s.db.record r.snapshot flows) ∧ r.snapshot ∈ (s.db.record r.snapshot flows).snapshots := by
  have htallied := h.tallied hpartway
  have hok := h.runs r hr
  have hreading := hok.reading (by simp [Phase.read, hphase])
  have hplanned := hok.planned stored previous flows hphase
  have hperm : stored.Perm s.db.fills := by
    rw [← hstored]
    exact perm_storedFills s.db
  have hin : ∀ row ∈ stored, row.1 ∈ r.settled := by
    cases previous with
    | none => exact hfirst rfl
    | some before =>
      intro row hrow
      exact hreading.due row.1 (h.executed row (hperm.subset hrow)) (hplanned.2.1 row hrow)
  have hheld : ∀ asset, r.snapshot.balances.getD asset 0 =
      base asset + sumOf asset r.snapshot.transfers + explained asset (s.db.fills.map Prod.fst) := by
    intro asset
    rw [explained_perm (h.perm_settled hreading hperm hsettled hin)]
    exact hreading.balance asset
  obtain ⟨hkeys, hflows⟩ := hplanned.flows htallied hperm hlatest hheld
  refine ⟨htallied.record hlater hkeys hflows hheld, ?_⟩
  rw [record_eq htallied.flowsAt hlater hkeys]
  exact List.mem_append_right _ (List.mem_singleton.2 rfl)

theorem mem_insertSnapshot {sn new : Snapshot} (h : sn ∈ db.snapshots) : sn ∈ (db.insertSnapshot new).snapshots :=
  @FirstWins.mem_insertAll_of_mem _ _ _ _ _ [new] _ h

/-- One statement of `record`: what the tables will be stays. -/
theorem Inv.recordNext (h : Inv base s) {stored : List (Fill × Bool)} {previous : Option Snapshot}
    {flows : List (String × ℚ)} {begun : Bool} (hr : s.runs[i]? = some r)
    (hphase : r.phase = .recording stored previous flows begun)
    (halone : ∀ (j : ℕ) (q : Run), s.runs[j]? = some q → q.begun = true → j = i)
    (hcompleted : Tallied base (s.db.record r.snapshot flows) ∧
      r.snapshot ∈ (s.db.record r.snapshot flows).snapshots) : Inv base (s.next i r) := by
  have hlt : i < s.runs.length := (List.getElem?_eq_some_iff.1 hr).1
  have hok := h.runs r (List.mem_of_getElem? hr)
  have hread : r.phase.read = true := by simp [Phase.read, hphase]
  unfold System.next
  rw [hphase]
  cases flows with
  | nil =>
    have hgrows : ∀ sn ∈ s.db.snapshots, sn ∈ (s.db.insertSnapshot r.snapshot).snapshots :=
      fun _ => mem_insertSnapshot
    refine h.write halone hgrows ((hok.withPhase hread rfl).mono hgrows) h.executed h.nodup (fun hbegun => ?_)
      (fun _ => hcompleted) hlt
    cases hbegun
  | cons p rest =>
    have hgrows : ∀ sn ∈ s.db.snapshots, sn ∈ (s.db.insertFlow ⟨r.nowMs, p.1, p.2⟩).snapshots := fun _ hsn => hsn
    refine h.write halone hgrows ((hok.withPhase hread rfl).mono hgrows) h.executed h.nodup (fun hbegun => ?_)
      (fun _ => hcompleted) hlt
    cases hbegun

theorem Inv.storeFill (h : Inv base s) {fill : Fill} {rest : List Fill} (hr : s.runs[i]? = some r)
    (hphase : r.phase = .storing (fill :: rest))
    (hundisturbed : (∃ row ∈ s.db.fills, row.1.entryId = fill.entryId) ∨ s.partway = false) :
    Inv base (s.next i r) := by
  have hlt : i < s.runs.length := (List.getElem?_eq_some_iff.1 hr).1
  have hok := h.runs r (List.mem_of_getElem? hr)
  have hbegun : r.begun = false := by simp [Run.begun, hphase]
  have hnext : ∀ db : Db, (∀ sn ∈ s.db.snapshots, sn ∈ db.snapshots) →
      { r with phase := .storing rest : Run }.Ok base s.exchange db := by
    intro db hsnapshots
    refine ⟨hok.now, fun _ => (hok.reading (by simp [Phase.read, hphase])).withPhase _,
      fun fills hfills f hf => ?_, ?_, ?_⟩
    · cases hfills
      exact hok.fills _ hphase f (List.mem_cons_of_mem _ hf)
    · intro stored previous flows hrecording
      cases hrecording
    · intro hrecorded
      cases hrecorded
  unfold System.next
  rw [hphase]
  by_cases hstored : ∃ row ∈ s.db.fills, row.1.entryId = fill.entryId
  · have hsame : s.db.insertFill fill = s.db := by
      unfold Db.insertFill FirstWins.insertNew
      rw [if_pos]
      simpa using hstored
    dsimp only
    rw [hsame]
    exact h.idle hr hbegun rfl (hnext s.db fun _ hsn => hsn)
  · have hpartway := hundisturbed.resolve_left hstored
    have hnew : (s.db.insertFill fill).fills = s.db.fills ++ [(fill, false)] := by
      apply FirstWins.insertNew_of_fresh
      intro row hrow heq
      exact hstored ⟨row, hrow, heq⟩
    have htallied := h.tallied hpartway
    refine h.write (fun j q hq hqbegun => ?_) (fun _ hsn => hsn) (hnext _ fun _ hsn => hsn) ?_ ?_ (fun _ => ?_)
      (fun hrbegun => ?_) hlt
    · rw [partway_eq_false.1 hpartway j q hq] at hqbegun
      cases hqbegun
    · intro row hrow
      rw [hnew] at hrow
      rcases List.mem_append.1 hrow with hold | hlast
      · exact h.executed row hold
      · rw [List.mem_singleton.1 hlast]
        exact hok.fills _ hphase fill List.mem_cons_self
    · exact @FirstWins.nodup_insertAll _ _ _ _ _ [(fill, false)] h.nodup
    · -- a fill that is not reconciled explains nothing yet
      refine ⟨htallied.ordered, htallied.flowsAt, htallied.accounted, fun sn hsn asset => ?_⟩
      have hreconciled : reconciled (s.db.insertFill fill).fills = reconciled s.db.fills := by
        rw [hnew]
        simp [reconciled]
      rw [hreconciled]
      exact htallied.held sn hsn asset
    · cases hrbegun

theorem Inv.mark (h : Inv base s) (hr : s.runs[i]? = some r) (hphase : r.phase = .marking) :
    Inv base (s.next i r) := by
  have hlt : i < s.runs.length := (List.getElem?_eq_some_iff.1 hr).1
  have hok := h.runs r (List.mem_of_getElem? hr)
  have hbegun : r.begun = true := by simp [Run.begun, hphase]
  obtain ⟨htallied, hmem⟩ := h.completed i r hr hbegun
  have hdb : r.completed s.db = s.db.markReconciled := by simp [Run.completed, hphase]
  rw [hdb] at htallied hmem
  unfold System.next
  rw [hphase]
  refine h.write (fun j q hq hqbegun => h.alone j q i r hq hr hqbegun hbegun) (fun _ hsn => hsn)
    ⟨hok.now, fun _ => (hok.reading (by simp [Phase.read, hphase])).withPhase _, ?_, ?_, fun _ => hmem⟩ ?_ ?_
    (fun _ => htallied) (fun hrbegun => ?_) hlt
  · intro fills hstoring
    cases hstoring
  · intro stored previous flows hrecording
    cases hrecording
  · intro row hrow
    obtain ⟨old, hold, rfl⟩ := List.mem_map.1 hrow
    exact h.executed old hold
  · unfold Db.markReconciled
    rw [List.map_map]
    exact h.nodup
  · cases hrbegun

/-- A run that has only marks to write, all of which stand, leaves nothing unwritten when it crashes. -/
theorem Inv.crashMarking (h : Inv base s) (hr : s.runs[i]? = some r) (hphase : r.phase = .marking)
    (hmarked : ∀ row ∈ s.db.fills, row.2 = true) : Inv base (s.setRun i r .ended) := by
  have hlt : i < s.runs.length := (List.getElem?_eq_some_iff.1 hr).1
  have hok := h.runs r (List.mem_of_getElem? hr)
  have hbegun : r.begun = true := by simp [Run.begun, hphase]
  obtain ⟨htallied, -⟩ := h.completed i r hr hbegun
  have hsame : r.completed s.db = s.db := by
    have hfills : s.db.fills.map (fun row => (row.1, true)) = s.db.fills := by
      conv_rhs => rw [← List.map_id s.db.fills]
      refine List.map_congr_left fun row hrow => ?_
      rw [id_eq, ← hmarked row hrow]
    simp [Run.completed, hphase, Db.markReconciled, hfills]
  rw [hsame] at htallied
  refine h.write (fun j q hq hqbegun => h.alone j q i r hq hr hqbegun hbegun) (fun _ hsn => hsn)
    hok.ended h.executed h.nodup (fun _ => htallied) (fun hrbegun => ?_) hlt
  cases hrbegun

theorem Inv.sync (h : Inv base s) : Inv base (s.step .sync) := by
  have hrun : ∀ (j : ℕ) (q : Run), (s.step .sync).runs[j]? = some q → q.begun = true → s.runs[j]? = some q := by
    intro j q hq hqbegun
    dsimp only [System.step] at hq
    rw [List.getElem?_append] at hq
    split_ifs at hq with hlt
    · exact hq
    · have hlast := List.mem_of_getElem? hq
      rw [List.mem_singleton.1 hlast] at hqbegun
      cases hqbegun
  refine ⟨h.exchange, fun q hq => ?_, h.executed, h.nodup, fun hpartway => h.tallied ?_,
    fun j q hq hqbegun => h.completed j q (hrun j q hq hqbegun) hqbegun,
    fun j q k q' hq hq' hqbegun hqbegun' =>
      h.alone j q k q' (hrun j q hq hqbegun) (hrun k q' hq' hqbegun') hqbegun hqbegun'⟩
  · rcases List.mem_append.1 hq with hold | hnew
    · exact h.runs q hold
    · rw [List.mem_singleton.1 hnew]
      refine ⟨le_rfl, fun hread => ?_, fun fills hfills => ?_, fun stored previous flows hrecording => ?_,
        fun hrecorded => ?_⟩
      · cases hread
      · cases hfills
      · cases hrecording
      · cases hrecorded
  · unfold System.partway at hpartway ⊢
    dsimp only [System.step] at hpartway
    rw [List.any_append, Bool.or_eq_false_iff] at hpartway
    exact hpartway.1

/-- The balances are read: they hold every trade that is `SETTLE_MS` older than the run. -/
theorem Inv.read (h : Inv base s) (hr : s.runs[i]? = some r) (hphase : r.phase = .opened) :
    Inv base (s.next i r) := by
  have hok := h.runs r (List.mem_of_getElem? hr)
  unfold System.next
  rw [hphase]
  refine h.idle hr (by simp [Run.begun, hphase]) rfl ⟨hok.now, fun _ => ⟨fun asset => ?_, h.exchange.nodup, ?_⟩,
    fun fills hfills => ?_, fun stored previous flows hrecording => ?_, fun hrecorded => ?_⟩
  · exact (getD_totals _).trans (h.exchange.balance asset)
  · intro f hf hdue
    exact h.exchange.due f hf (hdue.trans hok.now)
  · cases hfills
  · cases hrecording
  · cases hrecorded

theorem Inv.list (h : Inv base s) (hr : s.runs[i]? = some r) (hphase : r.phase = .reading) :
    Inv base (s.next i r) := by
  have hok := h.runs r (List.mem_of_getElem? hr)
  unfold System.next
  rw [hphase]
  refine h.idle hr (by simp [Run.begun, hphase]) rfl
    ⟨hok.now, fun _ => (hok.reading (by simp [Phase.read, hphase])).withPhase _, fun fills hfills f hf => ?_,
      fun stored previous flows hrecording => ?_, fun hrecorded => ?_⟩
  · cases hfills
    exact h.exchange.listed f hf
  · cases hrecording
  · cases hrecorded

theorem compared_begun (stored : List (Fill × Bool)) (previous : Option Snapshot) :
    { r with phase := r.compared stored previous : Run }.begun = false := by
  unfold Run.begun Run.compared
  cases previous with
  | none => rfl
  | some before =>
    dsimp only
    split_ifs <;> rfl

theorem Inv.compare (h : Inv base s) {stored : List (Fill × Bool)} (hr : s.runs[i]? = some r)
    (hphase : r.phase = .comparing stored) : Inv base (s.next i r) := by
  have hok := h.runs r (List.mem_of_getElem? hr)
  have hread : r.phase.read = true := by simp [Phase.read, hphase]
  have hbegun : r.begun = false := by simp [Run.begun, hphase]
  have hplan : ∀ {previous : Option Snapshot} {flows : List (String × ℚ)}, r.Planned s.db stored flows previous →
      { r with phase := .recording stored previous flows false : Run }.Ok base s.exchange s.db := by
    intro previous flows hplanned
    refine ⟨hok.now, fun _ => (hok.reading hread).withPhase _, fun fills hfills => ?_,
      fun stored' previous' flows' hrecording => ?_, fun hrecorded => ?_⟩
    · cases hfills
    · cases hrecording
      cases previous with
      | none => exact hplanned
      | some before => exact hplanned
    · cases hrecorded
  unfold System.next
  rw [hphase]
  refine h.idle hr hbegun (compared_begun stored _) ?_
  unfold Run.compared
  cases hlatest : s.db.latestSnapshot with
  | none => exact hplan rfl
  | some before =>
    dsimp only
    split_ifs with hrecent
    · exact hok.ended
    · refine hplan ⟨List.argmax_mem hlatest, fun row hrow => ?_, rfl⟩
      by_contra hlt
      exact hrecent (List.any_eq_true.2 ⟨row, hrow, decide_eq_true (not_le.1 hlt)⟩)

theorem Inv.next (h : Inv base s) (hr : s.runs[i]? = some r) (hundisturbed : undisturbed s (.next i) = true) :
    Inv base (s.next i r) := by
  dsimp only [undisturbed] at hundisturbed
  rw [hr] at hundisturbed
  dsimp only at hundisturbed
  cases hphase : r.phase with
  | opened => exact h.read hr hphase
  | reading => exact h.list hr hphase
  | storing fills =>
    cases fills with
    | nil =>
      have hok := h.runs r (List.mem_of_getElem? hr)
      unfold System.next
      rw [hphase]
      exact h.idle hr (by simp [Run.begun, hphase]) rfl (hok.withPhase (by simp [Phase.read, hphase]) rfl)
    | cons fill rest =>
      rw [hphase] at hundisturbed
      refine h.storeFill hr hphase ?_
      simpa using hundisturbed
  | comparing stored => exact h.compare hr hphase
  | recording stored previous flows begun =>
    cases begun with
    | false =>
      rw [hphase] at hundisturbed
      simp only [Bool.and_eq_true, Bool.not_eq_true', decide_eq_true_eq, List.all_eq_true, Bool.or_eq_true]
        at hundisturbed
      obtain ⟨⟨⟨⟨⟨hpartway, hstored⟩, hlatest⟩, hlater⟩, hsettled⟩, hfirst⟩ := hundisturbed
      refine h.recordNext hr hphase (fun j q hq hqbegun => ?_)
        (h.record (List.mem_of_getElem? hr) hphase hpartway hstored hlatest hlater hsettled fun hnone => ?_)
      · rw [partway_eq_false.1 hpartway j q hq] at hqbegun
        cases hqbegun
      · rw [hnone] at hfirst
        simpa using hfirst
    | true =>
      have hbegun : r.begun = true := by simp [Run.begun, hphase]
      have hcompleted := h.completed i r hr hbegun
      have hdb : r.completed s.db = s.db.record r.snapshot flows := by simp [Run.completed, hphase]
      rw [hdb] at hcompleted
      exact h.recordNext hr hphase (fun j q hq hqbegun => h.alone j q i r hq hr hqbegun hbegun) hcompleted
  | marking => exact h.mark hr hphase
  | recorded =>
    unfold System.next
    rw [hphase]
    exact h
  | ended =>
    unfold System.next
    rw [hphase]
    exact h

theorem Inv.crash (h : Inv base s) (hr : s.runs[i]? = some r) (hundisturbed : undisturbed s (.crash i) = true) :
    Inv base (s.setRun i r .ended) := by
  have hok := h.runs r (List.mem_of_getElem? hr)
  dsimp only [undisturbed] at hundisturbed
  rw [hr] at hundisturbed
  dsimp only at hundisturbed
  by_cases hbegun : r.begun = true
  · cases hphase : r.phase with
    | marking =>
      rw [hphase, List.all_eq_true] at hundisturbed
      exact h.crashMarking hr hphase hundisturbed
    | _ =>
      rw [hphase] at hundisturbed
      simp [hbegun] at hundisturbed
  · rw [Bool.not_eq_true] at hbegun
    exact h.idle hr hbegun rfl hok.ended

theorem Inv.step (h : Inv base s) {m : Move} (hundisturbed : undisturbed s m = true) : Inv base (s.step m) := by
  cases m with
  | exchange e => exact h.exchangeStep e
  | sync => exact h.sync
  | next i =>
    unfold System.step
    cases hr : s.runs[i]? with
    | none => simpa [hr] using h
    | some r => simpa [hr] using h.next hr hundisturbed
  | crash i =>
    unfold System.step
    cases hr : s.runs[i]? with
    | none => simpa [hr] using h
    | some r => simpa [hr] using h.crash hr hundisturbed

/-- Where no difference is lost in dust, what is detected comes to what was transferred. -/
theorem sum_detected {asset : String} {snapshots : List Snapshot} {first last : Snapshot}
    (hfirst : snapshots.head? = some first) (hlast : snapshots.getLast? = some last)
    (hclear : snapshots.IsChain fun before now => moved asset before now = 0 ∨ dust asset < |moved asset before now|) :
    (detected asset snapshots).sum = moved asset first last := by
  induction snapshots generalizing first with
  | nil => cases hfirst
  | cons before rest ih =>
    cases hfirst
    cases rest with
    | nil =>
      cases hlast
      simp [detected, moved]
    | cons now rest =>
      rw [List.isChain_cons_cons] at hclear
      rw [List.getLast?_cons_cons] at hlast
      have hstep : (asTransfer asset (moved asset before now)).toList.sum = moved asset before now := by
        unfold asTransfer
        rcases hclear.1 with hzero | hbeyond
        · split_ifs <;> simp [hzero]
        · rw [if_pos hbeyond]
          simp
      rw [detected, List.sum_append, hstep, ih rfl hlast hclear.2]
      unfold moved
      ring

/-- Where no run disturbs another that is partway and none crashes partway, whatever is detected between two
looks is recorded once, and comes to what was transferred; each run that got to its end is such a look. -/
theorem transfers_recorded_once (clock : ℕ) (accounts : List AccountBalance) (moves : List Move)
    (h : Runs.Along System.step (fun s m => undisturbed s m = true)
      (System.init (Exchange.init clock accounts)) moves) :
    let s := (System.init (Exchange.init clock accounts)).run moves
    (s.partway = false → Accounted s.db ∧ ∀ asset first last,
      s.db.snapshots.head? = some first → s.db.snapshots.getLast? = some last →
        s.db.snapshots.IsChain
          (fun before now => moved asset before now = 0 ∨ dust asset < |moved asset before now|) →
        (amountsOf asset s.db.flows).sum = moved asset first last) ∧
      ∀ r ∈ s.runs, r.phase = .recorded → r.snapshot ∈ s.db.snapshots := by
  intro s
  have hinv : Inv _ s := h.invariant (fun _ _ hs hm => hs.step hm) (inv_init clock accounts)
  refine ⟨fun hpartway => ?_, fun r hr => (hinv.runs r hr).recorded⟩
  have haccounted := (hinv.tallied hpartway).accounted
  refine ⟨haccounted, fun asset first last hfirst hlast hclear => ?_⟩
  rw [haccounted]
  exact sum_detected hfirst hlast hclear

def opening : System := System.init (Exchange.init 1000 [⟨"USD", 100, 0⟩])

def steps (n i : ℕ) : List Move := List.replicate n (.next i)

def firstLook : List Move := .sync :: steps 6 0

def deposit : Move := .exchange (.transfer "USD" 50)

def purchase : Fill := ⟨"e1", "BTC-USD", true, some 10, some 2, false, some 1, 1000⟩

/-- A deposit and a purchase; a run crashes before it has written, and another gets to its end. -/
def recovered : List Move :=
  [firstLook, [deposit, .exchange (.trade purchase), .exchange (.list purchase), .exchange (.settle purchase),
    .exchange (.wait 6000), .sync, .next 1, .crash 1, .sync], steps 8 2].flatten

theorem transfers_recorded_once_recovered :
    amountsOf "USD" (opening.run recovered).db.flows = [50] ∧ Accounted (opening.run recovered).db :=
  ⟨by decide +kernel, ((transfers_recorded_once 1000 [⟨"USD", 100, 0⟩] recovered (by decide +kernel)).1
    (by decide +kernel)).1⟩

/-- A run crashes once it has recorded a deposit, and another gets to its end. -/
def crashed : List Move :=
  [firstLook, [deposit, .exchange (.wait 10), .sync], steps 5 1, [.crash 1, .exchange (.wait 10), .sync],
    steps 7 2].flatten

/-- Two runs find the same deposit, and a third comes after them. -/
def overlapping : List Move :=
  [firstLook, [deposit, .exchange (.wait 10), .sync, .exchange (.wait 10), .sync], steps 4 1, steps 4 2, steps 3 1,
    steps 3 2, [.exchange (.wait 10), .sync], steps 6 3].flatten

theorem deposit_recorded_twice :
    ((opening.run crashed).partway = false ∧ ¬ Accounted (opening.run crashed).db) ∧
      (opening.run overlapping).partway = false ∧ ¬ Accounted (opening.run overlapping).db := by
  have hcrashed : (opening.run crashed).partway = false ∧
      amountsOf "USD" (opening.run crashed).db.flows ≠ detected "USD" (opening.run crashed).db.snapshots := by
    decide +kernel
  have hoverlapping : (opening.run overlapping).partway = false ∧
      amountsOf "USD" (opening.run overlapping).db.flows ≠ detected "USD" (opening.run overlapping).db.snapshots := by
    decide +kernel
  exact ⟨⟨hcrashed.1, fun h => hcrashed.2 (h "USD")⟩, hoverlapping.1, fun h => hoverlapping.2 (h "USD")⟩

end Runs

end Linvesther.Worker.Coinbase
