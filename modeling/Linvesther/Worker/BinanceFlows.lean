import Linvesther.Base.FirstWins
import Linvesther.Base.Traverse
import Linvesther.Worker.Kraken

/-! Binance's deposits and withdrawals: what is read of them is normalized by its status of the moment, and
`upsert_flows` keeps the first record of an id. -/

namespace Linvesther.Worker.Binance

open FirstWins Transaction

section Normalization

structure RawDeposit where
  txId : String
  asset : String
  amount : String
  status : UInt32
  insertTimeMs : UInt64
deriving DecidableEq

structure RawWithdrawal where
  id : String
  asset : String
  amount : String
  transactionFee : String
  status : UInt32
  applyTimeMs : UInt64
deriving DecidableEq

inductive FlowError where
  | unknownKind (family : FlowFamily) (code : String)
deriving DecidableEq

def classifyDeposit (code : UInt32) : Option String :=
  if code = 0 then some "Pending"
  else if code = 6 then some "Credited"
  else if code = 1 then some "Credited"
  else if code = 2 then some "Pending"
  else if code = 7 then some "WrongDeposit"
  else if code = 8 then some "Pending"
  else none

def normalizeDeposit (raw : RawDeposit) : Except FlowError NormalizedFlow :=
  match classifyDeposit raw.status with
  | none => .error (.unknownKind .deposit (Nat.repr raw.status.toNat))
  | some kind =>
    .ok {
      sourceNamespace := .deposit
      sourceId := raw.txId
      economicTimeMs := raw.insertTimeMs
      legs := if kind = "Credited" then [.credit raw.asset raw.amount] else []
      fee := none }

def classifyWithdrawal (code : UInt32) : Option String :=
  if code = 0 then some "Requested"
  else if code = 2 then some "Requested"
  else if code = 4 then some "Requested"
  else if code = 6 then some "Completed"
  else if code = 1 then some "Reversed"
  else if code = 3 then some "Failed"
  else if code = 5 then some "Failed"
  else none

def normalizeWithdrawal (raw : RawWithdrawal) : Except FlowError NormalizedFlow :=
  match classifyWithdrawal raw.status with
  | none => .error (.unknownKind .withdrawal (Nat.repr raw.status.toNat))
  | some kind =>
    .ok {
      sourceNamespace := .withdrawal
      sourceId := raw.id
      economicTimeMs := raw.applyTimeMs
      legs := if kind = "Completed" then [.debit raw.asset raw.amount] else []
      fee :=
        if kind = "Completed" ∧ raw.transactionFee ≠ "0" ∧ raw.transactionFee ≠ "" then
          some (.debit raw.asset raw.transactionFee)
        else none }

end Normalization

section Syncs

/-- A deposit as the exchange lists it, without its status: each field if it is there and of its type.
`output` tells apart the deposits of one transaction; it is not read. -/
structure DepositEntry where
  output : ℕ
  txId : Option String
  coin : Option String
  amount : Option String
  insertTime : Option UInt64
deriving DecidableEq

structure WithdrawalEntry where
  id : Option String
  coin : Option String
  amount : Option String
  transactionFee : Option String
  applyTime : Option String
deriving DecidableEq

inductive Movement where
  | deposit (d : DepositEntry)
  | withdrawal (w : WithdrawalEntry)
deriving DecidableEq

/-- What Simple Earn paid. -/
structure Reward where
  id : String
  timeMs : UInt64
  asset : String
  amount : String

def Reward.flow (r : Reward) : NormalizedFlow :=
  ⟨.dividend, r.id, r.timeMs, [.credit r.asset r.amount], none⟩

/-- What the exchange answers in one cycle, each movement with its status of the moment. -/
structure Report where
  deposits : List (DepositEntry × ℕ)
  withdrawals : List (WithdrawalEntry × ℕ)
  rewards : List Reward

/-- One cycle: what is reported, and after how many flows it stops when it does not come to an end. -/
structure Sync where
  report : Report
  stopsAfter : Option ℕ

variable (parseDatetime : String → Option UInt64)

def rawDeposit (d : DepositEntry) (status : ℕ) : Option RawDeposit := do
  let txId ← d.txId
  let asset ← d.coin
  let amount ← d.amount
  let insertTimeMs ← d.insertTime
  pure ⟨txId, asset, amount, UInt32.ofNat status, insertTimeMs⟩

def rawWithdrawal (w : WithdrawalEntry) (status : ℕ) : Option RawWithdrawal := do
  let id ← w.id
  let asset ← w.coin
  let amount ← w.amount
  let transactionFee ← w.transactionFee
  let applyTime ← w.applyTime
  let applyTimeMs ← parseDatetime applyTime
  pure ⟨id, asset, amount, transactionFee, UInt32.ofNat status, applyTimeMs⟩

/-- An entry that lacks a field is passed over; a status that is not known fails the whole fetch. -/
def fetchDeposits (entries : List (DepositEntry × ℕ)) : Except FlowError (List NormalizedFlow) :=
  (entries.filterMap fun (d, status) => rawDeposit d status).mapM normalizeDeposit

def fetchWithdrawals (entries : List (WithdrawalEntry × ℕ)) : Except FlowError (List NormalizedFlow) :=
  (entries.filterMap fun (w, status) => rawWithdrawal parseDatetime w status).mapM normalizeWithdrawal

def fetchFlows (report : Report) : Except FlowError (List NormalizedFlow) := do
  let deposits ← fetchDeposits report.deposits
  let withdrawals ← fetchWithdrawals parseDatetime report.withdrawals
  pure (deposits ++ withdrawals ++ report.rewards.map Reward.flow)

/-- The primary key of `binance_synced_flows`, within a connection. -/
def flowKey (f : NormalizedFlow) : FlowFamily × String := (f.sourceNamespace, f.sourceId)

def upsertFlows (stored flows : List NormalizedFlow) : List NormalizedFlow := insertAll flowKey stored flows

/-- What a cycle stores, and whether it was successful. -/
def syncFlows (stored : List NormalizedFlow) (s : Sync) : List NormalizedFlow × Bool :=
  match fetchFlows parseDatetime s.report with
  | .error _ => (stored, false)
  | .ok flows =>
    match s.stopsAfter with
    | none => (upsertFlows stored flows, true)
    | some n => (upsertFlows stored (flows.take n), false)

def storedFlows (syncs : List Sync) : List NormalizedFlow :=
  syncs.foldl (fun stored s => (syncFlows parseDatetime stored s).1) []

end Syncs

section Entries

variable (parseDatetime : String → Option UInt64)

/-- What a movement is normalized to in a status. -/
def Movement.flow (status : ℕ) : Movement → Option NormalizedFlow
  | .deposit d => (rawDeposit d status).bind fun raw => (normalizeDeposit raw).toOption
  | .withdrawal w => (rawWithdrawal parseDatetime w status).bind fun raw => (normalizeWithdrawal raw).toOption

def entryFlow (entry : Movement × ℕ) : Option NormalizedFlow := entry.1.flow parseDatetime entry.2

/-- What a movement is stored under, whatever its status. -/
def Movement.key : Movement → Option (FlowFamily × String)
  | .deposit d => d.txId.map fun txId => (.deposit, txId)
  | .withdrawal w => w.id.map fun id => (.withdrawal, id)

def Report.entries (r : Report) : List (Movement × ℕ) :=
  r.deposits.map (fun (d, status) => (.deposit d, status)) ++
    r.withdrawals.map fun (w, status) => (.withdrawal w, status)

/-- The movements that a cycle has read of the exchange. -/
def Sync.reported (s : Sync) : List (Movement × ℕ) :=
  match fetchFlows parseDatetime s.report with
  | .error _ => []
  | .ok _ => s.report.entries

/-- Those of them that it has gone on to store. -/
def Sync.written (s : Sync) : List (Movement × ℕ) :=
  let readable := (s.reported parseDatetime).filter fun entry => (entryFlow parseDatetime entry).isSome
  match s.stopsAfter with
  | none => readable
  | some n => readable.take n

def reported (syncs : List Sync) : List (Movement × ℕ) := syncs.flatMap (Sync.reported parseDatetime)

/-- The status that was last reported of a movement. -/
def latest (syncs : List Sync) (m : Movement) : Option ℕ :=
  ((reported parseDatetime syncs).reverse.find? fun entry => entry.1 = m).map Prod.snd

/-- The status in which a movement was first to be stored. -/
def firstWritten (syncs : List Sync) (m : Movement) : Option ℕ :=
  ((syncs.flatMap (Sync.written parseDatetime)).find? fun entry => entry.1 = m).map Prod.snd

variable {parseDatetime} {m : Movement} {status : ℕ} {f : NormalizedFlow}

theorem flow_deposit {d : DepositEntry} (h : (Movement.deposit d).flow parseDatetime status = some f) :
    d.txId = some f.sourceId ∧ f.sourceNamespace = .deposit := by
  unfold Movement.flow rawDeposit normalizeDeposit at h
  simp only [Option.bind_eq_bind, Option.bind_eq_some_iff, Option.pure_def, Option.some.injEq] at h
  obtain ⟨raw, ⟨txId, htxId, asset, -, amount, -, time, -, rfl⟩, hflow⟩ := h
  dsimp only at hflow
  cases hkind : classifyDeposit (UInt32.ofNat status) with
  | none =>
    rw [hkind] at hflow
    cases hflow
  | some kind =>
    rw [hkind] at hflow
    cases hflow
    exact ⟨htxId, rfl⟩

theorem flow_withdrawal {w : WithdrawalEntry}
    (h : (Movement.withdrawal w).flow parseDatetime status = some f) :
    w.id = some f.sourceId ∧ f.sourceNamespace = .withdrawal := by
  unfold Movement.flow rawWithdrawal normalizeWithdrawal at h
  simp only [Option.bind_eq_bind, Option.bind_eq_some_iff, Option.pure_def, Option.some.injEq] at h
  obtain ⟨raw, ⟨id, hid, asset, -, amount, -, fee, -, time, -, timeMs, -, rfl⟩, hflow⟩ := h
  dsimp only at hflow
  cases hkind : classifyWithdrawal (UInt32.ofNat status) with
  | none =>
    rw [hkind] at hflow
    cases hflow
  | some kind =>
    rw [hkind] at hflow
    cases hflow
    exact ⟨hid, rfl⟩

theorem flow_key (h : m.flow parseDatetime status = some f) : m.key = some (flowKey f) := by
  cases m with
  | deposit d =>
    obtain ⟨hid, hfamily⟩ := flow_deposit h
    rw [Movement.key, hid, flowKey, hfamily]
    rfl
  | withdrawal w =>
    obtain ⟨hid, hfamily⟩ := flow_withdrawal h
    rw [Movement.key, hid, flowKey, hfamily]
    rfl

theorem flowKey_reward (m : Movement) (r : Reward) : m.key ≠ some (flowKey r.flow) := by
  intro h
  cases m with
  | deposit d =>
    obtain ⟨txId, -, hkey⟩ := Option.map_eq_some_iff.1 h
    exact nomatch congrArg Prod.fst hkey
  | withdrawal w =>
    obtain ⟨id, -, hkey⟩ := Option.map_eq_some_iff.1 h
    exact nomatch congrArg Prod.fst hkey

theorem filterMap_mapM {α β : Type} {ε : Type} {g : α → Option β} {n : β → Except ε NormalizedFlow}
    {l : List α} {flows : List NormalizedFlow} (h : (l.filterMap g).mapM n = .ok flows) :
    flows = l.filterMap fun a => (g a).bind fun b => (n b).toOption := by
  induction l generalizing flows with
  | nil =>
    rw [List.filterMap_nil, List.mapM_nil, pure_ok] at h
    exact h.symm
  | cons a l ih =>
    cases hg : g a with
    | none =>
      rw [List.filterMap_cons_none hg] at h
      rw [List.filterMap_cons_none (by rw [hg]; rfl)]
      exact ih h
    | some b =>
      rw [List.filterMap_cons_some hg, List.mapM_cons, bind_ok] at h
      obtain ⟨first, hfirst, hrest⟩ := h
      rw [bind_ok] at hrest
      obtain ⟨rest, hrest, hflows⟩ := hrest
      rw [pure_ok] at hflows
      rw [List.filterMap_cons_some (by rw [hg, Option.bind_some, hfirst]; rfl), ← ih hrest]
      exact hflows.symm

/-- A fetch that succeeds gives the flows of the entries that can be read, and the rewards. -/
theorem fetchFlows_ok {r : Report} {flows : List NormalizedFlow} (h : fetchFlows parseDatetime r = .ok flows) :
    flows = r.entries.filterMap (entryFlow parseDatetime) ++
      r.rewards.map Reward.flow := by
  unfold fetchFlows at h
  simp only [bind_ok, pure_ok] at h
  obtain ⟨deposits, hdeposits, withdrawals, hwithdrawals, rfl⟩ := h
  rw [filterMap_mapM hdeposits, filterMap_mapM hwithdrawals, Report.entries, List.filterMap_append,
    List.filterMap_map, List.filterMap_map]
  rfl

theorem take_filterMap {α β : Type} (g : α → Option β) (l : List α) (n : ℕ) :
    (l.filterMap g).take n = ((l.filter fun a => (g a).isSome).take n).filterMap g := by
  induction l generalizing n with
  | nil => rw [List.filter_nil, List.filterMap_nil, List.take_nil, List.take_nil, List.filterMap_nil]
  | cons a l ih =>
    cases hg : g a with
    | none =>
      rw [List.filterMap_cons_none hg, List.filter_cons_of_neg (by rw [hg]; exact Bool.false_ne_true)]
      exact ih n
    | some b =>
      rw [List.filterMap_cons_some hg, List.filter_cons_of_pos (by rw [hg]; rfl)]
      cases n with
      | zero => rfl
      | succ n => rw [List.take_succ_cons, List.take_succ_cons, List.filterMap_cons_some hg, ih n]

end Entries

section Store

variable (parseDatetime : String → Option UInt64)

/-- The flows that a cycle hands to the store, one by one. -/
def Sync.writes (s : Sync) : List NormalizedFlow :=
  match fetchFlows parseDatetime s.report with
  | .error _ => []
  | .ok flows =>
    match s.stopsAfter with
    | none => flows
    | some n => flows.take n

variable {parseDatetime} {m : Movement} {k : FlowFamily × String}

theorem storedFlows_eq (syncs : List Sync) :
    storedFlows parseDatetime syncs = insertAll flowKey [] (syncs.flatMap (Sync.writes parseDatetime)) := by
  have hstep : ∀ stored s, (syncFlows parseDatetime stored s).1 =
      insertAll flowKey stored (s.writes parseDatetime) := by
    intro stored s
    unfold syncFlows Sync.writes
    cases fetchFlows parseDatetime s.report with
    | error e => rfl
    | ok flows => cases s.stopsAfter <;> rfl
  have hrun : ∀ stored, syncs.foldl (fun stored s => (syncFlows parseDatetime stored s).1) stored =
      insertAll flowKey stored (syncs.flatMap (Sync.writes parseDatetime)) := by
    induction syncs with
    | nil => exact fun _ => rfl
    | cons s syncs ih =>
      intro stored
      rw [List.foldl_cons, ih, hstep, List.flatMap_cons, insertAll_append]
  exact hrun []

theorem writes_eq (s : Sync) : ∃ rewards : List Reward, s.writes parseDatetime =
    (s.written parseDatetime).filterMap (entryFlow parseDatetime) ++ rewards.map Reward.flow := by
  unfold Sync.writes Sync.written Sync.reported
  cases hfetch : fetchFlows parseDatetime s.report with
  | error e =>
    refine ⟨[], ?_⟩
    cases s.stopsAfter with
    | none => rfl
    | some n =>
      dsimp only
      rw [List.filter_nil, List.take_nil]
      rfl
  | ok flows =>
    rw [fetchFlows_ok hfetch]
    cases s.stopsAfter with
    | none =>
      have hall := take_filterMap (entryFlow parseDatetime)
        s.report.entries s.report.entries.length
      rw [List.take_of_length_le (List.length_filterMap_le ..),
        List.take_of_length_le (List.length_filter_le ..)] at hall
      exact ⟨s.report.rewards, congrArg (· ++ s.report.rewards.map Reward.flow) hall⟩
    | some n =>
      refine ⟨s.report.rewards.take (n - (s.report.entries.filterMap
        (entryFlow parseDatetime)).length), ?_⟩
      dsimp only
      rw [List.take_append, take_filterMap, ← List.map_take]

theorem find?_rewards (rewards : List Reward) (hkey : m.key = some k) :
    (rewards.map Reward.flow).find? (fun f => flowKey f = k) = none := by
  rw [List.find?_eq_none]
  intro f hf heq
  rw [decide_eq_true_eq] at heq
  obtain ⟨r, -, rfl⟩ := List.mem_map.1 hf
  exact flowKey_reward m r (hkey.trans (congrArg some heq.symm))

theorem find?_writes (syncs : List Sync) (hkey : m.key = some k) :
    (syncs.flatMap (Sync.writes parseDatetime)).find? (fun f => flowKey f = k) =
      ((syncs.flatMap (Sync.written parseDatetime)).filterMap
        (entryFlow parseDatetime)).find? (fun f => flowKey f = k) := by
  induction syncs with
  | nil => rfl
  | cons s syncs ih =>
    obtain ⟨rewards, hwrites⟩ : ∃ rewards : List Reward, s.writes parseDatetime =
        (s.written parseDatetime).filterMap (entryFlow parseDatetime) ++ rewards.map Reward.flow := writes_eq s
    rw [List.flatMap_cons, List.flatMap_cons, List.filterMap_append, List.find?_append, List.find?_append, ih,
      hwrites, List.find?_append, find?_rewards rewards hkey, Option.or_none]

/-- No two of the movements that are reported share the id that they are stored under. -/
def Apart (parseDatetime : String → Option UInt64) (syncs : List Sync) : Prop :=
  ∀ m status m' status', (m, status) ∈ reported parseDatetime syncs →
    (m', status') ∈ reported parseDatetime syncs → m.key = m'.key → m = m'

theorem mem_written {s : Sync} {status : ℕ} (h : (m, status) ∈ s.written parseDatetime) :
    (m, status) ∈ s.reported parseDatetime ∧ (m.flow parseDatetime status).isSome = true := by
  have hreadable : (m, status) ∈ (s.reported parseDatetime).filter
      fun entry => (entryFlow parseDatetime entry).isSome := by
    unfold Sync.written at h
    cases hstops : s.stopsAfter with
    | none =>
      rw [hstops] at h
      exact h
    | some n =>
      rw [hstops] at h
      exact List.mem_of_mem_take h
  exact List.mem_filter.1 hreadable

/-- Under an id of its own a movement is found as it was first written. -/
theorem find?_apart {written : List (Movement × ℕ)}
    (hreadable : ∀ m status, (m, status) ∈ written → (m.flow parseDatetime status).isSome = true)
    (hapart : ∀ m' status, (m', status) ∈ written → m'.key = m.key → m' = m) (hkey : m.key = some k) :
    (written.filterMap (entryFlow parseDatetime)).find? (fun f => flowKey f = k) =
      ((written.find? fun entry => entry.1 = m).map Prod.snd).bind fun status => m.flow parseDatetime status := by
  induction written with
  | nil => rfl
  | cons entry written ih =>
    obtain ⟨m', status⟩ := entry
    obtain ⟨f, hf⟩ := Option.isSome_iff_exists.1 (hreadable m' status List.mem_cons_self)
    have hrest := ih (fun m'' status'' h => hreadable m'' status'' (List.mem_cons_of_mem _ h))
      fun m'' status'' h => hapart m'' status'' (List.mem_cons_of_mem _ h)
    have hentry : entryFlow parseDatetime (m', status) = some f := hf
    rw [List.filterMap_cons_some hentry]
    by_cases hm : m' = m
    · subst hm
      have hfk : flowKey f = k := Option.some.inj ((flow_key hf).symm.trans hkey)
      rw [List.find?_cons_of_pos (by rwa [decide_eq_true_eq]),
        List.find?_cons_of_pos (by rw [decide_eq_true_eq])]
      exact hf.symm
    · have hfk : ¬ flowKey f = k := fun hfk =>
        hm (hapart m' status List.mem_cons_self ((flow_key hf).trans (hfk ▸ hkey.symm)))
      rw [List.find?_cons_of_neg (by rwa [decide_eq_true_eq]), List.find?_cons_of_neg (by rwa [decide_eq_true_eq])]
      exact hrest

/-- The record under a movement's id, where ids are apart. -/
theorem find?_stored {syncs : List Sync} {status : ℕ} (hapart : Apart parseDatetime syncs)
    (hm : (m, status) ∈ reported parseDatetime syncs) (hkey : m.key = some k) :
    (storedFlows parseDatetime syncs).find? (fun f => flowKey f = k) =
      (firstWritten parseDatetime syncs m).bind fun status => m.flow parseDatetime status := by
  have hin : ∀ m' status', (m', status') ∈ syncs.flatMap (Sync.written parseDatetime) →
      (m', status') ∈ reported parseDatetime syncs ∧ (m'.flow parseDatetime status').isSome = true := by
    intro m' status' h
    obtain ⟨s, hs, hwritten⟩ := List.mem_flatMap.1 h
    obtain ⟨hreported, hreadable⟩ := mem_written hwritten
    exact ⟨List.mem_flatMap.2 ⟨s, hs, hreported⟩, hreadable⟩
  rw [storedFlows_eq, find?_insertAll, List.nil_append, find?_writes syncs hkey]
  exact find?_apart (fun m' status' h => (hin m' status' h).2)
    (fun m' status' h hsame => hapart m' status' m status (hin m' status' h).1 hm hsame) hkey

end Store

section Statuses

variable (parseDatetime : String → Option UInt64)

/-- Each movement that was reported has a record of its own, with the legs and the fee of its latest status. -/
def Followed (syncs : List Sync) : Prop :=
  ∃ record : Movement → NormalizedFlow,
    Set.InjOn record {m | ∃ status, (m, status) ∈ reported parseDatetime syncs} ∧
    ∀ m status, latest parseDatetime syncs m = some status →
      ∃ f, m.flow parseDatetime status = some f ∧ record m ∈ storedFlows parseDatetime syncs ∧
        m.key = some (flowKey (record m)) ∧ (record m).legs = f.legs ∧ (record m).fee = f.fee

/-- A movement was first written in a status that has the legs and the fee of its latest. -/
def Settled (syncs : List Sync) (m : Movement) : Prop :=
  ∀ status, latest parseDatetime syncs m = some status →
    ∃ f g first, m.flow parseDatetime status = some f ∧ firstWritten parseDatetime syncs m = some first ∧
      m.flow parseDatetime first = some g ∧ g.legs = f.legs ∧ g.fee = f.fee

variable {parseDatetime} {syncs : List Sync} {m : Movement} {status : ℕ}

theorem reported_of_latest (h : latest parseDatetime syncs m = some status) :
    (m, status) ∈ reported parseDatetime syncs := by
  obtain ⟨entry, hfind, rfl⟩ := Option.map_eq_some_iff.1 h
  have hm := List.find?_some hfind
  rw [decide_eq_true_eq] at hm
  subst hm
  exact List.mem_reverse.1 (List.mem_of_find?_eq_some hfind)

theorem exists_latest (h : (m, status) ∈ reported parseDatetime syncs) :
    ∃ last, latest parseDatetime syncs m = some last := by
  obtain ⟨entry, hfind, -⟩ := exists_find? Prod.fst (List.mem_reverse.2 h)
  exact ⟨entry.2, Option.map_eq_some_iff.2 ⟨entry, hfind, rfl⟩⟩

theorem nodup_stored (syncs : List Sync) : ((storedFlows parseDatetime syncs).map flowKey).Nodup := by
  rw [storedFlows_eq]
  exact nodup_insertAll List.nodup_nil

/-- What a movement was when it was first written; one that never was has no leg. -/
def firstRecord (parseDatetime : String → Option UInt64) (syncs : List Sync) (m : Movement) : NormalizedFlow :=
  ((firstWritten parseDatetime syncs m).bind fun status => m.flow parseDatetime status).getD
    ⟨.deposit, "", 0, [], none⟩

/-- A movement that has not changed since it was first written is followed by that record. -/
theorem Settled.followed (h : Settled parseDatetime syncs m) (hapart : Apart parseDatetime syncs)
    (hlatest : latest parseDatetime syncs m = some status) :
    ∃ f, m.flow parseDatetime status = some f ∧
      firstRecord parseDatetime syncs m ∈ storedFlows parseDatetime syncs ∧
      m.key = some (flowKey (firstRecord parseDatetime syncs m)) ∧
      (firstRecord parseDatetime syncs m).legs = f.legs ∧ (firstRecord parseDatetime syncs m).fee = f.fee := by
  obtain ⟨f, g, first, hf, hfirst, hg, hlegs, hfee⟩ := h status hlatest
  have hbind : ((firstWritten parseDatetime syncs m).bind fun status => m.flow parseDatetime status) = some g := by
    rw [hfirst]
    exact hg
  have hrecord : firstRecord parseDatetime syncs m = g := by
    unfold firstRecord
    rw [hbind]
    rfl
  rw [hrecord]
  refine ⟨f, hf, ?_, flow_key hg, hlegs, hfee⟩
  refine List.mem_of_find?_eq_some (p := fun row => flowKey row = flowKey g) ?_
  rw [find?_stored hapart (reported_of_latest hlatest) (flow_key hg), hbind]

/-- Where records follow the statuses, movements of one id have one record. -/
theorem Followed.apart (h : Followed parseDatetime syncs) : Apart parseDatetime syncs := by
  obtain ⟨record, hinj, hrecord⟩ := h
  intro m status m' status' hm hm' hsame
  obtain ⟨last, hlast⟩ := exists_latest hm
  obtain ⟨last', hlast'⟩ := exists_latest hm'
  obtain ⟨-, -, hstored, hkey, -⟩ := hrecord m last hlast
  obtain ⟨-, -, hstored', hkey', -⟩ := hrecord m' last' hlast'
  have hkeys : flowKey (record m) = flowKey (record m') :=
    Option.some.inj (hkey.symm.trans (hsame.trans hkey'))
  exact hinj ⟨status, hm⟩ ⟨status', hm'⟩ (List.inj_on_of_nodup_map (nodup_stored syncs) hstored hstored' hkeys)

/-- Records follow the statuses exactly when ids are apart and no movement's legs or fee have changed since it
was first written. -/
theorem followed_iff (parseDatetime : String → Option UInt64) (syncs : List Sync) :
    Followed parseDatetime syncs ↔
      Apart parseDatetime syncs ∧ ∀ m, Settled parseDatetime syncs m := by
  constructor
  · intro h
    have hapart := h.apart
    obtain ⟨record, -, hrecord⟩ := h
    refine ⟨hapart, fun m status hlatest => ?_⟩
    obtain ⟨f, hf, hstored, hkey, hlegs, hfee⟩ := hrecord m status hlatest
    have hfind := (find?_eq_some_iff_of_nodup (nodup_stored syncs)).2 ⟨hstored, rfl⟩
    rw [find?_stored hapart (reported_of_latest hlatest) hkey, Option.bind_eq_some_iff] at hfind
    obtain ⟨first, hfirst, hflow⟩ := hfind
    exact ⟨f, record m, first, hf, hfirst, hflow, hlegs, hfee⟩
  · intro ⟨hapart, hsettled⟩
    refine ⟨firstRecord parseDatetime syncs, fun m hm m' hm' hsame => ?_,
      fun m status => (hsettled m).followed hapart⟩
    obtain ⟨status, hm⟩ := hm
    obtain ⟨status', hm'⟩ := hm'
    obtain ⟨last, hlast⟩ := exists_latest hm
    obtain ⟨last', hlast'⟩ := exists_latest hm'
    obtain ⟨-, -, -, hkey, -⟩ := (hsettled m).followed hapart hlast
    obtain ⟨-, -, -, hkey', -⟩ := (hsettled m').followed hapart hlast'
    refine hapart m status m' status' hm hm' ?_
    rw [hkey, hkey', hsame]

end Statuses

section Examples

def depositOf (output : ℕ) (coin amount : String) : DepositEntry :=
  ⟨output, some "tx-1", some coin, some amount, some 1000⟩

/-- A deposit that is first pending and then credited. -/
def creditedLater : List Sync :=
  [⟨⟨[(depositOf 0 "USDT" "100", 0)], [], []⟩, none⟩, ⟨⟨[(depositOf 0 "USDT" "100", 1)], [], []⟩, none⟩]

/-- Two coins that came in one transaction. -/
def twoOutputs : List Sync :=
  [⟨⟨[(depositOf 0 "USDT" "100", 1), (depositOf 1 "BTC" "2", 1)], [], []⟩, none⟩]

/-- The credited deposit stays without its amount, and one of two deposits of a transaction without a record,
though every cycle was successful. -/
theorem credited_deposit_not_counted :
    (∀ s ∈ creditedLater ++ twoOutputs, ∀ stored, (syncFlows (fun _ => none) stored s).2 = true) ∧
      ¬ Followed (fun _ => none) creditedLater ∧ ¬ Followed (fun _ => none) twoOutputs := by
  refine ⟨?_, fun ⟨record, _, hrecord⟩ => ?_, fun ⟨record, hinj, hrecord⟩ => ?_⟩
  · intro s hs stored
    simp only [creditedLater, twoOutputs, List.cons_append, List.nil_append, List.mem_cons,
      List.not_mem_nil, or_false] at hs
    rcases hs with rfl | rfl | rfl <;> rfl
  · have hlatest : latest (fun _ => none) creditedLater (.deposit (depositOf 0 "USDT" "100")) = some 1 := by
      decide +kernel
    have hstored : storedFlows (fun _ => none) creditedLater = [⟨.deposit, "tx-1", 1000, [], none⟩] := by
      decide +kernel
    obtain ⟨f, hf, hmem, -, hlegs, -⟩ := hrecord _ 1 hlatest
    rw [hstored, List.mem_singleton] at hmem
    rw [hmem] at hlegs
    cases hf
    cases hlegs
  · have hstored : storedFlows (fun _ => none) twoOutputs =
        [⟨.deposit, "tx-1", 1000, [.credit "USDT" "100"], none⟩] := by
      decide +kernel
    have hfirst : latest (fun _ => none) twoOutputs (.deposit (depositOf 0 "USDT" "100")) = some 1 := by
      decide +kernel
    have hsecond : latest (fun _ => none) twoOutputs (.deposit (depositOf 1 "BTC" "2")) = some 1 := by
      decide +kernel
    obtain ⟨-, -, hmem, -⟩ := hrecord _ 1 hfirst
    obtain ⟨-, -, hmem', -⟩ := hrecord _ 1 hsecond
    rw [hstored, List.mem_singleton] at hmem hmem'
    have hsame := hinj ⟨1, reported_of_latest hfirst⟩ ⟨1, reported_of_latest hsecond⟩ (hmem.trans hmem'.symm)
    cases hsame

end Examples

end Linvesther.Worker.Binance
