import Linvesther.Base.RelyGuarantee
import Linvesther.Base.Runs
import Linvesther.Base.SharedCache
import Linvesther.Worker.Commands

/-! `publicProfile.ts` and the removal of an account: what visitors see is computed from lists of accounts,
performances and series that are kept for a minute, in caches that all requests share. -/

namespace Linvesther.Api.PublicProfile

open Interleaving SharedCache Ownership
open Worker.Connections (Broker Database Connection ownerOf resolveOrder firstIn Keeps Removes delete_effect
  serve_effect serve_sound sound_iff)

section Data

/-- A row of the worker's tables, and the account it connects. -/
structure Account where
  broker : Broker
  id : ℕ
  accountId : String
deriving DecidableEq

/-- What `list` prints of a row. -/
structure ConnectedAccount where
  account : Account
  label : Option String
  connectedAtMs : ℕ
  status : String
deriving DecidableEq

/-- What the worker computes from a row, as it prints it. -/
structure Figures where
  account : Account
  printed : String
deriving DecidableEq

def PUBLIC_TTL_MS : ℕ := 60000

def MAX_CACHED_KEYS : ℕ := 5000

def SERIES_RANGES : List String := ["24h", "7d", "30d", "1y", "5y", "max"]

inductive Kind where
  | accounts | performance | series
deriving DecidableEq

/-- What a load asks the worker for: the accounts of an address, or the figures of an account id. -/
abbrev Request : Kind → Type
  | .accounts => Address
  | .performance => String
  | .series => String × String

abbrev Value : Kind → Type
  | .accounts => List ConnectedAccount
  | .performance => Figures
  | .series => Figures

/-- The rows that a value is about. -/
def rowsOf : (k : Kind) → Value k → List Account
  | .accounts, list => list.map (·.account)
  | .performance, figures => [figures.account]
  | .series, figures => [figures.account]

/-- What a public read is computed from. -/
structure Sources where
  accounts : List ConnectedAccount
  performances : List Figures
  series : List Figures
deriving DecidableEq

def Sources.rows (s : Sources) : List Account :=
  s.accounts.map (·.account) ++ s.performances.map (·.account) ++ s.series.map (·.account)

variable (js : Lowercase)

def keyOf : (k : Kind) → Request k → String
  | .accounts, address => String.ofList (js.apply address.text)
  | .performance, accountId => String.ofList (js.apply accountId)
  | .series, (accountId, range) => String.ofList (js.apply accountId ++ '|' :: range.toList)

/-- The keys that `forgetAccount` drops from each cache. -/
def forgets (address : Address) (accountId : String) : Kind → String → Bool
  | .accounts, key => key = keyOf js .accounts address
  | .performance, key => key = keyOf js .performance accountId
  | .series, key => (js.apply accountId ++ ['|']).isPrefixOf key.toList

end Data

section Worker

variable {S : Type} (pg : Lowercase)

/-- The condition of the query of `list` on a table; a wallet's owner is a column of its own. -/
def lists (address : Address) (b : Broker) (c : Connection S) : Bool :=
  match b with
  | .wallet => c.ownerAddress.map String.toList = some (pg.apply address.text)
  | _ => isListed pg address.text c.accountId

def list (db : Database S) (address : Address) : List ConnectedAccount :=
  (resolveOrder.flatMap fun b => ((db.tables b).filter (lists pg address b)).map fun c =>
    ⟨⟨b, c.id, c.accountId⟩, c.label, c.createdAtMs, c.status⟩).insertionSort fun x y =>
      x.connectedAtMs ≤ y.connectedAtMs

/-- `resolve`: the table that holds the account, the first in order. -/
def rowOf (db : Database S) (accountId : String) : Option Account :=
  (firstIn db accountId resolveOrder).map fun found => ⟨found.1, found.2.id, found.2.accountId⟩

def figuresOf (db : Database S) (accountId printed : String) : Except String Figures :=
  match rowOf db accountId with
  | some account => .ok ⟨account, printed⟩
  | none => .error ("no connection for account " ++ accountId)

/-- What a load brings: the worker's answer, of a list only the active accounts. -/
def respond (k : Kind) (failure : Option String) (printed : String) (db : Database S) :
    Request k → Except String (Value k) :=
  fun request =>
    match failure with
    | some e => .error e
    | none =>
      match k with
      | .accounts => .ok ((list pg db request).filter fun a => a.status = "active")
      | .performance => figuresOf db request printed
      | .series => figuresOf db request.1 printed

end Worker

section Program

variable (S : Type)

/-- The worker's tables, the caches of this service, and the rows that `forgetAccount` was called for. -/
structure Service where
  db : Database S
  caches : (k : Kind) → Cache (Request k) (Value k)
  forgotten : List Account

def Service.init : Service S := ⟨.init S, fun _ => .empty, []⟩

inductive Query where
  | privacyMode (address : Address)
  | get (k : Kind) (request : Request k)
  | await (k : Kind) (i : ℕ)
  /-- The worker answers a load; its value is stored; the load is over. -/
  | answer (k : Kind) (i : ℕ)
  | store (k : Kind) (i : ℕ)
  | finish (k : Kind) (i : ℕ)
  | disconnect (accountId : String)
  /-- `forgetAccount(address, removed.accountId)`. -/
  | forget (address : Address) (removed : Account)
  /-- Any statement of the worker's other commands. -/
  | statement (q : Worker.Connections.Query S)

structure Input where
  now : ℕ
  /-- The worker or the settings cannot be read. -/
  failure : Option String
  privacyMode : Bool
  printed : String
  statement : Worker.Connections.Input S

inductive Call where
  | tracks (address : Address)
  | combinedTrack (address : Address)
  | publicSeries (address : Address) (range : String)
  /-- `DELETE /accounts/:accountId`. -/
  | remove (session : Address) (accountId : String)
  /-- What goes on in the background for a load. -/
  | load (k : Kind) (i : ℕ)
  | statement (q : Worker.Connections.Query S)

inductive Answer where
  | read (sources : Option Sources)
  | removed (account : Account)
  | done

variable {S}

abbrev Answered : Query S → Type
  | .privacyMode _ => Bool
  | .get k _ => Value k ⊕ ℕ
  | .await k _ => Value k
  | .disconnect _ => Option Account
  | _ => Unit

abbrev Reply (q : Query S) : Type := Except String (Answered q)

def Service.set (s : Service S) (k : Kind) (c : Cache (Request k) (Value k)) : Service S :=
  { s with caches := Function.update s.caches k c }

variable (js pg : Lowercase) (sameAddress : S → S → Bool)
  (counted : Broker → List Worker.Connections.CollectedRow → ℕ × ℕ)

def serve (q : Query S) (input : Input S) (s : Service S) : Reply q × Service S :=
  match q with
  | .privacyMode _ =>
    match input.failure with
    | some e => (.error e, s)
    | none => (.ok input.privacyMode, s)
  | .get k request =>
    let got := (s.caches k).get input.now (keyOf js k request) request
    (.ok got.1, s.set k got.2)
  | .await k i =>
    match (s.caches k).outcome i with
    | some r => (r, s)
    | none => (.error "pending", s)
  | .answer k i => (.ok (), s.set k ((s.caches k).answer i (respond pg k input.failure input.printed s.db)))
  | .store k i => (.ok (), s.set k ((s.caches k).store PUBLIC_TTL_MS MAX_CACHED_KEYS input.now i))
  | .finish k i => (.ok (), s.set k ((s.caches k).finish i))
  | .disconnect accountId =>
    match input.failure with
    | some e => (.error e, s)
    | none =>
      match rowOf s.db accountId with
      | some a => (.ok (some a), { s with db := (s.db.delete a.broker a.id).2 })
      | none => (.ok none, s)
  | .forget address removed =>
    (.ok (), { s with
      caches := fun k => (s.caches k).deleteWhere (forgets js address removed.accountId k)
      forgotten := removed :: s.forgotten })
  | .statement q =>
    (.ok (), { s with db := (Worker.Connections.serve pg sameAddress counted q input.statement s.db).2 })

variable (S) in
abbrev ServiceM (A : Type) : Type := ExceptT String (Process (Query S) Reply) A

def ask (q : Query S) : ServiceM S (Answered q) := ExceptT.mk (.ask q .done)

def wait (k : Kind) : Value k ⊕ ℕ → ServiceM S (Value k)
  | .inl v => pure v
  | .inr i => ask (.await k i)

/-- All are asked for before the first is waited for. -/
def loadAll (k : Kind) (requests : List (Request k)) : ServiceM S (List (Value k)) := do
  let started ← inTurn (fun request => ask (.get k request)) requests
  inTurn (wait k) started

def accounts (address : Address) : ServiceM S (List ConnectedAccount) := do
  let started ← ask (.get .accounts address)
  wait .accounts started

def combinedTrack (address : Address) : ServiceM S (Option Sources) := do
  let accounts ← accounts address
  if accounts = [] then pure none
  else
    let ids := accounts.map (·.account.accountId)
    let performances ← loadAll .performance ids
    let series ← loadAll .series (ids.map fun id => (id, "max"))
    pure (some ⟨accounts, performances, series⟩)

def tracks (address : Address) : ServiceM S (Option Sources) := do
  let hidden ← ask (.privacyMode address)
  if hidden then pure none else combinedTrack address

def publicSeries (address : Address) (range : String) : ServiceM S (Option Sources) := do
  if range ∉ SERIES_RANGES then pure none
  else
    let hidden ← ask (.privacyMode address)
    if hidden then pure none
    else
      let accounts ← accounts address
      if accounts = [] then pure none
      else
        let series ← loadAll .series (accounts.map fun a => (a.account.accountId, range))
        pure (some ⟨accounts, [], series⟩)

variable (accountOwners : String → Option String)

def remove (session : Address) (accountId : String) : ServiceM S Account := do
  if isOwner js accountOwners accountId session.text then
    match ← ask (.disconnect accountId) with
    | some removed =>
      ask (.forget session removed)
      pure removed
    | none => throw "not_found"
  else throw "cross_account_access_denied"

def background (k : Kind) (i : ℕ) : ServiceM S Unit := do
  ask (.answer k i)
  ask (.store k i)
  ask (.finish k i)

def command : Call S → ServiceM S Answer
  | .tracks address => do
    let sources ← tracks address
    pure (.read sources)
  | .combinedTrack address => do
    let sources ← combinedTrack address
    pure (.read sources)
  | .publicSeries address range => do
    let sources ← publicSeries address range
    pure (.read sources)
  | .remove session accountId => do
    let removed ← remove js accountOwners session accountId
    pure (.removed removed)
  | .load k i => do
    background k i
    pure .done
  | .statement q => do
    ask (.statement q)
    pure .done

def program (c : Call S) : Process (Query S) Reply (Except String Answer) := (command js accountOwners c).run

variable (S) in
abbrev Worlds : Type := Interleaving.World (Query S) Reply (Except String Answer) (Call S) (Service S)

/-- Who waits for a load goes on when it is over. -/
def waits (s : Service S) : Query S → Bool
  | .await k i => ((s.caches k).outcome i).isNone
  | _ => false

def goOn (w : Worlds S) (m : Move (Call S) (Input S)) : Worlds S :=
  match m with
  | .start .. => w.step (program js accountOwners) (serve js pg sameAddress counted) m
  | .serve i _ =>
    match w.processes i with
    | some (_, .ask q _) =>
      if waits w.shared q then w else w.step (program js accountOwners) (serve js pg sameAddress counted) m
    | _ => w

def worldAt (moves : List (Move (Call S) (Input S))) : Worlds S :=
  moves.foldl (goOn js pg sameAddress counted accountOwners) ⟨.init S, fun _ => none⟩

/-- What keeps a removed row from being seen again: the account id spells the address whose list is dropped, and
no load that the worker has answered with the row is still under way. -/
structure Undisturbed (s : Service S) (address : Address) (removed : Account) : Prop where
  spells : Spells address.toCaller removed.accountId
  loads : ∀ k, ∀ l ∈ (s.caches k).loads, l.phase.isOver = false →
    ∀ v ∈ l.phase.value, removed ∉ rowsOf k v

instance (s : Service S) (address : Address) (removed : Account) : Decidable (Undisturbed s address removed) :=
  decidable_of_iff (Spells address.toCaller removed.accountId ∧
      ∀ k ∈ [Kind.accounts, .performance, .series], ∀ l ∈ (s.caches k).loads, l.phase.isOver = false →
        ∀ v ∈ l.phase.value, removed ∉ rowsOf k v)
    ⟨fun h => ⟨h.1, fun k => h.2 k (by cases k <;> decide)⟩, fun h => ⟨h.spells, fun k _ => h.loads k⟩⟩

def quietStep (w : Worlds S) (m : Move (Call S) (Input S)) : Bool :=
  match m with
  | .start .. => true
  | .serve i _ =>
    match w.processes i with
    | some (_, .ask (.forget address removed) _) => Undisturbed w.shared address removed
    | _ => true

/-- `Undisturbed` wherever `forgetAccount` is called. -/
def Quiet (moves : List (Move (Call S) (Input S))) : Prop :=
  Runs.Along (goOn js pg sameAddress counted accountOwners) (fun w m => quietStep w m = true)
    ⟨.init S, fun _ => none⟩ moves

end Program

section Tables

variable {S : Type} {db db' : Database S} {pg : Lowercase} {sameAddress : S → S → Bool}
  {counted : Broker → List Worker.Connections.CollectedRow → ℕ × ℕ} {removed : Account}

/-- The row is not in the tables, and its id is not given again. -/
structure Gone (removed : Account) (db : Database S) : Prop where
  used : removed.id < db.nextId
  absent : removed.id ∉ (db.keys removed.broker).map Prod.fst

/-- The owner column of a wallet is the address that its account id begins with. -/
def WalletOwners (db : Database S) : Prop :=
  ∀ c ∈ db.tables .wallet, ∀ owner, c.ownerAddress = some owner → ownerOf c.accountId = some owner

structure Tables (db : Database S) : Prop where
  sound : Worker.Connections.Sound db
  owners : WalletOwners db

theorem Gone.keeps (h : Gone removed db) (hkeeps : Keeps db db') : Gone removed db' := by
  refine ⟨?_, ?_⟩
  · rw [hkeeps.nextId]
    exact h.used
  · rw [hkeeps.keys]
    exact h.absent

theorem Gone.removes {b : Broker} {id : ℕ} (h : Gone removed db) (hremoves : Removes db db' b id) :
    Gone removed db' := by
  refine ⟨?_, ?_⟩
  · rw [hremoves.nextId]
    exact h.used
  · rw [hremoves.keys]
    split_ifs with hb
    · intro hin
      obtain ⟨k, hk, hid⟩ := List.mem_map.1 hin
      rw [← hb] at hk
      exact h.absent (List.mem_map.2 ⟨k, List.mem_of_mem_filter hk, hid⟩)
    · exact h.absent

theorem Gone.statement (h : Gone removed db) (q : Worker.Connections.Query S)
    (input : Worker.Connections.Input S) :
    Gone removed (Worker.Connections.serve pg sameAddress counted q input db).2 := by
  obtain ⟨b, accountId, _, _, _, -, -, ⟨-, hkeeps⟩ | hadds⟩ | ⟨b, id, -, hremoves⟩ | ⟨-, hkeeps⟩ :=
    @serve_effect S pg sameAddress counted q input db
  · exact h.keeps hkeeps
  · refine ⟨?_, ?_⟩
    · rw [hadds.nextId]
      exact Nat.lt_succ_of_lt h.used
    · rw [hadds.keys]
      split_ifs with hb
      · intro hin
        rw [List.map_append, List.mem_append] at hin
        rcases hin with hold | hnew
        · rw [← hb] at hold
          exact h.absent hold
        · have hused := h.used
          rw [List.map_singleton, List.mem_singleton] at hnew
          omega
      · exact h.absent
  · exact h.removes hremoves
  · exact h.keeps hkeeps

theorem WalletOwners.setTable (h : WalletOwners db) (b : Broker) {table : List (Connection S)}
    (htable : b = .wallet → ∀ c ∈ table, ∀ owner, c.ownerAddress = some owner → ownerOf c.accountId = some owner) :
    WalletOwners (db.setTable b table) := by
  intro c hc
  unfold Database.setTable at hc
  dsimp only at hc
  by_cases hb : b = .wallet
  · subst hb
    rw [Function.update_self] at hc
    exact htable rfl c hc
  · rw [Function.update_of_ne (Ne.symm hb)] at hc
    exact h c hc

theorem WalletOwners.map (h : WalletOwners db) (b : Broker) {f : Connection S → Connection S}
    (hf : ∀ c, (f c).ownerAddress = c.ownerAddress ∧ (f c).accountId = c.accountId) :
    WalletOwners (db.setTable b ((db.tables b).map f)) := by
  refine h.setTable b fun hb c hc owner howner => ?_
  subst hb
  obtain ⟨old, hold, rfl⟩ := List.mem_map.1 hc
  rw [(hf old).1] at howner
  rw [(hf old).2]
  exact h old hold owner howner

theorem WalletOwners.delete (h : WalletOwners db) (b : Broker) (id : ℕ) : WalletOwners (db.delete b id).2 := by
  have hset : WalletOwners (db.setTable b ((db.tables b).filter (·.id ≠ id))) :=
    h.setTable b fun hb c hc => h c (hb ▸ List.mem_of_mem_filter hc)
  exact hset

theorem WalletOwners.insert (h : WalletOwners db) (b : Broker) (accountId : String) (ownerAddress : Option String)
    (secrets : S) (symbols : List String) (label : Option String) (now : ℕ)
    (howner : b = .wallet → ∀ owner, ownerAddress = some owner → ownerOf accountId = some owner) :
    WalletOwners (db.insert b accountId ownerAddress secrets symbols label now).2 := by
  unfold Database.insert
  cases db.find b accountId with
  | some c =>
    refine h.map b fun r => ?_
    split_ifs
    · exact ⟨rfl, rfl⟩
    · exact ⟨rfl, rfl⟩
  | none =>
    have hset : WalletOwners (db.setTable b (db.tables b ++
        [⟨db.nextId, accountId, ownerAddress, secrets, symbols, label, "active", now, none⟩])) := by
      refine h.setTable b fun hb c hc owner hc' => ?_
      rcases List.mem_append.1 hc with hold | hnew
      · exact h c (hb ▸ hold) owner hc'
      · rw [List.mem_singleton.1 hnew] at hc' ⊢
        exact howner hb owner hc'
    exact hset

theorem tables_of_store {row : Worker.Connections.CollectedRow} (h : db.store row = some db') :
    db'.tables = db.tables := by
  unfold Database.store at h
  split_ifs at h
  · cases h
    rfl
  · cases h
    rfl

theorem WalletOwners.statement (h : WalletOwners db) (q : Worker.Connections.Query S)
    (input : Worker.Connections.Input S) :
    WalletOwners (Worker.Connections.serve pg sameAddress counted q input db).2 := by
  unfold Worker.Connections.serve
  split_ifs
  · exact h
  · cases q with
    | openClient b => exact h
    | find b accountId => exact h
    | fetch b id => exact h
    | owned b ownerAddress => exact h
    | counts b id => exact h
    | setLabel b id label =>
      refine h.map b fun r => ?_
      split_ifs
      · exact ⟨rfl, rfl⟩
      · exact ⟨rfl, rfl⟩
    | markSynced b id =>
      refine h.map b fun r => ?_
      split_ifs
      · exact ⟨rfl, rfl⟩
      · exact ⟨rfl, rfl⟩
    | store row =>
      dsimp only
      split
      next db' hstore =>
        intro c hc
        rw [tables_of_store hstore] at hc
        exact h c hc
      next => exact h
    | delete b id => exact h.delete b id
    | insert b accountId secrets symbols label =>
      have hother : ∀ b, b ≠ .wallet →
          WalletOwners (db.insert b accountId none secrets symbols label input.now).2 := fun b hb =>
        h.insert b accountId none secrets symbols label input.now fun hwallet => absurd hwallet hb
      unfold Database.insertFor
      cases b with
      | wallet =>
        dsimp only
        split
        next => exact h
        next owner howner =>
          split_ifs
          · exact h
          · exact h.insert .wallet accountId (some owner) secrets symbols label input.now
              fun _ owner' heq => by rw [howner, heq]
      | binance => exact hother .binance (by decide)
      | coinbase => exact hother .coinbase (by decide)
      | ibkr => exact hother .ibkr (by decide)
      | kraken => exact hother .kraken (by decide)

theorem Tables.statement (h : Tables db) (q : Worker.Connections.Query S)
    (input : Worker.Connections.Input S) :
    Tables (Worker.Connections.serve pg sameAddress counted q input db).2 :=
  ⟨serve_sound h.sound, h.owners.statement q input⟩

theorem Tables.delete (h : Tables db) (b : Broker) (id : ℕ) : Tables (db.delete b id).2 :=
  ⟨(delete_effect db b id).sound h.sound, h.owners.delete b id⟩

theorem rowOf_eq {accountId : String} {a : Account} (h : rowOf db accountId = some a) :
    a.accountId = accountId ∧ (a.id, a.accountId) ∈ db.keys a.broker := by
  unfold rowOf firstIn at h
  obtain ⟨⟨b, c⟩, hfirst, rfl⟩ := Option.map_eq_some_iff.1 h
  obtain ⟨b', -, hb'⟩ := List.exists_of_findSome?_eq_some hfirst
  obtain ⟨c', hfind, heq⟩ := Option.map_eq_some_iff.1 hb'
  cases heq
  have haccount := List.find?_some hfind
  rw [decide_eq_true_eq] at haccount
  exact ⟨haccount, List.mem_map.2 ⟨c, List.mem_of_find?_eq_some hfind, rfl⟩⟩

theorem gone_delete (h : Worker.Connections.Sound db) {a : Account} (ha : (a.id, a.accountId) ∈ db.keys a.broker) :
    Gone a (db.delete a.broker a.id).2 := by
  have hremoves := delete_effect db a.broker a.id
  refine ⟨?_, ?_⟩
  · rw [hremoves.nextId]
    exact (sound_iff.1 h).1 a.broker _ ha
  · rw [hremoves.keys, if_pos rfl]
    intro hin
    obtain ⟨k, hk, hid⟩ := List.mem_map.1 hin
    obtain ⟨-, hne⟩ := List.mem_filter.1 hk
    rw [decide_eq_true_eq] at hne
    exact hne hid

/-- A row that `list` prints is in its table, and the address is the one that the account id begins with. -/
theorem mem_list {address : Address} {a : ConnectedAccount} (h : a ∈ list pg db address) :
    ∃ c ∈ db.tables a.account.broker, c.id = a.account.id ∧ c.accountId = a.account.accountId ∧
      lists pg address a.account.broker c = true := by
  unfold list at h
  rw [List.mem_insertionSort, List.mem_flatMap] at h
  obtain ⟨b, -, hb⟩ := h
  obtain ⟨c, hc, rfl⟩ := List.mem_map.1 hb
  obtain ⟨htable, hlists⟩ := List.mem_filter.1 hc
  exact ⟨c, htable, rfl, rfl, hlists⟩

/-- An owner that `owner_of` reads off the account id is the address it spells. -/
theorem spells_of_ownerOf {address : Address} {accountId owner : String} (h : ownerOf accountId = some owner)
    (howner : owner.toList = address.lower) : Spells address.toCaller accountId := by
  unfold ownerOf at h
  dsimp only at h
  split_ifs at h with hvalid
  obtain ⟨-, hrest⟩ := hvalid
  rw [Option.some.injEq] at h
  rw [← h, String.toList_ofList] at howner
  have happly : asciiLowercase.apply accountId =
      address.lower ++ (accountId.toList.drop 42).map Char.toLower := by
    rw [← howner, ← List.map_append, List.take_append_drop]
    exact List.flatMap_pure_eq_map ..
  rw [spells_iff asciiLowercase, happly]
  rcases hrest with hnone | hsome
  · left
    rw [hnone, List.map_nil, List.append_nil]
  · right
    obtain ⟨rest, hrest⟩ := List.head?_eq_some_iff.1 hsome
    rw [hrest, List.map_cons]
    exact ⟨rest.map Char.toLower, by rw [List.append_assoc]; rfl⟩

theorem spells_of_list (h : Tables db) {address : Address} {a : ConnectedAccount} (ha : a ∈ list pg db address) :
    Spells address.toCaller a.account.accountId := by
  obtain ⟨c, hc, -, haccount, hlists⟩ := mem_list ha
  rw [← haccount]
  unfold lists at hlists
  split at hlists
  next hb =>
    rw [decide_eq_true_eq, Option.map_eq_some_iff] at hlists
    obtain ⟨owner, howner, hlower⟩ := hlists
    rw [hb] at hc
    exact spells_of_ownerOf (h.owners c hc owner howner) (hlower.trans (address.apply_text pg))
  next => exact isListed_iff.1 hlists

end Tables

section Serving

variable {S : Type} {s s' : Service S} {js pg : Lowercase} {sameAddress : S → S → Bool}
  {counted : Broker → List Worker.Connections.CollectedRow → ℕ × ℕ} {removed : Account}
  {P : (k : Kind) → String → Value k → Prop} {q : Query S} {input : Input S}

/-- What becomes of one cache. -/
inductive Works (js pg : Lowercase) (input : Input S) (s : Service S) (k : Kind) :
    Cache (Request k) (Value k) → Prop
  | get (request : Request k) : Works js pg input s k ((s.caches k).get input.now (keyOf js k request) request).2
  | answer (i : ℕ) :
    Works js pg input s k ((s.caches k).answer i (respond pg k input.failure input.printed s.db))
  | store (i : ℕ) : Works js pg input s k ((s.caches k).store PUBLIC_TTL_MS MAX_CACHED_KEYS input.now i)
  | finish (i : ℕ) : Works js pg input s k ((s.caches k).finish i)

/-- What a question can leave behind. -/
inductive Effect (js pg : Lowercase) (sameAddress : S → S → Bool)
    (counted : Broker → List Worker.Connections.CollectedRow → ℕ × ℕ) (q : Query S) (input : Input S)
    (s : Service S) : Service S → Prop
  | same : Effect js pg sameAddress counted q input s s
  | cache (k : Kind) {c : Cache (Request k) (Value k)} (h : Works js pg input s k c) :
    Effect js pg sameAddress counted q input s (s.set k c)
  | statement (statement : Worker.Connections.Query S) : Effect js pg sameAddress counted q input s
      { s with db := (Worker.Connections.serve pg sameAddress counted statement input.statement s.db).2 }
  | delete (a : Account) :
    Effect js pg sameAddress counted q input s { s with db := (s.db.delete a.broker a.id).2 }
  | forget (address : Address) (removed : Account) (h : q = .forget address removed) :
    Effect js pg sameAddress counted q input s { s with
      caches := fun k => (s.caches k).deleteWhere (forgets js address removed.accountId k)
      forgotten := removed :: s.forgotten }

theorem effect_serve (q : Query S) (input : Input S) (s : Service S) :
    Effect js pg sameAddress counted q input s (serve js pg sameAddress counted q input s).2 := by
  cases q with
  | privacyMode address =>
    unfold serve
    dsimp only
    split
    · exact .same
    · exact .same
  | get k request => exact .cache k (.get request)
  | await k i =>
    unfold serve
    dsimp only
    split
    · exact .same
    · exact .same
  | answer k i => exact .cache k (.answer i)
  | store k i => exact .cache k (.store i)
  | finish k i => exact .cache k (.finish i)
  | disconnect accountId =>
    unfold serve
    dsimp only
    split
    · exact .same
    · split
      next a _ => exact .delete a
      next => exact .same
  | forget address removed => exact .forget address removed rfl
  | statement statement => exact .statement statement

theorem Effect.tables (h : Effect js pg sameAddress counted q input s s') (htables : Tables s.db) :
    Tables s'.db := by
  cases h with
  | same => exact htables
  | cache k hworks => exact htables
  | statement statement => exact htables.statement statement _
  | delete a => exact htables.delete _ _
  | forget address removed hq => exact htables

theorem Effect.gone (h : Effect js pg sameAddress counted q input s s') (hgone : Gone removed s.db) :
    Gone removed s'.db := by
  cases h with
  | same => exact hgone
  | cache k hworks => exact hgone
  | statement statement => exact hgone.statement statement _
  | delete a => exact hgone.removes (delete_effect ..)
  | forget address removed hq => exact hgone

theorem Effect.forgotten (h : Effect js pg sameAddress counted q input s s') {a : Account}
    (ha : a ∈ s.forgotten) : a ∈ s'.forgotten := by
  cases h with
  | same => exact ha
  | cache k hworks => exact ha
  | statement statement => exact ha
  | delete a => exact ha
  | forget address removed hq => exact List.mem_cons_of_mem _ ha

theorem Effect.of_forgotten (h : Effect js pg sameAddress counted q input s s') {a : Account}
    (ha : a ∈ s'.forgotten) : a ∈ s.forgotten ∨ ∃ address, q = .forget address a := by
  cases h with
  | same => exact .inl ha
  | cache k hworks => exact .inl ha
  | statement statement => exact .inl ha
  | delete a => exact .inl ha
  | forget address removed hq =>
    rcases List.mem_cons.1 ha with rfl | ha
    · exact .inr ⟨address, hq⟩
    · exact .inl ha

theorem Works.evolves {k : Kind} {c : Cache (Request k) (Value k)} (h : Works js pg input s k c) :
    Evolves (respond pg k input.failure input.printed s.db) (s.caches k) c := by
  cases h with
  | get request => exact Cache.get_evolves
  | answer i => exact Cache.answer_evolves
  | store i => exact Cache.store_evolves
  | finish i => exact Cache.finish_evolves

theorem set_induct {motive : (k : Kind) → Cache (Request k) (Value k) → Prop} {k : Kind}
    {c : Cache (Request k) (Value k)} (hc : motive k c) (hold : ∀ k', motive k' (s.caches k')) (k' : Kind) :
    motive k' ((s.set k c).caches k') := by
  unfold Service.set
  dsimp only
  by_cases hk : k' = k
  · subst hk
    rw [Function.update_self]
    exact hc
  · rw [Function.update_of_ne hk]
    exact hold k'

theorem Effect.evolves (h : Effect js pg sameAddress counted q input s s') (k : Kind) :
    Evolves (respond pg k input.failure input.printed s.db) (s.caches k) (s'.caches k) := by
  have hsame : ∀ k, Evolves (respond pg k input.failure input.printed s.db) (s.caches k) (s.caches k) :=
    fun _ => evolves_of_prefix (List.prefix_refl _)
  cases h with
  | same => exact hsame k
  | cache k' hworks =>
    exact set_induct (motive := fun k c => Evolves (respond pg k input.failure input.printed s.db) (s.caches k) c)
      hworks.evolves hsame k
  | statement statement => exact hsame k
  | delete a => exact hsame k
  | forget address removed hq => exact Cache.deleteWhere_evolves

/-- Loads are asked for under their keys, and what a cache hands out of itself satisfies `P`. -/
def SoundCaches (js : Lowercase) (P : (k : Kind) → String → Value k → Prop) (s : Service S) : Prop :=
  ∀ k, SharedCache.Sound (fun key request => key = keyOf js k request) (P k) (s.caches k)

/-- What the worker answers satisfies `P`. -/
def AnswersMeet (js pg : Lowercase) (P : (k : Kind) → String → Value k → Prop) (db : Database S) : Prop :=
  ∀ k failure printed request v, respond pg k failure printed db request = .ok v → P k (keyOf js k request) v

theorem Works.sound {k : Kind} {c : Cache (Request k) (Value k)} (h : Works js pg input s k c)
    (hsound : SoundCaches js P s) (hanswers : AnswersMeet js pg P s.db) :
    SharedCache.Sound (fun key request => key = keyOf js k request) (P k) c := by
  cases h with
  | get request => exact (hsound k).get rfl
  | answer i =>
    refine (hsound k).answer fun key request v hkey hv => ?_
    rw [hkey]
    exact hanswers k _ _ request v hv
  | store i => exact (hsound k).store
  | finish i => exact (hsound k).finish

theorem Effect.sound (h : Effect js pg sameAddress counted q input s s') (hsound : SoundCaches js P s)
    (hanswers : AnswersMeet js pg P s.db) : SoundCaches js P s' := by
  cases h with
  | same => exact hsound
  | cache k hworks =>
    exact set_induct (motive := fun k c => SharedCache.Sound (fun key request => key = keyOf js k request) (P k) c)
      (hworks.sound hsound hanswers) hsound
  | statement statement => exact hsound
  | delete a => exact hsound
  | forget address removed hq => exact fun k => (hsound k).deleteWhere

/-- What the others do: the tables stay as `Ok` has them, the caches hand out what satisfies `P`, and a load that
brings such a value goes on bringing one. -/
structure Later (js : Lowercase) (Ok : Database S → Prop) (P : (k : Kind) → String → Value k → Prop)
    (s s' : Service S) : Prop where
  ok : Ok s'.db
  sound : SoundCaches js P s'
  brings : ∀ k key i, Brings (P k) (s.caches k) key i → Brings (P k) (s'.caches k) key i
  gone : ∀ a, Gone a s.db → Gone a s'.db
  forgotten : ∀ a ∈ s.forgotten, a ∈ s'.forgotten

variable {Ok : Database S → Prop} {Asks : Query S → Service S → Prop}

theorem lawful (hok : ∀ q input s s', Effect js pg sameAddress counted q input s s' → Ok s.db → Ok s'.db)
    (hanswers : ∀ db, Ok db → AnswersMeet js pg P db) :
    Lawful (serve js pg sameAddress counted) (Later js Ok P) Asks where
  trans _ _ _ h₁ h₂ := ⟨h₂.ok, h₂.sound, fun k key i h => h₂.brings k key i (h₁.brings k key i h),
    fun a h => h₂.gone a (h₁.gone a h), fun a h => h₂.forgotten a (h₁.forgotten a h)⟩
  refl_right _ _ h := ⟨h.ok, h.sound, fun _ _ _ h => h, fun _ h => h, fun _ h => h⟩
  serve q input s h _ := by
    have heffect : Effect js pg sameAddress counted q input s _ := effect_serve q input s
    have hnow := hanswers s.db h.ok
    refine ⟨hok _ _ _ _ heffect h.ok, heffect.sound h.sound hnow, fun k key i hbrings => ?_,
      fun a ha => heffect.gone ha, fun a ha => heffect.forgotten ha⟩
    refine hbrings.evolves (h.sound k) (fun key request v hkey hv => ?_) (heffect.evolves k)
    rw [hkey]
    exact hnow k _ _ request v hv

end Serving

section Reads

variable {S : Type} {s t : Service S} {js pg : Lowercase} {sameAddress : S → S → Bool}
  {counted : Broker → List Worker.Connections.CollectedRow → ℕ × ℕ} {accountOwners : String → Option String}
  {Ok : Database S → Prop} {P : (k : Kind) → String → Value k → Prop} {Asks : Query S → Service S → Prop}

abbrev NoLimits (_ : Query S) (_ : Input S) : Prop := True

theorem meets_ask {q : Query S} {p : Answered q → Service S → Prop}
    (hasks : ∀ t, Later js Ok P s t → Asks q t)
    (hpost : ∀ t input v, Later js Ok P s t → (serve js pg sameAddress counted q input t).1 = .ok v →
      ∀ u, Later js Ok P (serve js pg sameAddress counted q input t).2 u → p v u) :
    (ask q).run.Meets (serve js pg sameAddress counted) (Later js Ok P) Asks NoLimits (Succeeds p) s := by
  intro t ht
  refine ⟨hasks t ht, fun input _ u hu => ?_⟩
  cases hr : (serve js pg sameAddress counted q input t).1 with
  | ok v => exact hpost t input v ht hr u hu
  | error e => trivial

/-- A value that is as it should be, or a load that brings one. -/
def Started (P : (k : Kind) → String → Value k → Prop) (k : Kind) (r : Value k ⊕ ℕ) (s : Service S) : Prop :=
  ∃ key, (∀ v, r = .inl v → P k key v) ∧ ∀ i, r = .inr i → Brings (P k) (s.caches k) key i

theorem Started.later {k : Kind} {r : Value k ⊕ ℕ} (h : Started P k r s) (hlater : Later js Ok P s t) :
    Started P k r t := by
  obtain ⟨key, hvalue, hload⟩ := h
  exact ⟨key, hvalue, fun i hi => hlater.brings k key i (hload i hi)⟩

variable (hlaw : Lawful (serve js pg sameAddress counted) (Later js Ok P) Asks)
  (hasks : ∀ q s, (∀ address removed, q ≠ .forget address removed) → Asks q s)

include hasks in
theorem get_meets (k : Kind) (request : Request k) :
    (ask (.get k request)).run.Meets (serve js pg sameAddress counted) (Later js Ok P) Asks NoLimits
      (Succeeds (Started P k)) s := by
  refine meets_ask (fun t _ => hasks _ t nofun) fun t input v ht hv u hu => ?_
  obtain ⟨hvalue, hload⟩ := (ht.sound k).of_get input.now (keyOf js k request) request
  cases hv
  refine ⟨keyOf js k request, hvalue, fun i hi => hu.brings k _ i ?_⟩
  have hcache : (serve js pg sameAddress counted (.get k request) input t).2.caches k =
      ((t.caches k).get input.now (keyOf js k request) request).2 := Function.update_self ..
  rw [hcache]
  exact hload i hi

include hasks in
theorem wait_meets {k : Kind} {r : Value k ⊕ ℕ} (h : Started P k r s) :
    (wait k r).run.Meets (serve js pg sameAddress counted) (Later js Ok P) Asks NoLimits
      (Succeeds fun v _ => ∃ key, P k key v) s := by
  obtain ⟨key, hvalue, hload⟩ := h
  cases r with
  | inl v => exact meets_pure fun _ _ => ⟨key, hvalue v rfl⟩
  | inr i =>
    refine meets_ask (fun t _ => hasks _ t nofun) fun t input v ht hv u _ => ⟨key, ?_⟩
    have hbrings := ht.brings k key i (hload i rfl)
    unfold serve at hv
    dsimp only at hv
    split at hv
    next r houtcome =>
      dsimp only at hv
      rw [hv] at houtcome
      exact hbrings.outcome houtcome
    next => cases hv

include hlaw hasks in
theorem loadAll_meets (k : Kind) (requests : List (Request k)) :
    (loadAll k requests).run.Meets (serve js pg sameAddress counted) (Later js Ok P) Asks NoLimits
      (Succeeds fun vs _ => ∀ v ∈ vs, ∃ key, P k key v) s := by
  refine meets_bind hlaw (meets_inTurn hlaw (fun _ _ _ h hlater => h.later hlater) requests s
    fun request _ t _ => get_meets hasks k request) fun started t _ hstarted => ?_
  exact meets_inTurn hlaw (fun _ _ _ h _ => h) started t fun r hr u hu => wait_meets hasks ((hstarted r hr).later hu)

include hlaw hasks in
theorem accounts_meets (address : Address) :
    (accounts address).run.Meets (serve js pg sameAddress counted) (Later js Ok P) Asks NoLimits
      (Succeeds fun list _ => ∃ key, P .accounts key list) s :=
  meets_bind hlaw (get_meets hasks .accounts address) fun _ _ _ h => wait_meets hasks h

/-- All that a read is computed from satisfies `P`. -/
structure Fit (P : (k : Kind) → String → Value k → Prop) (sources : Sources) : Prop where
  accounts : ∃ key, P .accounts key sources.accounts
  performances : ∀ v ∈ sources.performances, ∃ key, P .performance key v
  series : ∀ v ∈ sources.series, ∃ key, P .series key v

include hlaw hasks in
theorem combinedTrack_meets (address : Address) :
    (combinedTrack address).run.Meets (serve js pg sameAddress counted) (Later js Ok P) Asks NoLimits
      (Succeeds fun found _ => ∀ sources, found = some sources → Fit P sources) s := by
  refine meets_bind hlaw (accounts_meets hlaw hasks address) fun list t _ hlist => ?_
  split_ifs
  · exact meets_pure fun _ _ _ h => by cases h
  · refine meets_bind hlaw (loadAll_meets hlaw hasks .performance _) fun performances t _ hperformances => ?_
    refine meets_bind hlaw (loadAll_meets hlaw hasks .series _) fun series t _ hseries => ?_
    refine meets_pure fun _ _ sources hsources => ?_
    cases hsources
    exact ⟨hlist, hperformances, hseries⟩

include hlaw hasks in
theorem tracks_meets (address : Address) :
    (tracks address).run.Meets (serve js pg sameAddress counted) (Later js Ok P) Asks NoLimits
      (Succeeds fun found _ => ∀ sources, found = some sources → Fit P sources) s := by
  refine meets_bind hlaw (meets_ask (p := fun _ _ => True) (fun t _ => hasks _ t nofun)
    fun _ _ _ _ _ _ _ => trivial) fun hidden t _ _ => ?_
  split_ifs
  · exact meets_pure fun _ _ _ h => by cases h
  · exact combinedTrack_meets hlaw hasks address

include hlaw hasks in
theorem publicSeries_meets (address : Address) (range : String) :
    (publicSeries address range).run.Meets (serve js pg sameAddress counted) (Later js Ok P) Asks NoLimits
      (Succeeds fun found _ => ∀ sources, found = some sources → Fit P sources) s := by
  unfold publicSeries
  by_cases hrange : range ∉ SERIES_RANGES
  · rw [if_pos hrange]
    exact meets_pure fun _ _ _ h => by cases h
  · rw [if_neg hrange]
    refine meets_bind hlaw (meets_ask (p := fun _ _ => True) (fun t _ => hasks _ t nofun)
      fun _ _ _ _ _ _ _ => trivial) fun hidden t _ _ => ?_
    split_ifs
    · exact meets_pure fun _ _ _ h => by cases h
    · refine meets_bind hlaw (accounts_meets hlaw hasks address) fun list t _ hlist => ?_
      split_ifs
      · exact meets_pure fun _ _ _ h => by cases h
      · refine meets_bind hlaw (loadAll_meets hlaw hasks .series _) fun series t _ hseries => ?_
        refine meets_pure fun _ _ sources hsources => ?_
        cases hsources
        exact ⟨hlist, fun v hv => (by cases hv), hseries⟩

theorem gone_of_disconnect (htables : Tables s.db) {accountId : String} {input : Input S} {removed : Account}
    (h : (serve js pg sameAddress counted (.disconnect accountId) input s).1 = .ok (some removed)) :
    Gone removed (serve js pg sameAddress counted (.disconnect accountId) input s).2.db := by
  unfold serve at h ⊢
  dsimp only at h ⊢
  split at h
  next => cases h
  next =>
    split at h
    next a ha =>
      cases h
      exact gone_delete htables.sound (rowOf_eq ha).2
    next => cases h

variable (htables : ∀ db, Ok db → Tables db)
  (hforget : ∀ s address removed, Gone removed s.db → Asks (.forget address removed) s)

include hlaw hasks htables hforget in
theorem remove_meets (session : Address) (accountId : String) :
    (remove js accountOwners session accountId).run.Meets (serve js pg sameAddress counted) (Later js Ok P) Asks
      NoLimits (Succeeds fun removed t => removed ∈ t.forgotten) s := by
  unfold remove
  split_ifs
  · refine meets_bind hlaw (meets_ask (p := fun found t => ∀ a, found = some a → Gone a t.db)
      (fun t _ => hasks _ t nofun) fun t input v ht hv u hu a ha => ?_) fun found t _ hfound => ?_
    · rw [ha] at hv
      exact hu.gone a (gone_of_disconnect (htables _ ht.ok) hv)
    · cases found with
      | none => exact fun _ _ => trivial
      | some removed =>
        have hgone := hfound removed rfl
        refine meets_bind hlaw (meets_ask (p := fun _ t => removed ∈ t.forgotten)
          (fun t ht => hforget t session removed (ht.gone removed hgone)) fun t input v _ _ u hu => ?_)
          fun _ t _ hmem => ?_
        · exact hu.forgotten removed (List.mem_cons_self ..)
        · exact meets_pure fun u hu => hu.forgotten removed hmem
  · exact fun _ _ => trivial

include hlaw hasks in
theorem background_meets (k : Kind) (i : ℕ) :
    (background k i).run.Meets (serve js pg sameAddress counted) (Later js Ok P) Asks NoLimits
      (Succeeds fun (_ : Unit) _ => True) s := by
  have hstep : ∀ q : Query S, (∀ address removed, q ≠ .forget address removed) → ∀ s,
      (ask q).run.Meets (serve js pg sameAddress counted) (Later js Ok P) Asks NoLimits
        (Succeeds fun _ _ => True) s :=
    fun q hq s => meets_ask (fun t _ => hasks _ t hq) fun _ _ _ _ _ _ _ => trivial
  refine meets_bind hlaw (hstep (.answer k i) nofun s) fun _ t _ _ => ?_
  exact meets_bind hlaw (hstep (.store k i) nofun t) fun _ u _ _ => hstep (.finish k i) nofun u

/-- What a read gives is as it should be, and a removal that is reported has been forgotten. -/
def Outcome (P : (k : Kind) → String → Value k → Prop) (answer : Answer) (s : Service S) : Prop :=
  (∀ sources, answer = .read (some sources) → Fit P sources) ∧
    ∀ removed, answer = .removed removed → removed ∈ s.forgotten

include hlaw hasks htables hforget in
theorem program_meets (c : Call S) :
    (program js accountOwners c).Meets (serve js pg sameAddress counted) (Later js Ok P) Asks NoLimits
      (Succeeds (Outcome P)) s := by
  have hread : ∀ {found : Option Sources} {t : Service S}, (∀ sources, found = some sources → Fit P sources) →
      Outcome P (.read found) t := by
    intro found t hfound
    refine ⟨fun sources hsources => hfound sources ?_, nofun⟩
    cases hsources
    rfl
  cases c with
  | tracks address =>
    exact meets_bind hlaw (tracks_meets hlaw hasks address) fun _ _ _ h => meets_pure fun _ _ => hread h
  | combinedTrack address =>
    exact meets_bind hlaw (combinedTrack_meets hlaw hasks address) fun _ _ _ h => meets_pure fun _ _ => hread h
  | publicSeries address range =>
    exact meets_bind hlaw (publicSeries_meets hlaw hasks address range) fun _ _ _ h =>
      meets_pure fun _ _ => hread h
  | remove session accountId =>
    refine meets_bind hlaw (remove_meets hlaw hasks htables hforget session accountId) fun removed t _ hmem => ?_
    refine meets_pure fun u hu => ⟨nofun, fun removed' heq => ?_⟩
    cases heq
    exact hu.forgotten removed hmem
  | load k i =>
    exact meets_bind hlaw (background_meets hlaw hasks k i) fun _ _ _ _ => meets_pure fun _ _ => ⟨nofun, nofun⟩
  | statement q =>
    exact meets_bind hlaw (meets_ask (p := fun _ _ => True) (fun t _ => hasks _ t nofun)
      fun _ _ _ _ _ _ _ => trivial) fun _ _ _ _ => meets_pure fun _ _ => ⟨nofun, nofun⟩

end Reads

section Runs

variable {S : Type} {js pg : Lowercase} {sameAddress : S → S → Bool}
  {counted : Broker → List Worker.Connections.CollectedRow → ℕ × ℕ} {accountOwners : String → Option String}
  {w : Worlds S} {m : Move (Call S) (Input S)}

/-- Either nothing happens, or one question is served or one process started. -/
theorem goOn_eq : goOn js pg sameAddress counted accountOwners w m = w ∨
    goOn js pg sameAddress counted accountOwners w m =
      w.step (program js accountOwners) (serve js pg sameAddress counted) m := by
  unfold goOn
  split
  · exact .inr rfl
  · split
    · split_ifs
      · exact .inl rfl
      · exact .inr rfl
    · exact .inl rfl

/-- What is undertaken is kept, if every process undertakes it as it starts. -/
theorem undertakes_goOn {R : Service S → Service S → Prop} {Asks : Query S → Service S → Prop}
    {post : ℕ → Call S → Except String Answer → Service S → Prop}
    (hlaw : Lawful (serve js pg sameAddress counted) R Asks)
    (hstart : ∀ i c s, (program js accountOwners c).Meets (serve js pg sameAddress counted) R Asks NoLimits
      (post i c) s)
    (h : Undertakes (serve js pg sameAddress counted) R (fun _ => Asks) (fun _ => NoLimits) post w) :
    Undertakes (serve js pg sameAddress counted) R (fun _ => Asks) (fun _ => NoLimits) post
      (goOn js pg sameAddress counted accountOwners w m) := by
  rcases @goOn_eq S js pg sameAddress counted accountOwners w m with hsame | hstep
  · rw [hsame]
    exact h
  · rw [hstep]
    exact (h.step (fun _ => hlaw) m (fun _ _ _ _ _ _ _ => trivial) fun i c _ _ => hstart i c _).1

theorem worldAt_append (before after : List (Move (Call S) (Input S))) :
    worldAt js pg sameAddress counted accountOwners (before ++ after) =
      after.foldl (goOn js pg sameAddress counted accountOwners)
        (worldAt js pg sameAddress counted accountOwners before) :=
  List.foldl_append ..

/-- A value stands under a key of the address or the account that it is about. -/
def Placed (js : Lowercase) : (k : Kind) → String → Value k → Prop
  | .accounts, key, list => ∀ a ∈ list, ∃ address : Address,
      Spells address.toCaller a.account.accountId ∧ key = keyOf js .accounts address
  | .performance, key, figures => key = keyOf js .performance figures.account.accountId
  | .series, key, figures => ∃ range, key = keyOf js .series (figures.account.accountId, range)

theorem figuresOf_eq {db : Database S} {accountId printed : String} {figures : Figures}
    (h : figuresOf db accountId printed = .ok figures) : rowOf db accountId = some figures.account := by
  unfold figuresOf at h
  split at h
  next a ha =>
    cases h
    exact ha
  next => cases h

theorem answers_placed {db : Database S} (h : Tables db) : AnswersMeet js pg (Placed js) db := by
  intro k failure printed request v hv
  unfold respond at hv
  cases failure with
  | some e => cases hv
  | none =>
    cases k with
    | accounts =>
      cases hv
      intro a ha
      exact ⟨request, spells_of_list h (List.mem_of_mem_filter ha), rfl⟩
    | performance =>
      change keyOf js .performance request = keyOf js .performance v.account.accountId
      rw [(rowOf_eq (figuresOf_eq hv)).1]
    | series =>
      refine ⟨request.2, ?_⟩
      rw [(rowOf_eq (figuresOf_eq hv)).1]

/-- The row is not in what the caches hand out. -/
def Unseen (removed : Account) (k : Kind) (_ : String) (v : Value k) : Prop := removed ∉ rowsOf k v

theorem answers_unseen {db : Database S} {removed : Account} (h : Gone removed db) :
    AnswersMeet js pg (Unseen removed) db := by
  intro k failure printed request v hv hseen
  unfold respond at hv
  have habsent : ∀ accountId, (removed.id, accountId) ∉ db.keys removed.broker := fun accountId hin =>
    h.absent (List.mem_map_of_mem hin)
  have hfigures : ∀ {accountId figures}, figuresOf db accountId printed = .ok figures →
      figures.account ≠ removed := by
    intro accountId figures hf heq
    have hkey := (rowOf_eq (figuresOf_eq hf)).2
    rw [heq] at hkey
    exact habsent _ hkey
  cases failure with
  | some e => cases hv
  | none =>
    cases k with
    | accounts =>
      cases hv
      obtain ⟨a, ha, heq⟩ := List.mem_map.1 hseen
      obtain ⟨c, hc, hid, haccount, -⟩ := mem_list (List.mem_of_mem_filter ha)
      rw [heq] at hc hid
      refine habsent c.accountId (List.mem_map.2 ⟨c, hc, ?_⟩)
      rw [hid]
    | performance => exact hfigures hv (List.mem_singleton.1 hseen).symm
    | series => exact hfigures hv (List.mem_singleton.1 hseen).symm

/-- `forgetAccount` is called for rows that are gone. -/
def AsksForGone : Query S → Service S → Prop
  | .forget _ removed, s => Gone removed s.db
  | _, _ => True

theorem lawful_placed (Asks : Query S → Service S → Prop) :
    Lawful (serve js pg sameAddress counted) (Later js Tables (Placed js)) Asks :=
  lawful (fun _ _ _ _ heffect h => heffect.tables h) fun _ h => answers_placed h

/-- What holds in every run. -/
def Orderly (js pg : Lowercase) (sameAddress : S → S → Bool)
    (counted : Broker → List Worker.Connections.CollectedRow → ℕ × ℕ) (w : Worlds S) : Prop :=
  Undertakes (serve js pg sameAddress counted) (Later js Tables (Placed js)) (fun _ => AsksForGone)
    (fun _ => NoLimits) (fun _ _ => Succeeds (Outcome (Placed js))) w

theorem orderly_goOn (h : Orderly js pg sameAddress counted w) :
    Orderly js pg sameAddress counted (goOn js pg sameAddress counted accountOwners w m) := by
  have hasks : ∀ (q : Query S) s, (∀ address removed, q ≠ .forget address removed) → AsksForGone q s := by
    intro q s hq
    unfold AsksForGone
    split
    next address removed => exact absurd rfl (hq address removed)
    next => trivial
  exact undertakes_goOn (lawful_placed _) (fun i c s => program_meets (lawful_placed _) hasks (fun _ h => h)
    (fun _ _ _ h => h) c) h

theorem orderly_init : Orderly js pg sameAddress counted (⟨.init S, fun _ => none⟩ : Worlds S) := by
  refine ⟨⟨⟨Worker.Connections.sound_init, ?_⟩, fun k => sound_empty, fun _ _ _ h => h, fun _ h => h,
    fun _ h => h⟩, fun i c p hi => by cases hi⟩
  intro c hc
  cases hc

theorem keyOf_eq_of_spells {a b : Address} {accountId : String} (ha : Spells a.toCaller accountId)
    (hb : Spells b.toCaller accountId) : keyOf js .accounts a = keyOf js .accounts b := by
  have hlower : a.lower = b.lower := Spells.unique js rfl ha hb
  unfold keyOf
  dsimp only
  rw [a.apply_text, b.apply_text, hlower]

/-- Whatever stands in a cache and is about the row is dropped with it. -/
theorem unseen_of_kept {address : Address} {removed : Account} (hspells : Spells address.toCaller removed.accountId)
    {k : Kind} {key : String} {v : Value k} (hkept : forgets js address removed.accountId k key = false)
    (hplaced : Placed js k key v) : Unseen removed k key v := by
  intro hseen
  rw [← Bool.not_eq_true] at hkept
  refine hkept ?_
  cases k with
  | accounts =>
    obtain ⟨a, ha, rfl⟩ := List.mem_map.1 hseen
    obtain ⟨other, hother, rfl⟩ := hplaced a ha
    exact decide_eq_true (keyOf_eq_of_spells hother hspells)
  | performance =>
    obtain rfl := List.mem_singleton.1 hseen
    exact decide_eq_true hplaced
  | series =>
    obtain rfl := List.mem_singleton.1 hseen
    obtain ⟨range, rfl⟩ := hplaced
    unfold forgets keyOf
    dsimp only
    rw [List.isPrefixOf_iff_prefix, String.toList_ofList]
    exact ⟨range.toList, by rw [List.append_assoc, List.singleton_append]⟩

/-- Nothing that is forgotten is seen again. -/
def ForgottenUnseen (js : Lowercase) (s : Service S) : Prop :=
  ∀ removed ∈ s.forgotten, Gone removed s.db ∧ SoundCaches js (Unseen removed) s

/-- So it stays, if what is forgotten is forgotten undisturbed. -/
theorem forgottenUnseen_goOn (horderly : Orderly js pg sameAddress counted w) (h : ForgottenUnseen js w.shared)
    (hquiet : quietStep w m = true) :
    ForgottenUnseen js (goOn js pg sameAddress counted accountOwners w m).shared := by
  rcases @goOn_eq S js pg sameAddress counted accountOwners w m with hsame | hstep
  · rw [hsame]
    exact h
  · rw [hstep]
    cases m with
    | start i c =>
      unfold Interleaving.World.step
      dsimp only
      split
      · exact h
      · exact h
    | serve i input =>
      unfold Interleaving.World.step
      unfold quietStep at hquiet
      dsimp only at hquiet ⊢
      split
      next c q next hi =>
        rw [hi] at hquiet
        have heffect : Effect js pg sameAddress counted q input w.shared _ := effect_serve q input w.shared
        intro removed hremoved
        rcases heffect.of_forgotten hremoved with hold | ⟨address, rfl⟩
        · obtain ⟨hgone, hsound⟩ := h removed hold
          exact ⟨heffect.gone hgone, heffect.sound hsound (answers_unseen hgone)⟩
        · have hgone : Gone removed w.shared.db := horderly.asks hi
          obtain ⟨hspells, hloads⟩ := of_decide_eq_true hquiet
          refine ⟨hgone, fun k => (horderly.shared.sound k).forget
            (fun key v hkept hplaced => unseen_of_kept hspells hkept hplaced) fun j l hl hover v hv => ?_⟩
          exact hloads k l (List.mem_of_getElem? hl) hover v hv
      next => exact h

theorem orderly_worldAt {moves : List (Move (Call S) (Input S))}
    (hquiet : Quiet js pg sameAddress counted accountOwners moves) :
    Orderly js pg sameAddress counted (worldAt js pg sameAddress counted accountOwners moves) ∧
      ForgottenUnseen js (worldAt js pg sameAddress counted accountOwners moves).shared := by
  have hstep : ∀ w m, Orderly js pg sameAddress counted w ∧ ForgottenUnseen js w.shared → quietStep w m = true →
      Orderly js pg sameAddress counted (goOn js pg sameAddress counted accountOwners w m) ∧
        ForgottenUnseen js (goOn js pg sameAddress counted accountOwners w m).shared :=
    fun w m h hm => ⟨orderly_goOn h.1, forgottenUnseen_goOn h.1 h.2 hm⟩
  refine hquiet.invariant hstep ⟨orderly_init, fun removed hremoved => ?_⟩
  cases hremoved

theorem Fit.unseen {removed : Account} {sources : Sources} (h : Fit (Unseen removed) sources) :
    removed ∉ sources.rows := by
  obtain ⟨⟨_, haccounts⟩, hperformances, hseries⟩ := h
  have hfigures : ∀ figures : List Figures, (∀ v ∈ figures, removed ≠ v.account) →
      removed ∉ figures.map (·.account) := by
    intro figures hne hmem
    obtain ⟨v, hv, heq⟩ := List.mem_map.1 hmem
    exact hne v hv heq.symm
  unfold Sources.rows
  rw [List.mem_append, List.mem_append, not_or, not_or]
  refine ⟨⟨haccounts, hfigures _ fun v hv heq => ?_⟩, hfigures _ fun v hv heq => ?_⟩
  · obtain ⟨_, hunseen⟩ := hperformances v hv
    exact hunseen (List.mem_singleton.2 heq)
  · obtain ⟨_, hunseen⟩ := hseries v hv
    exact hunseen (List.mem_singleton.2 heq)

/-- A read that starts after a removal has answered is computed without the row that was removed: without it
among the accounts, and without figures that were computed from it. So it is in every run in which no load that
was answered with the row is under way when the row is forgotten. -/
theorem removed_account_not_public (js pg : Lowercase) (sameAddress : S → S → Bool)
    (counted : Broker → List Worker.Connections.CollectedRow → ℕ × ℕ) (accountOwners : String → Option String)
    (before after : List (Move (Call S) (Input S)))
    (hquiet : Quiet js pg sameAddress counted accountOwners (before ++ after)) {d i : ℕ} {session : Address}
    {accountId : String} {removed : Account} {c : Call S} {sources : Sources}
    (hremoved : (worldAt js pg sameAddress counted accountOwners before).processes d =
      some (.remove session accountId, .done (.ok (.removed removed))))
    (hnew : (worldAt js pg sameAddress counted accountOwners before).processes i = none)
    (hread : (worldAt js pg sameAddress counted accountOwners (before ++ after)).processes i =
      some (c, .done (.ok (.read (some sources))))) : removed ∉ sources.rows := by
  obtain ⟨horderly, hforgotten⟩ := orderly_worldAt (Runs.along_append.1 hquiet).1
  have houtcome : Outcome (Placed js) (.removed removed) _ := horderly.done hremoved
  obtain ⟨hgone, hsound⟩ := hforgotten removed (houtcome.2 removed rfl)
  have hlaw : Lawful (serve js pg sameAddress counted)
      (Later js (fun db => Tables db ∧ Gone removed db) (Unseen removed)) fun _ _ => True :=
    lawful (fun _ _ _ _ heffect h => ⟨heffect.tables h.1, heffect.gone h.2⟩) fun _ h => answers_unseen h.2
  -- who was there before may have seen anything
  have hlater : Undertakes (serve js pg sameAddress counted)
      (Later js (fun db => Tables db ∧ Gone removed db) (Unseen removed)) (fun _ _ _ => True) (fun _ => NoLimits)
      (fun i _ a s => (worldAt js pg sameAddress counted accountOwners before).processes i = none →
        Succeeds (Outcome (Unseen removed)) a s)
      (after.foldl (goOn js pg sameAddress counted accountOwners)
        (worldAt js pg sameAddress counted accountOwners before)) := by
    refine (Runs.along_append.1 hquiet).2.invariant (fun w m h _ => undertakes_goOn hlaw (fun i c s => ?_) h)
      ⟨?_, fun i c p hi => ?_⟩
    · exact (program_meets hlaw (fun _ _ _ => trivial) (fun _ h => h.1) (fun _ _ _ _ => trivial) c).conseq
        fun _ _ h _ => h
    · exact ⟨⟨horderly.shared.ok, hgone⟩, hsound, fun _ _ _ h => h, fun _ h => h, fun _ h => h⟩
    · exact (meets_trivial p _).conseq fun _ _ _ hnone => by cases hi.symm.trans hnone
  rw [worldAt_append] at hread
  have hfit : Outcome (Unseen removed) (.read (some sources)) _ := hlater.done hread hnew
  exact (hfit.1 sources rfl).unseen

end Runs

section Example

abbrev ExampleMove : Type := Move (Call String) (Input String)

def noCounts (_ : Broker) (_ : List Worker.Connections.CollectedRow) : ℕ × ℕ := (0, 0)

def exampleWorld (moves : List ExampleMove) : Worlds String :=
  worldAt asciiLowercase asciiLowercase (fun _ _ => false) noCounts noEntries moves

def served (i now n : ℕ) : List ExampleMove :=
  List.replicate n (.serve i ⟨now, none, false, "points", ⟨false, now, "sealed", []⟩⟩)

def firstId : String := "0x00000000000000000000000000000000000000ab"

def secondId : String := "0x00000000000000000000000000000000000000AB_second"

def connectMoves (i : ℕ) (accountId : String) : List ExampleMove :=
  .start i (.statement (.insert .binance accountId "sealed" [] none)) :: served i 0 1

def firstRow : Account := ⟨.binance, 0, firstId⟩

/-- Two accounts are connected and read, and one is removed. -/
def removalMoves : List ExampleMove :=
  connectMoves 0 firstId ++ connectMoves 1 secondId ++
    .start 2 (.publicSeries Ownership.exampleAddress "30d") :: served 2 0 2 ++
    .start 3 (.load .accounts 0) :: served 3 0 3 ++ served 2 0 3 ++
    .start 4 (.load .series 0) :: served 4 0 3 ++ .start 5 (.load .series 1) :: served 5 0 3 ++ served 2 0 2 ++
    .start 6 (.remove Ownership.exampleAddress firstId) :: served 6 0 2

/-- A read after it. -/
def readMoves : List ExampleMove :=
  .start 7 (.publicSeries Ownership.exampleAddress "30d") :: served 7 0 2 ++
    .start 8 (.load .accounts 1) :: served 8 0 3 ++ served 7 0 3

def secondRow : Account := ⟨.binance, 1, secondId⟩

/-- The read after it shows the other account. -/
theorem removed_account_not_public_example :
    (exampleWorld (removalMoves ++ readMoves)).processes 7 = some (.publicSeries Ownership.exampleAddress "30d",
        .done (.ok (.read (some ⟨[⟨secondRow, none, 0, "active"⟩], [], [⟨secondRow, "points"⟩]⟩)))) ∧
      firstRow ∉ (⟨[⟨secondRow, none, 0, "active"⟩], [], [⟨secondRow, "points"⟩]⟩ : Sources).rows := by
  have hquiet : Quiet asciiLowercase asciiLowercase (fun _ _ => false) noCounts noEntries
      (removalMoves ++ readMoves) := by
    unfold Quiet
    decide +kernel
  have hremoved : (exampleWorld removalMoves).processes 6 =
      some (.remove Ownership.exampleAddress firstId, .done (.ok (.removed firstRow))) := rfl
  have hread : (exampleWorld (removalMoves ++ readMoves)).processes 7 =
      some (.publicSeries Ownership.exampleAddress "30d",
        .done (.ok (.read (some ⟨[⟨secondRow, none, 0, "active"⟩], [], [⟨secondRow, "points"⟩]⟩)))) := rfl
  exact ⟨hread, removed_account_not_public asciiLowercase asciiLowercase (fun _ _ => false) noCounts noEntries
    removalMoves readMoves hquiet hremoved rfl hread⟩

/-- The list of accounts is a minute old: a read that began just before still computes the account's series, and
one that began just after has had the list read again, when the account is removed. -/
def lateRemovalMoves : List ExampleMove :=
  connectMoves 0 firstId ++ .start 1 (.publicSeries Ownership.exampleAddress "24h") :: served 1 0 2 ++
    .start 2 (.load .accounts 0) :: served 2 0 3 ++ served 1 0 2 ++
    .start 3 (.publicSeries Ownership.exampleAddress "30d") :: served 3 59900 3 ++
    .start 4 (.load .series 1) :: served 4 60050 1 ++
    .start 5 (.publicSeries Ownership.exampleAddress "30d") :: served 5 60100 2 ++
    .start 6 (.load .accounts 1) :: served 6 60150 1 ++
    .start 7 (.remove Ownership.exampleAddress firstId) :: served 7 60200 2

/-- A read starts, the two loads are over, and the read goes on. -/
def lateReadMoves : List ExampleMove :=
  .start 8 (.publicSeries Ownership.exampleAddress "30d") :: served 8 60300 2 ++ served 4 60400 2 ++
    served 6 60500 2 ++ served 8 60600 2

/-- The account was removed and forgotten before the read began, and the read is of it alone. -/
theorem removed_account_shown_again :
    (exampleWorld lateRemovalMoves).processes 7 =
        some (.remove Ownership.exampleAddress firstId, .done (.ok (.removed firstRow))) ∧
      (exampleWorld lateRemovalMoves).processes 8 = none ∧
      (exampleWorld (lateRemovalMoves ++ lateReadMoves)).processes 8 =
        some (.publicSeries Ownership.exampleAddress "30d",
          .done (.ok (.read (some ⟨[⟨firstRow, none, 0, "active"⟩], [], [⟨firstRow, "points"⟩]⟩)))) :=
  ⟨rfl, rfl, rfl⟩

end Example

end Linvesther.Api.PublicProfile
