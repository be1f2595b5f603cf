import Linvesther.Worker.Connections

/-! The commands of the worker that connect, name, sync, remove and list accounts. Each looks an account id up
in one table after the other; they do not all take the same order. -/

namespace Linvesther.Worker.Connections

open Interleaving Api.Ownership

section Commands

variable {S : Type}

abbrev CommandM (S : Type) := ExceptT String (Process (Query S) Reply)

def ask (q : Query S) : CommandM S (Answered q) := ExceptT.mk (.ask q .done)

structure ConnectionSummary where
  connected : Bool
  status : Option String
  lastSyncedAt : Option ℕ
  tradeCount : ℕ
  flowCount : ℕ
deriving DecidableEq

inductive Answer where
  | connected (id : ℕ) (counts : ℕ × ℕ)
  | renamed (label : String)
  | synced (counts : ℕ × ℕ)
  | disconnected (removed : Bool) (broker : String)
  | status (summary : ConnectionSummary)
  | accounts (accounts : List OwnedConnection)
deriving DecidableEq

structure ConnectRequest where
  accountId : String
  exchange : Option String
  address : String
  label : Option String
  symbols : List String

inductive Command where
  | connect (request : ConnectRequest)
  | rename (accountId label : String)
  | sync (accountId : String)
  | disconnect (accountId : String)
  | status (accountId : String)
  | list (ownerAddress : String)

/-- `White_Space` of Unicode, which `str::trim` takes off. -/
def isWhiteSpace (c : Char) : Bool :=
  (9 ≤ c.toNat && c.toNat ≤ 13) || (0x2000 ≤ c.toNat && c.toNat ≤ 0x200A) ||
    c.toNat ∈ [0x20, 0x85, 0xA0, 0x1680, 0x2028, 0x2029, 0x202F, 0x205F, 0x3000]

def trim (text : String) : String :=
  String.ofList ((text.toList.dropWhile isWhiteSpace).reverse.dropWhile isWhiteSpace).reverse

def isAddress (text : String) : Bool :=
  text.length = 42 && text.toList.take 2 = ['0', 'x'] && (text.toList.drop 2).all isHexDigit

/-- Any exchange that has no branch of its own is taken for Binance. -/
def brokerOf (exchange : Option String) : Broker :=
  if exchange = some "ibkr" then .ibkr
  else if exchange = some "wallet" then .wallet
  else if exchange = some "kraken" then .kraken
  else if exchange = some "coinbase" then .coinbase
  else .binance

def resolveIn (accountId : String) : List Broker → CommandM S (Broker × Connection S)
  | [] => throw ("no connection for account " ++ accountId)
  | b :: rest => do
    match ← ask (.find b accountId) with
    | some c => pure (b, c)
    | none => resolveIn accountId rest

def resolveOrder : List Broker := [.binance, .coinbase, .ibkr, .kraken, .wallet]

def resolve (accountId : String) : CommandM S (Broker × Connection S) := resolveIn accountId resolveOrder

def storeAll (b : Broker) (id : ℕ) : List (String × String) → CommandM S Unit
  | [] => pure ()
  | row :: rest => do
    ask (.store ⟨b, id, row.1, row.2⟩)
    storeAll b id rest

/-- What every broker's sync comes to: what is read outside is stored for the connection. -/
def syncConnection (b : Broker) (id : ℕ) : CommandM S Unit := do
  let fetched ← ask (.fetch b id)
  storeAll b id fetched
  ask (.markSynced b id)

def labelled (b : Broker) (id : ℕ) : Option String → CommandM S Unit
  | some label => ask (.setLabel b id label)
  | none => pure ()

def findAgain (b : Broker) (accountId : String) : CommandM S (Connection S) := do
  match ← ask (.find b accountId) with
  | some c => pure c
  | none => throw "connection vanished"

/-- A wallet that could not be read is not kept, unless it was there before. -/
def connectWallet (request : ConnectRequest) (label : Option String) : CommandM S Answer := do
  if isAddress (String.ofList ((trim request.address).toList.map Char.toLower)) then
    let secrets ← ask (.openClient .wallet)
    let existing ← ask (.find .wallet request.accountId)
    let id ← ask (.insert .wallet request.accountId secrets [] label)
    let connection ← findAgain .wallet request.accountId
    tryCatch (syncConnection .wallet connection.id) fun error => do
      if existing.isNone then
        tryCatch (discard (ask (.delete .wallet id))) fun _ => pure ()
      throw error
    let counts ← ask (.counts .wallet connection.id)
    pure (.connected id counts)
  else throw "that is not a wallet address"

def connectBinance (request : ConnectRequest) (label : Option String) : CommandM S Answer := do
  let secrets ← ask (.openClient .binance)
  let id ← ask (.insert .binance request.accountId secrets request.symbols none)
  labelled .binance id label
  syncConnection .binance id
  let counts ← ask (.counts .binance id)
  pure (.connected id counts)

/-- The branches of Interactive Brokers, Kraken and Coinbase. -/
def connectBroker (b : Broker) (request : ConnectRequest) (label : Option String) : CommandM S Answer := do
  let secrets ← ask (.openClient b)
  let id ← ask (.insert b request.accountId secrets [] none)
  labelled b id label
  let connection ← findAgain b request.accountId
  syncConnection b connection.id
  let counts ← ask (.counts b connection.id)
  pure (.connected id counts)

def runConnect (request : ConnectRequest) : CommandM S Answer :=
  let label := (request.label.map trim).filter (· ≠ "")
  match brokerOf request.exchange with
  | .wallet => connectWallet request label
  | .binance => connectBinance request label
  | b => connectBroker b request label

def runRename (accountId label : String) : CommandM S Answer := do
  if trim label = "" then throw "the name can't be empty"
  else
    let (b, c) ← resolve accountId
    ask (.setLabel b c.id (trim label))
    pure (.renamed (trim label))

def runSync (accountId : String) : CommandM S Answer := do
  let (b, c) ← resolve accountId
  discard (ask (.openClient b))
  syncConnection b c.id
  let counts ← ask (.counts b c.id)
  pure (.synced counts)

def removeFound (found : Broker × Connection S) : CommandM S Answer := do
  let removed ← ask (.delete found.1 found.2.id)
  pure (.disconnected removed found.1.name)

def runDisconnect (accountId : String) : CommandM S Answer := resolve accountId >>= removeFound

def summarize (b : Broker) (c : Connection S) : CommandM S Answer := do
  let counts ← ask (.counts b c.id)
  pure (.status ⟨true, some c.status, c.lastSyncedAt, counts.1, counts.2⟩)

def statusIn (accountId : String) : List Broker → CommandM S Answer
  | [] => pure (.status ⟨false, none, none, 0, 0⟩)
  | b :: rest => do
    match ← ask (.find b accountId) with
    | some c => summarize b c
    | none => statusIn accountId rest

def statusOrder : List Broker := [.coinbase, .wallet, .kraken, .ibkr, .binance]

def runStatus (accountId : String) : CommandM S Answer := statusIn accountId statusOrder

def ownedIn (ownerAddress : String) : List Broker → CommandM S (List OwnedConnection)
  | [] => pure []
  | b :: rest => do
    let accounts ← ask (.owned b ownerAddress)
    let others ← ownedIn ownerAddress rest
    pure (accounts ++ others)

def runList (ownerAddress : String) : CommandM S Answer := do
  let accounts ← ownedIn ownerAddress resolveOrder
  pure (.accounts (accounts.insertionSort fun x y => x.connectedAtMs ≤ y.connectedAtMs))

def program : Command → Process (Query S) Reply (Except String Answer)
  | .connect request => (runConnect request).run
  | .rename accountId label => (runRename accountId label).run
  | .sync accountId => (runSync accountId).run
  | .disconnect accountId => (runDisconnect accountId).run
  | .status accountId => (runStatus accountId).run
  | .list ownerAddress => (runList ownerAddress).run

end Commands

section Property

variable {S : Type}

abbrev Worlds (S : Type) := Interleaving.World (Query S) Reply (Except String Answer) Command (Database S)

def emptyWorld : Worlds S := ⟨.init S, fun _ => none⟩

variable (pg : Lowercase) (sameAddress : S → S → Bool) (counted : Broker → List CollectedRow → ℕ × ℕ)

def worldAt (moves : List (Move Command (Input S))) : Worlds S :=
  emptyWorld.run program (serve pg sameAddress counted) moves

/-- At most one table holds a connection of an account. -/
def OneTable (db : Database S) : Prop :=
  ∀ accountId b b', db.Holds b accountId → db.Holds b' accountId → b = b'

/-- `status` is about the connection that `resolve` finds. -/
def StatusResolves (db : Database S) : Prop :=
  ∀ accountId (input : Input S), input.fails = false →
    ((runStatus accountId).run.alone (serve pg sameAddress counted) input db).1 =
      match ((resolve accountId).run.alone (serve pg sameAddress counted) input db).1 with
      | .ok (b, c) => ((summarize b c).run.alone (serve pg sameAddress counted) input db).1
      | .error _ => .ok (.status ⟨false, none, none, 0, 0⟩)

/-- `list` names an account once. -/
def ListsOnce (db : Database S) : Prop :=
  ∀ ownerAddress (input : Input S) accounts,
    ((runList ownerAddress).run.alone (serve pg sameAddress counted) input db).1 = .ok (.accounts accounts) →
      (accounts.map OwnedConnection.accountId).Nodup

/-- Nothing of the account is left: no connection, and nothing collected for one. -/
def Gone (db : Database S) (accountId : String) : Prop :=
  (∀ b, ¬ db.Holds b accountId) ∧
    ∀ r ∈ db.collected, ∃ c ∈ db.tables r.broker, c.id = r.connectionId ∧ c.accountId ≠ accountId

/-- What is asked of a run; the last is about the move with which a disconnect answers. -/
structure OneConnection (moves : List (Move Command (Input S))) : Prop where
  oneTable : ∀ n, OneTable (worldAt pg sameAddress counted (moves.take n)).shared
  status : ∀ n, StatusResolves pg sameAddress counted (worldAt pg sameAddress counted (moves.take n)).shared
  list : ∀ n, ListsOnce pg sameAddress counted (worldAt pg sameAddress counted (moves.take n)).shared
  removed : ∀ n i accountId q next broker,
    (worldAt pg sameAddress counted (moves.take n)).processes i = some (.disconnect accountId, .ask q next) →
    (worldAt pg sameAddress counted (moves.take (n + 1))).processes i =
      some (.disconnect accountId, .done (.ok (.disconnected true broker))) →
    Gone (worldAt pg sameAddress counted (moves.take (n + 1))).shared accountId

/-- An insert that is carried out finds no connection of the account in another table. -/
def Separate (w : Worlds S) : Move Command (Input S) → Prop
  | .serve i input =>
    match w.processes i with
    | some (_, .ask (.insert b accountId secrets _ _) _) =>
      Goes sameAddress w.shared b accountId secrets input →
        ∀ b', b' ≠ b → ¬ w.shared.Holds b' accountId
    | _ => True
  | _ => True

end Property

section OneTable

variable {S : Type} {db : Database S} {pg : Lowercase} {sameAddress : S → S → Bool}
  {counted : Broker → List CollectedRow → ℕ × ℕ} {input : Input S}

theorem Keeps.holds_iff {db' : Database S} (h : Keeps db db') (b : Broker) (accountId : String) :
    db'.Holds b accountId ↔ db.Holds b accountId := by
  rw [Connections.holds_iff, Connections.holds_iff, h.keys]

theorem Adds.holds_iff {db' : Database S} {b : Broker} {accountId : String}
    (h : Adds db db' b accountId) (b' : Broker) (accountId' : String) :
    db'.Holds b' accountId' ↔ db.Holds b' accountId' ∨ b' = b ∧ accountId' = accountId := by
  rw [Connections.holds_iff, Connections.holds_iff, h.keys]
  split_ifs with hb
  · subst hb
    simp [exists_or]
  · simp [hb]

theorem Removes.holds {db' : Database S} {b b' : Broker} {id : ℕ} {accountId : String}
    (h : Removes db db' b id) (hholds : db'.Holds b' accountId) : db.Holds b' accountId := by
  rw [Connections.holds_iff, h.keys] at hholds
  rw [Connections.holds_iff]
  obtain ⟨id', hid'⟩ := hholds
  split_ifs at hid' with hb
  · subst hb
    exact ⟨id', List.mem_of_mem_filter hid'⟩
  · exact ⟨id', hid'⟩

/-- A statement keeps an account in one table exactly if it adds none that another table holds. -/
theorem oneTable_serve_iff (h : OneTable db) (q : Query S) (input : Input S) :
    OneTable (serve pg sameAddress counted q input db).2 ↔
      ∀ b accountId secrets symbols label, q = .insert b accountId secrets symbols label →
        Goes sameAddress db b accountId secrets input → ∀ b', b' ≠ b → ¬ db.Holds b' accountId := by
  rcases serve_effect q input db with ⟨b, accountId, secrets, symbols, label, rfl, hgoes, heffect⟩ |
    ⟨b, id, rfl, hremoves⟩ | ⟨hnot, hkeeps⟩
  · constructor
    · intro hafter b₁ accountId₁ secrets₁ symbols₁ label₁ hq _ b' hne hholds
      cases hq
      rcases heffect with ⟨hthere, -⟩ | hadds
      · exact hne (h _ _ _ hholds hthere)
      · exact hne (hafter _ _ _ ((hadds.holds_iff _ _).2 (.inl hholds)) ((hadds.holds_iff _ _).2 (.inr ⟨rfl, rfl⟩)))
    · intro hseparate
      rcases heffect with ⟨-, hkeeps⟩ | hadds
      · intro a b₁ b₂ h₁ h₂
        exact h a b₁ b₂ ((hkeeps.holds_iff _ _).1 h₁) ((hkeeps.holds_iff _ _).1 h₂)
      · have hother := hseparate b accountId secrets symbols label rfl hgoes
        intro a b₁ b₂ h₁ h₂
        rcases (hadds.holds_iff _ _).1 h₁ with h₁ | ⟨rfl, rfl⟩ <;>
          rcases (hadds.holds_iff _ _).1 h₂ with h₂ | ⟨hb₂, ha₂⟩
        · exact h a b₁ b₂ h₁ h₂
        · rw [hb₂]
          exact not_not.1 fun hne => hother b₁ hne (ha₂ ▸ h₁)
        · exact (not_not.1 fun hne => hother b₂ hne h₂).symm
        · exact hb₂.symm
  · refine iff_of_true (fun a b₁ b₂ h₁ h₂ => h a b₁ b₂ (hremoves.holds h₁) (hremoves.holds h₂)) nofun
  · refine iff_of_true (fun a b₁ b₂ h₁ h₂ => ?_) fun b accountId secrets symbols label hq hgoes =>
      absurd hgoes (hnot b accountId secrets symbols label hq)
    exact h a b₁ b₂ ((hkeeps.holds_iff _ _).1 h₁) ((hkeeps.holds_iff _ _).1 h₂)

end OneTable

section Lookups

variable {S : Type} {db : Database S} {pg : Lowercase} {sameAddress : S → S → Bool}
  {counted : Broker → List CollectedRow → ℕ × ℕ} {input : Input S}

/-- The first of some tables that holds the account, and the connection there. -/
def firstIn (db : Database S) (accountId : String) (bs : List Broker) : Option (Broker × Connection S) :=
  bs.findSome? fun b => (db.find b accountId).map fun c => (b, c)

theorem alone_ask {A : Type} (q : Query S) (f : Answered q → CommandM S A) :
    (ask q >>= f).run.alone (serve pg sameAddress counted) input db =
      match serve pg sameAddress counted q input db with
      | (.ok a, db') => (f a).run.alone (serve pg sameAddress counted) input db'
      | (.error e, db') => (.error e, db') := by
  have hask : (ask q >>= f).run = .ask q fun r => ExceptT.bindCont f r := rfl
  rw [hask, Process.alone]
  rcases serve pg sameAddress counted q input db with ⟨_ | _, _⟩ <;> rfl

theorem serve_find (hfails : input.fails = false) (b : Broker) (accountId : String) :
    serve pg sameAddress counted (.find b accountId) input db = (.ok (db.find b accountId), db) := by
  rw [serve, hfails]
  rfl

theorem alone_resolveIn (hfails : input.fails = false) (accountId : String) (bs : List Broker) :
    (resolveIn accountId bs).run.alone (serve pg sameAddress counted) input db =
      (match firstIn db accountId bs with
        | some found => .ok found
        | none => .error ("no connection for account " ++ accountId), db) := by
  induction bs with
  | nil => rfl
  | cons b rest ih =>
    rw [resolveIn, alone_ask, serve_find hfails, firstIn, List.findSome?_cons]
    dsimp only
    cases db.find b accountId with
    | some c => rfl
    | none => exact ih

theorem alone_statusIn (hfails : input.fails = false) (accountId : String) (bs : List Broker) :
    (statusIn accountId bs).run.alone (serve pg sameAddress counted) input db =
      match firstIn db accountId bs with
      | some (b, c) => (summarize b c).run.alone (serve pg sameAddress counted) input db
      | none => (.ok (.status ⟨false, none, none, 0, 0⟩), db) := by
  induction bs with
  | nil => rfl
  | cons b rest ih =>
    rw [statusIn, alone_ask, serve_find hfails, firstIn, List.findSome?_cons]
    dsimp only
    cases db.find b accountId with
    | some c => rfl
    | none => exact ih

/-- With an account in one table, the order of the search makes no difference. -/
theorem firstIn_eq_some_iff (hsound : Sound db) (h : OneTable db) {accountId : String} {bs : List Broker}
    (hall : ∀ b, b ∈ bs) {b : Broker} {c : Connection S} :
    firstIn db accountId bs = some (b, c) ↔ db.find b accountId = some c := by
  have hholds : ∀ {b' c'}, db.find b' accountId = some c' → db.Holds b' accountId := by
    intro b' c' hfind
    obtain ⟨hc', rfl⟩ := (find_eq_some_iff hsound).1 hfind
    exact List.mem_map_of_mem hc'
  constructor
  · intro hfirst
    obtain ⟨b', -, hb'⟩ := List.exists_of_findSome?_eq_some hfirst
    obtain ⟨c', hfind, heq⟩ := Option.map_eq_some_iff.1 hb'
    cases heq
    exact hfind
  · intro hfind
    have hsome : (firstIn db accountId bs).isSome = true := by
      rw [firstIn, List.findSome?_isSome_iff]
      exact ⟨b, hall b, by rw [hfind]; rfl⟩
    obtain ⟨⟨b', c'⟩, hfirst⟩ := Option.isSome_iff_exists.1 hsome
    obtain ⟨b₁, -, hb₁⟩ := List.exists_of_findSome?_eq_some hfirst
    obtain ⟨c₁, hfind₁, heq⟩ := Option.map_eq_some_iff.1 hb₁
    cases heq
    have hsame := h _ _ _ (hholds hfind₁) (hholds hfind)
    subst hsame
    rw [hfirst, ← hfind₁.symm.trans hfind |> Option.some.inj]

theorem statusResolves (hsound : Sound db) (h : OneTable db) :
    StatusResolves pg sameAddress counted db := by
  intro accountId input hfails
  have hsame : firstIn db accountId statusOrder = firstIn db accountId resolveOrder := by
    refine Option.ext fun ⟨b, c⟩ => ?_
    rw [firstIn_eq_some_iff hsound h (by intro b; cases b <;> decide),
      firstIn_eq_some_iff hsound h (by intro b; cases b <;> decide)]
  rw [runStatus, resolve, alone_statusIn hfails, alone_resolveIn hfails, hsame]
  rcases firstIn db accountId resolveOrder with _ | ⟨b, c⟩ <;> rfl

theorem alone_ownedIn (hfails : input.fails = false) (ownerAddress : String) (bs : List Broker) :
    (ownedIn ownerAddress bs).run.alone (serve pg sameAddress counted) input db =
      (.ok (bs.flatMap fun b => db.owned pg b ownerAddress), db) := by
  induction bs with
  | nil => rfl
  | cons b rest ih =>
    have hserve : serve pg sameAddress counted (.owned b ownerAddress) input db =
        (.ok (db.owned pg b ownerAddress), db) := by
      rw [serve, hfails]
      rfl
    rw [ownedIn, alone_ask, hserve]
    dsimp only
    rw [ExceptT.run_bind, alone_bind, ih]
    rfl

/-- What `list` shows of one table are accounts of that table. -/
theorem owned_accounts (db : Database S) (pg : Lowercase) (b : Broker) (ownerAddress : String) :
    ∃ l, l.Sublist ((db.tables b).map Connection.accountId) ∧
      ((db.owned pg b ownerAddress).map OwnedConnection.accountId).Perm l := by
  have hbroker : ∀ b name, ∃ l, l.Sublist ((db.tables b).map Connection.accountId) ∧
      ((ownedBy pg name ((db.tables b).map Connection.row) ownerAddress).map
        OwnedConnection.accountId).Perm l := by
    intro b name
    refine ⟨_, List.Sublist.map Connection.accountId (List.filter_sublist
      (p := fun c => isListed pg ownerAddress c.row.accountId)), ?_⟩
    rw [ownedBy, List.map_map, List.filter_map]
    refine ((List.perm_insertionSort _ _).map _).trans (List.Perm.of_eq ?_)
    rw [List.map_map]
    rfl
  cases b with
  | wallet =>
    refine ⟨_, List.Sublist.map Connection.accountId (List.filter_sublist
      (p := fun c => c.ownerAddress.map String.toList = some (pg.apply ownerAddress))), ?_⟩
    rw [Database.owned, List.map_map]
    refine ((List.perm_insertionSort _ _).map _).trans (List.Perm.of_eq ?_)
    rw [List.map_map]
    rfl
  | binance => exact hbroker .binance _
  | coinbase => exact hbroker .coinbase _
  | ibkr => exact hbroker .ibkr _
  | kraken => exact hbroker .kraken _

theorem listsOnce (hsound : Sound db) (h : OneTable db) : ListsOnce pg sameAddress counted db := by
  intro ownerAddress input accounts hlist
  by_cases hfails : input.fails = false
  · have hrun : ((runList ownerAddress).run.alone (serve pg sameAddress counted) input db).1 =
        .ok (.accounts ((resolveOrder.flatMap fun b => db.owned pg b ownerAddress).insertionSort
          fun x y => x.connectedAtMs ≤ y.connectedAtMs)) := by
      rw [runList, ExceptT.run_bind, alone_bind, alone_ownedIn hfails]
      rfl
    rw [hrun] at hlist
    cases hlist
    rw [((List.perm_insertionSort _ _).map _).nodup_iff, List.map_flatMap, List.nodup_flatMap]
    constructor
    · intro b _
      obtain ⟨l, hl, hperm⟩ := owned_accounts db pg b ownerAddress
      exact hperm.nodup_iff.2 ((hsound.accounts b).sublist hl)
    · have hdisjoint : ∀ b b', b ≠ b' →
          List.Disjoint ((db.owned pg b ownerAddress).map OwnedConnection.accountId)
            ((db.owned pg b' ownerAddress).map OwnedConnection.accountId) := by
        intro b b' hne a ha ha'
        obtain ⟨l, hl, hperm⟩ := owned_accounts db pg b ownerAddress
        obtain ⟨l', hl', hperm'⟩ := owned_accounts db pg b' ownerAddress
        exact hne (h a b b' (hl.subset (hperm.subset ha)) (hl'.subset (hperm'.subset ha')))
      have hpairs : resolveOrder.Pairwise (· ≠ ·) := by decide
      exact hpairs.imp fun {b b'} hne => hdisjoint b b' hne
  · -- the first query fails, and so does the command
    rw [Bool.not_eq_false] at hfails
    have hrun : ((runList ownerAddress).run.alone (serve pg sameAddress counted) input db).1 =
        .error "failed" := by
      have hserve : serve pg sameAddress counted (.owned .binance ownerAddress) input db =
          (.error "failed", db) := by
        rw [serve, hfails]
        rfl
      rw [runList, ExceptT.run_bind, alone_bind, resolveOrder, ownedIn, alone_ask, hserve]
      rfl
    rw [hrun] at hlist
    cases hlist

end Lookups

section Disconnect

variable {S : Type} {db : Database S} {pg : Lowercase} {sameAddress : S → S → Bool}
  {counted : Broker → List CollectedRow → ℕ × ℕ} {input : Input S} {accountId : String}

abbrev Running (S : Type) := Process (Query S) Reply (Except String Answer)

/-- A disconnect that has some tables left to search. -/
def searching (accountId : String) (bs : List Broker) : Running S :=
  (resolveIn accountId bs >>= removeFound).run

/-- How far a disconnect has come; an id that it has found is of the account. -/
inductive Stage (db : Database S) (accountId : String) : Running S → Prop
  | searching (bs : List Broker) : Stage db accountId (searching accountId bs)
  | found (b : Broker) (c : Connection S) (id : c.id < db.nextId)
      (account : ∀ k ∈ db.keys b, k.1 = c.id → k.2 = accountId) :
      Stage db accountId (removeFound (b, c)).run
  | done (answer : Except String Answer) : Stage db accountId (.done answer)

def Good (db : Database S) : Command → Running S → Prop
  | .disconnect accountId, p => Stage db accountId p
  | _, _ => True

theorem good_program (db : Database S) (c : Command) : Good db c (program c) := by
  cases c with
  | disconnect accountId => exact .searching resolveOrder
  | connect request => trivial
  | rename accountId label => trivial
  | sync accountId => trivial
  | status accountId => trivial
  | list ownerAddress => trivial

/-- Ids are not given twice, and do not change their account. -/
theorem account_of_serve {b : Broker} {id : ℕ} (hid : id < db.nextId)
    (h : ∀ k ∈ db.keys b, k.1 = id → k.2 = accountId) (q : Query S) (input : Input S) :
    id < (serve pg sameAddress counted q input db).2.nextId ∧
      ∀ k ∈ (serve pg sameAddress counted q input db).2.keys b, k.1 = id → k.2 = accountId := by
  have hkeeps : ∀ {db'}, Keeps db db' → id < db'.nextId ∧ ∀ k ∈ db'.keys b, k.1 = id → k.2 = accountId := by
    intro db' hkeeps
    rw [hkeeps.nextId, hkeeps.keys]
    exact ⟨hid, h⟩
  rcases serve_effect q input db with ⟨b', a, _, _, _, -, -, ⟨-, heffect⟩ | hadds⟩ |
    ⟨b', id', -, hremoves⟩ | ⟨-, heffect⟩
  · exact hkeeps heffect
  · rw [hadds.nextId, hadds.keys]
    refine ⟨Nat.lt_succ_of_lt hid, fun k hk hkid => ?_⟩
    split_ifs at hk with hb
    · subst hb
      rcases List.mem_append.1 hk with hk | hk
      · exact h k hk hkid
      · rw [List.mem_singleton.1 hk] at hkid
        exact absurd hkid (Nat.ne_of_gt hid)
    · exact h k hk hkid
  · rw [hremoves.nextId, hremoves.keys]
    refine ⟨hid, fun k hk hkid => ?_⟩
    split_ifs at hk with hb
    · subst hb
      exact h k (List.mem_of_mem_filter hk) hkid
    · exact h k hk hkid
  · exact hkeeps heffect

theorem Good.stable {c : Command} {p : Running S} (h : Good db c p) (q : Query S) (input : Input S) :
    Good (serve pg sameAddress counted q input db).2 c p := by
  cases c with
  | disconnect accountId =>
    cases h with
    | searching bs => exact .searching bs
    | found b c id account =>
      obtain ⟨hid, haccount⟩ := account_of_serve id account q input
      exact .found b c hid haccount
    | done answer => exact .done answer
  | connect request => trivial
  | rename accountId label => trivial
  | sync accountId => trivial
  | status accountId => trivial
  | list ownerAddress => trivial

/-- The connection that was removed was the only one of the account. -/
theorem gone_of_removed (hsound : Sound db) (hone : OneTable db) {b : Broker} {id : ℕ}
    (haccount : ∀ k ∈ db.keys b, k.1 = id → k.2 = accountId) (hthere : id ∈ (db.keys b).map Prod.fst) :
    Gone (db.delete b id).2 accountId := by
  have hremoves := delete_effect db b id
  have hsound' := hremoves.sound hsound
  obtain ⟨⟨id', a⟩, hk, rfl⟩ := List.mem_map.1 hthere
  have ha : a = accountId := haccount _ hk rfl
  subst ha
  have hnone : ∀ b', ¬ (db.delete b id').2.Holds b' a := by
    intro b' hholds
    have hb : b' = b := hone a _ _ (hremoves.holds hholds) ((holds_iff).2 ⟨id', hk⟩)
    subst hb
    rw [holds_iff, hremoves.keys, if_pos rfl] at hholds
    obtain ⟨id'', hin⟩ := hholds
    obtain ⟨hin, hne⟩ := List.mem_filter.1 hin
    have hsame : (id'', a) = (id', a) :=
      List.inj_on_of_nodup_map (accounts_eq db b' ▸ hsound.accounts b') hin hk rfl
    rw [hsame] at hne
    simp at hne
  refine ⟨hnone, fun r hr => ?_⟩
  obtain ⟨c, hc, hid⟩ := List.mem_map.1 (hsound'.refers r hr)
  exact ⟨c, hc, hid, fun heq => hnone r.broker (List.mem_map.2 ⟨c, hc, heq⟩)⟩

/-- One question of a disconnect: how far it comes, and what is left if it has removed. -/
theorem Stage.serve (hsound : Sound db) {q : Query S} {next : Reply q → Running S}
    (h : Stage db accountId (.ask q next)) (input : Input S) :
    Stage (serve pg sameAddress counted q input db).2 accountId
        (next (serve pg sameAddress counted q input db).1) ∧
      (OneTable db → ∀ broker, next (serve pg sameAddress counted q input db).1 =
        .done (.ok (.disconnected true broker)) →
          Gone (serve pg sameAddress counted q input db).2 accountId) := by
  generalize hp : (Process.ask q next : Running S) = p at h
  cases h with
  | done answer => cases hp
  | searching bs =>
    cases bs with
    | nil => cases hp
    | cons b rest =>
      cases hp
      by_cases hfails : input.fails = true
      · have hserve : Connections.serve pg sameAddress counted (.find b accountId) input db =
            (.error "failed", db) := by
          rw [Connections.serve, if_pos hfails]
        rw [hserve]
        exact ⟨.done _, fun _ broker hdone => by cases hdone⟩
      · rw [Bool.not_eq_true] at hfails
        rw [serve_find hfails]
        cases hfind : db.find b accountId with
        | none =>
          refine ⟨.searching rest, fun _ broker hdone => ?_⟩
          cases rest <;> cases hdone
        | some c =>
          obtain ⟨hc, haccount⟩ := (find_eq_some_iff hsound).1 hfind
          refine ⟨.found b c (hsound.ids b c hc) fun k hk hid => ?_, fun _ broker hdone => by cases hdone⟩
          have hsame : k = (c.id, c.accountId) := List.inj_on_of_nodup_map
            (ids_eq db b ▸ hsound.idsNodup b) hk (List.mem_map_of_mem hc) hid
          rw [hsame]
          exact haccount
  | found b c id account =>
    cases hp
    by_cases hfails : input.fails = true
    · have hserve : Connections.serve pg sameAddress counted (.delete b c.id) input db =
          (.error "failed", db) := by
        rw [Connections.serve, if_pos hfails]
      rw [hserve]
      exact ⟨.done _, fun _ broker hdone => by cases hdone⟩
    · have hserve : Connections.serve pg sameAddress counted (.delete b c.id) input db =
          (.ok (db.delete b c.id).1, (db.delete b c.id).2) := by
        rw [Connections.serve, if_neg hfails]
      rw [hserve]
      refine ⟨.done _, fun hone broker hdone => ?_⟩
      have hanswer : (.done (.ok (.disconnected (db.delete b c.id).1 b.name)) : Running S) =
          .done (.ok (.disconnected true broker)) := hdone
      rw [Process.done.injEq, Except.ok.injEq, Answer.disconnected.injEq] at hanswer
      have hremoved : (db.delete b c.id).1 = true := hanswer.1
      refine gone_of_removed hsound hone account ?_
      rw [← ids_eq]
      exact of_decide_eq_true hremoved

end Disconnect

section Runs

variable {S : Type} (pg : Lowercase) (sameAddress : S → S → Bool)
  (counted : Broker → List CollectedRow → ℕ × ℕ) {w : Worlds S}

theorem safe_step (h : Safe Sound Good w) (m : Move Command (Input S)) :
    Safe Sound Good (w.step program (serve pg sameAddress counted) m) := by
  refine h.step m (fun i c _ => good_program w.shared c) fun i input c q next _ _ hgood => ?_
  refine ⟨serve_sound h.shared, ?_, fun c' p hp => hp.stable q input⟩
  cases c with
  | disconnect accountId => exact (Stage.serve h.shared hgood input).1
  | connect request => trivial
  | rename accountId label => trivial
  | sync accountId => trivial
  | status accountId => trivial
  | list ownerAddress => trivial

theorem safe_worldAt (moves : List (Move Command (Input S))) :
    Safe Sound Good (worldAt pg sameAddress counted moves) := by
  induction moves using List.reverseRecOn with
  | nil => exact ⟨sound_init, fun i c p h => by cases h⟩
  | append_singleton moves m ih =>
    rw [worldAt, Interleaving.World.run, List.foldl_append]
    exact safe_step pg sameAddress counted ih m

/-- A move keeps an account in one table exactly if it is separate. -/
theorem oneTable_step_iff (h : OneTable w.shared) (m : Move Command (Input S)) :
    OneTable (w.step program (serve pg sameAddress counted) m).shared ↔ Separate sameAddress w m := by
  cases m with
  | start i c =>
    refine iff_of_true ?_ trivial
    unfold Interleaving.World.step
    dsimp only
    split <;> exact h
  | serve i input =>
    unfold Interleaving.World.step Separate
    dsimp only
    cases hi : w.processes i with
    | none => exact iff_of_true h trivial
    | some cp =>
      obtain ⟨c, p⟩ := cp
      cases p with
      | done answer => exact iff_of_true h trivial
      | ask q next =>
        refine (oneTable_serve_iff h q input).trans ?_
        cases q with
        | insert b accountId secrets symbols label =>
          constructor
          · exact fun hseparate => hseparate b accountId secrets symbols label rfl
          · intro hseparate b' accountId' secrets' symbols' label' hq
            cases hq
            exact hseparate
        | _ => exact iff_of_true nofun trivial

/-- The move with which a disconnect answers that it has removed. -/
theorem gone_step (h : Safe Sound Good w) (hone : OneTable w.shared) {i : ℕ} {accountId broker : String}
    {q : Query S} {next : Reply q → Running S} {m : Move Command (Input S)}
    (hbefore : w.processes i = some (.disconnect accountId, .ask q next))
    (hafter : (w.step program (serve pg sameAddress counted) m).processes i =
      some (.disconnect accountId, .done (.ok (.disconnected true broker)))) :
    Gone (w.step program (serve pg sameAddress counted) m).shared accountId := by
  have hstage : Stage w.shared accountId (.ask q next) := h.processes i _ _ hbefore
  have hsame : ∀ {p : Running S}, w.processes i = some (.disconnect accountId, p) →
      p = .done (.ok (.disconnected true broker)) → False := by
    intro p hp hdone
    rw [hbefore] at hp
    cases hp
    cases hdone
  cases m with
  | start j c =>
    exfalso
    unfold Interleaving.World.step at hafter
    dsimp only at hafter
    split at hafter
    next hj =>
      have hij : i ≠ j := by
        rintro rfl
        rw [hbefore] at hj
        cases hj
      dsimp only at hafter
      rw [Function.update_of_ne hij] at hafter
      exact hsame hafter rfl
    next => exact hsame hafter rfl
  | serve j input =>
    by_cases hij : i = j
    · subst hij
      unfold Interleaving.World.step at hafter ⊢
      dsimp only at hafter ⊢
      rw [hbefore] at hafter ⊢
      dsimp only at hafter ⊢
      rw [Function.update_self, Option.some.injEq, Prod.mk.injEq] at hafter
      exact (hstage.serve h.shared input).2 hone broker hafter.2
    · exfalso
      unfold Interleaving.World.step at hafter
      dsimp only at hafter
      split at hafter
      · dsimp only at hafter
        rw [Function.update_of_ne hij] at hafter
        exact hsame hafter rfl
      · exact hsame hafter rfl

/-- Along every run of the commands, however their statements come between each other, an account id names
one connection exactly if every insert that is carried out finds none of the account in another table. -/
theorem one_connection_iff (moves : List (Move Command (Input S))) :
    OneConnection pg sameAddress counted moves ↔ ∀ n m, moves[n]? = some m →
      Separate sameAddress (worldAt pg sameAddress counted (moves.take n)) m := by
  have hsafe : ∀ n, Safe Sound Good (worldAt pg sameAddress counted (moves.take n)) :=
    fun n => safe_worldAt pg sameAddress counted _
  constructor
  · intro h n m hm
    have hnext := h.oneTable (n + 1)
    rw [worldAt, run_take_succ, hm] at hnext
    exact (oneTable_step_iff pg sameAddress counted (h.oneTable n) m).1 hnext
  · intro h
    have hone : ∀ n, OneTable (worldAt pg sameAddress counted (moves.take n)).shared := by
      intro n
      induction n with
      | zero =>
        intro accountId b b' hb
        cases hb
      | succ n ih =>
        rw [worldAt, run_take_succ]
        cases hm : moves[n]? with
        | none => exact ih
        | some m => exact (oneTable_step_iff pg sameAddress counted ih m).2 (h n m hm)
    refine ⟨hone, fun n => statusResolves (hsafe n).shared (hone n),
      fun n => listsOnce (hsafe n).shared (hone n), fun n i accountId q next broker hbefore hafter => ?_⟩
    rw [worldAt, run_take_succ] at hafter ⊢
    cases hm : moves[n]? with
    | none =>
      rw [hm] at hafter
      rw [worldAt] at hbefore
      rw [Option.elim_none, hbefore] at hafter
      cases hafter
    | some m =>
      rw [hm] at hafter
      exact gone_step pg sameAddress counted (hsafe n) (hone n) hbefore hafter

end Runs

section Example

variable {S : Type}

def noCounts (_ : Broker) (_ : List CollectedRow) : ℕ × ℕ := (0, 0)

/-- The statements of a command, one after the other, with nothing to store. -/
def served (i n : ℕ) : List (Move Command (Input String)) :=
  List.replicate n (.serve i ⟨false, 1000, "sealed", []⟩)

def connectMoves (i : ℕ) (exchange : String) : List (Move Command (Input String)) :=
  .start i (.connect ⟨"0xab", some exchange, "", none, []⟩) :: served i 6

/-- The account is connected to Coinbase and then to Kraken, and removed. -/
def twiceConnected : List (Move Command (Input String)) :=
  connectMoves 0 "coinbase" ++ connectMoves 1 "kraken" ++ .start 2 (.disconnect "0xab") :: served 2 3

/-- What a process has answered. -/
def answerOf (w : Worlds S) (i : ℕ) : Option Answer :=
  match w.processes i with
  | some (_, .done (.ok answer)) => some answer
  | _ => none

/-- The removal answers, and the credential of Kraken is still there. -/
theorem second_connection_left_behind :
    answerOf (worldAt asciiLowercase (fun _ _ => false) noCounts twiceConnected) 2 =
        some (.disconnected true "coinbase") ∧
      ((worldAt asciiLowercase (fun _ _ => false) noCounts twiceConnected).shared.tables .kraken).map
        (fun c => (c.accountId, c.secrets)) = [("0xab", "sealed")] ∧
      ¬ OneConnection asciiLowercase (fun _ _ => false) noCounts twiceConnected := by
  refine ⟨by decide +kernel, by decide +kernel, fun h => ?_⟩
  have hboth : ∀ b ∈ [Broker.coinbase, .kraken], "0xab" ∈ ((worldAt asciiLowercase (fun _ _ => false) noCounts
      (twiceConnected.take 14)).shared.tables b).map Connection.accountId := by
    decide +kernel
  have hsame := h.oneTable 14 "0xab" .coinbase .kraken (hboth _ (by decide)) (hboth _ (by decide))
  cases hsame

end Example

end Linvesther.Worker.Connections
