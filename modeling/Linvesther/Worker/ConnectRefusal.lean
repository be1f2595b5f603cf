import Linvesther.Base.Program
import Linvesther.Worker.Commands
import Linvesther.Worker.Rekey

/-! `run_connect`, step by step: what each broker checks, encrypts, stores and reads first, and what is left in
the tables of connections when the credential is refused on the way. -/

namespace Linvesther.Worker.Connect

open Connections (Broker Broker.name Connection Database CollectedRow Sound brokerOf isAddress trim ownerOf)
open Rekey (fields decryptFields lowercase)
open Program

section Connect

/-- Why a connect fails: the exchange rejects the credential or it can do more than read, no network of the
wallet could be read, or anything else. -/
inductive Cause where
  | refused | unread | other
deriving DecidableEq

structure Failure where
  cause : Cause
  text : String
deriving DecidableEq

structure ConnectRequest where
  accountId : String
  exchange : Option String
  apiKey : String
  apiSecret : String
  keyName : String
  privateKey : String
  token : String
  queryId : String
  address : String
  label : Option String
  symbols : List String

abbrev Row := Connection (List EncryptedField)

/-- The tables of connections, and the column of Kraken's that the others have not. -/
structure State where
  db : Database (List EncryptedField)
  verifiedReadOnlyAt : ℕ → Option ℕ

/-- The statements that may fail on their own. -/
inductive Statement where
  | start | settings | find | insert | setLabel | findAgain | markVerified | read | store | markSynced | delete | summary
deriving DecidableEq

/-- A network of a wallet: what reading it brings, and whether that can be kept. -/
structure Network where
  name : String
  reading : Except String (Option (List (String × String)))
  persisted : Except String Unit

/-- What happens outside of the worker in the course of a connect. -/
structure Outside where
  nowMs : ℕ
  nonce : String → Collector.Nonce
  fails : Statement → Bool
  credentials : Except Failure Unit
  readOnly : Except Failure Unit
  fetched : Except Failure (List (String × String))
  /-- Another caller is syncing the connection. -/
  busy : Bool
  networks : List Network

abbrev ConnectM := EStateM Failure State

variable (aead : Aead) (key : MasterKey) (o : Outside)

def outcome {α : Type} : Except Failure α → ConnectM α
  | .ok a => pure a
  | .error f => throw f

def statement (st : Statement) : ConnectM Unit :=
  if o.fails st then throw ⟨.other, "the database failed"⟩ else pure ()

/-- The fields of each broker's credential, as they are encrypted. -/
def credential (request : ConnectRequest) : Broker → List (String × String)
  | .binance => [("api_key", request.apiKey), ("api_secret", request.apiSecret)]
  | .coinbase => [("key_name", trim request.keyName), ("private_key", request.privateKey)]
  | .ibkr => [("token", request.token), ("query_id", request.queryId)]
  | .kraken => [("api_key", trim request.apiKey), ("api_secret", trim request.apiSecret)]
  | .wallet => [("address", lowercase (trim request.address))]

def sealFields (b : Broker) (accountId : String) : List (String × String) → Except Failure (List EncryptedField)
  | [] => .ok []
  | (name, plain) :: rest =>
    match encrypt aead key (o.nonce name) plain (Rekey.contextOf b accountId name) with
    | none => .error ⟨.other, "encryption failed"⟩
    | some e => (sealFields b accountId rest).map fun es => e :: es

/-- The encrypted columns that the request comes to. -/
def secretsOf (request : ConnectRequest) (b : Broker) : Except Failure (List EncryptedField) :=
  sealFields aead key o b request.accountId (credential request b)

def findByAccount (st : Statement) (b : Broker) (accountId : String) : ConnectM (Option Row) := do
  statement o st
  let s ← get
  pure (s.db.find b accountId)

def findAgain (b : Broker) (accountId : String) : ConnectM Row := do
  match ← findByAccount o .findAgain b accountId with
  | some c => pure c
  | none => throw ⟨.other, "connection vanished"⟩

def insertConnection (b : Broker) (accountId : String) (owner : Option String) (secrets : List EncryptedField)
    (symbols : List String) (label : Option String) : ConnectM ℕ := do
  statement o .insert
  let s ← get
  modify fun s => { s with db := (s.db.insert b accountId owner secrets symbols label o.nowMs).2 }
  pure (s.db.insert b accountId owner secrets symbols label o.nowMs).1

def setLabel (b : Broker) (id : ℕ) : Option String → ConnectM Unit
  | none => pure ()
  | some label => do
    statement o .setLabel
    modify fun s => { s with db := s.db.setLabel b id label }

def markVerified (id : ℕ) : ConnectM Unit := do
  statement o .markVerified
  modify fun s => { s with verifiedReadOnlyAt := Function.update s.verifiedReadOnlyAt id (some o.nowMs) }

def storeAll (b : Broker) (id : ℕ) : List (String × String) → ConnectM Unit
  | [] => pure ()
  | (table, rowKey) :: rest => do
    let s ← get
    match s.db.store ⟨b, id, table, rowKey⟩ with
    | some db => do
      modify fun s => { s with db }
      storeAll b id rest
    | none => throw ⟨.other, "violates foreign key constraint"⟩

def markSynced (b : Broker) (id : ℕ) : ConnectM Unit := do
  statement o .markSynced
  modify fun s => { s with db := s.db.markSynced b id o.nowMs }

/-- What the exchange has is read before any of it is stored. -/
def syncExchange (b : Broker) (id : ℕ) : ConnectM Unit := do
  statement o .read
  let fetched ← outcome o.fetched
  statement o .store
  storeAll b id fetched
  markSynced o b id

/-- `sync_and_persist`: here the key is seen to be read-only, in every cycle. -/
def syncBinance (id : ℕ) : ConnectM Unit := do
  statement o .read
  outcome o.readOnly
  syncExchange o .binance id

/-- A connection is synced by one caller at a time. -/
def syncKraken (id : ℕ) : ConnectM Unit := if o.busy then pure () else syncExchange o .kraken id

/-- A network's reading is kept as a whole or not at all. -/
def readNetwork (id : ℕ) (network : Network) : ConnectM (List String) :=
  match network.reading, network.persisted with
  | .error e, _ => pure [network.name ++ ": " ++ e]
  | .ok none, _ => pure []
  | .ok (some _), .error e => pure [network.name ++ ": " ++ e]
  | .ok (some rows), .ok () => do
    storeAll .wallet id rows
    pure []

/-- Each network on its own; what failed is told at the end. -/
def readNetworks (id : ℕ) : List Network → ConnectM (List String)
  | [] => pure []
  | network :: rest => do
    let failure ← readNetwork id network
    let failures ← readNetworks id rest
    pure (failure ++ failures)

def Network.unread (network : Network) : Bool := network.reading matches .error _

def syncWallet (id : ℕ) : ConnectM Unit :=
  if o.busy then pure ()
  else do
    statement o .read
    let failures ← readNetworks id o.networks
    if failures = [] then markSynced o .wallet id
    else throw ⟨if o.networks.all Network.unread then .unread else .other, "; ".intercalate failures⟩

/-- `let _ = delete_connection(…)`. -/
def deleteQuietly (id : ℕ) : ConnectM Unit :=
  if o.fails .delete then pure () else modify fun s => { s with db := (s.db.delete .wallet id).2 }

/-- The owner has connected the address under another account id. -/
def alreadyConnected (db : Database (List EncryptedField)) (owner accountId address : String) : Bool :=
  (db.tables .wallet).any fun c => c.ownerAddress = some owner && c.accountId ≠ accountId &&
    decryptFields aead key .wallet c.accountId (fields .wallet) c.secrets = some [address]

/-- `wallet::insert_connection`. -/
def insertWallet (request : ConnectRequest) (label : Option String) : ConnectM ℕ :=
  match ownerOf request.accountId with
  | none => throw ⟨.other, "the account id does not begin with an owner address"⟩
  | some owner => do
    let secrets ← outcome (secretsOf aead key o request .wallet)
    let s ← get
    if alreadyConnected aead key s.db owner request.accountId (lowercase (trim request.address)) then
      throw ⟨.other, "this wallet is already connected"⟩
    else insertConnection o .wallet request.accountId (some owner) secrets [] label

/-- A connection that could not be read at all is not kept; one that already existed is left as it was. -/
@[irreducible] def connectWallet (request : ConnectRequest) (label : Option String) : ConnectM ℕ :=
  if isAddress (lowercase (trim request.address)) then do
    statement o .settings
    let existing ← findByAccount o .find .wallet request.accountId
    let id ← insertWallet aead key o request label
    let connection ← findAgain o .wallet request.accountId
    statement o .read
    tryCatch (syncWallet o connection.id) fun failure => do
      if existing.isNone then deleteQuietly o id
      throw failure
    statement o .summary
    pure id
  else throw ⟨.other, "that is not a wallet address"⟩

def connectKraken (request : ConnectRequest) (label : Option String) : ConnectM ℕ := do
  outcome o.credentials
  outcome o.readOnly
  let secrets ← outcome (secretsOf aead key o request .kraken)
  let id ← insertConnection o .kraken request.accountId none secrets [] none
  setLabel o .kraken id label
  let connection ← findAgain o .kraken request.accountId
  markVerified o id
  syncKraken o connection.id
  statement o .summary
  pure id

/-- The branches of Coinbase and of Interactive Brokers. -/
def connectChecked (b : Broker) (request : ConnectRequest) (label : Option String) : ConnectM ℕ := do
  outcome o.credentials
  outcome o.readOnly
  let secrets ← outcome (secretsOf aead key o request b)
  let id ← insertConnection o b request.accountId none secrets [] none
  setLabel o b id label
  let connection ← findAgain o b request.accountId
  syncExchange o b connection.id
  statement o .summary
  pure id

def connectBinance (request : ConnectRequest) (label : Option String) : ConnectM ℕ := do
  let secrets ← outcome (secretsOf aead key o request .binance)
  let id ← insertConnection o .binance request.accountId none secrets request.symbols none
  setLabel o .binance id label
  syncBinance o id
  pure id

def labelOf (request : ConnectRequest) : Option String := (request.label.map trim).filter (· ≠ "")

def runConnect (request : ConnectRequest) : ConnectM ℕ := do
  statement o .start
  match brokerOf request.exchange with
  | .wallet => connectWallet aead key o request (labelOf request)
  | .kraken => connectKraken aead key o request (labelOf request)
  | .binance => connectBinance aead key o request (labelOf request)
  | b => connectChecked aead key o b request (labelOf request)

end Connect

section Steps

variable {aead : Aead} {key : MasterKey} {o : Outside} {P R : State → Prop} {s₀ s₁ : State} {b : Broker} {id : ℕ}

/-- The state that a refusal, or an unread wallet, leaves. -/
def refusing (R : State → Prop) (f : Failure) (s : State) : Prop := f.cause ≠ .other → R s

theorem refusing_of_other {f : Failure} {s : State} (h : f.cause = .other) : refusing R f s := fun hne => absurd h hne

theorem statement_spec (st : Statement) : Triple P (statement o st) (fun _ => P) (refusing R) :=
  Triple.ite (fun _ => Triple.throw fun _ _ => refusing_of_other rfl) fun _ => Triple.pure fun _ hs => hs

theorem started_spec {α : Type} {k : ConnectM α} {Q : α → State → Prop} (hk : Triple P k Q (refusing R)) :
    Triple P (do statement o .start; k) Q (refusing R) :=
  Triple.bind (statement_spec .start) fun _ => hk

theorem outcome_spec {α : Type} {x : Except Failure α}
    (h : ∀ f s, x = .error f → P s → refusing R f s) :
    Triple P (outcome x) (fun a s => x = .ok a ∧ P s) (refusing R) := by
  cases x with
  | ok a => exact Triple.pure fun s hs => ⟨rfl, hs⟩
  | error f => exact Triple.throw fun s hs => h f s rfl hs

theorem sealFields_other {accountId : String} {plain : List (String × String)} {f : Failure}
    (h : sealFields aead key o b accountId plain = .error f) : f.cause = .other := by
  induction plain with
  | nil => cases h
  | cons field rest ih =>
    unfold sealFields at h
    split at h
    · cases h
      rfl
    · cases hrest : sealFields aead key o b accountId rest with
      | ok es =>
        rw [hrest] at h
        cases h
      | error f' =>
        rw [hrest] at h
        cases h
        exact ih hrest

theorem seal_spec (request : ConnectRequest) : Triple P (outcome (secretsOf aead key o request b))
    (fun secrets s => secretsOf aead key o request b = .ok secrets ∧ P s) (refusing R) :=
  outcome_spec fun _ _ hsealed _ => refusing_of_other (sealFields_other hsealed)

theorem get_spec : Triple (· = s₀) (get : ConnectM State) (fun s s' => s = s₀ ∧ s' = s₀) (refusing R) :=
  Triple.get fun _ hs => ⟨hs, hs⟩

theorem find_spec (st : Statement) (accountId : String) : Triple (· = s₀) (findByAccount o st b accountId)
    (fun found s => found = s₀.db.find b accountId ∧ s = s₀) (refusing R) := by
  refine Triple.bind (statement_spec st) fun _ => ?_
  refine Triple.bind get_spec fun s => Triple.pure fun s' h => ?_
  rw [h.1]
  exact ⟨rfl, h.2⟩

theorem findAgain_spec (accountId : String) : Triple (· = s₀) (findAgain o b accountId) (fun _ s => s = s₀)
    (refusing R) := by
  refine Triple.bind (find_spec .findAgain accountId) fun found => ?_
  cases found with
  | none => exact Triple.throw fun _ _ => refusing_of_other rfl
  | some c => exact Triple.pure fun _ h => h.2

theorem insert_spec (accountId : String) (owner : Option String) (secrets : List EncryptedField)
    (symbols : List String) (label : Option String) :
    Triple (· = s₀) (insertConnection o b accountId owner secrets symbols label)
      (fun id s => id = (s₀.db.insert b accountId owner secrets symbols label o.nowMs).1 ∧
        s = { s₀ with db := (s₀.db.insert b accountId owner secrets symbols label o.nowMs).2 }) (refusing R) := by
  refine Triple.bind (statement_spec .insert) fun _ => ?_
  refine Triple.bind get_spec fun s => ?_
  have hmodify : Triple (fun s' => s = s₀ ∧ s' = s₀)
      (modify fun s' => { s' with db := (s'.db.insert b accountId owner secrets symbols label o.nowMs).2 } : ConnectM PUnit)
      (fun _ s' => s = s₀ ∧
        s' = { s₀ with db := (s₀.db.insert b accountId owner secrets symbols label o.nowMs).2 }) (refusing R) := by
    refine Triple.modify fun s' h => ⟨h.1, ?_⟩
    rw [h.2]
  refine Triple.bind hmodify fun _ => Triple.pure fun s' h => ?_
  rw [h.1]
  exact ⟨rfl, h.2⟩

def State.relabel (s : State) (b : Broker) (id : ℕ) : Option String → State
  | none => s
  | some label => { s with db := s.db.setLabel b id label }

theorem setLabel_spec (label : Option String) : Triple (· = s₀) (setLabel o b id label)
    (fun _ s => s = s₀.relabel b id label) (refusing R) := by
  cases label with
  | none => exact Triple.pure fun _ hs => hs
  | some label => exact Triple.bind (statement_spec .setLabel) fun _ => Triple.modify fun s hs => by rw [hs]; rfl

theorem storeAll_spec (rows : List (String × String)) : Triple P (storeAll b id rows) (fun _ _ => True) (refusing R) := by
  induction rows generalizing P with
  | nil => exact Triple.pure fun _ _ => trivial
  | cons row rest ih =>
    have hget : Triple P (get : ConnectM State) (fun _ _ => True) (refusing R) := Triple.get fun _ _ => trivial
    refine Triple.bind hget fun s => ?_
    split
    next db _ =>
      have hmodify : Triple (fun _ => True) (modify fun s => { s with db } : ConnectM PUnit) (fun _ _ => True)
          (refusing R) := Triple.modify fun _ _ => trivial
      exact Triple.bind hmodify fun _ => ih
    next => exact Triple.throw fun _ _ => refusing_of_other rfl

theorem markSynced_spec : Triple P (markSynced o b id) (fun _ _ => True) (refusing R) :=
  Triple.bind (statement_spec .markSynced) fun _ => Triple.modify fun _ _ => trivial

/-- An exchange that refuses to be read leaves what was stored before. -/
theorem syncExchange_spec : Triple P (syncExchange o b id) (fun _ _ => True) (refusing P) := by
  refine Triple.bind (statement_spec .read) fun _ => ?_
  refine Triple.bind (outcome_spec fun _ _ _ hs _ => hs) fun fetched => ?_
  refine Triple.bind (statement_spec .store) fun _ => ?_
  exact Triple.bind (storeAll_spec fetched) fun _ => markSynced_spec

theorem syncBinance_spec : Triple P (syncBinance o id) (fun _ _ => True) (refusing P) := by
  refine Triple.bind (statement_spec .read) fun _ => ?_
  refine Triple.bind (outcome_spec fun _ _ _ hs _ => hs) fun _ => ?_
  exact Triple.conseq syncExchange_spec (fun _ hs => hs) (fun _ _ _ => trivial) fun _ _ hs hne => (hs hne).2

theorem syncKraken_spec : Triple P (syncKraken o id) (fun _ _ => True) (refusing P) :=
  Triple.ite (fun _ => Triple.pure fun _ _ => trivial) fun _ => syncExchange_spec

theorem readNetwork_spec (network : Network) : Triple P (readNetwork id network)
    (fun _ s => network.unread = true → P s) (refusing R) := by
  unfold readNetwork
  split
  next => exact Triple.pure fun _ hs _ => hs
  next => exact Triple.pure fun _ hs _ => hs
  next => exact Triple.pure fun _ hs _ => hs
  next rows hread _ =>
    refine Triple.bind (storeAll_spec rows) fun _ => Triple.pure fun _ _ hunread => ?_
    rw [Network.unread, hread] at hunread
    cases hunread

/-- Where no network can be read, nothing is kept of any. -/
theorem readNetworks_spec (networks : List Network) : Triple P (readNetworks id networks)
    (fun _ s => networks.all Network.unread = true → P s) (refusing R) := by
  induction networks generalizing P with
  | nil => exact Triple.pure fun _ hs _ => hs
  | cons network rest ih =>
    refine Triple.bind (readNetwork_spec network) fun failure => ?_
    refine Triple.bind ih fun failures => Triple.pure fun s hs hall => ?_
    rw [List.all_cons, Bool.and_eq_true] at hall
    exact hs hall.2 hall.1

theorem syncWallet_spec : Triple P (syncWallet o id) (fun _ _ => True) (refusing P) := by
  refine Triple.ite (fun _ => Triple.pure fun _ _ => trivial) fun _ => ?_
  refine Triple.bind (statement_spec .read) fun _ => ?_
  refine Triple.bind (readNetworks_spec o.networks) fun failures => ?_
  refine Triple.ite (fun _ => Triple.conseq markSynced_spec (fun _ _ => trivial) (fun _ _ _ => trivial)
    fun _ _ hs => hs) fun _ => Triple.throw fun s hs hne => hs ?_
  by_contra hread
  rw [if_neg hread] at hne
  exact hne rfl

end Steps

section Branches

variable {aead : Aead} {key : MasterKey} {o : Outside} {R : State → Prop} {s₀ s₁ : State} {b : Broker}
  {request : ConnectRequest} {label : Option String}

/-- The account's row as a connect stores it. -/
def State.stored (s : State) (o : Outside) (b : Broker) (accountId : String) (owner : Option String)
    (secrets : List EncryptedField) (symbols : List String) (label relabel : Option String) : State :=
  State.relabel { s with db := (s.db.insert b accountId owner secrets symbols label o.nowMs).2 } b
    (s.db.insert b accountId owner secrets symbols label o.nowMs).1 relabel

def State.verify (s : State) (o : Outside) (id : ℕ) : State :=
  { s with verifiedReadOnlyAt := Function.update s.verifiedReadOnlyAt id (some o.nowMs) }

theorem markVerified_spec {id : ℕ} : Triple (· = s₀) (markVerified o id) (fun _ s => s = s₀.verify o id) (refusing R) :=
  Triple.bind (statement_spec .markVerified) fun _ => Triple.modify fun s hs => by rw [hs]; rfl

/-- The check that most brokers make before anything is stored has passed. -/
def Opened (o : Outside) : Prop := o.credentials = .ok () ∧ o.readOnly = .ok ()

theorem opened_spec {α : Type} {k : ConnectM α} {Q : α → State → Prop} (hrefused : ¬ Opened o → R s₀)
    (hk : Opened o → Triple (· = s₀) k Q (refusing R)) :
    Triple (· = s₀) (do outcome o.credentials; outcome o.readOnly; k) Q (refusing R) := by
  refine Triple.bind (outcome_spec fun f s hfailed hs _ => ?_) fun _ => ?_
  · rw [hs]
    refine hrefused fun hopened => ?_
    rw [hopened.1] at hfailed
    cases hfailed
  refine Triple.assume (fun _ h => h.1) fun hcredentials => ?_
  refine Triple.bind (outcome_spec fun f s hfailed hs _ => ?_) fun _ => ?_
  · rw [hs.2]
    refine hrefused fun hopened => ?_
    rw [hopened.2] at hfailed
    cases hfailed
  refine Triple.assume (fun _ h => h.1) fun hreadOnly => ?_
  exact Triple.conseq (hk ⟨hcredentials, hreadOnly⟩) (fun _ hs => hs.2.2) (fun _ _ hQ => hQ) fun _ _ hE => hE

theorem stored_spec {α : Type} {k : ℕ → ConnectM α} {Q : α → State → Prop} (accountId : String)
    (owner : Option String) (secrets : List EncryptedField) (symbols : List String) (label relabel : Option String)
    (hk : ∀ id, id = (s₀.db.insert b accountId owner secrets symbols label o.nowMs).1 →
      Triple (· = s₀.stored o b accountId owner secrets symbols label relabel) (k id) Q (refusing R)) :
    Triple (· = s₀) (do
      let id ← insertConnection o b accountId owner secrets symbols label
      setLabel o b id relabel
      k id) Q (refusing R) := by
  refine Triple.bind (insert_spec accountId owner secrets symbols label) fun id => ?_
  refine Triple.assume (fun _ h => h.1) fun hid => ?_
  subst hid
  refine Triple.conseq ?_ (fun _ h => h.2) (fun _ _ hQ => hQ) fun _ _ hE => hE
  exact Triple.bind (setLabel_spec relabel) fun _ => hk _ rfl

/-- Coinbase and Interactive Brokers: only the first reading can still be refused once the row is stored. -/
theorem connectChecked_spec : Triple (· = s₀) (connectChecked aead key o b request label) (fun _ _ => True)
    (refusing fun s => ¬ Opened o ∧ s = s₀ ∨ Opened o ∧ ∃ secrets, secretsOf aead key o request b = .ok secrets ∧
      s = s₀.stored o b request.accountId none secrets [] none label) := by
  refine opened_spec (fun hnot => .inl ⟨hnot, rfl⟩) fun hopened => ?_
  refine Triple.bind (seal_spec request) fun secrets => ?_
  refine Triple.assume (fun _ h => h.1) fun hsealed => ?_
  refine Triple.conseq ?_ (fun _ h => h.2) (fun _ _ hQ => hQ) fun _ _ hE => hE
  refine stored_spec request.accountId none secrets [] none label fun id hid => ?_
  refine Triple.bind (findAgain_spec request.accountId) fun connection => ?_
  have hsync : Triple (· = s₀.stored o b request.accountId none secrets [] none label)
      (syncExchange o b connection.id) (fun _ _ => True)
      (refusing fun s => ¬ Opened o ∧ s = s₀ ∨ Opened o ∧ ∃ secrets, secretsOf aead key o request b = .ok secrets ∧
        s = s₀.stored o b request.accountId none secrets [] none label) :=
    Triple.conseq syncExchange_spec (fun _ hs => hs) (fun _ _ hQ => hQ)
      fun _ _ hE hne => .inr ⟨hopened, secrets, hsealed, hE hne⟩
  refine Triple.bind hsync fun _ => Triple.bind (statement_spec .summary) fun _ => Triple.pure fun _ _ => trivial

/-- Kraken, where the check is noted in the row besides. -/
theorem connectKraken_spec : Triple (· = s₀) (connectKraken aead key o request label) (fun _ _ => True)
    (refusing fun s => ¬ Opened o ∧ s = s₀ ∨ Opened o ∧ ∃ secrets, secretsOf aead key o request .kraken = .ok secrets ∧
      s = (s₀.stored o .kraken request.accountId none secrets [] none label).verify o
        (s₀.db.insert .kraken request.accountId none secrets [] none o.nowMs).1) := by
  refine opened_spec (fun hnot => .inl ⟨hnot, rfl⟩) fun hopened => ?_
  refine Triple.bind (seal_spec request) fun secrets => ?_
  refine Triple.assume (fun _ h => h.1) fun hsealed => ?_
  refine Triple.conseq ?_ (fun _ h => h.2) (fun _ _ hQ => hQ) fun _ _ hE => hE
  refine stored_spec request.accountId none secrets [] none label fun id hid => ?_
  subst hid
  refine Triple.bind (findAgain_spec request.accountId) fun connection => ?_
  refine Triple.bind markVerified_spec fun _ => ?_
  refine Triple.bind (Triple.conseq syncKraken_spec (fun _ hs => hs) (fun _ _ hQ => hQ)
    fun _ _ hE hne => .inr ⟨hopened, secrets, hsealed, hE hne⟩) fun _ => ?_
  exact Triple.bind (statement_spec .summary) fun _ => Triple.pure fun _ _ => trivial

/-- Binance, where the key is first used when the row is stored. -/
theorem connectBinance_spec : Triple (· = s₀) (connectBinance aead key o request label) (fun _ _ => True)
    (refusing fun s => ∃ secrets, secretsOf aead key o request .binance = .ok secrets ∧
      s = s₀.stored o .binance request.accountId none secrets request.symbols none label) := by
  refine Triple.bind (seal_spec request) fun secrets => ?_
  refine Triple.assume (fun _ h => h.1) fun hsealed => ?_
  refine Triple.conseq ?_ (fun _ h => h.2) (fun _ _ hQ => hQ) fun _ _ hE => hE
  refine stored_spec request.accountId none secrets request.symbols none label fun id hid => ?_
  refine Triple.bind (Triple.conseq syncBinance_spec (fun _ hs => hs) (fun _ _ hQ => hQ)
    fun _ _ hE hne => ⟨secrets, hsealed, hE hne⟩) fun _ => ?_
  exact Triple.pure fun _ _ => trivial

theorem insertWallet_spec : Triple (· = s₀) (insertWallet aead key o request label)
    (fun id s => ∃ owner secrets, ownerOf request.accountId = some owner ∧
      secretsOf aead key o request .wallet = .ok secrets ∧
      id = (s₀.db.insert .wallet request.accountId (some owner) secrets [] label o.nowMs).1 ∧
      s = s₀.stored o .wallet request.accountId (some owner) secrets [] label none) (refusing R) := by
  unfold insertWallet
  split
  next => exact Triple.throw fun _ _ => refusing_of_other rfl
  next owner howner =>
    refine Triple.bind (seal_spec request) fun secrets => ?_
    refine Triple.assume (fun _ h => h.1) fun hsealed => ?_
    refine Triple.conseq ?_ (fun _ h => h.2) (fun _ _ hQ => hQ) fun _ _ hE => hE
    refine Triple.bind get_spec fun s => ?_
    refine Triple.conseq ?_ (fun _ h => h.2) (fun _ _ hQ => hQ) fun _ _ hE => hE
    refine Triple.ite (fun _ => Triple.throw fun _ _ => refusing_of_other rfl) fun _ => ?_
    exact Triple.conseq (insert_spec request.accountId (some owner) secrets [] label) (fun _ hs => hs)
      (fun _ _ h => ⟨owner, secrets, howner, hsealed, h.1, h.2⟩) fun _ _ hE => hE

/-- The clean-up of a wallet that could not be read: the new row goes again, if it can be deleted. -/
def State.cleanUp (s : State) (o : Outside) (existing : Option Row) (id : ℕ) : State :=
  if existing.isNone = true ∧ o.fails .delete = false then { s with db := (s.db.delete .wallet id).2 } else s

theorem deleteQuietly_spec {existing : Option Row} {id : ℕ} {f : Failure} (h : existing.isNone = true) :
    Triple (refusing (· = s₁) f) (deleteQuietly o id) (fun _ => refusing (· = s₁.cleanUp o existing id) f)
      (refusing R) := by
  refine Triple.ite (fun hfails => Triple.pure fun s hs hne => ?_) fun hworks => Triple.modify fun s hs hne => ?_
  · rw [State.cleanUp, if_neg (fun hnot => by rw [hfails] at hnot; exact Bool.noConfusion hnot.2)]
    exact hs hne
  · rw [State.cleanUp, if_pos ⟨h, Bool.eq_false_of_not_eq_true hworks⟩, hs hne]

/-- The failure is thrown again, from the state that the clean-up leaves. -/
theorem cleanUp_spec {existing : Option Row} {id : ℕ} {f : Failure} :
    Triple (refusing (· = s₁) f) (do
      if existing.isNone then deleteQuietly o id
      throw f : ConnectM Unit) (fun _ _ => True) (refusing (· = s₁.cleanUp o existing id)) := by
  split
  next hnone => exact Triple.bind (deleteQuietly_spec hnone) fun _ => Triple.throw fun _ hs => hs
  next hsome =>
    refine Triple.throw fun s hs hne => ?_
    rw [State.cleanUp, if_neg fun hnot => hsome hnot.1]
    exact hs hne

theorem connectWallet_spec : Triple (· = s₀) (connectWallet aead key o request label) (fun _ _ => True)
    (refusing fun s => ∃ owner secrets, ownerOf request.accountId = some owner ∧
      secretsOf aead key o request .wallet = .ok secrets ∧ s =
        (s₀.stored o .wallet request.accountId (some owner) secrets [] label none).cleanUp o
          (s₀.db.find .wallet request.accountId)
          (s₀.db.insert .wallet request.accountId (some owner) secrets [] label o.nowMs).1) := by
  unfold connectWallet
  split
  on_goal 2 => exact Triple.throw fun _ _ => refusing_of_other rfl
  refine Triple.bind (statement_spec .settings) fun _ => ?_
  refine Triple.bind (find_spec .find request.accountId) fun existing => ?_
  refine Triple.assume (fun _ h => h.1) fun hexisting => ?_
  refine Triple.conseq ?_ (fun _ h => h.2) (fun _ _ hQ => hQ) fun _ _ hE => hE
  refine Triple.bind insertWallet_spec fun id => ?_
  refine Triple.ofExists fun owner => Triple.ofExists fun secrets => ?_
  refine Triple.assume (fun _ h => h.1) fun howner => ?_
  refine Triple.assume (fun _ h => h.2.1) fun hsealed => ?_
  refine Triple.assume (fun _ h => h.2.2.1) fun hid => ?_
  refine Triple.conseq ?_ (fun _ h => h.2.2.2) (fun _ _ hQ => hQ) fun _ _ hE => hE
  refine Triple.bind (findAgain_spec request.accountId) fun connection => ?_
  refine Triple.bind (statement_spec .read) fun _ => ?_
  refine Triple.bind (Triple.tryCatch syncWallet_spec fun f => ?_) fun _ => ?_
  · refine Triple.conseq cleanUp_spec (fun _ hs => hs) (fun _ _ hQ => hQ) fun _ s hs hne => ?_
    rw [hexisting, hid] at hs
    exact ⟨owner, secrets, howner, hsealed, hs hne⟩
  · exact Triple.bind (statement_spec .summary) fun _ => Triple.pure fun _ _ => trivial

end Branches

section Unchanged

/-- The five tables are as they were. -/
structure Unchanged (s s' : State) : Prop where
  tables : s'.db.tables = s.db.tables
  verified : ∀ c ∈ s.db.tables .kraken, s'.verifiedReadOnlyAt c.id = s.verifiedReadOnlyAt c.id

/-- An account's row when a credential is stored for it again. -/
def rewritten (c : Row) (secrets : List EncryptedField) (symbols : List String) (relabel : Option String) : Row :=
  { c with secrets, symbols, status := "active", label := relabel.or c.label }

variable {o : Outside} {s : State} {b : Broker} {accountId : String} {owner label relabel : Option String}
  {secrets : List EncryptedField} {symbols : List String} {c : Row}

theorem tables_setTable (db : Database (List EncryptedField)) (b : Broker) (table : List Row) :
    (db.setTable b table).tables = Function.update db.tables b table := rfl

theorem stored_verified : (s.stored o b accountId owner secrets symbols label relabel).verifiedReadOnlyAt =
    s.verifiedReadOnlyAt := by
  unfold State.stored State.relabel
  cases relabel <;> rfl

theorem cleanUp_verified {existing : Option Row} {id : ℕ} :
    (s.cleanUp o existing id).verifiedReadOnlyAt = s.verifiedReadOnlyAt := by
  unfold State.cleanUp
  split_ifs <;> rfl

theorem find_spec_of_sound (hs : Sound s.db) (hfind : s.db.find b accountId = some c) {r : Row}
    (hr : r ∈ s.db.tables b) : (r.accountId = accountId ↔ r = c) ∧ (r.id = c.id ↔ r = c) := by
  obtain ⟨hc, haccount⟩ := (Connections.find_eq_some_iff hs).1 hfind
  refine ⟨⟨fun h => ?_, fun h => h ▸ haccount⟩, ⟨fun h => ?_, fun h => h ▸ rfl⟩⟩
  · exact List.inj_on_of_nodup_map (hs.accounts b) hr hc (h.trans haccount.symm)
  · exact List.inj_on_of_nodup_map (hs.idsNodup b) hr hc h

/-- A new row is a row more. -/
theorem stored_fresh (hfind : s.db.find b accountId = none) :
    (s.stored o b accountId owner secrets symbols label relabel).db.tables ≠ s.db.tables := by
  intro h
  have hlength : ((s.stored o b accountId owner secrets symbols label relabel).db.tables b).length =
      (s.db.tables b).length + 1 := by
    unfold State.stored State.relabel Database.insert
    rw [hfind]
    cases relabel with
    | none => simp [Database.setTable]
    | some l => simp [Database.setLabel, Database.setTable]
  rw [h] at hlength
  omega

/-- Where the account has a row, that row is all that changes. -/
theorem stored_again (hs : Sound s.db) (hfind : s.db.find b accountId = some c) :
    (s.stored o b accountId owner secrets symbols label relabel).db.tables = Function.update s.db.tables b
      ((s.db.tables b).map fun r => if r = c then rewritten c secrets symbols relabel else r) := by
  have hwritten : ∀ r ∈ s.db.tables b, (if r.accountId = accountId then
      { r with secrets, symbols, status := "active" } else r) =
        if r = c then rewritten c secrets symbols none else r := by
    intro r hr
    by_cases h : r = c
    · rw [if_pos ((find_spec_of_sound hs hfind hr).1.2 h), if_pos h, h]
      rfl
    · rw [if_neg fun haccount => h ((find_spec_of_sound hs hfind hr).1.1 haccount), if_neg h]
  have hinserted : (s.db.insert b accountId owner secrets symbols label o.nowMs) =
      (c.id, s.db.setTable b ((s.db.tables b).map fun r => if r = c then rewritten c secrets symbols none else r)) := by
    unfold Database.insert
    rw [hfind]
    exact congrArg (fun table => (c.id, s.db.setTable b table)) (List.map_congr_left hwritten)
  unfold State.stored
  rw [hinserted]
  cases relabel with
  | none => rfl
  | some l =>
    show (Database.setLabel _ b c.id l).tables = _
    unfold Database.setLabel
    rw [tables_setTable, tables_setTable, Function.update_idem, Function.update_self, List.map_map]
    refine congrArg (Function.update s.db.tables b) (List.map_congr_left fun r hr => ?_)
    rw [Function.comp_apply]
    by_cases h : r = c
    · rw [if_pos h, if_pos h]
      exact if_pos rfl
    · rw [if_neg h, if_neg h]
      exact if_neg fun hid => h ((find_spec_of_sound hs hfind hr).2.1 hid)

theorem stored_again_eq_iff (hs : Sound s.db) (hfind : s.db.find b accountId = some c) :
    (s.stored o b accountId owner secrets symbols label relabel).db.tables = s.db.tables ↔
      rewritten c secrets symbols relabel = c := by
  rw [stored_again hs hfind, Function.update_eq_self_iff]
  constructor
  · intro h
    have hmap : (s.db.tables b).map (fun r => if r = c then rewritten c secrets symbols relabel else r) =
        (s.db.tables b).map id := by rw [h, List.map_id]
    have hrow := List.map_inj_left.1 hmap c ((Connections.find_eq_some_iff hs).1 hfind).1
    rwa [if_pos rfl] at hrow
  · intro h
    conv_rhs => rw [← List.map_id (s.db.tables b)]
    refine List.map_congr_left fun r _ => ?_
    split_ifs with hr
    · rw [h, hr, id]
    · rfl

/-- The clean-up takes the new row away, and only that. -/
theorem cleanUp_fresh (hs : Sound s.db) (hfind : s.db.find .wallet accountId = none) (hdelete : o.fails .delete = false) :
    ((s.stored o .wallet accountId owner secrets [] label none).cleanUp o none
      (s.db.insert .wallet accountId owner secrets [] label o.nowMs).1).db.tables = s.db.tables := by
  unfold State.cleanUp
  rw [if_pos ⟨rfl, hdelete⟩]
  unfold State.stored State.relabel Database.insert
  rw [hfind]
  dsimp only [Database.delete]
  rw [tables_setTable]
  show Function.update (Function.update s.db.tables .wallet (s.db.tables .wallet ++ [_])) .wallet _ = _
  rw [Function.update_idem, Function.update_eq_self_iff]
  show List.filter _ (Function.update s.db.tables .wallet (s.db.tables .wallet ++ [_]) .wallet) = _
  rw [Function.update_self, List.filter_append, List.filter_eq_self.2 ?_, List.filter_eq_nil_iff.2 ?_, List.append_nil]
  · intro r hr
    rw [List.mem_singleton] at hr
    subst hr
    simp
  · intro r hr
    have := hs.ids .wallet r hr
    exact decide_eq_true this.ne

variable (aead : Aead) (key : MasterKey) (o : Outside) (s : State) (request : ConnectRequest)

/-- The account's row holds already, to the byte, what would be stored. -/
def Holds (b : Broker) (symbols : List String) (relabel : Option String) : Prop :=
  ∃ c secrets, s.db.find b request.accountId = some c ∧ secretsOf aead key o request b = .ok secrets ∧
    c.secrets = secrets ∧ c.symbols = symbols ∧ c.status = "active" ∧ ∀ l, relabel = some l → c.label = some l

/-- When a refused connect changes nothing: the credential was refused before its row was stored, the new row
of a wallet could be deleted, or the row was stored as it was. -/
def Harmless : Prop :=
  match brokerOf request.exchange with
  | .binance => Holds aead key o s request .binance request.symbols (labelOf request)
  | .kraken => ¬ Opened o ∨ Holds aead key o s request .kraken [] (labelOf request) ∧
      ∀ c, s.db.find .kraken request.accountId = some c → s.verifiedReadOnlyAt c.id = some o.nowMs
  | .wallet => s.db.find .wallet request.accountId = none ∧ o.fails .delete = false ∨
      Holds aead key o s request .wallet [] none
  | b => ¬ Opened o ∨ Holds aead key o s request b [] (labelOf request)

variable {aead key o s request}

theorem rewritten_eq_iff : rewritten c secrets symbols relabel = c ↔ c.secrets = secrets ∧ c.symbols = symbols ∧
    c.status = "active" ∧ ∀ l, relabel = some l → c.label = some l := by
  obtain ⟨id, accountId, ownerAddress, secrets', symbols', label', status, createdAtMs, lastSyncedAt⟩ := c
  unfold rewritten
  rw [Connections.Connection.mk.injEq]
  cases relabel with
  | none => simp [eq_comm]
  | some l => simp [eq_comm, and_comm]

/-- What was stored for the account is what was there if it was there. -/
theorem stored_eq_iff (hs : Sound s.db) (hsealed : secretsOf aead key o request b = .ok secrets) :
    (s.stored o b request.accountId owner secrets symbols label relabel).db.tables = s.db.tables ↔
      Holds aead key o s request b symbols relabel := by
  cases hfind : s.db.find b request.accountId with
  | none =>
    refine ⟨fun h => absurd h (stored_fresh hfind), fun ⟨c, _, hc, _⟩ => ?_⟩
    rw [hfind] at hc
    cases hc
  | some c =>
    rw [stored_again_eq_iff hs hfind, rewritten_eq_iff]
    constructor
    · intro h
      exact ⟨c, secrets, hfind, hsealed, h⟩
    · intro ⟨c', secrets', hc', hsealed', h⟩
      rw [hfind] at hc'
      rw [hsealed] at hsealed'
      cases hc'
      cases hsealed'
      exact h

/-- Of Kraken's rows, only one that was there has a time to compare. -/
theorem verified_iff (hs : Sound s.db) (hsealed : secretsOf aead key o request .kraken = .ok secrets) :
    Unchanged s ((s.stored o .kraken request.accountId owner secrets [] label relabel).verify o
      (s.db.insert .kraken request.accountId owner secrets [] label o.nowMs).1) ↔
      Holds aead key o s request .kraken [] relabel ∧
        ∀ c, s.db.find .kraken request.accountId = some c → s.verifiedReadOnlyAt c.id = some o.nowMs := by
  have hid : ∀ c, s.db.find .kraken request.accountId = some c →
      (s.db.insert .kraken request.accountId owner secrets [] label o.nowMs).1 = c.id := by
    intro c hc
    unfold Database.insert
    rw [hc]
  constructor
  · intro h
    refine ⟨(stored_eq_iff hs hsealed).1 h.tables, fun c hc => ?_⟩
    have hverified := h.verified c ((Connections.find_eq_some_iff hs).1 hc).1
    rw [← hverified, ← hid c hc]
    exact Function.update_self ..
  · intro ⟨hholds, htime⟩
    have hrow := hholds
    obtain ⟨c, -, hc, -⟩ := hrow
    refine ⟨(stored_eq_iff hs hsealed).2 hholds, fun r hr => ?_⟩
    show Function.update (s.stored ..).verifiedReadOnlyAt _ _ r.id = _
    rw [stored_verified, hid c hc]
    by_cases hsame : r.id = c.id
    · rw [hsame, Function.update_self, htime c hc]
    · rw [Function.update_of_ne hsame]

theorem unchanged_iff {s' : State} (h : s'.verifiedReadOnlyAt = s.verifiedReadOnlyAt) :
    Unchanged s s' ↔ s'.db.tables = s.db.tables :=
  ⟨Unchanged.tables, fun htables => ⟨htables, fun _ _ => by rw [h]⟩⟩

/-- Where the check comes first, what is stored has passed it. -/
theorem checked (hs : Sound s.db) {s' : State}
    (h : ¬ Opened o ∧ s' = s ∨ Opened o ∧ ∃ secrets, secretsOf aead key o request b = .ok secrets ∧
      s' = s.stored o b request.accountId none secrets [] none label) :
    Unchanged s s' ↔ ¬ Opened o ∨ Holds aead key o s request b [] label := by
  rcases h with ⟨hnot, rfl⟩ | ⟨hopened, secrets, hsealed, rfl⟩
  · exact iff_of_true ⟨rfl, fun _ _ => rfl⟩ (.inl hnot)
  · rw [unchanged_iff stored_verified, stored_eq_iff hs hsealed]
    exact (or_iff_right (not_not.2 hopened)).symm

/-- A refused connect, or one of a wallet of which no network could be read, leaves the tables as they were
exactly if the refusal came before the row was stored, the row could be taken away again, or it was there. -/
theorem refused_connect_unchanged_iff (hs : Sound s.db) {f : Failure}
    (hthrown : thrown (runConnect aead key o request s) = some f) (hcause : f.cause ≠ .other) :
    Unchanged s (final (runConnect aead key o request s)) ↔ Harmless aead key o s request := by
  have hself : Unchanged s s := ⟨rfl, fun _ _ => rfl⟩
  have hleft : ∀ {R : State → Prop}, Triple (· = s) (runConnect aead key o request) (fun _ _ => True) (refusing R) →
      R (final (runConnect aead key o request s)) := by
    intro R htriple
    have hend := htriple s rfl
    cases hrun : runConnect aead key o request s with
    | ok id s' =>
      rw [hrun] at hthrown
      cases hthrown
    | error f' s' =>
      rw [hrun] at hthrown hend
      cases hthrown
      exact hend hcause
  generalize final (runConnect aead key o request s) = s' at hleft
  unfold runConnect at hleft
  unfold Harmless
  cases hb : brokerOf request.exchange with
  | binance =>
    rw [hb] at hleft
    dsimp only at hleft
    obtain ⟨secrets, hsealed, rfl⟩ := hleft (started_spec connectBinance_spec)
    rw [unchanged_iff stored_verified]
    exact stored_eq_iff hs hsealed
  | coinbase =>
    rw [hb] at hleft
    dsimp only at hleft
    exact checked hs (hleft (started_spec connectChecked_spec))
  | ibkr =>
    rw [hb] at hleft
    dsimp only at hleft
    exact checked hs (hleft (started_spec connectChecked_spec))
  | kraken =>
    rw [hb] at hleft
    dsimp only at hleft
    rcases hleft (started_spec connectKraken_spec) with
      ⟨hnot, rfl⟩ | ⟨hopened, secrets, hsealed, rfl⟩
    · exact iff_of_true hself (.inl hnot)
    · rw [verified_iff hs hsealed]
      exact (or_iff_right (not_not.2 hopened)).symm
  | wallet =>
    rw [hb] at hleft
    dsimp only at hleft
    obtain ⟨owner, secrets, howner, hsealed, rfl⟩ := hleft (started_spec connectWallet_spec)
    rw [unchanged_iff (cleanUp_verified.trans stored_verified)]
    by_cases hcleaned : s.db.find .wallet request.accountId = none ∧ o.fails .delete = false
    · refine iff_of_true ?_ (.inl hcleaned)
      rw [hcleaned.1]
      exact cleanUp_fresh hs hcleaned.1 hcleaned.2
    · unfold State.cleanUp
      rw [if_neg (by rwa [Option.isNone_iff_eq_none]), stored_eq_iff hs hsealed]
      exact (or_iff_right hcleaned).symm

end Unchanged

section Refused

open Rekey (labelling rotated someNonce)

/-- An exchange that refuses the key, for it can trade. -/
def refusal : Outside where
  nowMs := 0
  nonce _ := someNonce
  fails _ := false
  credentials := .ok ()
  readOnly := .error ⟨.refused, "apiRestrictions rejected"⟩
  fetched := .ok []
  busy := false
  networks := []

def requestTo (exchange : String) : ConnectRequest := ⟨"a", some exchange, "k", "s", "n", "p", "", "", "", none, []⟩

def nothingStored : State := ⟨Database.init _, fun _ => none⟩

/-- The key of a new account at Binance is refused, and stays stored where the scheduler looks for keys. -/
theorem refused_key_stored :
    thrown (runConnect labelling rotated refusal (requestTo "binance") nothingStored) =
      some ⟨.refused, "apiRestrictions rejected"⟩ ∧
    ((final (runConnect labelling rotated refusal (requestTo "binance") nothingStored)).db.tables .binance).map
      (fun c => (c.accountId, c.status)) = [("a", "active")] ∧
    ¬ Unchanged nothingStored (final (runConnect labelling rotated refusal (requestTo "binance") nothingStored)) := by
  have hstored : ((final (runConnect labelling rotated refusal (requestTo "binance") nothingStored)).db.tables
      .binance).map (fun c => (c.accountId, c.status)) = [("a", "active")] := by decide +kernel
  refine ⟨by decide +kernel, hstored, fun h => ?_⟩
  rw [h.tables] at hstored
  cases hstored

theorem refused_connect_unchanged_iff_coinbase :
    Unchanged nothingStored (final (runConnect labelling rotated refusal (requestTo "coinbase") nothingStored)) ↔
      Harmless labelling rotated refusal nothingStored (requestTo "coinbase") :=
  refused_connect_unchanged_iff (f := ⟨.refused, "apiRestrictions rejected"⟩) Connections.sound_init
    (by decide +kernel) (by decide)

end Refused

end Linvesther.Worker.Connect
