import Linvesther.Base.RelyGuarantee
import Linvesther.Worker.Connections
import Linvesther.Worker.Crypto

/-! `rekey.rs`: every stored credential that is not in the current format under the current key is encrypted
again. The rows of a table are read at once and written back one by one, and accounts are connected meanwhile. -/

namespace Linvesther.Worker.Rekey

open Interleaving
open Collector (Bytes Key Nonce)
open Connections (Broker Broker.name Connection Database ownerOf Sound)

section Program

abbrev Row := Connection (List EncryptedField)

/-- The tables, and beside them the credential that was last connected for an account. -/
structure State where
  db : Database (List EncryptedField)
  connected : Broker → String → Option (List String)

/-- The names of the fields that a row stores encrypted. -/
def fields : Broker → List String
  | .binance => ["api_key", "api_secret"]
  | .coinbase => ["key_name", "private_key"]
  | .ibkr => ["token", "query_id"]
  | .kraken => ["api_key", "api_secret"]
  | .wallet => ["address"]

def TABLES : List Broker := [.binance, .coinbase, .ibkr, .kraken, .wallet]

structure RekeyReport where
  scanned : ℕ
  upgraded : ℕ
  alreadyCurrent : ℕ
  unreadable : List String
deriving DecidableEq

inductive Query where
  /-- Random bytes for a nonce. -/
  | draw
  | select (b : Broker)
  | update (b : Broker) (id : ℕ) (fresh : List EncryptedField)
  /-- The other wallets of an owner. -/
  | wallets (owner accountId : String)
  /-- `credential` is what the secrets were encrypted from; the table does not see it. -/
  | insert (b : Broker) (accountId : String) (ownerAddress : Option String) (credential : List String)
      (secrets : List EncryptedField) (symbols : List String) (label : Option String)

structure Input where
  fails : Bool
  nonce : Nonce
  now : ℕ

abbrev Answered : Query → Type
  | .draw => Nonce
  | .select _ => List Row
  | .update .. => Unit
  | .wallets _ _ => List Row
  | .insert .. => ℕ

abbrev Reply (q : Query) : Type := Except String (Answered q)

/-- `UPDATE … SET … WHERE id`. -/
def setSecrets (db : Database (List EncryptedField)) (b : Broker) (id : ℕ) (fresh : List EncryptedField) :
    Database (List EncryptedField) :=
  db.setTable b ((db.tables b).map fun r => if r.id = id then { r with secrets := fresh } else r)

def State.connect (s : State) (b : Broker) (accountId : String) (credential : List String)
    (db : Database (List EncryptedField)) : State :=
  ⟨db, fun b' accountId' =>
    if b' = b ∧ accountId' = accountId then some credential else s.connected b' accountId'⟩

def serve (q : Query) (input : Input) (s : State) : Reply q × State :=
  if input.fails then (.error "failed", s)
  else
    match q with
    | .draw => (.ok input.nonce, s)
    | .select b => (.ok (s.db.tables b), s)
    | .update b id fresh => (.ok (), { s with db := setSecrets s.db b id fresh })
    | .wallets owner accountId =>
      (.ok ((s.db.tables .wallet).filter fun c => c.ownerAddress = some owner ∧ c.accountId ≠ accountId), s)
    | .insert b accountId ownerAddress credential secrets symbols label =>
      let inserted := s.db.insert b accountId ownerAddress secrets symbols label input.now
      (.ok inserted.1, s.connect b accountId credential inserted.2)

abbrev RekeyM := ExceptT String (Process Query Reply)

def ask (q : Query) : RekeyM (Answered q) := ExceptT.mk (.ask q .done)

variable (aead : Aead) (key : MasterKey)

def contextOf (b : Broker) (accountId name : String) : String := credentialContext b.name accountId name

/-- The nonce column of a field, and the field decrypted. -/
def openField (b : Broker) (accountId name : String) (e : EncryptedField) : Option (Nonce × String) :=
  (nonceOf e.nonce).bind fun nonce =>
    (decrypt aead key e.ciphertext nonce (contextOf b accountId name)).map fun plain => (nonce, plain)

/-- The fields to write, and whether any of them changed; nothing when one cannot be read or written. -/
def refresh (b : Broker) (accountId : String) :
    List String → List EncryptedField → Process Query Reply (Option (List EncryptedField × Bool))
  | name :: names, e :: secrets =>
    match openField aead key b accountId name e with
    | none => .done none
    | some (nonce, plain) =>
      if isCurrent aead key e.ciphertext nonce (contextOf b accountId name) then
        refresh b accountId names secrets >>= fun rest =>
          .done (rest.map fun (fresh, needsUpdate) => (e :: fresh, needsUpdate))
      else
        .ask .draw fun
          | .error _ => .done none
          | .ok drawn =>
            match encrypt aead key drawn plain (contextOf b accountId name) with
            | none => .done none
            | some encrypted =>
              refresh b accountId names secrets >>= fun rest =>
                .done (rest.map fun (fresh, _) => (encrypted :: fresh, true))
  | _, _ => .done (some ([], false))

def runRow (write : Bool) (b : Broker) (report : RekeyReport) (row : Row) : RekeyM RekeyReport := do
  let report := { report with scanned := report.scanned + 1 }
  match ← ExceptT.lift (refresh aead key b row.accountId (fields b) row.secrets) with
  | none => pure { report with unreadable := report.unreadable ++ [row.accountId] }
  | some (_, false) => pure { report with alreadyCurrent := report.alreadyCurrent + 1 }
  | some (fresh, true) =>
    if write then
      ask (.update b row.id fresh)
      pure { report with upgraded := report.upgraded + 1 }
    else pure { report with upgraded := report.upgraded + 1 }

def runTable (write : Bool) (report : RekeyReport) (b : Broker) : RekeyM RekeyReport := do
  let rows ← ask (.select b)
  rows.foldlM (runRow aead key write b) report

/-- `rekey` writes, `check` does not. -/
def run (write : Bool) : RekeyM RekeyReport :=
  TABLES.foldlM (runTable aead key write) ⟨0, 0, 0, []⟩

def encryptFields (b : Broker) (accountId : String) (credential : String → String) :
    List String → RekeyM (List EncryptedField)
  | [] => pure []
  | name :: names => do
    let drawn ← ask .draw
    match encrypt aead key drawn (credential name) (contextOf b accountId name) with
    | none => throw "encryption failed"
    | some encrypted => do
      let rest ← encryptFields b accountId credential names
      pure (encrypted :: rest)

/-- What the secrets of a row decrypt to, each under its own context. -/
def decryptFields (b : Broker) (accountId : String) : List String → List EncryptedField → Option (List String)
  | name :: names, e :: secrets =>
    (openField aead key b accountId name e).bind fun (_, plain) =>
      (decryptFields b accountId names secrets).map fun rest => plain :: rest
  | _, _ => some []

def lowercase (text : String) : String := String.ofList (text.toList.map Char.toLower)

/-- `insert_connection` of each broker, with the encryption before it. Only a wallet's address is compared
with what the owner has connected. -/
def insertConnection (b : Broker) (accountId : String) (credential : String → String) (symbols : List String)
    (label : Option String) : RekeyM ℕ :=
  match b with
  | .wallet =>
    match ownerOf accountId with
    | none => throw "the account id does not begin with an owner address"
    | some owner => do
      let address := fun name => lowercase (credential name)
      let secrets ← encryptFields aead key .wallet accountId address (fields .wallet)
      let existing ← ask (.wallets owner accountId)
      if existing.any fun c =>
          decryptFields aead key .wallet c.accountId (fields .wallet) c.secrets =
            some ((fields .wallet).map address) then
        throw "this wallet is already connected"
      else
        ask (.insert .wallet accountId (some owner) ((fields .wallet).map address) secrets [] label)
  | b => do
    let secrets ← encryptFields aead key b accountId credential (fields b)
    ask (.insert b accountId none ((fields b).map credential) secrets symbols none)

inductive Call where
  | run (write : Bool)
  | insertConnection (b : Broker) (accountId : String) (credential : String → String) (symbols : List String)
      (label : Option String)

inductive Answer where
  | report (report : RekeyReport)
  | connected (id : ℕ)

def program : Call → Process Query Reply (Except String Answer)
  | .run write => ExceptT.run do
    let report ← run aead key write
    pure (.report report)
  | .insertConnection b accountId credential symbols label => ExceptT.run do
    let id ← insertConnection aead key b accountId credential symbols label
    pure (.connected id)

abbrev RekeyWorld := Interleaving.World Query Reply (Except String Answer) Call State

/-- What is stored for an account, as it decrypts. -/
def stored (b : Broker) (row : Row) : Option (List String) :=
  decryptFields aead key b row.accountId (fields b) row.secrets

/-- Before any call the credential last connected is the one that is stored. -/
def initial (db : Database (List EncryptedField)) : RekeyWorld :=
  ⟨⟨db, fun b accountId => (db.find b accountId).bind (stored aead key b)⟩, fun _ => none⟩

end Program

section Statements

variable {aead : Aead} {key : MasterKey} {s s' : State}

/-- Every field decrypts, and is in the current format under the current key. -/
def upToDate (aead : Aead) (key : MasterKey) (b : Broker) (accountId : String) :
    List String → List EncryptedField → Bool
  | name :: names, e :: secrets =>
    ((openField aead key b accountId name e).any fun (nonce, _) =>
      isCurrent aead key e.ciphertext nonce (contextOf b accountId name)) &&
      upToDate aead key b accountId names secrets
  | _, _ => true

theorem upToDate_cons (b : Broker) (accountId name : String) (names : List String) (e : EncryptedField)
    (secrets : List EncryptedField) : upToDate aead key b accountId (name :: names) (e :: secrets) =
      (((openField aead key b accountId name e).any fun (nonce, _) =>
        isCurrent aead key e.ciphertext nonce (contextOf b accountId name)) &&
        upToDate aead key b accountId names secrets) := rfl

theorem decryptFields_cons (b : Broker) (accountId name : String) (names : List String) (e : EncryptedField)
    (secrets : List EncryptedField) : decryptFields aead key b accountId (name :: names) (e :: secrets) =
      (openField aead key b accountId name e).bind fun (_, plain) =>
        (decryptFields aead key b accountId names secrets).map fun rest => plain :: rest := rfl

theorem decryptFields_of_upToDate {b : Broker} {accountId : String} {names : List String}
    {secrets : List EncryptedField} (h : upToDate aead key b accountId names secrets = true) :
    (decryptFields aead key b accountId names secrets).isSome = true := by
  induction names generalizing secrets with
  | nil => rfl
  | cons name names ih =>
    cases secrets with
    | nil => rfl
    | cons e secrets =>
      rw [upToDate_cons, Bool.and_eq_true] at h
      rw [decryptFields_cons]
      obtain ⟨hfield, hrest⟩ := h
      cases hopen : openField aead key b accountId name e with
      | none =>
        rw [hopen] at hfield
        cases hfield
      | some found =>
        rw [Option.bind_some, Option.isSome_map]
        exact ih hrest

def Current (aead : Aead) (key : MasterKey) (b : Broker) (row : Row) : Prop :=
  upToDate aead key b row.accountId (fields b) row.secrets = true

theorem Current.stored {b : Broker} {row : Row} (h : Current aead key b row) :
    (stored aead key b row).isSome = true := decryptFields_of_upToDate h

/-- The same connection with the same secrets. -/
structure Same (c c' : Row) : Prop where
  id : c.id = c'.id
  accountId : c.accountId = c'.accountId
  secrets : c.secrets = c'.secrets

theorem Same.stored {b : Broker} {c c' : Row} (h : Same c c') :
    stored aead key b c = stored aead key b c' := by
  rw [Rekey.stored, Rekey.stored, h.accountId, h.secrets]

theorem Same.current {b : Broker} {c c' : Row} (h : Same c c') (hc : Current aead key b c) :
    Current aead key b c' := by
  rw [Current, ← h.accountId, ← h.secrets]
  exact hc

/-- What can become of the tables: rows stay as they are or become current, and ids stay with their account. -/
structure Later (aead : Aead) (key : MasterKey) (s s' : State) : Prop where
  sound : Sound s'.db
  nextId : s.db.nextId ≤ s'.db.nextId
  rows : ∀ b, ∀ c' ∈ s'.db.tables b, Current aead key b c' ∨ ∃ c ∈ s.db.tables b, Same c c'
  accounts : ∀ b, ∀ c' ∈ s'.db.tables b, c'.id < s.db.nextId →
    ∃ c ∈ s.db.tables b, c.id = c'.id ∧ c.accountId = c'.accountId

theorem Later.refl (h : Sound s.db) : Later aead key s s :=
  ⟨h, le_refl _, fun _ c' hc' => .inr ⟨c', hc', rfl, rfl, rfl⟩, fun _ c' hc' _ => ⟨c', hc', rfl, rfl⟩⟩

theorem Later.refl_right (h : Later aead key s s') : Later aead key s' s' := .refl h.sound

theorem Later.trans {s'' : State} (h : Later aead key s s') (h' : Later aead key s' s'') :
    Later aead key s s'' := by
  refine ⟨h'.sound, h.nextId.trans h'.nextId, fun b c'' hc'' => ?_, fun b c'' hc'' hid => ?_⟩
  · rcases h'.rows b c'' hc'' with hcurrent | ⟨c', hc', hsame'⟩
    · exact .inl hcurrent
    · rcases h.rows b c' hc' with hcurrent | ⟨c, hc, hsame⟩
      · exact .inl (hsame'.current hcurrent)
      · exact .inr ⟨c, hc, hsame.id.trans hsame'.id, hsame.accountId.trans hsame'.accountId,
          hsame.secrets.trans hsame'.secrets⟩
  · obtain ⟨c', hc', hid', haccount'⟩ := h'.accounts b c'' hc'' (hid.trans_le h.nextId)
    obtain ⟨c, hc, hid'', haccount⟩ := h.accounts b c' hc' (hid' ▸ hid)
    exact ⟨c, hc, hid''.trans hid', haccount.trans haccount'⟩

/-- What is written is current: a run writes over a row that it can read, who connects inserts what decrypts
to the credential. -/
def Asks (aead : Aead) (key : MasterKey) : Call → Query → State → Prop
  | .run _, .update b id fresh, s => ∀ c ∈ s.db.tables b, c.id = id →
      upToDate aead key b c.accountId (fields b) fresh = true ∧ (stored aead key b c).isSome = true
  | .insertConnection b accountId _ _ _, .insert b' accountId' _ credential secrets _ _, _ =>
      b' = b ∧ accountId' = accountId ∧ upToDate aead key b accountId (fields b) secrets = true ∧
        decryptFields aead key b accountId (fields b) secrets = some credential
  | _, .update .., _ => False
  | _, .insert .., _ => False
  | _, _, _ => True

theorem asks_update {call : Call} {b : Broker} {id : ℕ} {fresh : List EncryptedField}
    (h : Asks aead key call (.update b id fresh) s) : ∀ c ∈ s.db.tables b, c.id = id →
      upToDate aead key b c.accountId (fields b) fresh = true ∧ (stored aead key b c).isSome = true := by
  cases call with
  | run write => exact h
  | insertConnection b' accountId credential symbols label => exact h.elim

theorem asks_insert {call : Call} {b : Broker} {accountId : String} {ownerAddress label : Option String}
    {credential symbols : List String} {secrets : List EncryptedField}
    (h : Asks aead key call (.insert b accountId ownerAddress credential secrets symbols label) s) :
    upToDate aead key b accountId (fields b) secrets = true ∧
      decryptFields aead key b accountId (fields b) secrets = some credential := by
  cases call with
  | run write => exact h.elim
  | insertConnection b' accountId' credential' symbols' label' =>
    obtain ⟨rfl, rfl, hcurrent, hdecrypts⟩ := h
    exact ⟨hcurrent, hdecrypts⟩

/-- The tables after a change to one of them. -/
theorem mem_setTable {db : Database (List EncryptedField)} {b b' : Broker} {table : List Row} {c : Row} :
    c ∈ (db.setTable b table).tables b' ↔ if b' = b then c ∈ table else c ∈ db.tables b' := by
  unfold Database.setTable
  dsimp only
  by_cases h : b' = b
  · subst h
    rw [Function.update_self, if_pos rfl]
  · rw [Function.update_of_ne h, if_neg h]

/-- A row after an update: another one as it was, or the one that the values are written to. -/
theorem mem_setSecrets {db : Database (List EncryptedField)} {b b' : Broker} {id : ℕ}
    {fresh : List EncryptedField} {c' : Row} :
    c' ∈ (setSecrets db b id fresh).tables b' ↔
      (c' ∈ db.tables b' ∧ ¬ (b' = b ∧ c'.id = id)) ∨
        ∃ c ∈ db.tables b', b' = b ∧ c.id = id ∧ c' = { c with secrets := fresh } := by
  unfold setSecrets
  rw [mem_setTable]
  by_cases hb : b' = b
  · subst hb
    rw [if_pos rfl, List.mem_map]
    constructor
    · intro ⟨c, hc, heq⟩
      split_ifs at heq with hid
      · exact .inr ⟨c, hc, rfl, hid, heq.symm⟩
      · exact .inl ⟨heq ▸ hc, fun hsame => hid (heq ▸ hsame.2)⟩
    · intro h
      rcases h with ⟨hc, hother⟩ | ⟨c, hc, -, hid, rfl⟩
      · exact ⟨c', hc, if_neg fun hid => hother ⟨rfl, hid⟩⟩
      · exact ⟨c, hc, if_pos hid⟩
  · rw [if_neg hb]
    constructor
    · exact fun hc => .inl ⟨hc, fun hsame => hb hsame.1⟩
    · intro h
      rcases h with ⟨hc, -⟩ | ⟨c, -, hsame, -⟩
      · exact hc
      · exact absurd hsame hb

/-- A row after an insert: another account's as it was, or one of the account with the secrets inserted. -/
theorem mem_insert {db : Database (List EncryptedField)} {b b' : Broker} {accountId : String}
    {ownerAddress label : Option String} {secrets : List EncryptedField} {symbols : List String} {now : ℕ}
    {c' : Row} (h : c' ∈ (db.insert b accountId ownerAddress secrets symbols label now).2.tables b') :
    (c' ∈ db.tables b' ∧ ¬ (b' = b ∧ c'.accountId = accountId)) ∨
      (b' = b ∧ c'.accountId = accountId ∧ c'.secrets = secrets ∧
        (c'.id = db.nextId ∨ ∃ c ∈ db.tables b', c.id = c'.id ∧ c.accountId = c'.accountId)) := by
  unfold Database.insert at h
  cases hfind : db.find b accountId with
  | some found =>
    rw [hfind] at h
    dsimp only at h
    rw [mem_setTable] at h
    split_ifs at h with hb
    · obtain ⟨c, hc, rfl⟩ := List.mem_map.1 h
      split_ifs with haccount
      · exact .inr ⟨hb, haccount, rfl, .inr ⟨c, hb ▸ hc, rfl, rfl⟩⟩
      · exact .inl ⟨hb ▸ hc, fun hsame => haccount hsame.2⟩
    · exact .inl ⟨h, fun hsame => hb hsame.1⟩
  | none =>
    rw [hfind] at h
    change c' ∈ (db.setTable b (db.tables b ++ [_])).tables b' at h
    rw [mem_setTable] at h
    split_ifs at h with hb
    · rcases List.mem_append.1 h with hold | hnew
      · refine .inl ⟨hb ▸ hold, fun hsame => ?_⟩
        exact Connections.find_eq_none_iff.1 hfind (List.mem_map.2 ⟨c', hold, hsame.2⟩)
      · rw [List.mem_singleton.1 hnew]
        exact .inr ⟨hb, rfl, rfl, .inl rfl⟩
    · exact .inl ⟨h, fun hsame => hb hsame.1⟩

theorem insert_kept {db : Database (List EncryptedField)} {b b' : Broker} {accountId : String}
    {ownerAddress label : Option String} {secrets : List EncryptedField} {symbols : List String} {now : ℕ}
    {c : Row} (h : c ∈ db.tables b') (hother : ¬ (b' = b ∧ c.accountId = accountId)) :
    c ∈ (db.insert b accountId ownerAddress secrets symbols label now).2.tables b' := by
  unfold Database.insert
  cases db.find b accountId with
  | some found =>
    dsimp only
    rw [mem_setTable]
    split_ifs with hb
    · exact List.mem_map.2 ⟨c, hb ▸ h, if_neg fun haccount => hother ⟨hb, haccount⟩⟩
    · exact h
  | none =>
    change c ∈ (db.setTable b (db.tables b ++ [_])).tables b'
    rw [mem_setTable]
    split_ifs with hb
    · exact List.mem_append_left _ (hb ▸ h)
    · exact h

theorem insert_sound {db : Database (List EncryptedField)} (h : Sound db) (b : Broker) (accountId : String)
    (ownerAddress : Option String) (secrets : List EncryptedField) (symbols : List String)
    (label : Option String) (now : ℕ) :
    Sound (db.insert b accountId ownerAddress secrets symbols label now).2 ∧
      db.nextId ≤ (db.insert b accountId ownerAddress secrets symbols label now).2.nextId := by
  rcases Connections.insert_effect db b accountId ownerAddress secrets symbols label now with
    ⟨-, hkeeps⟩ | hadds
  · exact ⟨hkeeps.sound h, hkeeps.nextId.ge⟩
  · exact ⟨hadds.sound h, hadds.nextId ▸ Nat.le_succ _⟩

/-- Whatever is asked as it may be, the tables only get later. -/
theorem serve_later {call : Call} (q : Query) (input : Input) (h : Later aead key s s)
    (hasks : Asks aead key call q s) :
    Later aead key s (serve q input s).2 := by
  unfold serve
  by_cases hfails : input.fails = true
  · rw [if_pos hfails]
    exact h
  rw [if_neg hfails]
  cases q with
  | draw => exact h
  | select b => exact h
  | wallets owner accountId => exact h
  | update b id fresh =>
    have hwritten := asks_update hasks
    refine ⟨?_, le_refl _, fun b' c' hc' => ?_, fun b' c' hc' _ => ?_⟩
    · refine (Connections.keeps_setTable_map s.db b _ fun c => ?_).sound h.sound
      split_ifs <;> exact ⟨rfl, rfl⟩
    · rcases mem_setSecrets.1 hc' with ⟨hold, -⟩ | ⟨c, hc, rfl, hid, rfl⟩
      · exact .inr ⟨c', hold, rfl, rfl, rfl⟩
      · exact .inl (hwritten c hc hid).1
    · rcases mem_setSecrets.1 hc' with ⟨hold, -⟩ | ⟨c, hc, -, -, rfl⟩
      · exact ⟨c', hold, rfl, rfl⟩
      · exact ⟨c, hc, rfl, rfl⟩
  | insert b accountId ownerAddress credential secrets symbols label =>
    obtain ⟨hcurrent, -⟩ := asks_insert hasks
    obtain ⟨hsound, hnext⟩ := insert_sound h.sound b accountId ownerAddress secrets symbols label input.now
    refine ⟨hsound, hnext, fun b' c' hc' => ?_, fun b' c' hc' hid => ?_⟩
    · rcases mem_insert hc' with ⟨hold, -⟩ | ⟨rfl, haccount, hsecrets, -⟩
      · exact .inr ⟨c', hold, rfl, rfl, rfl⟩
      · refine .inl ?_
        rw [Current, haccount, hsecrets]
        exact hcurrent
    · rcases mem_insert hc' with ⟨hold, -⟩ | ⟨-, -, -, hnew | hthere⟩
      · exact ⟨c', hold, rfl, rfl⟩
      · exact absurd (hnew ▸ hid) (Nat.lt_irrefl _)
      · exact hthere

theorem lawful (aead : Aead) (key : MasterKey) (call : Call) :
    Lawful serve (Later aead key) (Asks aead key call) :=
  ⟨fun _ _ _ => Later.trans, fun _ _ => Later.refl_right, fun q input _ => serve_later q input⟩

end Statements

section Processes

variable {aead : Aead} {key : MasterKey} {s : State} {write : Bool} {b : Broker} {accountId : String}

/-- The random bytes that a run asks for are there. -/
def Drawn : Call → Query → Input → Prop
  | .run _, .draw, input => input.fails = false
  | _, _, _ => True

/-- What the fields to write are to those read. -/
def Refreshed (aead : Aead) (key : MasterKey) (b : Broker) (accountId : String) (names : List String)
    (secrets : List EncryptedField) : Option (List EncryptedField × Bool) → Prop
  | none => decryptFields aead key b accountId names secrets = none
  | some (fresh, needsUpdate) =>
    upToDate aead key b accountId names fresh = true ∧
      decryptFields aead key b accountId names fresh = decryptFields aead key b accountId names secrets ∧
      (decryptFields aead key b accountId names secrets).isSome = true ∧
      needsUpdate = !upToDate aead key b accountId names secrets

theorem openField_encrypt (haead : aead.Ideal) {name plain : String} {drawn : Nonce} {e : EncryptedField}
    (h : encrypt aead key drawn plain (contextOf b accountId name) = some e) :
    openField aead key b accountId name e = some (drawn, plain) ∧
      isCurrent aead key e.ciphertext drawn (contextOf b accountId name) = true := by
  obtain ⟨hnonce, hdecrypt, hcurrent⟩ := decrypt_encrypt haead h
  refine ⟨?_, hcurrent⟩
  rw [openField, hnonce, nonceOf_val, Option.bind_some, hdecrypt]
  rfl

theorem refreshed_cons {name : String} {names : List String} {e e' : EncryptedField}
    {secrets fresh : List EncryptedField} {nonce nonce' : Nonce} {plain : String} {needsUpdate : Bool}
    (hopen : openField aead key b accountId name e = some (nonce, plain))
    (hopen' : openField aead key b accountId name e' = some (nonce', plain))
    (hcurrent' : isCurrent aead key e'.ciphertext nonce' (contextOf b accountId name) = true)
    (hrest : Refreshed aead key b accountId names secrets (some (fresh, needsUpdate))) :
    Refreshed aead key b accountId (name :: names) (e :: secrets) (some (e' :: fresh,
      needsUpdate || !isCurrent aead key e.ciphertext nonce (contextOf b accountId name))) := by
  obtain ⟨hfresh, hsame, hread, hneeds⟩ := hrest
  refine ⟨?_, ?_, ?_, ?_⟩
  · rw [upToDate_cons, hopen', Option.any_some, Bool.and_eq_true]
    exact ⟨hcurrent', hfresh⟩
  · rw [decryptFields_cons, decryptFields_cons, hopen, hopen', Option.bind_some, Option.bind_some, hsame]
  · rw [decryptFields_cons, hopen, Option.bind_some, Option.isSome_map]
    exact hread
  · rw [upToDate_cons, hopen, Option.any_some, hneeds, Bool.not_and, Bool.or_comm]

theorem refreshed_cons_none {name : String} {names : List String} {e : EncryptedField}
    {secrets : List EncryptedField}
    (h : openField aead key b accountId name e = none ∨
      decryptFields aead key b accountId names secrets = none) :
    Refreshed aead key b accountId (name :: names) (e :: secrets) none := by
  change decryptFields aead key b accountId (name :: names) (e :: secrets) = none
  rw [decryptFields_cons]
  rcases h with hopen | hrest
  · rw [hopen]
    rfl
  · rw [hrest]
    cases openField aead key b accountId name e <;> rfl

theorem refresh_meets (haead : aead.Ideal) (names : List String) (secrets : List EncryptedField) (s : State) :
    (refresh aead key b accountId names secrets).Meets serve (Later aead key) (Asks aead key (.run write))
      (Drawn (.run write)) (fun r _ => Refreshed aead key b accountId names secrets r) s := by
  induction names generalizing secrets s with
  | nil =>
    intro _ _
    exact ⟨rfl, rfl, rfl, rfl⟩
  | cons name names ih =>
    cases secrets with
    | nil =>
      intro _ _
      exact ⟨rfl, rfl, rfl, rfl⟩
    | cons e secrets =>
      unfold refresh
      cases hopen : openField aead key b accountId name e with
      | none => exact fun _ _ => refreshed_cons_none (.inl hopen)
      | some found =>
        obtain ⟨nonce, plain⟩ := found
        dsimp only
        split_ifs with hcurrent
        · refine Process.Meets.bind (lawful aead key (.run write)) (ih secrets s) fun r t _ hr _ _ => ?_
          cases r with
          | none => exact refreshed_cons_none (.inr hr)
          | some result =>
            have hcons := refreshed_cons hopen hopen hcurrent hr
            rw [hcurrent, Bool.not_true, Bool.or_false] at hcons
            exact hcons
        · intro t ht
          refine ⟨trivial, fun input hinput => ?_⟩
          have hserve : serve .draw input t = (.ok input.nonce, t) := by
            unfold serve
            rw [if_neg (by rw [show input.fails = false from hinput]; exact Bool.false_ne_true)]
          rw [hserve]
          dsimp only
          cases hencrypt : encrypt aead key input.nonce plain (contextOf b accountId name) with
          | none =>
            have hsome : (encrypt aead key input.nonce plain (contextOf b accountId name)).isSome = true :=
              encrypt_isSome haead ..
            rw [hencrypt] at hsome
            cases hsome
          | some encrypted =>
            obtain ⟨hopen', hcurrent'⟩ := openField_encrypt haead hencrypt
            refine Process.Meets.bind (lawful aead key (.run write)) (ih secrets t) fun r u _ hr _ _ => ?_
            cases r with
            | none => exact refreshed_cons_none (.inr hr)
            | some result =>
              have hcons := refreshed_cons hopen hopen' hcurrent' hr
              rw [Bool.not_eq_true] at hcurrent
              rw [hcurrent, Bool.not_false, Bool.or_true] at hcons
              exact hcons

/-- Current, or not to be read with any key. -/
def Settled (aead : Aead) (key : MasterKey) (b : Broker) (row : Row) : Prop :=
  Current aead key b row ∨ stored aead key b row = none

theorem Same.settled {c c' : Row} (h : Same c c') (hc : Settled aead key b c) : Settled aead key b c' := by
  rcases hc with hcurrent | hnone
  · exact .inl (h.current hcurrent)
  · exact .inr (h.stored ▸ hnone)

theorem settled_later {s s' : State} (h : ∀ c ∈ s.db.tables b, Settled aead key b c)
    (hlater : Later aead key s s') : ∀ c ∈ s'.db.tables b, Settled aead key b c := by
  intro c' hc'
  rcases hlater.rows b c' hc' with hcurrent | ⟨c, hc, hsame⟩
  · exact .inl hcurrent
  · exact hsame.settled (h c hc)

def RekeyReport.Counted (report : RekeyReport) : Prop :=
  report.scanned = report.upgraded + report.alreadyCurrent + report.unreadable.length

/-- A run is partway through the rows that it read of a table in the state `s₀`. -/
structure Reading (aead : Aead) (key : MasterKey) (write : Bool) (b : Broker) (s₀ : State) (before : RekeyReport)
    (rows : List Row) (report : RekeyReport) (s : State) : Prop where
  later : Later aead key s₀ s
  read : ∀ row ∈ rows, row ∈ s₀.db.tables b
  counted : report.Counted
  covered : write = true → ∀ c ∈ s.db.tables b, Settled aead key b c ∨ ∃ row ∈ rows, Same row c
  upgraded : (∀ c ∈ s₀.db.tables b, Settled aead key b c) → report.upgraded = before.upgraded

variable {s₀ : State} {before report report' : RekeyReport} {row : Row} {rows rest : List Row}

theorem Reading.later' {s' : State} (h : Reading aead key write b s₀ before rows report s)
    (hlater : Later aead key s s') : Reading aead key write b s₀ before rows report s' := by
  refine ⟨h.later.trans hlater, h.read, h.counted, fun hwrite c' hc' => ?_, h.upgraded⟩
  rcases hlater.rows b c' hc' with hcurrent | ⟨c, hc, hsame⟩
  · exact .inl (.inl hcurrent)
  · rcases h.covered hwrite c hc with hsettled | ⟨row, hrow, hread⟩
    · exact .inl (hsame.settled hsettled)
    · exact .inr ⟨row, hrow, hread.id.trans hsame.id, hread.accountId.trans hsame.accountId,
        hread.secrets.trans hsame.secrets⟩

/-- A row that is settled is done with. -/
theorem Reading.settled (h : Reading aead key write b s₀ before (row :: rest) report s)
    (hsettled : Settled aead key b row) (hcounted : report'.Counted) (hupgraded : report'.upgraded = report.upgraded) :
    Reading aead key write b s₀ before rest report' s := by
  refine ⟨h.later, fun r hr => h.read r (List.mem_cons_of_mem _ hr), hcounted, fun hwrite c hc => ?_,
    fun hall => hupgraded.trans (h.upgraded hall)⟩
  rcases h.covered hwrite c hc with hdone | ⟨r, hr, hsame⟩
  · exact .inl hdone
  · rcases List.mem_cons.1 hr with rfl | hr
    · exact .inl (hsame.settled hsettled)
    · exact .inr ⟨r, hr, hsame⟩

/-- The rows that have the id of one that was read: its account's, and as they were or current. -/
theorem Reading.same_id (h : Reading aead key write b s₀ before (row :: rest) report s)
    (hsound : Sound s₀.db) {c : Row} (hc : c ∈ s.db.tables b) (hid : c.id = row.id) :
    c.accountId = row.accountId ∧ (Current aead key b c ∨ Same row c) := by
  have hrow := h.read row List.mem_cons_self
  have hunique : ∀ c₀ ∈ s₀.db.tables b, c₀.id = c.id → c₀ = row := fun c₀ hc₀ hid₀ =>
    List.inj_on_of_nodup_map (hsound.idsNodup b) hc₀ hrow (hid₀.trans hid)
  constructor
  · obtain ⟨c₀, hc₀, hid₀, haccount⟩ := h.later.accounts b c hc (hid ▸ hsound.ids b row hrow)
    rw [← haccount, hunique c₀ hc₀ hid₀]
  · rcases h.later.rows b c hc with hcurrent | ⟨c₀, hc₀, hsame⟩
    · exact .inl hcurrent
    · exact .inr (hunique c₀ hc₀ hsame.id ▸ hsame)

/-- An update of the row that was read may be asked for, and then the row is done with. -/
theorem Reading.update (h : Reading aead key write b s₀ before (row :: rest) report s) (hsound : Sound s₀.db)
    (hread : (stored aead key b row).isSome = true) (hstale : ¬ Current aead key b row)
    {fresh : List EncryptedField} (hfresh : upToDate aead key b row.accountId (fields b) fresh = true)
    (hcounted : report'.Counted) :
    Asks aead key (.run write) (.update b row.id fresh) s ∧
      Reading aead key write b s₀ before rest report' { s with db := setSecrets s.db b row.id fresh } := by
  have hasks : Asks aead key (.run write) (.update b row.id fresh) s := by
    intro c hc hid
    obtain ⟨haccount, hcurrent | hsame⟩ := h.same_id hsound hc hid
    · exact ⟨haccount ▸ hfresh, hcurrent.stored⟩
    · exact ⟨haccount ▸ hfresh, hsame.stored ▸ hread⟩
  have hserved : Later aead key s { s with db := setSecrets s.db b row.id fresh } :=
    serve_later (.update b row.id fresh) ⟨false, ⟨List.replicate 12 0, rfl⟩, 0⟩ h.later.refl_right hasks
  refine ⟨hasks, h.later.trans hserved, fun r hr => h.read r (List.mem_cons_of_mem _ hr), hcounted,
    fun hwrite c hc => ?_, fun hall => ?_⟩
  · rcases mem_setSecrets.1 hc with ⟨hold, hother⟩ | ⟨c₀, hc₀, -, hid, rfl⟩
    · rcases h.covered hwrite c hold with hdone | ⟨r, hr, hsame⟩
      · exact .inl hdone
      · rcases List.mem_cons.1 hr with rfl | hr
        · exact absurd ⟨rfl, hsame.id.symm⟩ hother
        · exact .inr ⟨r, hr, hsame⟩
    · exact .inl (.inl (hasks c₀ hc₀ hid).1)
  · rcases hall row (h.read row List.mem_cons_self) with hcurrent | hnone
    · exact absurd hcurrent hstale
    · rw [hnone] at hread
      cases hread

theorem runRow_meets (haead : aead.Ideal) (hsound : Sound s₀.db)
    (h : Reading aead key write b s₀ before (row :: rest) report s) :
    (runRow aead key write b report row).run.Meets serve (Later aead key) (Asks aead key (.run write)) (Drawn (.run write))
      (Succeeds (Reading aead key write b s₀ before rest)) s := by
  have hcounted : report.scanned = report.upgraded + report.alreadyCurrent + report.unreadable.length := h.counted
  unfold runRow
  refine meets_bind (lawful aead key (.run write)) (meets_lift (refresh_meets haead _ _ s)) fun r t ht hr => ?_
  have hnow := h.later' ht
  cases r with
  | none =>
    refine meets_pure fun u hu => (hnow.later' hu).settled (.inr hr) ?_ rfl
    unfold RekeyReport.Counted
    dsimp only
    rw [List.length_append, List.length_singleton]
    omega
  | some result =>
    obtain ⟨fresh, needsUpdate⟩ := result
    obtain ⟨hfresh, -, hread, hneeds⟩ := hr
    cases needsUpdate with
    | false =>
      have hcurrent : Current aead key b row := by
        rw [Current]
        rwa [eq_comm, Bool.not_eq_false'] at hneeds
      refine meets_pure fun u hu => (hnow.later' hu).settled (.inl hcurrent) ?_ rfl
      unfold RekeyReport.Counted
      dsimp only
      omega
    | true =>
      have hstale : ¬ Current aead key b row := by
        rw [Current, Bool.not_eq_true]
        rwa [eq_comm, Bool.not_eq_true'] at hneeds
      have hcounted' : RekeyReport.Counted ⟨report.scanned + 1, report.upgraded + 1, report.alreadyCurrent,
          report.unreadable⟩ := by
        unfold RekeyReport.Counted
        dsimp only
        omega
      dsimp only
      split_ifs with hwrite
      · have hask : (ask (.update b row.id fresh)).run.Meets serve (Later aead key) (Asks aead key (.run write))
            (Drawn (.run write)) (Succeeds fun _ => Reading aead key write b s₀ before rest
              ⟨report.scanned + 1, report.upgraded + 1, report.alreadyCurrent, report.unreadable⟩) t := by
          intro u hu
          obtain ⟨hasks, hdone⟩ := (hnow.later' hu).update hsound hread hstale hfresh hcounted'
          refine ⟨hasks, fun input _ v hv => ?_⟩
          unfold serve at hv ⊢
          split_ifs at hv ⊢ with hfails
          · trivial
          · exact hdone.later' hv
        exact meets_bind (lawful aead key (.run write)) hask fun _ u _ hu => meets_pure fun v hv => hu.later' hv
      · refine meets_pure fun u hu => ?_
        have hthen := hnow.later' hu
        refine ⟨hthen.later, fun r hr => hthen.read r (List.mem_cons_of_mem _ hr), hcounted',
          fun hw => absurd hw hwrite, fun hall => ?_⟩
        rcases hall row (hthen.read row List.mem_cons_self) with hcurrent | hnone
        · exact absurd hcurrent hstale
        · rw [stored] at hnone
          rw [hnone] at hread
          cases hread

/-- A run that began at `s₀` has some tables left to go through. -/
structure Scanning (aead : Aead) (key : MasterKey) (write : Bool) (s₀ : State) (left : List Broker)
    (report : RekeyReport) (s : State) : Prop where
  later : Later aead key s₀ s
  counted : report.Counted
  settled : write = true → ∀ b, b ∉ left → ∀ c ∈ s.db.tables b, Settled aead key b c
  upgraded : (∀ b, ∀ c ∈ s₀.db.tables b, Settled aead key b c) → report.upgraded = 0

theorem Scanning.later' {s' : State} {left : List Broker} (h : Scanning aead key write s₀ left report s)
    (hlater : Later aead key s s') : Scanning aead key write s₀ left report s' :=
  ⟨h.later.trans hlater, h.counted,
    fun hwrite b hb => settled_later (h.settled hwrite b hb) hlater, h.upgraded⟩

theorem select_meets (s : State) :
    (ask (.select b)).run.Meets serve (Later aead key) (Asks aead key (.run write)) (Drawn (.run write))
      (Succeeds fun rows t => ∃ u, Later aead key s u ∧ rows = u.db.tables b ∧ Later aead key u t) s := by
  refine fun u hu => ⟨trivial, fun input _ t ht => ?_⟩
  unfold serve at ht ⊢
  split_ifs at ht ⊢ with hfails
  · trivial
  · exact ⟨u, hu, rfl, ht⟩

theorem runTable_meets (haead : aead.Ideal) {left : List Broker}
    (h : Scanning aead key write s₀ (b :: left) report s) :
    (runTable aead key write report b).run.Meets serve (Later aead key) (Asks aead key (.run write)) (Drawn (.run write))
      (Succeeds (Scanning aead key write s₀ left)) s := by
  unfold runTable
  refine meets_bind (lawful aead key (.run write)) (select_meets s) fun rows t _ hselected => ?_
  obtain ⟨u, hu, rfl, hut⟩ := hselected
  have hreading : Reading aead key write b u report (u.db.tables b) report t := by
    refine ⟨hut, fun _ hrow => hrow, h.counted, fun _ c hc => ?_, fun _ => rfl⟩
    rcases hut.rows b c hc with hcurrent | ⟨c₀, hc₀, hsame⟩
    · exact .inl (.inl hcurrent)
    · exact .inr ⟨c₀, hc₀, hsame⟩
  have hloop := meets_foldlM (lawful aead key (.run write)) (fun a v w ha hvw => Reading.later' ha hvw)
    (fun _ _ _ v hv => runRow_meets haead hu.sound hv) (u.db.tables b) report t hreading
  refine hloop.conseq fun r v hr => ?_
  cases r with
  | error e => trivial
  | ok report' =>
    have hread : Reading aead key write b u report [] report' v := hr
    have hthen := (h.later' hu).later' hread.later
    refine ⟨hthen.later, hread.counted, fun hwrite b' hb' c hc => ?_, fun hall => ?_⟩
    · by_cases hb : b' = b
      · subst hb
        rcases hread.covered hwrite c hc with hsettled | ⟨row, hrow, -⟩
        · exact hsettled
        · cases hrow
      · exact hthen.settled hwrite b' (fun hin => (List.mem_cons.1 hin).elim hb hb') c hc
    · exact (hread.upgraded (settled_later (hall b) ((h.later' hu).later))).trans (h.upgraded hall)

/-- A run counts what it looks at, leaves nothing unsettled that it could write, and finds nothing to do
where all is settled. -/
theorem run_meets (haead : aead.Ideal) (hsound : Sound s₀.db) :
    (run aead key write).run.Meets serve (Later aead key) (Asks aead key (.run write)) (Drawn (.run write))
      (Succeeds (Scanning aead key write s₀ [])) s₀ := by
  have hstart : Scanning aead key write s₀ TABLES ⟨0, 0, 0, []⟩ s₀ := by
    refine ⟨.refl hsound, rfl, fun _ b hb => ?_, fun _ => rfl⟩
    cases b <;> exact absurd (by decide) hb
  have hstep : ∀ b left report s, Scanning aead key write s₀ (b :: left) report s →
      (runTable aead key write report b).run.Meets serve (Later aead key) (Asks aead key (.run write))
        (Drawn (.run write)) (Succeeds (Scanning aead key write s₀ left)) s :=
    fun _ _ _ _ hv => runTable_meets haead hv
  exact meets_foldlM (lawful aead key (.run write)) (fun _ _ _ ha hlater => ha.later' hlater) hstep TABLES _ s₀ hstart

variable {answers : Query → Input → Prop} {call : Call} {credential : String → String}

theorem ask_meets (q : Query) (hasks : ∀ s, Asks aead key call q s) (s : State) :
    (ask q).run.Meets serve (Later aead key) (Asks aead key call) answers (Succeeds fun _ _ => True) s := by
  refine fun t _ => ⟨hasks t, fun input _ u _ => ?_⟩
  cases (serve q input t).1 <;> trivial

theorem encryptFields_meets (haead : aead.Ideal) (names : List String) (s : State) :
    (encryptFields aead key b accountId credential names).run.Meets serve (Later aead key) (Asks aead key call)
      answers (Succeeds fun secrets _ => upToDate aead key b accountId names secrets = true ∧
        decryptFields aead key b accountId names secrets = some (names.map credential)) s := by
  induction names generalizing s with
  | nil => exact meets_pure fun _ _ => ⟨rfl, rfl⟩
  | cons name names ih =>
    unfold encryptFields
    refine meets_bind (lawful aead key call) (ask_meets .draw (fun _ => by cases call <;> trivial) s) fun drawn t _ _ => ?_
    cases hencrypt : encrypt aead key drawn (credential name) (contextOf b accountId name) with
    | none => exact fun _ _ => trivial
    | some e =>
      obtain ⟨hopen, hcurrent⟩ := openField_encrypt haead hencrypt
      refine meets_bind (lawful aead key call) (ih t) fun rest u _ hrest => meets_pure fun _ _ => ⟨?_, ?_⟩
      · rw [upToDate_cons, hopen, Option.any_some, Bool.and_eq_true]
        exact ⟨hcurrent, hrest.1⟩
      · rw [decryptFields_cons, hopen, Option.bind_some, hrest.2]
        rfl

/-- Whoever connects asks for nothing but a credential's own encryption to be inserted. -/
theorem insertConnection_meets (haead : aead.Ideal) (symbols : List String) (label : Option String)
    (credential' : String → String) (symbols' : List String) (label' : Option String) (s : State) :
    (insertConnection aead key b accountId credential symbols label).run.Meets serve (Later aead key)
      (Asks aead key (.insertConnection b accountId credential' symbols' label')) answers (Succeeds fun _ _ => True) s := by
  have hplain : ∀ b, (do
      let secrets ← encryptFields aead key b accountId credential (fields b)
      ask (.insert b accountId none ((fields b).map credential) secrets symbols none)).run.Meets serve
        (Later aead key) (Asks aead key (.insertConnection b accountId credential' symbols' label')) answers (Succeeds fun _ _ => True) s := fun b =>
    meets_bind (lawful aead key _) (encryptFields_meets haead _ s) fun secrets t _ hsecrets => by
      refine ask_meets _ (fun _ => ?_) t
      exact ⟨rfl, rfl, hsecrets⟩
  unfold insertConnection
  cases b with
  | wallet =>
    dsimp only
    cases ownerOf accountId with
    | none => exact fun _ _ => trivial
    | some owner =>
      refine meets_bind (lawful aead key _) (encryptFields_meets haead _ s) fun secrets t _ hsecrets => ?_
      refine meets_bind (lawful aead key _) (ask_meets _ (fun _ => ?_) t) fun existing u _ _ => ?_
      · trivial
      · split_ifs
        · exact fun _ _ => trivial
        · refine ask_meets _ (fun _ => ?_) u
          exact ⟨rfl, rfl, hsecrets⟩
  | binance => exact hplain .binance
  | coinbase => exact hplain .coinbase
  | ibkr => exact hplain .ibkr
  | kraken => exact hplain .kraken

/-- What a call ends with, a run of the commands that began at `s₀`. -/
def Ends (aead : Aead) (key : MasterKey) (s₀ : State) : Call → Answer → State → Prop
  | .run write, .report report, s => Scanning aead key write s₀ [] report s
  | _, _, _ => True

theorem program_meets (haead : aead.Ideal) (hsound : Sound s.db) (call : Call) :
    (program aead key call).Meets serve (Later aead key) (Asks aead key call) (Drawn call)
      (Succeeds (Ends aead key s call)) s := by
  cases call with
  | run write =>
    exact meets_bind (lawful aead key _) (run_meets haead hsound) fun report t _ hreport =>
      meets_pure fun u hu => hreport.later' hu
  | insertConnection b accountId credential symbols label =>
    exact meets_bind (lawful aead key _) (insertConnection_meets haead symbols label credential symbols label s) fun id t _ _ =>
      meets_pure fun _ _ => trivial

end Processes

section Credentials

variable {aead : Aead} {key : MasterKey} {s : State} {call : Call} {q : Query} {input : Input}

/-- What is stored decrypts to what was last connected for the account, where either can be read. -/
def Faithful (aead : Aead) (key : MasterKey) (s : State) : Prop :=
  ∀ b, ∀ row ∈ s.db.tables b, stored aead key b row = s.connected b row.accountId

theorem faithful_initial {db : Database (List EncryptedField)} (h : Sound db) :
    Faithful aead key (initial aead key db).shared := by
  intro b row hrow
  have hfind := (Connections.find_eq_some_iff h).2 ⟨hrow, rfl⟩
  change _ = (db.find b row.accountId).bind (stored aead key b)
  rw [hfind]
  rfl

/-- The rows that an update writes to hold the credential that it writes. -/
def Restores (aead : Aead) (key : MasterKey) (q : Query) (s : State) : Prop :=
  ∀ b id fresh, q = .update b id fresh → ∀ row ∈ s.db.tables b, row.id = id →
    decryptFields aead key b row.accountId (fields b) fresh = stored aead key b row

theorem faithful_serve (h : Faithful aead key s) (hasks : Asks aead key call q s) :
    Faithful aead key (serve q input s).2 ↔ (input.fails = false → Restores aead key q s) := by
  unfold serve
  by_cases hfails : input.fails = true
  · rw [if_pos hfails]
    exact ⟨fun _ hnot => absurd (hnot.symm.trans hfails) Bool.false_ne_true, fun _ => h⟩
  rw [if_neg hfails]
  rw [Bool.not_eq_true] at hfails
  cases q with
  | draw => exact ⟨fun _ _ => nofun, fun _ => h⟩
  | select b => exact ⟨fun _ _ => nofun, fun _ => h⟩
  | wallets owner accountId => exact ⟨fun _ _ => nofun, fun _ => h⟩
  | update b id fresh =>
    constructor
    · intro hafter _ b' id' fresh' hq row hrow hid
      cases hq
      rw [h b row hrow]
      exact hafter b { row with secrets := fresh } (mem_setSecrets.2 (.inr ⟨row, hrow, rfl, hid, rfl⟩))
    · intro hrestores b' row hrow
      rcases mem_setSecrets.1 hrow with ⟨hold, -⟩ | ⟨found, hfound, rfl, hid, rfl⟩
      · exact h b' row hold
      · exact (hrestores hfails b' id fresh rfl found hfound hid).trans (h b' found hfound)
  | insert b accountId ownerAddress credential secrets symbols label =>
    refine ⟨fun _ _ => nofun, fun _ b' row hrow => ?_⟩
    change _ = if b' = b ∧ row.accountId = accountId then some credential else s.connected b' row.accountId
    rcases mem_insert hrow with ⟨hold, hother⟩ | ⟨rfl, haccount, hsecrets, -⟩
    · rw [if_neg hother]
      exact h b' row hold
    · rw [if_pos ⟨rfl, haccount⟩, stored, haccount, hsecrets]
      exact (asks_insert hasks).2

/-- What cannot be read is left alone, unless its account is connected. -/
theorem unreadable_kept {b : Broker} {row : Row} (hasks : Asks aead key call q s) (hrow : row ∈ s.db.tables b)
    (hnone : stored aead key b row = none) :
    row ∈ (serve q input s).2.db.tables b ∨
      ∃ credential symbols label, call = .insertConnection b row.accountId credential symbols label := by
  unfold serve
  split_ifs with hfails
  · exact .inl hrow
  cases q with
  | draw => exact .inl hrow
  | select b => exact .inl hrow
  | wallets owner accountId => exact .inl hrow
  | insert b' accountId ownerAddress credential secrets symbols label =>
    cases call with
    | run write => exact hasks.elim
    | insertConnection b'' accountId' credential' symbols' label' =>
      obtain ⟨rfl, rfl, -, -⟩ := hasks
      by_cases hsame : b = b' ∧ row.accountId = accountId
      · obtain ⟨rfl, rfl⟩ := hsame
        exact .inr ⟨_, _, _, rfl⟩
      · exact .inl (insert_kept hrow hsame)
  | update b' id fresh =>
    refine .inl (mem_setSecrets.2 (.inl ⟨hrow, fun hsame => ?_⟩))
    obtain ⟨rfl, hid⟩ := hsame
    have hread := (asks_update hasks row hrow hid).2
    rw [hnone] at hread
    cases hread

end Credentials

section Runs

variable {aead : Aead} {key : MasterKey} {db : Database (List EncryptedField)}
  {moves : List (Interleaving.Move Call Input)}

/-- The world after the first `n` moves. -/
def after (aead : Aead) (key : MasterKey) (db : Database (List EncryptedField))
    (moves : List (Interleaving.Move Call Input))
    (n : ℕ) : RekeyWorld :=
  (initial aead key db).run (program aead key) serve (moves.take n)

/-- An update is carried out while the rows that it writes to hold the credential that it writes. -/
def Undisturbed (aead : Aead) (key : MasterKey) (w : RekeyWorld) (m : Interleaving.Move Call Input) : Prop :=
  ∀ i input c q next, m = .serve i input → w.processes i = some (c, .ask q next) → input.fails = false →
    Restores aead key q w.shared

/-- What every process ends with, whenever it began. -/
def Established (aead : Aead) (key : MasterKey) (_ : ℕ) (call : Call) : Except String Answer → State → Prop :=
  Succeeds fun answer s => ∃ s₀, Ends aead key s₀ call answer s

theorem undertakes_after (haead : aead.Ideal) (hsound : Sound db)
    (hdrawn : ∀ n m, moves[n]? = some m → Assumed Drawn (after aead key db moves n) m) (n : ℕ) :
    Undertakes serve (Later aead key) (Asks aead key) Drawn (Established aead key)
      (after aead key db moves n) := by
  have hinitial : Undertakes serve (Later aead key) (Asks aead key) Drawn (Established aead key)
      (initial aead key db) := ⟨.refl hsound, fun _ _ _ hi => nomatch hi⟩
  refine (hinitial.run (lawful aead key) moves hdrawn (fun i call s _ hs => ?_) n).1
  refine (program_meets haead hs.sound call).conseq fun answer t ht => ?_
  cases answer with
  | error e => trivial
  | ok a => exact ⟨s, ht⟩

/-- A move serves a question, or leaves the shared state as it was. -/
theorem after_succ (n : ℕ) :
    (after aead key db moves (n + 1)).shared = (after aead key db moves n).shared ∨
    ∃ i input c q next, moves[n]? = some (.serve i input) ∧
      (after aead key db moves n).processes i = some (c, .ask q next) := by
  unfold after
  rw [run_take_succ]
  cases hm : moves[n]? with
  | none => exact .inl rfl
  | some m =>
    cases m with
    | start i c =>
      refine .inl ?_
      dsimp only [Option.elim, Interleaving.World.step]
      split <;> rfl
    | serve i input =>
      dsimp only [Option.elim, Interleaving.World.step]
      split
      next c q next hi => exact .inr ⟨i, input, c, q, next, rfl, hi⟩
      next => exact .inl rfl

theorem after_serve {n i : ℕ} {input : Input} {c : Call} {q : Query}
    {next : Reply q → Process Query Reply (Except String Answer)} (hm : moves[n]? = some (.serve i input))
    (hi : (after aead key db moves n).processes i = some (c, .ask q next)) :
    (after aead key db moves (n + 1)).shared = (serve q input (after aead key db moves n).shared).2 := by
  unfold after at hi ⊢
  rw [run_take_succ, hm]
  dsimp only [Option.elim, Interleaving.World.step]
  rw [hi]

theorem faithful_iff (haead : aead.Ideal) (hsound : Sound db)
    (hdrawn : ∀ n m, moves[n]? = some m → Assumed Drawn (after aead key db moves n) m) :
    (∀ n, Faithful aead key (after aead key db moves n).shared) ↔
      ∀ n m, moves[n]? = some m → Undisturbed aead key (after aead key db moves n) m := by
  constructor
  · intro hfaithful n m hm i input c q next hserve hi
    subst hserve
    have hasks := (undertakes_after haead hsound hdrawn n).asks hi
    have hnext := hfaithful (n + 1)
    rw [after_serve hm hi] at hnext
    exact (faithful_serve (hfaithful n) hasks).1 hnext
  · intro hundisturbed n
    induction n with
    | zero => exact faithful_initial hsound
    | succ n ih =>
      rcases after_succ n with hsame | ⟨i, input, c, q, next, hm, hi⟩
      · rw [hsame]
        exact ih
      · rw [after_serve hm hi]
        exact (faithful_serve ih ((undertakes_after haead hsound hdrawn n).asks hi)).2
          (hundisturbed n _ hm i input c q next rfl hi)

/-- A run of the process `j` upgrades nothing. -/
def UpgradesNothing (j i : ℕ) (call : Call) : Except String Answer → State → Prop :=
  Succeeds fun answer _ => i = j → ∀ write report, call = .run write → answer = .report report → report.upgraded = 0

/-- Once a run has written, another finds nothing to do. -/
theorem second_upgrades_nothing (haead : aead.Ideal) (hsound : Sound db)
    (hdrawn : ∀ n m, moves[n]? = some m → Assumed Drawn (after aead key db moves n) m) {n i j n' : ℕ}
    {write : Bool} {report report' : RekeyReport}
    (hfirst : (after aead key db moves n).processes i = some (.run true, .done (.ok (.report report))))
    (hlater : n ≤ n') (hbegins : (after aead key db moves n).processes j = none)
    (hsecond : (after aead key db moves n').processes j = some (.run write, .done (.ok (.report report')))) :
    report'.upgraded = 0 := by
  have hnow := undertakes_after haead hsound hdrawn n
  obtain ⟨s₀, hends⟩ := hnow.done hfirst
  have hsettled : ∀ b, ∀ c ∈ (after aead key db moves n).shared.db.tables b, Settled aead key b c :=
    fun b => hends.settled rfl b List.not_mem_nil
  obtain ⟨k, rfl⟩ := Nat.exists_eq_add_of_le hlater
  have hsplit : ∀ k, after aead key db moves (n + k) =
      (after aead key db moves n).run (program aead key) serve ((moves.drop n).take k) :=
    run_take_add (initial aead key db) moves n
  have hstart : Undertakes serve (Later aead key) (Asks aead key) Drawn (UpgradesNothing j)
      (after aead key db moves n) := by
    refine ⟨hnow.shared, fun j' call p hj' => (hnow.processes j' call p hj').conseq fun answer t _ => ?_⟩
    cases answer with
    | error e => trivial
    | ok a =>
      intro hsame
      rw [hsame, hbegins] at hj'
      cases hj'
  have hassumed : ∀ k m, (moves.drop n)[k]? = some m → Assumed Drawn
      ((after aead key db moves n).run (program aead key) serve ((moves.drop n).take k)) m := by
    intro k m hm
    rw [List.getElem?_drop] at hm
    rw [← hsplit]
    exact hdrawn (n + k) m hm
  have hrun := (hstart.run (lawful aead key) (moves.drop n) hassumed (fun j' call s _ hs => ?_) k).1
  · rw [← hsplit] at hrun
    exact hrun.done hsecond rfl write report' rfl rfl
  · refine (program_meets haead hs.sound call).conseq fun answer t ht => ?_
    cases answer with
    | error e => trivial
    | ok a =>
      intro _ write report hcall hreport
      subst hcall hreport
      exact ht.upgraded fun b => settled_later (hsettled b) hs

/-- Nothing is lost exactly when no update overtakes a reconnection; what no key opens stays as it was, the
counts add up, and a second run upgrades nothing. -/
theorem credentials_kept_iff (haead : aead.Ideal) (hsound : Sound db)
    (hdrawn : ∀ n m, moves[n]? = some m → Assumed Drawn (after aead key db moves n) m) :
    ((∀ n, Faithful aead key (after aead key db moves n).shared) ↔
      ∀ n m, moves[n]? = some m → Undisturbed aead key (after aead key db moves n) m) ∧
    (∀ n i input c p, moves[n]? = some (.serve i input) →
      (after aead key db moves n).processes i = some (c, p) →
      ∀ b, ∀ row ∈ (after aead key db moves n).shared.db.tables b, stored aead key b row = none →
        row ∈ (after aead key db moves (n + 1)).shared.db.tables b ∨
          ∃ credential symbols label, c = .insertConnection b row.accountId credential symbols label) ∧
    (∀ n i write report,
      (after aead key db moves n).processes i = some (.run write, .done (.ok (.report report))) →
      report.scanned = report.upgraded + report.alreadyCurrent + report.unreadable.length) ∧
    (∀ n i j n' write report report',
      (after aead key db moves n).processes i = some (.run true, .done (.ok (.report report))) →
      n ≤ n' → (after aead key db moves n).processes j = none →
      (after aead key db moves n').processes j = some (.run write, .done (.ok (.report report'))) →
      report'.upgraded = 0) := by
  refine ⟨faithful_iff haead hsound hdrawn, fun n i input c p hm hi b row hrow hnone => ?_,
    fun n i write report hi => ?_, fun n i j n' write report report' hfirst hlater hbegins hsecond =>
      second_upgrades_nothing haead hsound hdrawn hfirst hlater hbegins hsecond⟩
  · cases p with
    | done a =>
      refine .inl ?_
      have hsame : after aead key db moves (n + 1) = after aead key db moves n := by
        unfold after at hi ⊢
        rw [run_take_succ, hm]
        dsimp only [Option.elim, Interleaving.World.step]
        rw [hi]
      rw [hsame]
      exact hrow
    | ask q next =>
      rw [after_serve hm hi]
      exact unreadable_kept ((undertakes_after haead hsound hdrawn n).asks hi) hrow hnone
  · obtain ⟨s₀, hends⟩ := (undertakes_after haead hsound hdrawn n).done hi
    exact hends.counted

end Runs

section Overtaken

/-- A cipher that only says what a message was sealed with. -/
def labelling : Aead where
  sealed key nonce msg aad := some (key.val ++ nonce.val ++ aad ++ msg)
  opened key nonce msg aad :=
    let label := key.val ++ nonce.val ++ aad
    if label.isPrefixOf msg then some (msg.drop label.length) else none
  keyId key := key.val.headD 0

theorem labelling_ideal : labelling.Ideal := by
  intro key nonce msg aad
  refine ⟨key.val ++ nonce.val ++ aad ++ msg, rfl, fun hnil => ?_, ?_⟩
  · have hlength := congrArg List.length hnil
    rw [List.length_append, List.length_append, List.length_append, key.property] at hlength
    rw [List.length_nil] at hlength
    omega
  · have hbegins : (key.val ++ nonce.val ++ aad).isPrefixOf (key.val ++ nonce.val ++ aad ++ msg) = true :=
      List.isPrefixOf_iff_prefix.2 (List.prefix_append _ _)
    unfold labelling
    dsimp only
    rw [if_pos hbegins, List.drop_left]

def rotated : MasterKey := ⟨⟨List.replicate 32 9, rfl⟩, [⟨List.replicate 32 7, rfl⟩]⟩

theorem length_zeros : (List.replicate 12 (0 : UInt8)).length = 12 := List.length_replicate

def someNonce : Nonce := ⟨List.replicate 12 0, length_zeros⟩

/-- A Kraken account, stored under the key that was rotated out. -/
def beforeRotation : Database (List EncryptedField) :=
  let secrets := (fields .kraken).filterMap fun name =>
    encrypt labelling ⟨⟨List.replicate 32 7, rfl⟩, []⟩ someNonce "old" (contextOf .kraken "a" name)
  ⟨fun b => if b = .kraken then [⟨0, "a", none, secrets, [], none, "active", 0, none⟩] else [], [], 1⟩

theorem beforeRotation_sound : Sound beforeRotation := by
  constructor
  · intro b c hc
    cases b <;> simp [beforeRotation] at hc ⊢
    rw [hc]
  · intro b
    cases b <;> simp [beforeRotation]
  · intro b
    cases b <;> simp [beforeRotation]
  · exact fun r hr => nomatch hr

/-- The account is connected with new keys after a run has read its row and before it writes it back. -/
def overtaken : List (Interleaving.Move Call Input) :=
  .start 0 (.run true) :: List.replicate 6 (.serve 0 ⟨false, someNonce, 0⟩) ++
    .start 1 (.insertConnection .kraken "a" (fun _ => "new") [] none) ::
      List.replicate 3 (.serve 1 ⟨false, someNonce, 0⟩) ++ [.serve 0 ⟨false, someNonce, 0⟩]

theorem overtaken_unfaithful :
    ¬ Faithful labelling rotated (after labelling rotated beforeRotation overtaken 12).shared := by
  have hlost : ∃ row ∈ (after labelling rotated beforeRotation overtaken 12).shared.db.tables .kraken,
      stored labelling rotated .kraken row ≠
        (after labelling rotated beforeRotation overtaken 12).shared.connected .kraken row.accountId := by
    decide +kernel
  intro h
  obtain ⟨row, hrow, hne⟩ := hlost
  exact hne (h .kraken row hrow)

theorem overtaken_drawn (n : ℕ) (m : Interleaving.Move Call Input) (hm : overtaken[n]? = some m) :
    Assumed Drawn (after labelling rotated beforeRotation overtaken n) m := by
  intro i input c q next hserve _
  subst hserve
  have hin := List.mem_of_getElem? hm
  have hfails : input.fails = false := by
    simp [overtaken] at hin
    rcases hin with ⟨-, rfl⟩ | ⟨-, rfl⟩ | ⟨-, rfl⟩ <;> rfl
  cases c with
  | run write => cases q <;> first | exact hfails | trivial
  | insertConnection b accountId credential symbols label => trivial

theorem credentials_kept_iff_overtaken :
    ¬ ∀ n m, overtaken[n]? = some m →
      Undisturbed labelling rotated (after labelling rotated beforeRotation overtaken n) m := by
  intro h
  exact overtaken_unfaithful
    ((credentials_kept_iff labelling_ideal beforeRotation_sound overtaken_drawn).1.2 h 12)

/-- The account's new keys are lost. -/
theorem reconnection_lost : labelling.Ideal ∧ Sound beforeRotation ∧
    (∀ n m, overtaken[n]? = some m →
      Assumed Drawn (after labelling rotated beforeRotation overtaken n) m) ∧
    ¬ ∀ n, Faithful labelling rotated (after labelling rotated beforeRotation overtaken n).shared :=
  ⟨labelling_ideal, beforeRotation_sound, overtaken_drawn, fun h => overtaken_unfaithful (h 12)⟩

end Overtaken

end Linvesther.Worker.Rekey
