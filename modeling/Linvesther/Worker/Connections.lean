import Linvesther.Api.AccountOwnership
import Linvesther.Base.Interleaving

/-! The tables of connections, one for each broker, and the statements that the worker's commands send to
them. Account ids are unique in each table; nothing keeps them apart across the five. -/

namespace Linvesther.Worker.Connections

open Interleaving Api.Ownership

section Tables

inductive Broker where
  | binance | coinbase | ibkr | kraken | wallet
deriving DecidableEq

def Broker.name : Broker → String
  | .binance => "binance"
  | .coinbase => "coinbase"
  | .ibkr => "ibkr"
  | .kraken => "kraken"
  | .wallet => "wallet"

variable (S : Type)

/-- A row of one of the tables, with the encrypted fields it stores. Only a wallet has an owner column. -/
structure Connection where
  id : ℕ
  accountId : String
  ownerAddress : Option String
  secrets : S
  symbols : List String
  label : Option String
  status : String
  createdAtMs : ℕ
  lastSyncedAt : Option ℕ
deriving DecidableEq

/-- A row of what was collected: its table, and its key besides the connection. -/
structure CollectedRow where
  broker : Broker
  connectionId : ℕ
  table : String
  key : String
deriving DecidableEq

/-- `gen_random_uuid` gives an id that no row has had. -/
structure Database where
  tables : Broker → List (Connection S)
  collected : List CollectedRow
  nextId : ℕ

def Database.init : Database S := ⟨fun _ => [], [], 0⟩

variable {S}

/-- `owner_of`: the address an account id begins with, in lower case. -/
def ownerOf (accountId : String) : Option String :=
  let owner := accountId.toList.take 42
  let valid := owner.length = 42 ∧ owner.take 2 = ['0', 'x'] ∧ (owner.drop 2).all isHexDigit
  let rest := accountId.toList.drop 42
  if valid ∧ (rest = [] ∨ rest.head? = some '_') then some (String.ofList (owner.map Char.toLower)) else none

def Database.find (db : Database S) (b : Broker) (accountId : String) : Option (Connection S) :=
  (db.tables b).find? (·.accountId = accountId)

def Database.setTable (db : Database S) (b : Broker) (table : List (Connection S)) : Database S :=
  { db with tables := Function.update db.tables b table }

/-- `INSERT … ON CONFLICT (account_id) DO UPDATE`: a row that is there keeps its id, label and time. -/
def Database.insert (db : Database S) (b : Broker) (accountId : String) (ownerAddress : Option String)
    (secrets : S) (symbols : List String) (label : Option String) (now : ℕ) : ℕ × Database S :=
  match db.find b accountId with
  | some c =>
    (c.id, db.setTable b ((db.tables b).map fun r =>
      if r.accountId = accountId then { r with secrets, symbols, status := "active" } else r))
  | none =>
    (db.nextId, { db.setTable b (db.tables b ++
      [⟨db.nextId, accountId, ownerAddress, secrets, symbols, label, "active", now, none⟩]) with
        nextId := db.nextId + 1 })

def Database.setLabel (db : Database S) (b : Broker) (id : ℕ) (label : String) : Database S :=
  db.setTable b ((db.tables b).map fun r => if r.id = id then { r with label := some label } else r)

def Database.markSynced (db : Database S) (b : Broker) (id now : ℕ) : Database S :=
  db.setTable b ((db.tables b).map fun r => if r.id = id then { r with lastSyncedAt := some now } else r)

/-- A row that is collected for a connection refers to it; one that is there stays. -/
def Database.store (db : Database S) (row : CollectedRow) : Option (Database S) :=
  if row.connectionId ∈ (db.tables row.broker).map Connection.id then
    some (if row ∈ db.collected then db else { db with collected := db.collected ++ [row] })
  else none

/-- `DELETE`, and by cascade what was collected. -/
def Database.delete (db : Database S) (b : Broker) (id : ℕ) : Bool × Database S :=
  (id ∈ (db.tables b).map Connection.id,
    { db.setTable b ((db.tables b).filter (·.id ≠ id)) with
      collected := db.collected.filter fun r => ¬ (r.broker = b ∧ r.connectionId = id) })

def Connection.row (c : Connection S) : ConnectionRow := ⟨c.accountId, c.label, c.createdAtMs * 1000, c.status⟩

/-- The query of `list` on one table; a wallet's owner is a column of its own. -/
def Database.owned (db : Database S) (pg : Lowercase) (b : Broker) (ownerAddress : String) :
    List OwnedConnection :=
  match b with
  | .wallet =>
    ((((db.tables .wallet).filter fun c => c.ownerAddress.map String.toList = some (pg.apply ownerAddress)).map
      Connection.row).insertionSort fun x y => x.createdAtUs ≤ y.createdAtUs).map fun r =>
        ⟨r.accountId, r.label, r.createdAtUs / 1000, r.status, "wallet"⟩
  | b => ownedBy pg b.name ((db.tables b).map Connection.row) ownerAddress

end Tables

section Statements

variable (S : Type)

/-- What a command waits for: a statement, or a call outside. -/
inductive Query where
  /-- The client opens, its key is seen to be read-only, and the fields are encrypted. -/
  | openClient (b : Broker)
  | find (b : Broker) (accountId : String)
  | insert (b : Broker) (accountId : String) (secrets : S) (symbols : List String) (label : Option String)
  | setLabel (b : Broker) (id : ℕ) (label : String)
  | fetch (b : Broker) (id : ℕ)
  | store (row : CollectedRow)
  | markSynced (b : Broker) (id : ℕ)
  | delete (b : Broker) (id : ℕ)
  | owned (b : Broker) (ownerAddress : String)
  | counts (b : Broker) (id : ℕ)

/-- What a call outside brings, and whether the statement or the call fails. -/
structure Input where
  fails : Bool
  now : ℕ
  secrets : S
  fetched : List (String × String)

variable {S}

abbrev Answered : Query S → Type
  | .openClient _ => S
  | .find _ _ => Option (Connection S)
  | .insert .. => ℕ
  | .fetch _ _ => List (String × String)
  | .delete _ _ => Bool
  | .owned _ _ => List OwnedConnection
  | .counts _ _ => ℕ × ℕ
  | _ => Unit

abbrev Reply (q : Query S) : Type := Except String (Answered q)

variable (pg : Lowercase) (sameAddress : S → S → Bool) (counted : Broker → List CollectedRow → ℕ × ℕ)

/-- The owner has connected the address under another account id. -/
def Database.alreadyConnected (db : Database S) (owner accountId : String) (secrets : S) : Bool :=
  (db.tables .wallet).any fun c =>
    c.ownerAddress = some owner && c.accountId ≠ accountId && sameAddress secrets c.secrets

/-- A wallet belongs to the owner that its account id begins with, who connects an address once. -/
def Database.insertFor (db : Database S) (b : Broker) (accountId : String) (secrets : S)
    (symbols : List String) (label : Option String) (now : ℕ) : Except String ℕ × Database S :=
  match b with
  | .wallet =>
    match ownerOf accountId with
    | none => (.error "the account id does not begin with an owner address", db)
    | some owner =>
      if db.alreadyConnected sameAddress owner accountId secrets then
        (.error "this wallet is already connected", db)
      else
        let inserted := db.insert .wallet accountId (some owner) secrets symbols label now
        (.ok inserted.1, inserted.2)
  | b =>
    let inserted := db.insert b accountId none secrets symbols label now
    (.ok inserted.1, inserted.2)

def serve (q : Query S) (input : Input S) (db : Database S) : Reply q × Database S :=
  if input.fails then (.error "failed", db)
  else
    match q with
    | .openClient _ => (.ok input.secrets, db)
    | .find b accountId => (.ok (db.find b accountId), db)
    | .insert b accountId secrets symbols label =>
      db.insertFor sameAddress b accountId secrets symbols label input.now
    | .setLabel b id label => (.ok (), db.setLabel b id label)
    | .fetch _ _ => (.ok input.fetched, db)
    | .store row =>
      match db.store row with
      | some db' => (.ok (), db')
      | none => (.error "violates foreign key constraint", db)
    | .markSynced b id => (.ok (), db.markSynced b id input.now)
    | .delete b id => (.ok (db.delete b id).1, (db.delete b id).2)
    | .owned b ownerAddress => (.ok (db.owned pg b ownerAddress), db)
    | .counts b id =>
      (.ok (counted b (db.collected.filter fun r => r.broker = b ∧ r.connectionId = id)), db)

end Statements

section Invariant

variable {S : Type} {db : Database S}

/-- What the constraints of the tables keep. -/
structure Sound (db : Database S) : Prop where
  ids : ∀ b, ∀ c ∈ db.tables b, c.id < db.nextId
  idsNodup : ∀ b, ((db.tables b).map Connection.id).Nodup
  accounts : ∀ b, ((db.tables b).map Connection.accountId).Nodup
  refers : ∀ r ∈ db.collected, r.connectionId ∈ (db.tables r.broker).map Connection.id

/-- A table holds a connection of the account. -/
def Database.Holds (db : Database S) (b : Broker) (accountId : String) : Prop :=
  accountId ∈ (db.tables b).map Connection.accountId

theorem sound_init : Sound (Database.init S) := by
  constructor
  · intro b c hc
    cases hc
  · exact fun _ => List.nodup_nil
  · exact fun _ => List.nodup_nil
  · intro r hr
    cases hr

theorem find_eq_some_iff (h : Sound db) {b : Broker} {accountId : String} {c : Connection S} :
    db.find b accountId = some c ↔ c ∈ db.tables b ∧ c.accountId = accountId := by
  unfold Database.find
  constructor
  · intro hfind
    exact ⟨List.mem_of_find?_eq_some hfind, by simpa using List.find?_some hfind⟩
  · intro ⟨hc, haccount⟩
    have hsome : ((db.tables b).find? (·.accountId = accountId)).isSome = true := by
      rw [List.find?_isSome]
      exact ⟨c, hc, decide_eq_true haccount⟩
    obtain ⟨c', hc'⟩ := Option.isSome_iff_exists.1 hsome
    have hfound := List.find?_some hc'
    simp only [decide_eq_true_eq] at hfound
    have hsame : c'.accountId = c.accountId := hfound.trans haccount.symm
    rw [hc', List.inj_on_of_nodup_map (h.accounts b) (List.mem_of_find?_eq_some hc') hc hsame]

theorem find_eq_none_iff {b : Broker} {accountId : String} :
    db.find b accountId = none ↔ ¬ db.Holds b accountId := by
  unfold Database.find Database.Holds
  rw [List.find?_eq_none]
  simp

/-- The ids and account ids of a table. -/
def Database.keys (db : Database S) (b : Broker) : List (ℕ × String) :=
  (db.tables b).map fun c => (c.id, c.accountId)

/-- The statement changes no id, and collects for connections that are there. -/
structure Keeps (db db' : Database S) : Prop where
  keys : ∀ b, db'.keys b = db.keys b
  nextId : db'.nextId = db.nextId
  collected : ∀ r ∈ db'.collected, r ∈ db.collected ∨ r.connectionId ∈ (db.tables r.broker).map Connection.id

/-- The statement adds a connection. -/
structure Adds (db db' : Database S) (b : Broker) (accountId : String) : Prop where
  isNew : ¬ db.Holds b accountId
  keys : ∀ b', db'.keys b' = if b' = b then db.keys b ++ [(db.nextId, accountId)] else db.keys b'
  nextId : db'.nextId = db.nextId + 1
  collected : db'.collected = db.collected

/-- The statement takes a connection away with all that was collected for it. -/
structure Removes (db db' : Database S) (b : Broker) (id : ℕ) : Prop where
  keys : ∀ b', db'.keys b' = if b' = b then (db.keys b).filter (·.1 ≠ id) else db.keys b'
  nextId : db'.nextId = db.nextId
  collected : db'.collected = db.collected.filter fun r => ¬ (r.broker = b ∧ r.connectionId = id)

theorem ids_eq (db : Database S) (b : Broker) : (db.tables b).map Connection.id = (db.keys b).map Prod.fst := by
  rw [Database.keys, List.map_map]
  rfl

theorem accounts_eq (db : Database S) (b : Broker) :
    (db.tables b).map Connection.accountId = (db.keys b).map Prod.snd := by
  rw [Database.keys, List.map_map]
  rfl

theorem Keeps.refl (db : Database S) : Keeps db db := ⟨fun _ => rfl, rfl, fun _ hr => .inl hr⟩

theorem keys_setTable (db : Database S) (b b' : Broker) (table : List (Connection S)) :
    (db.setTable b table).keys b' =
      if b' = b then table.map (fun c => (c.id, c.accountId)) else db.keys b' := by
  unfold Database.keys Database.setTable
  by_cases h : b' = b
  · subst h
    rw [if_pos rfl]
    dsimp only
    rw [Function.update_self]
  · rw [if_neg h]
    dsimp only
    rw [Function.update_of_ne h]

/-- Rows that keep their ids keep their keys. -/
theorem keeps_setTable_map (db : Database S) (b : Broker) (f : Connection S → Connection S)
    (hf : ∀ c, (f c).id = c.id ∧ (f c).accountId = c.accountId) :
    Keeps db (db.setTable b ((db.tables b).map f)) := by
  refine ⟨fun b' => ?_, rfl, fun _ hr => .inl hr⟩
  rw [keys_setTable]
  split_ifs with h
  · subst h
    rw [List.map_map, Database.keys]
    refine List.map_congr_left fun c _ => ?_
    rw [Function.comp_apply, (hf c).1, (hf c).2]
  · rfl

theorem insert_effect (db : Database S) (b : Broker) (accountId : String) (ownerAddress : Option String)
    (secrets : S) (symbols : List String) (label : Option String) (now : ℕ) :
    (db.Holds b accountId ∧
      Keeps db (db.insert b accountId ownerAddress secrets symbols label now).2) ∨
    Adds db (db.insert b accountId ownerAddress secrets symbols label now).2 b accountId := by
  unfold Database.insert
  cases h : db.find b accountId with
  | some c =>
    have hholds : db.Holds b accountId := by
      by_contra hnot
      rw [find_eq_none_iff.2 hnot] at h
      cases h
    refine .inl ⟨hholds, keeps_setTable_map db b _ fun c => ?_⟩
    split_ifs <;> exact ⟨rfl, rfl⟩
  | none =>
    refine .inr ⟨find_eq_none_iff.1 h, fun b' => ?_, rfl, rfl⟩
    have hkeys := keys_setTable db b b' (db.tables b ++
      [⟨db.nextId, accountId, ownerAddress, secrets, symbols, label, "active", now, none⟩])
    rw [List.map_append] at hkeys
    exact hkeys

theorem store_effect {row : CollectedRow} {db' : Database S} (h : db.store row = some db') :
    Keeps db db' := by
  unfold Database.store at h
  split_ifs at h with hconnection hthere
  · cases h
    exact Keeps.refl db
  · cases h
    refine ⟨fun _ => rfl, rfl, fun r hr => ?_⟩
    rcases List.mem_append.1 hr with hr | hr
    · exact .inl hr
    · rw [List.mem_singleton.1 hr]
      exact .inr hconnection

theorem delete_effect (db : Database S) (b : Broker) (id : ℕ) : Removes db (db.delete b id).2 b id := by
  refine ⟨fun b' => ?_, rfl, rfl⟩
  have hkeys := keys_setTable db b b' ((db.tables b).filter (·.id ≠ id))
  have hfilter : ((db.tables b).filter (·.id ≠ id)).map (fun c => (c.id, c.accountId)) =
      (db.keys b).filter (·.1 ≠ id) := by
    rw [Database.keys, List.filter_map]
    rfl
  rw [hfilter] at hkeys
  exact hkeys

end Invariant

section Effects

variable {S : Type} {db : Database S} {pg : Lowercase} {sameAddress : S → S → Bool}
  {counted : Broker → List CollectedRow → ℕ × ℕ} {q : Query S} {input : Input S}

/-- The insert is carried out: nothing fails, and a wallet is not refused. -/
def Goes (sameAddress : S → S → Bool) (db : Database S) (b : Broker) (accountId : String) (secrets : S)
    (input : Input S) : Prop :=
  input.fails = false ∧ (b = .wallet → ∃ owner, ownerOf accountId = some owner ∧
    db.alreadyConnected sameAddress owner accountId secrets = false)

/-- What a statement can do to the ids and to what is collected. -/
theorem serve_effect (q : Query S) (input : Input S) (db : Database S) :
    (∃ b accountId secrets symbols label, q = .insert b accountId secrets symbols label ∧
      Goes sameAddress db b accountId secrets input ∧
      ((db.Holds b accountId ∧ Keeps db (serve pg sameAddress counted q input db).2) ∨
        Adds db (serve pg sameAddress counted q input db).2 b accountId)) ∨
    (∃ b id, q = .delete b id ∧ Removes db (serve pg sameAddress counted q input db).2 b id) ∨
    ((∀ b accountId secrets symbols label, q = .insert b accountId secrets symbols label →
        ¬ Goes sameAddress db b accountId secrets input) ∧
      Keeps db (serve pg sameAddress counted q input db).2) := by
  unfold serve
  by_cases hfails : input.fails = true
  · rw [if_pos hfails]
    refine .inr (.inr ⟨fun b accountId secrets symbols label _ hgoes => ?_, Keeps.refl db⟩)
    exact Bool.false_ne_true (hgoes.1.symm.trans hfails)
  · rw [if_neg hfails]
    rw [Bool.not_eq_true] at hfails
    cases q with
    | openClient b => exact .inr (.inr ⟨nofun, Keeps.refl db⟩)
    | find b accountId => exact .inr (.inr ⟨nofun, Keeps.refl db⟩)
    | fetch b id => exact .inr (.inr ⟨nofun, Keeps.refl db⟩)
    | owned b ownerAddress => exact .inr (.inr ⟨nofun, Keeps.refl db⟩)
    | counts b id => exact .inr (.inr ⟨nofun, Keeps.refl db⟩)
    | setLabel b id label =>
      refine .inr (.inr ⟨nofun, keeps_setTable_map db b _ fun c => ?_⟩)
      split_ifs <;> exact ⟨rfl, rfl⟩
    | markSynced b id =>
      refine .inr (.inr ⟨nofun, keeps_setTable_map db b _ fun c => ?_⟩)
      split_ifs <;> exact ⟨rfl, rfl⟩
    | store row =>
      dsimp only
      split
      next db' h => exact .inr (.inr ⟨nofun, store_effect h⟩)
      next => exact .inr (.inr ⟨nofun, Keeps.refl db⟩)
    | delete b id => exact .inr (.inl ⟨b, id, rfl, delete_effect db b id⟩)
    | insert b accountId secrets symbols label =>
      unfold Database.insertFor
      cases b with
      | wallet =>
        dsimp only
        split
        next hnone =>
          refine .inr (.inr ⟨fun b' accountId' secrets' symbols' label' hq hgoes => ?_, Keeps.refl db⟩)
          cases hq
          obtain ⟨owner, howner, -⟩ := hgoes.2 rfl
          rw [hnone] at howner
          cases howner
        next owner howner =>
          split_ifs with hconnected
          · refine .inr (.inr ⟨fun b' accountId' secrets' symbols' label' hq hgoes => ?_, Keeps.refl db⟩)
            cases hq
            obtain ⟨owner', howner', hnot⟩ := hgoes.2 rfl
            rw [howner] at howner'
            cases howner'
            exact Bool.false_ne_true (hnot.symm.trans hconnected)
          · rw [Bool.not_eq_true] at hconnected
            exact .inl ⟨_, _, _, _, _, rfl, ⟨hfails, fun _ => ⟨owner, howner, hconnected⟩⟩,
              insert_effect ..⟩
      | binance => exact .inl ⟨_, _, _, _, _, rfl, ⟨hfails, nofun⟩, insert_effect ..⟩
      | coinbase => exact .inl ⟨_, _, _, _, _, rfl, ⟨hfails, nofun⟩, insert_effect ..⟩
      | ibkr => exact .inl ⟨_, _, _, _, _, rfl, ⟨hfails, nofun⟩, insert_effect ..⟩
      | kraken => exact .inl ⟨_, _, _, _, _, rfl, ⟨hfails, nofun⟩, insert_effect ..⟩

theorem holds_iff {b : Broker} {accountId : String} : db.Holds b accountId ↔ ∃ id, (id, accountId) ∈ db.keys b := by
  rw [Database.Holds, accounts_eq, List.mem_map]
  constructor
  · rintro ⟨⟨id, _⟩, h, rfl⟩
    exact ⟨id, h⟩
  · exact fun ⟨id, h⟩ => ⟨_, h, rfl⟩

/-- In terms of the keys. -/
theorem sound_iff : Sound db ↔
    (∀ b, ∀ k ∈ db.keys b, k.1 < db.nextId) ∧ (∀ b, ((db.keys b).map Prod.fst).Nodup) ∧
      (∀ b, ((db.keys b).map Prod.snd).Nodup) ∧
      ∀ r ∈ db.collected, r.connectionId ∈ (db.keys r.broker).map Prod.fst := by
  constructor
  · intro h
    refine ⟨fun b k hk => ?_, fun b => ids_eq db b ▸ h.idsNodup b, fun b => accounts_eq db b ▸ h.accounts b,
      fun r hr => ids_eq db r.broker ▸ h.refers r hr⟩
    obtain ⟨c, hc, rfl⟩ := List.mem_map.1 hk
    exact h.ids b c hc
  · intro ⟨hids, hnodup, haccounts, hrefers⟩
    refine ⟨fun b c hc => hids b _ (List.mem_map_of_mem hc), fun b => (ids_eq db b).symm ▸ hnodup b,
      fun b => (accounts_eq db b).symm ▸ haccounts b, fun r hr => (ids_eq db r.broker).symm ▸ hrefers r hr⟩

theorem Keeps.sound {db' : Database S} (hkeeps : Keeps db db') (h : Sound db) : Sound db' := by
  obtain ⟨hids, hnodup, haccounts, hrefers⟩ := sound_iff.1 h
  rw [sound_iff]
  simp only [hkeeps.keys, hkeeps.nextId]
  refine ⟨hids, hnodup, haccounts, fun r hr => ?_⟩
  rcases hkeeps.collected r hr with hold | hnew
  · exact hrefers r hold
  · rwa [ids_eq] at hnew

theorem Adds.sound {db' : Database S} {b : Broker} {accountId : String} (hadds : Adds db db' b accountId)
    (h : Sound db) : Sound db' := by
  obtain ⟨hids, hnodup, haccounts, hrefers⟩ := sound_iff.1 h
  rw [sound_iff]
  simp only [hadds.keys, hadds.nextId, hadds.collected]
  refine ⟨fun b' k hk => ?_, fun b' => ?_, fun b' => ?_, fun r hr => ?_⟩
  · split_ifs at hk
    · rcases List.mem_append.1 hk with hk | hk
      · exact Nat.lt_succ_of_lt (hids b k hk)
      · rw [List.mem_singleton.1 hk]
        exact Nat.lt_succ_self _
    · exact Nat.lt_succ_of_lt (hids b' k hk)
  · split_ifs
    · rw [List.map_append, List.nodup_append_comm]
      refine List.nodup_cons.2 ⟨fun hin => ?_, hnodup b⟩
      obtain ⟨k, hk, hid⟩ := List.mem_map.1 hin
      exact absurd (hids b k hk) (by rw [hid]; exact Nat.lt_irrefl _)
    · exact hnodup b'
  · split_ifs
    · rw [List.map_append, List.nodup_append_comm]
      refine List.nodup_cons.2 ⟨fun hin => hadds.isNew ?_, haccounts b⟩
      rw [Database.Holds, accounts_eq]
      exact hin
    · exact haccounts b'
  · split_ifs with hb
    · rw [List.map_append]
      exact List.mem_append_left _ (hb ▸ hrefers r hr)
    · exact hrefers r hr

theorem Removes.sound {db' : Database S} {b : Broker} {id : ℕ} (hremoves : Removes db db' b id)
    (h : Sound db) : Sound db' := by
  obtain ⟨hids, hnodup, haccounts, hrefers⟩ := sound_iff.1 h
  rw [sound_iff]
  simp only [hremoves.keys, hremoves.nextId, hremoves.collected]
  refine ⟨fun b' k hk => ?_, fun b' => ?_, fun b' => ?_, fun r hr => ?_⟩
  · split_ifs at hk
    · exact hids b k (List.mem_of_mem_filter hk)
    · exact hids b' k hk
  · split_ifs
    · exact (hnodup b).sublist (List.filter_sublist.map _)
    · exact hnodup b'
  · split_ifs
    · exact (haccounts b).sublist (List.filter_sublist.map _)
    · exact haccounts b'
  · obtain ⟨hold, hother⟩ := List.mem_filter.1 hr
    rw [decide_eq_true_eq] at hother
    have hin := hrefers r hold
    split_ifs with hb
    · rw [hb] at hin
      obtain ⟨k, hk, hid⟩ := List.mem_map.1 hin
      refine List.mem_map.2 ⟨k, List.mem_filter.2 ⟨hk, ?_⟩, hid⟩
      rw [decide_eq_true_eq]
      exact fun heq => hother ⟨hb, hid.symm.trans heq⟩
    · exact hin

theorem serve_sound (h : Sound db) : Sound (serve pg sameAddress counted q input db).2 := by
  rcases serve_effect q input db with ⟨b, accountId, _, _, _, -, -, ⟨-, hkeeps⟩ | hadds⟩ |
    ⟨b, id, -, hremoves⟩ | ⟨-, hkeeps⟩
  · exact hkeeps.sound h
  · exact hadds.sound h
  · exact hremoves.sound h
  · exact hkeeps.sound h

end Effects

end Linvesther.Worker.Connections
