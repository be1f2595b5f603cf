import Linvesther.Base.LockedTransactions
import Linvesther.Worker.Rekey

/-! `wallet.rs`: an owner connects a wallet once. The addresses are encrypted under nonces drawn each time, so
no constraint of the table compares them: the owner's connections are read and decrypted, in a transaction
that takes the owner's advisory lock first. -/

namespace Linvesther.Worker.WalletInsert

open Connections LockedTransactions

abbrev Row := Connection EncryptedField

abbrev WalletDb := Database EncryptedField

section Model

variable (aead : Aead) (key : MasterKey) (lower : String → String)

def context (accountId : String) : String := credentialContext "wallet" accountId "address"

/-- `stored_address`: the address a connection reads, in lower case. -/
def storedAddress (c : Row) : Except String String :=
  match nonceOf c.secrets.nonce with
  | none => .error "corrupt stored address"
  | some nonce =>
    match decrypt aead key c.secrets.ciphertext nonce (context c.accountId) with
    | none => .error "decryption failed — wrong key, wrong account or tampered ciphertext"
    | some address => .ok (lower address)

/-- What a call of `insert_connection` has in hand when it begins its transaction. -/
structure Insertion where
  accountId : String
  owner : String
  address : String
  label : Option String
  nowMs : ℕ
  nonce : Collector.Nonce
  encrypted : EncryptedField
  owned : ownerOf accountId = some owner
  sealed : encrypt aead key nonce (lower address) (context accountId) = some encrypted

def prepare (accountId address : String) (label : Option String) (nonce : Collector.Nonce) (nowMs : ℕ) :
    Except String (Insertion aead key lower) :=
  match howned : ownerOf accountId with
  | none => .error "the account id does not begin with an owner address"
  | some owner =>
    match hsealed : encrypt aead key nonce (lower address) (context accountId) with
    | none => .error "encryption failed"
    | some encrypted => .ok ⟨accountId, owner, address, label, nowMs, nonce, encrypted, howned, hsealed⟩

variable {aead key lower}

/-- `SELECT … WHERE owner_address = $1 AND account_id <> $2`. -/
def Insertion.existing (t : Insertion aead key lower) (db : WalletDb) : List Row :=
  (db.tables .wallet).filter fun c => c.ownerAddress = some t.owner ∧ c.accountId ≠ t.accountId

/-- A connection whose address does not decrypt is not compared. -/
def Insertion.alreadyConnected (t : Insertion aead key lower) (existing : List Row) : Bool :=
  existing.any fun other => storedAddress aead key lower other = .ok (lower t.address)

/-- What `INSERT … ON CONFLICT (account_id) DO UPDATE` does, with the id that it returns. -/
inductive Upsert where
  | insert (id : ℕ)
  | update (id : ℕ)
deriving DecidableEq

/-- Nobody else writes the account's row in between: that takes the same lock. -/
def Insertion.upsert (t : Insertion aead key lower) (db : WalletDb) : Upsert × WalletDb :=
  match db.find .wallet t.accountId with
  | some c => (.update c.id, db)
  | none => (.insert db.nextId, { db with nextId := db.nextId + 1 })

def Insertion.row (t : Insertion aead key lower) (id : ℕ) : Row :=
  ⟨id, t.accountId, some t.owner, t.encrypted, [], t.label, "active", t.nowMs, none⟩

def Insertion.replace (t : Insertion aead key lower) (r : Row) : Row :=
  if r.accountId = t.accountId then { r with secrets := t.encrypted, status := "active" } else r

def Insertion.apply (t : Insertion aead key lower) (upsert : Upsert) (db : WalletDb) : WalletDb :=
  match upsert with
  | .insert id => db.setTable .wallet (db.tables .wallet ++ [t.row id])
  | .update _ => db.setTable .wallet ((db.tables .wallet).map t.replace)

/-- `insert_connection` under the lock `hashtext('wallet-owner:…')`, whatever owners share a hash, and
`delete_connection`, which waits for a transaction that has updated the row. -/
def rules (aead : Aead) (key : MasterKey) (lower : String → String) (hashtext : String → BitVec 32) :
    Rules WalletDb (Insertion aead key lower) (List Row) Upsert ℕ (BitVec 32) where
  key t := hashtext ("wallet-owner:" ++ t.owner)
  view := Insertion.existing
  refuses := Insertion.alreadyConnected
  write := Insertion.upsert
  apply := Insertion.apply
  waits upsert id := upsert = .update id
  serve id db := (db.delete .wallet id).2

end Model

section Once

variable (aead : Aead) (key : MasterKey) (lower : String → String)

/-- Two rows of the table: an account has one, and an owner one of each address. -/
def Distinct (c c' : Row) : Prop :=
  c.accountId ≠ c'.accountId ∧
    (ownerOf c.accountId = ownerOf c'.accountId → storedAddress aead key lower c ≠ storedAddress aead key lower c')

/-- The table of wallets: a row belongs to the owner that its account id begins with, and decrypts. -/
structure Once (db : WalletDb) : Prop where
  owned : ∀ c ∈ db.tables .wallet, ∃ owner, ownerOf c.accountId = some owner ∧ c.ownerAddress = some owner
  readable : ∀ c ∈ db.tables .wallet, ∃ address, storedAddress aead key lower c = .ok address
  distinct : (db.tables .wallet).Pairwise (Distinct aead key lower)

variable {aead key lower}

/-- The account has a row when it is to be updated, and none when one is to be inserted. -/
def Fits (t : Insertion aead key lower) : Upsert → WalletDb → Prop
  | .insert _, db => ∀ c ∈ db.tables .wallet, c.accountId ≠ t.accountId
  | .update id, db => ∃ c ∈ db.tables .wallet, c.accountId = t.accountId ∧ c.id = id

variable {t t' : Insertion aead key lower} {db : WalletDb} {upsert : Upsert}

theorem Distinct.symm {c c' : Row} (h : Distinct aead key lower c c') : Distinct aead key lower c' c :=
  ⟨h.1.symm, fun hsame heq => h.2 hsame.symm heq.symm⟩

theorem wallet_setTable (db : WalletDb) (table : List Row) : (db.setTable .wallet table).tables .wallet = table := by
  unfold Database.setTable
  dsimp only
  rw [Function.update_self]

theorem mem_delete {c : Row} {id : ℕ} : c ∈ (db.delete .wallet id).2.tables .wallet ↔
    c ∈ db.tables .wallet ∧ c.id ≠ id := by
  show c ∈ (db.setTable .wallet ((db.tables .wallet).filter (·.id ≠ id))).tables .wallet ↔ _
  rw [wallet_setTable, List.mem_filter, decide_eq_true_eq]

theorem mem_insert {c : Row} {id : ℕ} : c ∈ (t.apply (.insert id) db).tables .wallet ↔
    c ∈ db.tables .wallet ∨ c = t.row id := by
  show c ∈ (db.setTable .wallet (db.tables .wallet ++ [t.row id])).tables .wallet ↔ _
  rw [wallet_setTable, List.mem_append, List.mem_singleton]

theorem mem_update {c : Row} (id : ℕ) : c ∈ (t.apply (.update id) db).tables .wallet ↔
    ∃ r ∈ db.tables .wallet, t.replace r = c := by
  show c ∈ (db.setTable .wallet ((db.tables .wallet).map t.replace)).tables .wallet ↔ _
  rw [wallet_setTable, List.mem_map]

/-- A row of another account stays, and the account's own keeps its id, its account and its owner. -/
theorem replace_cases (t : Insertion aead key lower) (r : Row) :
    r.accountId ≠ t.accountId ∧ t.replace r = r ∨
      r.accountId = t.accountId ∧ t.replace r = { r with secrets := t.encrypted, status := "active" } := by
  unfold Insertion.replace
  split_ifs with haccount
  · exact .inr ⟨haccount, rfl⟩
  · exact .inl ⟨haccount, rfl⟩

theorem replace_keys (t : Insertion aead key lower) (r : Row) : (t.replace r).id = r.id ∧
    (t.replace r).accountId = r.accountId ∧ (t.replace r).ownerAddress = r.ownerAddress := by
  rcases replace_cases t r with ⟨-, h⟩ | ⟨-, h⟩ <;> rw [h] <;> exact ⟨rfl, rfl, rfl⟩

/-- What was sealed for the account reads as the address that was given. -/
theorem storedAddress_encrypted (haead : aead.Ideal) (hlower : ∀ s, lower (lower s) = lower s)
    (t : Insertion aead key lower) {c : Row} (haccount : c.accountId = t.accountId)
    (hsecrets : c.secrets = t.encrypted) : storedAddress aead key lower c = .ok (lower t.address) := by
  obtain ⟨hnonce, hdecrypt, -⟩ := decrypt_encrypt haead t.sealed
  unfold storedAddress
  rw [hsecrets, haccount, hnonce, nonceOf_val]
  dsimp only
  rw [hdecrypt]
  dsimp only
  rw [hlower]

theorem clear_iff {hashtext : String → BitVec 32} :
    (rules aead key lower hashtext).Clear t db ↔ ∀ c ∈ db.tables .wallet, c.ownerAddress = some t.owner →
      c.accountId ≠ t.accountId → storedAddress aead key lower c ≠ .ok (lower t.address) := by
  show t.alreadyConnected (t.existing db) = false ↔ _
  unfold Insertion.alreadyConnected Insertion.existing
  rw [List.any_eq_false]
  simp only [List.mem_filter, decide_eq_true_eq, and_imp]

/-- An account's owner is told by its id, so under another lock there is another owner, and another account. -/
theorem owner_ne {hashtext : String → BitVec 32}
    (hkey : (rules aead key lower hashtext).key t ≠ (rules aead key lower hashtext).key t') :
    t.owner ≠ t'.owner ∧ t.accountId ≠ t'.accountId := by
  have howner : t.owner ≠ t'.owner := by
    intro howner
    refine hkey ?_
    show hashtext ("wallet-owner:" ++ t.owner) = hashtext ("wallet-owner:" ++ t'.owner)
    rw [howner]
  refine ⟨howner, fun haccount => howner ?_⟩
  have hsame : some t.owner = some t'.owner := by rw [← t.owned, ← t'.owned, haccount]
  exact Option.some.inj hsame

/-- A transaction whose check has passed writes a row apart from all the others. -/
theorem Once.distinct_of_clear (h : Once aead key lower db) (haead : aead.Ideal)
    (hlower : ∀ s, lower (lower s) = lower s) {hashtext : String → BitVec 32}
    (hclear : (rules aead key lower hashtext).Clear t db) {c r : Row} (hc : c ∈ db.tables .wallet)
    (hother : c.accountId ≠ t.accountId) (haccount : r.accountId = t.accountId) (hsecrets : r.secrets = t.encrypted) :
    Distinct aead key lower c r := by
  refine ⟨haccount ▸ hother, fun hsame => ?_⟩
  rw [storedAddress_encrypted haead hlower t haccount hsecrets]
  obtain ⟨owner, howner, hcolumn⟩ := h.owned c hc
  rw [howner, haccount, t.owned] at hsame
  exact clear_iff.1 hclear c hc (hcolumn.trans hsame) hother

theorem Once.insert (h : Once aead key lower db) (haead : aead.Ideal) (hlower : ∀ s, lower (lower s) = lower s)
    {hashtext : String → BitVec 32} (hclear : (rules aead key lower hashtext).Clear t db) {id : ℕ}
    (hfits : Fits t (.insert id) db) : Once aead key lower (t.apply (.insert id) db) := by
  refine ⟨fun c hc => ?_, fun c hc => ?_, ?_⟩
  · rcases mem_insert.1 hc with hold | rfl
    · exact h.owned c hold
    · exact ⟨t.owner, t.owned, rfl⟩
  · rcases mem_insert.1 hc with hold | rfl
    · exact h.readable c hold
    · exact ⟨_, storedAddress_encrypted haead hlower t rfl rfl⟩
  · show ((db.setTable .wallet (db.tables .wallet ++ [t.row id])).tables .wallet).Pairwise _
    rw [wallet_setTable, List.pairwise_append]
    refine ⟨h.distinct, List.pairwise_singleton _ _, fun c hc r hr => ?_⟩
    rw [List.mem_singleton] at hr
    subst hr
    exact h.distinct_of_clear haead hlower hclear hc (hfits c hc) rfl rfl

theorem Once.update (h : Once aead key lower db) (haead : aead.Ideal) (hlower : ∀ s, lower (lower s) = lower s)
    {hashtext : String → BitVec 32} (hclear : (rules aead key lower hashtext).Clear t db) (id : ℕ) :
    Once aead key lower (t.apply (.update id) db) := by
  refine ⟨fun c hc => ?_, fun c hc => ?_, ?_⟩
  · obtain ⟨r, hr, rfl⟩ := (mem_update id).1 hc
    obtain ⟨-, haccount, howner⟩ := replace_keys t r
    rw [haccount, howner]
    exact h.owned r hr
  · obtain ⟨r, hr, rfl⟩ := (mem_update id).1 hc
    rcases replace_cases t r with ⟨-, hsame⟩ | ⟨haccount, hnew⟩
    · rw [hsame]
      exact h.readable r hr
    · rw [hnew]
      exact ⟨_, storedAddress_encrypted haead hlower t haccount rfl⟩
  · show ((db.setTable .wallet ((db.tables .wallet).map t.replace)).tables .wallet).Pairwise _
    rw [wallet_setTable, List.pairwise_map]
    refine h.distinct.imp_of_mem fun {c c'} hc hc' hdistinct => ?_
    rcases replace_cases t c with ⟨hother, hsame⟩ | ⟨haccount, hnew⟩
    · rcases replace_cases t c' with ⟨hother', hsame'⟩ | ⟨haccount', hnew'⟩
      · rw [hsame, hsame']
        exact hdistinct
      · rw [hsame, hnew']
        exact h.distinct_of_clear haead hlower hclear hc hother haccount' rfl
    · rcases replace_cases t c' with ⟨hother', hsame'⟩ | ⟨haccount', -⟩
      · rw [hnew, hsame']
        have happart : Distinct aead key lower c' { c with secrets := t.encrypted, status := "active" } :=
          h.distinct_of_clear haead hlower hclear hc' hother' haccount rfl
        exact happart.symm
      · exact absurd (haccount.trans haccount'.symm) hdistinct.1

theorem Once.delete (h : Once aead key lower db) (id : ℕ) : Once aead key lower (db.delete .wallet id).2 := by
  refine ⟨fun c hc => h.owned c (mem_delete.1 hc).1, fun c hc => h.readable c (mem_delete.1 hc).1, ?_⟩
  show ((db.setTable .wallet ((db.tables .wallet).filter (·.id ≠ id))).tables .wallet).Pairwise _
  rw [wallet_setTable]
  exact h.distinct.filter _

/-- A commit for another owner puts no row beside those that were checked. -/
theorem Once.clear_apply (h : Once aead key lower db) {hashtext : String → BitVec 32} (howner : t.owner ≠ t'.owner)
    (hclear : (rules aead key lower hashtext).Clear t' db) (upsert : Upsert) :
    (rules aead key lower hashtext).Clear t' (t.apply upsert db) := by
  rw [clear_iff] at hclear ⊢
  intro c hc hcolumn hother
  cases upsert with
  | insert id =>
    rcases mem_insert.1 hc with hold | rfl
    · exact hclear c hold hcolumn hother
    · exact absurd (Option.some.inj hcolumn) howner
  | update id =>
    obtain ⟨r, hr, rfl⟩ := (mem_update id).1 hc
    rcases replace_cases t r with ⟨-, hsame⟩ | ⟨haccount, hnew⟩
    · rw [hsame] at hcolumn hother ⊢
      exact hclear r hr hcolumn hother
    · -- the row belongs to the owner of the lock that the commit was made under
      rw [hnew] at hcolumn
      obtain ⟨owner, howned, howns⟩ := h.owned r hr
      rw [haccount, t.owned] at howned
      exact absurd (Option.some.inj (howned.trans (howns.symm.trans hcolumn))) howner

/-- A commit for another account neither makes the account's row nor takes it away. -/
theorem Fits.apply {upsert' : Upsert} (h : Fits t' upsert' db) (haccount : t.accountId ≠ t'.accountId)
    (upsert : Upsert) : Fits t' upsert' (t.apply upsert db) := by
  cases upsert' with
  | insert id' =>
    intro c hc
    cases upsert with
    | insert id =>
      rcases mem_insert.1 hc with hold | rfl
      · exact h c hold
      · exact haccount
    | update id =>
      obtain ⟨r, hr, rfl⟩ := (mem_update id).1 hc
      rw [(replace_keys t r).2.1]
      exact h r hr
  | update id' =>
    obtain ⟨c, hc, hsame, hid⟩ := h
    cases upsert with
    | insert id => exact ⟨c, mem_insert.2 (.inl hc), hsame, hid⟩
    | update id =>
      obtain ⟨hid', haccount', -⟩ := replace_keys t c
      have hmem : t.replace c ∈ (t.apply (.update id) db).tables .wallet := (mem_update id).2 ⟨c, hc, rfl⟩
      exact ⟨t.replace c, hmem, haccount'.trans hsame, hid'.trans hid⟩

/-- The statements keep what the check has seen, except under the same lock. -/
theorem keeps (haead : aead.Ideal) (hlower : ∀ s, lower (lower s) = lower s) (hashtext : String → BitVec 32) :
    LockedTransactions.Keeps (rules aead key lower hashtext) (Once aead key lower) Fits where
  write_inv {db t} h := by
    show Once aead key lower (t.upsert db).2
    unfold Insertion.upsert
    split
    · exact h
    · exact ⟨h.owned, h.readable, h.distinct⟩
  write_fits {db t} := by
    show Fits t (t.upsert db).1 (t.upsert db).2
    unfold Insertion.upsert
    split
    next c hc =>
      unfold Database.find at hc
      have haccount := List.find?_some hc
      rw [decide_eq_true_eq] at haccount
      exact ⟨c, List.mem_of_find?_eq_some hc, haccount, rfl⟩
    next hnone =>
      intro c hc haccount
      exact find_eq_none_iff.1 hnone (haccount ▸ List.mem_map_of_mem hc)
  write_clear {db t t'} h := by
    rw [clear_iff] at h ⊢
    show ∀ c ∈ (t.upsert db).2.tables .wallet, _
    unfold Insertion.upsert
    split <;> exact h
  write_others {db t t' upsert} h := by
    show Fits t' upsert (t.upsert db).2
    unfold Insertion.upsert
    split
    · exact h
    · cases upsert <;> exact h
  commit_inv {db t upsert} h hclear hfits := by
    cases upsert with
    | insert id => exact h.insert haead hlower hclear hfits
    | update id => exact h.update haead hlower hclear id
  commit_clear {db t t' upsert} hkey h hclear := h.clear_apply (owner_ne hkey).1 hclear upsert
  commit_others {db t t' upsert upsert'} hkey hfits := hfits.apply (owner_ne hkey).2 upsert
  serve_inv {db id} h := h.delete id
  serve_clear {db id t} h := by
    rw [clear_iff] at h ⊢
    intro c hc
    exact h c (mem_delete.1 hc).1
  serve_fits {db id t upsert} hwaits h := by
    cases upsert with
    | insert id' => exact fun c hc => h c (mem_delete.1 hc).1
    | update id' =>
      obtain ⟨c, hc, haccount, hid⟩ := h
      have hne : Upsert.update id' ≠ .update id := of_decide_eq_false hwaits
      exact ⟨c, mem_delete.2 ⟨hc, fun heq => hne (by rw [← hid, heq])⟩, haccount, hid⟩

/-- However the statements of transactions and deletions come to lie, an owner's rows read distinct addresses;
and who is refused saw a row of the owner's with the address, under another account, committed when it looked. -/
theorem wallet_connected_once (haead : aead.Ideal) (hlower : ∀ s, lower (lower s) = lower s)
    (hashtext : String → BitVec 32) (hdb : Once aead key lower db)
    (moves : List (LockedTransactions.Move (Insertion aead key lower) ℕ)) :
    Once aead key lower ((System.init db).run (rules aead key lower hashtext) moves).shared ∧
    ∀ i t existing, ((System.init db).run (rules aead key lower hashtext) moves).transactions[i]? =
        some (t, .refused existing) →
      ∃ n, moves[n]? = some (.look i) ∧
        ∃ c ∈ ((System.init db).run (rules aead key lower hashtext) (moves.take n)).shared.tables .wallet,
          ownerOf c.accountId = some t.owner ∧ c.accountId ≠ t.accountId ∧
            storedAddress aead key lower c = .ok (lower t.address) := by
  have hsafe : Safe (rules aead key lower hashtext) (Once aead key lower) Fits (System.init db) := safe_init hdb
  refine ⟨(hsafe.run (keeps haead hlower hashtext) moves).shared, fun i t existing hrefused => ?_⟩
  obtain ⟨n, hlook, rfl, hrefuses⟩ := refused_looked hrefused
  have hthen := (hsafe.run (keeps haead hlower hashtext) (moves.take n)).shared
  obtain ⟨c, hc, haddress⟩ := List.any_eq_true.1 hrefuses
  obtain ⟨hmem, hselected⟩ := List.mem_filter.1 hc
  rw [decide_eq_true_eq] at hselected haddress
  obtain ⟨owner, howner, hcolumn⟩ := hthen.owned c hmem
  refine ⟨n, hlook, c, hmem, ?_, hselected.2, haddress⟩
  rw [howner, ← hcolumn, hselected.1]

/-- A transaction that nothing comes between does what one statement would. -/
theorem alone_inserts (hashtext : String → BitVec 32) (t : Insertion aead key lower)
    (hsymbols : ∀ c ∈ db.tables .wallet, c.symbols = []) :
    ((System.init db).run (rules aead key lower hashtext)
        [.start t, .lock 0, .look 0, .write 0, .commit 0]).shared =
      if t.alreadyConnected (t.existing db) then db
      else (db.insert .wallet t.accountId (some t.owner) t.encrypted [] t.label t.nowMs).2 := by
  cases hrefuses : t.alreadyConnected (t.existing db) with
  | true => simp [System.run, System.step, System.init, rules, hrefuses]
  | false =>
    have hcommitted : ((System.init db).run (rules aead key lower hashtext)
        [.start t, .lock 0, .look 0, .write 0, .commit 0]).shared = t.apply (t.upsert db).1 (t.upsert db).2 := by
      simp [System.run, System.step, System.init, System.release, rules, hrefuses]
    rw [hcommitted, if_neg Bool.false_ne_true]
    unfold Insertion.upsert Database.insert
    cases db.find .wallet t.accountId with
    | none => rfl
    | some c =>
      show db.setTable .wallet ((db.tables .wallet).map t.replace) = _
      refine congrArg (db.setTable .wallet) (List.map_congr_left fun r hr => ?_)
      unfold Insertion.replace
      split_ifs with haccount
      · rw [← hsymbols r hr]
      · rfl

end Once

section Overlap

open Rekey (lowercase labelling labelling_ideal rotated someNonce)

theorem lowercase_idem (text : String) : lowercase (lowercase text) = lowercase text := by
  unfold lowercase
  rw [String.toList_ofList, List.map_map]
  refine congrArg String.ofList (List.map_congr_left fun c _ => ?_)
  exact Char.toLower_toLower_eq_toLower c

/-- An owner's wallet under one of the owner's accounts. -/
def insertionOf (accountId : String) (howned : ownerOf accountId = some "0x00000000000000000000000000000000000000ab") :
    Insertion labelling rotated lowercase :=
  ⟨accountId, "0x00000000000000000000000000000000000000ab", "0x00000000000000000000000000000000000000Fe", none, 0,
    someNonce, ⟨FORMAT_V2 :: 9 :: (rotated.current.val ++ someNonce.val ++ asBytes (context accountId) ++
      asBytes (lowercase "0x00000000000000000000000000000000000000Fe")), someNonce.val⟩, howned, rfl⟩

/-- Two accounts of the owner connect the wallet at a time. -/
def overlapping : List (LockedTransactions.Move (Insertion labelling rotated lowercase) ℕ) :=
  [.start (insertionOf "0x00000000000000000000000000000000000000AB" (by decide +kernel)),
    .start (insertionOf "0x00000000000000000000000000000000000000ab_second" (by decide +kernel)),
    .lock 0, .lock 1, .look 0, .look 1, .write 0, .lock 1, .commit 0, .lock 1, .look 1]

theorem once_init : Once labelling rotated lowercase (Database.init EncryptedField) :=
  ⟨fun _ hc => (by cases hc), fun _ hc => (by cases hc), List.Pairwise.nil⟩

theorem wallet_connected_once_overlapping :
    ((System.init (Database.init EncryptedField)).run (rules labelling rotated lowercase fun _ => 0)
        overlapping).transactions[1]?.any (fun w => match w.2 with | .refused _ => true | _ => false) = true ∧
    Once labelling rotated lowercase
      ((System.init (Database.init EncryptedField)).run (rules labelling rotated lowercase fun _ => 0) overlapping).shared :=
  ⟨by decide +kernel, (wallet_connected_once labelling_ideal lowercase_idem (fun _ => 0) once_init overlapping).1⟩

end Overlap

end Linvesther.Worker.WalletInsert
