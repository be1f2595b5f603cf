import Linvesther.Base.ReadCommitted
import Linvesther.ChainWorker.Relayer

/-! `readOnlyTokenStore.ts`: tokens are issued, presented and revoked by single statements of any number of
API instances. An insert counts the live tokens of its address in the snapshot it started with. -/

namespace Linvesther.Api.Tokens

open ChainWorker ReadCommitted

section Store

def READ_ONLY_SCOPE : String := "read:account"

def TOKEN_PREFIX : String := "lvz_ro_"

def TOKEN_BYTES : ℕ := 32

def MAX_TOKEN_LENGTH : ℕ := TOKEN_PREFIX.length + TOKEN_BYTES * 2

def MAX_ACTIVE_TOKENS : ℕ := 20

/-- A row of `api_read_only_tokens`. -/
structure TokenRow where
  id : String
  tokenDigest : String
  address : String
  label : String
  scope : String
  createdAt : ℕ
  lastUsedAt : Option ℕ
  revokedAt : Option ℕ
  expiresAt : Option ℕ
deriving DecidableEq

structure ReadOnlyTokenRecord where
  id : String
  address : String
  label : String
  scope : String
  createdAt : ℕ
  lastUsedAt : Option ℕ
  revokedAt : Option ℕ
  expiresAt : Option ℕ
deriving DecidableEq

inductive TokenRefusal where
  | unknown | revoked | expired
deriving DecidableEq

/-- `randomBytes(TOKEN_BYTES)`. -/
structure RandomBytes where
  bytes : List UInt8
  length_eq : bytes.length = TOKEN_BYTES
deriving DecidableEq

def toHex (bytes : List UInt8) : List Char :=
  bytes.flatMap fun b => [Nat.digitChar (b.toNat / 16), Nat.digitChar (b.toNat % 16)]

def generateReadOnlyToken (random : RandomBytes) : String :=
  TOKEN_PREFIX ++ String.ofList (toHex random.bytes)

/-- `[0-9a-f]`. -/
def isHexDigit (c : Char) : Bool := '0' ≤ c && c ≤ '9' || 'a' ≤ c && c ≤ 'f'

def looksLikeReadOnlyToken (candidate : String) : Bool :=
  let secret := candidate.toList.drop TOKEN_PREFIX.length
  candidate.length = MAX_TOKEN_LENGTH && TOKEN_PREFIX.toList.isPrefixOf candidate.toList &&
    (secret ≠ [] && secret.all isHexDigit)

def fromRow (row : TokenRow) : ReadOnlyTokenRecord :=
  ⟨row.id, row.address, row.label, row.scope, row.createdAt, row.lastUsedAt, row.revokedAt, row.expiresAt⟩

def refusalFor (record : ReadOnlyTokenRecord) (now : ℕ) : Option TokenRefusal :=
  if record.revokedAt ≠ none then some .revoked
  else if record.expiresAt.any (· ≤ now) then some .expired
  else none

def hasReadOnlyScope (record : ReadOnlyTokenRecord) : Bool := record.scope = READ_ONLY_SCOPE

/-- `expires_at IS NULL OR expires_at > now`. -/
def unexpired (expiresAt : Option ℕ) (now : ℕ) : Bool := expiresAt.all (now < ·)

def TokenRow.live (address : String) (now : ℕ) (r : TokenRow) : Bool :=
  r.address = address && r.revokedAt = none && unexpired r.expiresAt now

/-- What the update of `authenticate` looks for. -/
def TokenRow.accepts (digest : String) (now : ℕ) (r : TokenRow) : Bool :=
  r.tokenDigest = digest && r.scope = READ_ONLY_SCOPE && (r.revokedAt = none && unexpired r.expiresAt now)

/-- What the update of `revoke` looks for. -/
def TokenRow.revocable (address id : String) (r : TokenRow) : Bool :=
  r.id = id && r.address = address && r.revokedAt = none

def TokenRow.used (now : ℕ) (r : TokenRow) : TokenRow := { r with lastUsedAt := some now }

def TokenRow.revoke (now : ℕ) (r : TokenRow) : TokenRow := { r with revokedAt := some now }

/-- The calls, with what they draw at random. -/
inductive TokenCall where
  | issue (address : Hex) (label : String) (expiresAt : Option ℕ) (id : String) (random : RandomBytes)
  | authenticate (presented : String)
  | revoke (address : Hex) (id : String)
deriving DecidableEq

inductive TokenAnswer where
  | issued (token : String) (record : ReadOnlyTokenRecord)
  | tooManyReadOnlyTokens
  | duplicateKey
  | accepted (record : ReadOnlyTokenRecord)
  | refused (reason : TokenRefusal)
  | revoked (done : Bool)
deriving DecidableEq

/-- A statement under way: the time its call read, its snapshot, and how long the log was then. -/
structure Statement where
  call : TokenCall
  now : ℕ
  snapshot : List TokenRow
  started : ℕ
deriving DecidableEq

inductive CallState where
  | idle
  | called (call : TokenCall) (now : ℕ)
  | running (c : Statement)
  /-- The update matched nothing, and a second statement is to say why. -/
  | naming (presented : String) (now : ℕ)
  | answered (answer : TokenAnswer)
deriving DecidableEq

/-- What was committed, in that order: no statement reads it. -/
inductive TokenEvent where
  | issued (token : String) (row : TokenRow)
  | revoked (address : Hex) (id : String)
  | authenticated (presented : String) (now started : ℕ) (accepted : Option TokenRow)
deriving DecidableEq

/-- The table, the time, the calls of all instances by a number of their own, and the log. -/
structure Store where
  table : List TokenRow
  clock : ℕ
  calls : ℕ → CallState
  log : List TokenEvent

def Store.init : Store := ⟨[], 0, fun _ => .idle, []⟩

inductive Action where
  | tick (ms : ℕ)
  | call (i : ℕ) (call : TokenCall)
  | start (i : ℕ)
  | commit (i : ℕ)
deriving DecidableEq

def Store.set (s : Store) (i : ℕ) (state : CallState) : Store :=
  { s with calls := Function.update s.calls i state }

variable (digest : String → String)

/-- The row that `issue` inserts. -/
def issuedRow (address : Hex) (label : String) (expiresAt : Option ℕ) (id : String) (random : RandomBytes)
    (now : ℕ) : TokenRow :=
  ⟨id, digest (generateReadOnlyToken random), address.toLowerCase, label, READ_ONLY_SCOPE, now, none, none,
    expiresAt⟩

/-- Neither the primary key nor the unique digest is in the table. -/
def fresh (row : TokenRow) (table : List TokenRow) : Bool :=
  row.id ∉ table.map TokenRow.id ∧ row.tokenDigest ∉ table.map TokenRow.tokenDigest

def Store.commitIssue (s : Store) (i : ℕ) (snapshot : List TokenRow) (token : String) (address : Hex)
    (row : TokenRow) : Store :=
  if snapshot.countP (TokenRow.live address.toLowerCase row.createdAt) < MAX_ACTIVE_TOKENS then
    if fresh row s.table then
      { s.set i (.answered (.issued token { fromRow row with address := address.text })) with
        table := s.table ++ [row]
        log := s.log ++ [.issued token row] }
    else s.set i (.answered .duplicateKey)
  else s.set i (.answered .tooManyReadOnlyTokens)

def Store.commitAuthenticate (s : Store) (i : ℕ) (snapshot : List TokenRow) (started : ℕ)
    (presented : String) (now : ℕ) : Store :=
  let found := returning TokenRow.id (TokenRow.accepts (digest presented) now) (TokenRow.used now) snapshot
    s.table
  { s.set i (match found.head? with
      | some row => .answered (.accepted (fromRow row))
      | none => .naming presented now) with
    table := update TokenRow.id (TokenRow.accepts (digest presented) now) (TokenRow.used now) snapshot
      s.table
    log := s.log ++ [.authenticated presented now started found.head?] }

def Store.commitRevoke (s : Store) (i : ℕ) (snapshot : List TokenRow) (address : Hex) (id : String)
    (now : ℕ) : Store :=
  let found := returning TokenRow.id (TokenRow.revocable address.toLowerCase id) (TokenRow.revoke now)
    snapshot s.table
  { s.set i (.answered (.revoked (found ≠ []))) with
    table := update TokenRow.id (TokenRow.revocable address.toLowerCase id) (TokenRow.revoke now) snapshot
      s.table
    log := if found = [] then s.log else s.log ++ [.revoked address id] }

def Store.commitStatement (s : Store) (i : ℕ) (c : Statement) : Store :=
  match c.call with
  | .issue address label expiresAt id random =>
    s.commitIssue i c.snapshot (generateReadOnlyToken random) address
      (issuedRow digest address label expiresAt id random c.now)
  | .authenticate presented => s.commitAuthenticate digest i c.snapshot c.started presented c.now
  | .revoke address id => s.commitRevoke i c.snapshot address id c.now

/-- The statement that only describes what the update has decided. -/
def Store.nameRefusal (s : Store) (presented : String) (now : ℕ) : TokenRefusal :=
  match s.table.find? (·.tokenDigest = digest presented) with
  | none => .unknown
  | some row =>
    if hasReadOnlyScope (fromRow row) then (refusalFor (fromRow row) now).getD .unknown else .unknown

/-- A call begins with the time it reads; what is not shaped like a token is refused at once. -/
def Store.begin (s : Store) (i : ℕ) (call : TokenCall) : Store :=
  match call with
  | .authenticate presented =>
    if looksLikeReadOnlyToken presented then s.set i (.called call s.clock)
    else
      { s.set i (.answered (.refused .unknown)) with
        log := s.log ++ [.authenticated presented s.clock s.log.length none] }
  | _ => s.set i (.called call s.clock)

def Store.step (s : Store) : Action → Store
  | .tick ms => { s with clock := s.clock + ms }
  | .call i call =>
    match s.calls i with
    | .idle => s.begin i call
    | _ => s
  | .start i =>
    match s.calls i with
    | .called call now => s.set i (.running ⟨call, now, s.table, s.log.length⟩)
    | _ => s
  | .commit i =>
    match s.calls i with
    | .running c => s.commitStatement digest i c
    | .naming presented now => s.set i (.answered (.refused (s.nameRefusal digest presented now)))
    | _ => s

def run (actions : List Action) : Store := actions.foldl (Store.step digest) .init

/-- The live tokens of an address, at the time that it is. -/
def Store.liveTokens (s : Store) (address : Hex) : ℕ :=
  s.table.countP (TokenRow.live address.toLowerCase s.clock)

def Store.Capped (s : Store) : Prop := ∀ address, s.liveTokens address ≤ MAX_ACTIVE_TOKENS

/-- A presented token is accepted, and as which one: it was issued before the statement started, no revoke
of it was committed before, and it is not expired. -/
def AcceptsExactly (log : List TokenEvent) : Prop :=
  ∀ k presented now started accepted, log[k]? = some (.authenticated presented now started accepted) →
    started ≤ k ∧ ∀ id, accepted.map TokenRow.id = some id ↔
      ∃ row, .issued presented row ∈ log.take started ∧ row.id = id ∧
        (∀ address, .revoked address id ∉ log.take k) ∧ unexpired row.expiresAt now = true

/-- A row that is revoked by an action is so by the commit of a revoke that names its address and id. -/
def RevokedByOwn (s s' : Store) (a : Action) : Prop :=
  ∀ r ∈ s.table, ∀ r' ∈ s'.table, r'.id = r.id → r.revokedAt = none → r'.revokedAt ≠ none →
    ∃ i c address, a = .commit i ∧ s.calls i = .running c ∧ c.call = .revoke address r.id ∧
      address.toLowerCase = r.address

/-- What is asked of a run. -/
structure Kept (actions : List Action) : Prop where
  capped : ∀ n, (run digest (actions.take n)).Capped
  accepts : ∀ n, AcceptsExactly (run digest (actions.take n)).log
  revokes : ∀ n a, actions[n]? = some a →
    RevokedByOwn (run digest (actions.take n)) ((run digest (actions.take n)).step digest a) a

/-- An insert that adds a token: none of its address was added since its snapshot, or there still is room. -/
def Roomy (s : Store) : Action → Prop
  | .commit i =>
    match s.calls i with
    | .running ⟨.issue address label expiresAt id random, now, snapshot, _⟩ =>
      snapshot.countP (TokenRow.live address.toLowerCase now) < MAX_ACTIVE_TOKENS →
      fresh (issuedRow digest address label expiresAt id random now) s.table = true →
      unexpired expiresAt s.clock = true →
        (∀ r ∈ s.table, r.address = address.toLowerCase → r.id ∈ snapshot.map TokenRow.id) ∨
          s.liveTokens address < MAX_ACTIVE_TOKENS
    | _ => True
  | _ => True

instance (s : Store) : (a : Action) → Decidable (Roomy digest s a)
  | .tick _ => inferInstanceAs (Decidable True)
  | .call _ _ => inferInstanceAs (Decidable True)
  | .start _ => inferInstanceAs (Decidable True)
  | .commit i => by
    unfold Roomy
    dsimp only
    split <;> infer_instance

end Store

section Tokens

theorem length_toHex (bytes : List UInt8) : (toHex bytes).length = bytes.length * 2 := by
  induction bytes with
  | nil => rfl
  | cons b bytes ih =>
    rw [toHex, List.flatMap_cons, List.length_append, List.length_cons, ← toHex, ih]
    simp only [List.length_cons, List.length_nil]
    omega

theorem isHexDigit_digitChar {n : ℕ} (h : n < 16) : isHexDigit (Nat.digitChar n) = true := by
  interval_cases n <;> decide

theorem all_isHexDigit_toHex (bytes : List UInt8) : (toHex bytes).all isHexDigit = true := by
  induction bytes with
  | nil => rfl
  | cons b bytes ih =>
    have hlow : b.toNat % 16 < 16 := Nat.mod_lt _ (by omega)
    have hhigh : b.toNat / 16 < 16 := by
      have := b.toNat_lt
      omega
    rw [toHex, List.flatMap_cons, List.all_append, ← toHex, ih, Bool.and_true, List.all_cons, List.all_cons,
      isHexDigit_digitChar hlow, isHexDigit_digitChar hhigh]
    rfl

theorem looksLike_generate (random : RandomBytes) :
    looksLikeReadOnlyToken (generateReadOnlyToken random) = true := by
  have hlength : (toHex random.bytes).length = TOKEN_BYTES * 2 := by
    rw [length_toHex, random.length_eq]
  have hsecret : (generateReadOnlyToken random).toList.drop TOKEN_PREFIX.length = toHex random.bytes := by
    rw [generateReadOnlyToken, String.toList_append, String.toList_ofList, ← String.length_toList,
      List.drop_left]
  have hnonempty : toHex random.bytes ≠ [] := by
    intro hnil
    rw [hnil] at hlength
    cases hlength
  have hbegins : TOKEN_PREFIX.toList.isPrefixOf (generateReadOnlyToken random).toList = true := by
    rw [List.isPrefixOf_iff_prefix, generateReadOnlyToken, String.toList_append]
    exact List.prefix_append _ _
  have htotal : (generateReadOnlyToken random).length = MAX_TOKEN_LENGTH := by
    rw [generateReadOnlyToken, String.length_append, String.length_ofList, hlength, MAX_TOKEN_LENGTH]
  simp only [looksLikeReadOnlyToken, hsecret, hbegins, htotal, all_isHexDigit_toHex]
  simp [hnonempty]

end Tokens

section Rows

/-- The same token at a later time: what was issued does not change, and a revoke is not undone. -/
structure Later (r r' : TokenRow) : Prop where
  id : r.id = r'.id
  tokenDigest : r.tokenDigest = r'.tokenDigest
  address : r.address = r'.address
  scope : r.scope = r'.scope
  expiresAt : r.expiresAt = r'.expiresAt
  unrevoked : r'.revokedAt = none → r.revokedAt = none

theorem Later.refl (r : TokenRow) : Later r r := ⟨rfl, rfl, rfl, rfl, rfl, fun h => h⟩

theorem Later.trans (a b c : TokenRow) (h : Later a b) (h' : Later b c) : Later a c :=
  ⟨h.id.trans h'.id, h.tokenDigest.trans h'.tokenDigest, h.address.trans h'.address, h.scope.trans h'.scope,
    h.expiresAt.trans h'.expiresAt, fun hc => h.unrevoked (h'.unrevoked hc)⟩

theorem later_used (now : ℕ) (r : TokenRow) : Later r (r.used now) := ⟨rfl, rfl, rfl, rfl, rfl, fun h => h⟩

theorem later_revoke (now : ℕ) (r : TokenRow) : Later r (r.revoke now) :=
  ⟨rfl, rfl, rfl, rfl, rfl, nofun⟩

theorem unexpired_of_le {expiresAt : Option ℕ} {now now' : ℕ} (hle : now ≤ now')
    (h : unexpired expiresAt now' = true) : unexpired expiresAt now = true := by
  cases expiresAt with
  | none => rfl
  | some t =>
    simp only [unexpired, Option.all_some, decide_eq_true_eq] at h ⊢
    omega

theorem live_iff {address : String} {now : ℕ} {r : TokenRow} :
    r.live address now = true ↔
      r.address = address ∧ r.revokedAt = none ∧ unexpired r.expiresAt now = true := by
  simp only [TokenRow.live, Bool.and_eq_true, decide_eq_true_eq, and_assoc]

theorem accepts_iff {digest : String} {now : ℕ} {r : TokenRow} :
    r.accepts digest now = true ↔ r.tokenDigest = digest ∧ r.scope = READ_ONLY_SCOPE ∧
      r.revokedAt = none ∧ unexpired r.expiresAt now = true := by
  simp only [TokenRow.accepts, Bool.and_eq_true, decide_eq_true_eq, and_assoc]

theorem revocable_iff {address id : String} {r : TokenRow} :
    r.revocable address id = true ↔ r.id = id ∧ r.address = address ∧ r.revokedAt = none := by
  simp only [TokenRow.revocable, Bool.and_eq_true, decide_eq_true_eq, and_assoc]

/-- What is live now was so at every earlier time since it was issued. -/
theorem live_of_later {address : String} {now now' : ℕ} (hle : now ≤ now') {r r' : TokenRow}
    (h : Later r r') (hlive : r'.live address now' = true) : r.live address now = true := by
  rw [live_iff] at hlive ⊢
  exact ⟨h.address.trans hlive.1, h.unrevoked hlive.2.1, h.expiresAt ▸ unexpired_of_le hle hlive.2.2⟩

theorem accepts_of_later {digest : String} {now : ℕ} (r r' : TokenRow) (h : Later r r')
    (haccepts : r'.accepts digest now = true) : r.accepts digest now = true := by
  rw [accepts_iff] at haccepts ⊢
  obtain ⟨hdigest, hscope, hrevoked, hexpires⟩ := haccepts
  exact ⟨h.tokenDigest.trans hdigest, h.scope.trans hscope, h.unrevoked hrevoked, h.expiresAt ▸ hexpires⟩

theorem revocable_of_later {address id : String} (r r' : TokenRow) (h : Later r r')
    (hrevocable : r'.revocable address id = true) : r.revocable address id = true := by
  rw [revocable_iff] at hrevocable ⊢
  exact ⟨h.id.trans hrevocable.1, h.address.trans hrevocable.2.1, h.unrevoked hrevocable.2.2⟩

end Rows

section Invariant

variable {digest : String → String} {s : Store} {table : List TokenRow} {log : List TokenEvent}
  {clock : ℕ} {e : TokenEvent}

/-- What an event has issued. -/
def TokenEvent.issuance : TokenEvent → Option (String × TokenRow)
  | .issued token row => some (token, row)
  | _ => none

def issuedIn (log : List TokenEvent) : List (String × TokenRow) := log.filterMap TokenEvent.issuance

theorem issuedIn_append (log : List TokenEvent) (e : TokenEvent) :
    issuedIn (log ++ [e]) = issuedIn log ++ e.issuance.toList := by
  rw [issuedIn, List.filterMap_append]
  cases h : e.issuance <;> simp [h, issuedIn]

theorem mem_issuedIn {token : String} {row : TokenRow} :
    (token, row) ∈ issuedIn log ↔ .issued token row ∈ log := by
  rw [issuedIn, List.mem_filterMap]
  constructor
  · intro ⟨e, he, hissued⟩
    cases e with
    | issued token' row' =>
      cases hissued
      exact he
    | revoked address id => cases hissued
    | authenticated presented now started accepted => cases hissued
  · exact fun h => ⟨_, h, rfl⟩

/-- A token as it was issued. -/
structure Issuance (digest : String → String) (token : String) (row : TokenRow) : Prop where
  shape : looksLikeReadOnlyToken token = true
  tokenDigest : row.tokenDigest = digest token
  scope : row.scope = READ_ONLY_SCOPE

/-- The rows are the tokens that the log has issued, revoked where the log says so. -/
structure TableInv (digest : String → String) (table : List TokenRow) (log : List TokenEvent) : Prop where
  ids : (table.map TokenRow.id).Nodup
  digests : (table.map TokenRow.tokenDigest).Nodup
  rows : List.Forall₂ Later ((issuedIn log).map Prod.snd) table
  issuances : ∀ i ∈ issuedIn log, Issuance digest i.1 i.2
  revoked : ∀ r ∈ table, r.revokedAt ≠ none ↔ ∃ address, .revoked address r.id ∈ log
  revokedIds : ∀ address id, .revoked address id ∈ log → id ∈ table.map TokenRow.id
  accepts : AcceptsExactly log

structure StatementInv (clock : ℕ) (table : List TokenRow) (log : List TokenEvent) (c : Statement) :
    Prop where
  now_le : c.now ≤ clock
  since : Since Later c.snapshot table
  started_le : c.started ≤ log.length
  seen : c.snapshot.map TokenRow.id = (issuedIn (log.take c.started)).map fun i => i.2.id

def CallInv (clock : ℕ) (table : List TokenRow) (log : List TokenEvent) : CallState → Prop
  | .called _ now => now ≤ clock
  | .running c => StatementInv clock table log c
  | _ => True

structure Inv (digest : String → String) (s : Store) : Prop where
  table : TableInv digest s.table s.log
  calls : ∀ i, CallInv s.clock s.table s.log (s.calls i)

theorem inv_init : Inv digest .init := by
  refine ⟨⟨List.nodup_nil, List.nodup_nil, .nil, ?_, ?_, ?_, ?_⟩, fun _ => trivial⟩
  · intro i hi
    cases hi
  · intro r hr
    cases hr
  · intro address id h
    cases h
  · intro k presented now started accepted h
    cases h

theorem CallInv.mono (events : List TokenEvent) {clock' : ℕ} {table' : List TokenRow} {state : CallState}
    (hclock : clock ≤ clock') (htable : ∀ before, Since Later before table → Since Later before table')
    (h : CallInv clock table log state) : CallInv clock' table' (log ++ events) state := by
  cases state with
  | idle => trivial
  | called call now => exact Nat.le_trans h hclock
  | running c =>
    refine ⟨h.now_le.trans hclock, htable _ h.since, ?_, ?_⟩
    · rw [List.length_append]
      exact h.started_le.trans (Nat.le_add_right ..)
    · rw [List.take_append_of_le_length h.started_le]
      exact h.seen
  | naming presented now => trivial
  | answered answer => trivial

/-- One call goes on, and what the others rely on has only grown. -/
theorem calls_set {clock' : ℕ} {table' : List TokenRow} {events : List TokenEvent} {state : CallState}
    (i : ℕ) (hclock : clock ≤ clock')
    (htable : ∀ before, Since Later before table → Since Later before table') {calls : ℕ → CallState}
    (h : ∀ j, CallInv clock table log (calls j)) (hstate : CallInv clock' table' (log ++ events) state)
    (j : ℕ) : CallInv clock' table' (log ++ events) (Function.update calls i state j) := by
  by_cases hj : j = i
  · subst hj
    rw [Function.update_self]
    exact hstate
  · rw [Function.update_of_ne hj]
    exact (h j).mono _ hclock htable

/-- The log goes on, with a statement that accepts what it should if it is one that authenticates. -/
theorem AcceptsExactly.append (h : AcceptsExactly log)
    (hnew : ∀ presented now started accepted, e = .authenticated presented now started accepted →
      started ≤ log.length ∧ ∀ id, accepted.map TokenRow.id = some id ↔
        ∃ row, .issued presented row ∈ log.take started ∧ row.id = id ∧
          (∀ address, .revoked address id ∉ log) ∧ unexpired row.expiresAt now = true) :
    AcceptsExactly (log ++ [e]) := by
  intro k presented now started accepted hk
  have hlt := (List.getElem?_eq_some_iff.1 hk).1
  rw [List.length_append, List.length_singleton] at hlt
  rcases Nat.lt_succ_iff_lt_or_eq.1 hlt with hlt | rfl
  · rw [List.getElem?_append_left hlt] at hk
    obtain ⟨hstarted, haccepts⟩ := h k presented now started accepted hk
    refine ⟨hstarted, fun id => ?_⟩
    rw [List.take_append_of_le_length hlt.le, List.take_append_of_le_length (hstarted.trans hlt.le)]
    exact haccepts id
  · rw [List.getElem?_concat_length, Option.some.injEq] at hk
    obtain ⟨hstarted, haccepts⟩ := hnew presented now started accepted hk
    refine ⟨hstarted, fun id => ?_⟩
    rw [List.take_append_of_le_length le_rfl, List.take_length, List.take_append_of_le_length hstarted]
    exact haccepts id

/-- The row of a token that was issued. -/
theorem TableInv.exists_row (h : TableInv digest table log) {token : String} {row : TokenRow}
    (hissued : (token, row) ∈ issuedIn log) : ∃ r ∈ table, Later row r := by
  have hsince : Since Later ((issuedIn log).map Prod.snd) table :=
    ⟨table, [], (List.append_nil table).symm, h.rows⟩
  exact hsince.exists_later (List.mem_map_of_mem hissued)

theorem TableInv.eq_of_id (h : TableInv digest table log) {r r' : TokenRow} (hr : r ∈ table)
    (hr' : r' ∈ table) (hid : r.id = r'.id) : r = r' :=
  List.inj_on_of_nodup_map h.ids hr hr' hid

theorem TableInv.finds_iff (h : TableInv digest table log) {snapshot : List TokenRow}
    (hsince : Since Later snapshot table) {selects : TokenRow → Bool}
    (hback : ∀ r r', Later r r' → selects r' = true → selects r = true) {r : TokenRow}
    (hr : r ∈ table) : finds TokenRow.id selects snapshot r = true ↔
      selects r = true ∧ r.id ∈ snapshot.map TokenRow.id :=
  ReadCommitted.finds_iff (fun _ _ h => Later.id h) hback hsince h.ids hr

/-- What an update leaves of the table, given what it says of revokes. -/
theorem TableInv.updated (h : TableInv digest table log) {snapshot : List TokenRow}
    {selects : TokenRow → Bool} {sets : TokenRow → TokenRow} (hsets : ∀ r, Later r (sets r))
    {events : List TokenEvent} (hissued : issuedIn (log ++ events) = issuedIn log)
    (hrevoked : ∀ r ∈ table, (if finds TokenRow.id selects snapshot r then sets r else r).revokedAt ≠ none ↔
      ∃ address, .revoked address r.id ∈ log ++ events)
    (hids : ∀ address id, .revoked address id ∈ log ++ events → id ∈ table.map TokenRow.id)
    (haccepts : AcceptsExactly (log ++ events)) :
    TableInv digest (update TokenRow.id selects sets snapshot table) (log ++ events) := by
  have hlater : ∀ r ∈ table, Later r (if finds TokenRow.id selects snapshot r then sets r else r) := by
    intro r _
    split_ifs
    · exact hsets r
    · exact Later.refl r
  have hkeys := keys_update selects (fun r => (hsets r).id.symm) snapshot table
  refine ⟨?_, ?_, ?_, ?_, ?_, ?_, haccepts⟩
  · rw [hkeys]
    exact h.ids
  · have hdigests : (update TokenRow.id selects sets snapshot table).map TokenRow.tokenDigest =
        table.map TokenRow.tokenDigest := by
      rw [ReadCommitted.update, List.map_map]
      exact List.map_congr_left fun r hr => (hlater r hr).tokenDigest.symm
    rw [hdigests]
    exact h.digests
  · rw [hissued]
    exact forall₂_map_right Later.trans h.rows hlater
  · rw [hissued]
    exact h.issuances
  · intro r' hr'
    obtain ⟨r, hr, rfl⟩ := mem_update.1 hr'
    rw [← (hlater r hr).id]
    exact hrevoked r hr
  · intro address id hid
    rw [hkeys]
    exact hids address id hid

end Invariant

section Commits

variable {digest : String → String} {s : Store} {table : List TokenRow} {log : List TokenEvent} {clock : ℕ}

theorem Inv.set (h : Inv digest s) (i : ℕ) {state : CallState}
    (hstate : CallInv s.clock s.table s.log state) : Inv digest (s.set i state) := by
  refine ⟨h.table, fun j => ?_⟩
  have hlog : s.log ++ [] = s.log := List.append_nil _
  have := calls_set i le_rfl (fun _ hsince => hsince) h.calls (hlog.symm ▸ hstate) j
  rwa [hlog] at this

theorem head?_map_eq_some_iff {α β : Type} {l : List α} (f : α → β) (hunique : ∀ a ∈ l, ∀ b ∈ l, a = b)
    (x : β) : l.head?.map f = some x ↔ ∃ a ∈ l, f a = x := by
  cases l with
  | nil => simp
  | cons a l =>
    rw [List.head?_cons, Option.map_some, Option.some.injEq]
    constructor
    · exact fun h => ⟨a, List.mem_cons_self, h⟩
    · intro ⟨b, hb, hx⟩
      rw [hunique a List.mem_cons_self b hb]
      exact hx

/-- Which token the update of `authenticate` finds, by what the log tells of it. -/
theorem accepted_iff (hdigest : Function.Injective digest) (h : TableInv digest table log) {c : Statement}
    (hc : StatementInv clock table log c) (presented : String) (id : String) :
    ((returning TokenRow.id (TokenRow.accepts (digest presented) c.now) (TokenRow.used c.now) c.snapshot
      table).head?.map TokenRow.id = some id) ↔
      ∃ row, .issued presented row ∈ log.take c.started ∧ row.id = id ∧
        (∀ address, .revoked address id ∉ log) ∧ unexpired row.expiresAt c.now = true := by
  have hfinds : ∀ r ∈ table, finds TokenRow.id (TokenRow.accepts (digest presented) c.now) c.snapshot r =
      true ↔ r.accepts (digest presented) c.now = true ∧ r.id ∈ c.snapshot.map TokenRow.id :=
    fun r hr => h.finds_iff hc.since accepts_of_later hr
  have hmem : ∀ r', r' ∈ returning TokenRow.id (TokenRow.accepts (digest presented) c.now)
      (TokenRow.used c.now) c.snapshot table ↔ ∃ r ∈ table, (r.accepts (digest presented) c.now = true ∧
        r.id ∈ c.snapshot.map TokenRow.id) ∧ r.used c.now = r' := by
    intro r'
    rw [returning, List.mem_map]
    constructor
    · intro ⟨r, hr, hr'⟩
      obtain ⟨hin, hfound⟩ := List.mem_filter.1 hr
      exact ⟨r, hin, (hfinds r hin).1 hfound, hr'⟩
    · intro ⟨r, hin, hfound, hr'⟩
      exact ⟨r, List.mem_filter.2 ⟨hin, (hfinds r hin).2 hfound⟩, hr'⟩
  rw [head?_map_eq_some_iff]
  · constructor
    · intro ⟨r', hr', hid⟩
      obtain ⟨r, hr, ⟨haccepts, hseen⟩, rfl⟩ := (hmem r').1 hr'
      obtain ⟨hrdigest, -, hunrevoked, hexpires⟩ := accepts_iff.1 haccepts
      rw [hc.seen, List.mem_map] at hseen
      obtain ⟨⟨token, row⟩, hissued, hrow⟩ := hseen
      have hin : (token, row) ∈ issuedIn log :=
        ((List.take_sublist _ _).filterMap _).subset hissued
      obtain ⟨r₁, hr₁, hlater⟩ := h.exists_row hin
      have hsame : r₁ = r := h.eq_of_id hr₁ hr (hlater.id.symm.trans hrow)
      subst hsame
      have htoken : token = presented :=
        hdigest ((h.issuances _ hin).tokenDigest.symm.trans (hlater.tokenDigest.trans hrdigest))
      subst htoken
      refine ⟨row, mem_issuedIn.1 hissued, hrow.trans hid, fun address hrevoked => ?_, ?_⟩
      · have hid' : id = r₁.id := hid.symm
        exact (h.revoked r₁ hr₁).2 ⟨address, hid' ▸ hrevoked⟩ hunrevoked
      · rw [hlater.expiresAt]
        exact hexpires
    · intro ⟨row, hissued, hid, hrevoked, hexpires⟩
      have hin : (presented, row) ∈ issuedIn log := mem_issuedIn.2 (List.mem_of_mem_take hissued)
      obtain ⟨r, hr, hlater⟩ := h.exists_row hin
      have hrid : r.id = id := hlater.id.symm.trans hid
      refine ⟨r.used c.now, (hmem _).2 ⟨r, hr, ⟨accepts_iff.2 ⟨?_, ?_, ?_, ?_⟩, ?_⟩, rfl⟩, hrid⟩
      · exact hlater.tokenDigest.symm.trans (h.issuances _ hin).tokenDigest
      · exact hlater.scope.symm.trans (h.issuances _ hin).scope
      · by_contra hset
        obtain ⟨address, hrevoked'⟩ := (h.revoked r hr).1 hset
        exact hrevoked address (hrid ▸ hrevoked')
      · rw [← hlater.expiresAt]
        exact hexpires
      · rw [hc.seen, ← hlater.id]
        exact List.mem_map.2 ⟨(presented, row), mem_issuedIn.2 hissued, rfl⟩
  · -- the digest is unique
    intro a ha b hb
    obtain ⟨r, hr, ⟨haccepts, -⟩, rfl⟩ := (hmem a).1 ha
    obtain ⟨r', hr', ⟨haccepts', -⟩, rfl⟩ := (hmem b).1 hb
    have hdigests := (accepts_iff.1 haccepts).1.trans (accepts_iff.1 haccepts').1.symm
    rw [List.inj_on_of_nodup_map h.digests hr hr' hdigests]

theorem inv_commitAuthenticate (hdigest : Function.Injective digest) (h : Inv digest s) {i : ℕ}
    {c : Statement} (hi : s.calls i = .running c) (presented : String) :
    Inv digest (s.commitAuthenticate digest i c.snapshot c.started presented c.now) := by
  have hc : StatementInv s.clock s.table s.log c := by
    have := h.calls i
    rwa [hi] at this
  unfold Store.commitAuthenticate
  refine ⟨?_, fun j => ?_⟩
  · refine h.table.updated (later_used c.now) ?_ ?_ ?_ ?_
    · rw [issuedIn_append]
      exact List.append_nil _
    · intro r hr
      have hsame : (if finds TokenRow.id (TokenRow.accepts (digest presented) c.now) c.snapshot r then
          r.used c.now else r).revokedAt = r.revokedAt := by
        split_ifs <;> rfl
      rw [hsame, h.table.revoked r hr]
      simp
    · intro address id hin
      rcases List.mem_append.1 hin with hin | hin
      · exact h.table.revokedIds address id hin
      · cases List.mem_singleton.1 hin
    · refine h.table.accepts.append fun presented' now started accepted he => ?_
      cases he
      exact ⟨hc.started_le, accepted_iff hdigest h.table hc presented⟩
  · refine calls_set i le_rfl (fun before hsince => ?_) h.calls ?_ j
    · refine hsince.map Later.trans fun r _ => ?_
      split_ifs
      · exact later_used c.now r
      · exact Later.refl r
    · split <;> trivial

theorem mem_returning_revoke (address id : String) (now : ℕ) (h : TableInv digest table log)
    {snapshot : List TokenRow} (hsince : Since Later snapshot table) :
    returning TokenRow.id (TokenRow.revocable address id) (TokenRow.revoke now) snapshot table ≠ [] ↔
      ∃ r ∈ table, finds TokenRow.id (TokenRow.revocable address id) snapshot r = true ∧ r.id = id ∧
        r.address = address := by
  rw [returning, ne_eq, List.map_eq_nil_iff, List.filter_eq_nil_iff]
  push Not
  constructor
  · rintro ⟨r, hr, hfound⟩
    have hrevocable := revocable_iff.1 ((h.finds_iff hsince revocable_of_later hr).1 hfound).1
    exact ⟨r, hr, hfound, hrevocable.1, hrevocable.2.1⟩
  · rintro ⟨r, hr, hfound, -⟩
    exact ⟨r, hr, hfound⟩

theorem inv_commitRevoke (h : Inv digest s) {i : ℕ} {c : Statement} (hi : s.calls i = .running c)
    (address : Hex) (id : String) : Inv digest (s.commitRevoke i c.snapshot address id c.now) := by
  have hc : StatementInv s.clock s.table s.log c := by
    have := h.calls i
    rwa [hi] at this
  have hgrows : ∀ before, Since Later before s.table → Since Later before (update TokenRow.id
      (TokenRow.revocable address.toLowerCase id) (TokenRow.revoke c.now) c.snapshot s.table) := by
    intro before hsince
    refine hsince.map Later.trans fun r _ => ?_
    split_ifs
    · exact later_revoke c.now r
    · exact Later.refl r
  have hsome := mem_returning_revoke address.toLowerCase id c.now h.table hc.since
  unfold Store.commitRevoke
  set found := returning TokenRow.id (TokenRow.revocable address.toLowerCase id) (TokenRow.revoke c.now)
    c.snapshot s.table with hfound
  set events := if found = [] then [] else [TokenEvent.revoked address id] with hevents
  have hlog : (if found = [] then s.log else s.log ++ [.revoked address id]) = s.log ++ events := by
    rw [hevents]
    split_ifs <;> simp
  have hmem : ∀ e, e ∈ events ↔ found ≠ [] ∧ e = .revoked address id := by
    intro e
    rw [hevents]
    split_ifs with hnone <;> simp [hnone]
  have hissued : issuedIn (s.log ++ events) = issuedIn s.log := by
    rw [hevents]
    split_ifs
    · rw [List.append_nil]
    · rw [issuedIn_append]
      exact List.append_nil _
  refine ⟨?_, fun j => ?_⟩
  · dsimp only
    rw [hlog]
    refine h.table.updated (later_revoke c.now) hissued ?_ ?_ ?_
    · intro r hr
      have hlogged : (∃ a, .revoked a r.id ∈ s.log ++ events) ↔
          (∃ a, .revoked a r.id ∈ s.log) ∨ found ≠ [] ∧ r.id = id := by
        simp only [List.mem_append, hmem, TokenEvent.revoked.injEq, exists_or, exists_and_left,
          exists_eq_left]
      rw [hlogged]
      split_ifs with hfinds
      · have hid : r.id = id := (revocable_iff.1
          ((h.table.finds_iff hc.since revocable_of_later hr).1 hfinds).1).1
        exact ⟨fun _ => .inr ⟨hsome.2 ⟨r, hr, hfinds, hid, (revocable_iff.1
          ((h.table.finds_iff hc.since revocable_of_later hr).1 hfinds).1).2.1⟩, hid⟩,
          fun _ => Option.some_ne_none _⟩
      · rw [h.table.revoked r hr]
        refine ⟨.inl, fun hor => hor.resolve_right fun hfound => ?_⟩
        obtain ⟨hne, hid⟩ := hfound
        -- the row that was found has the same id
        obtain ⟨r₀, hr₀, hfinds₀, hid₀, -⟩ := hsome.1 hne
        rw [h.table.eq_of_id hr₀ hr (hid₀.trans hid.symm)] at hfinds₀
        exact hfinds hfinds₀
    · intro a id' hin
      rcases List.mem_append.1 hin with hin | hin
      · exact h.table.revokedIds a id' hin
      · obtain ⟨hne, he⟩ := (hmem _).1 hin
        obtain ⟨r₀, hr₀, -, hid₀, -⟩ := hsome.1 hne
        cases he
        exact hid₀ ▸ List.mem_map_of_mem hr₀
    · rw [hevents]
      split_ifs
      · rw [List.append_nil]
        exact h.table.accepts
      · refine h.table.accepts.append ?_
        intro _ _ _ _ he
        cases he
  · dsimp only
    rw [hlog]
    refine calls_set i le_rfl hgrows h.calls ?_ j
    trivial

theorem inv_commitIssue (h : Inv digest s) {i : ℕ} (snapshot : List TokenRow) (address : Hex)
    (label : String) (expiresAt : Option ℕ) (id : String) (random : RandomBytes) (now : ℕ) :
    Inv digest (s.commitIssue i snapshot (generateReadOnlyToken random) address
      (issuedRow digest address label expiresAt id random now)) := by
  unfold Store.commitIssue
  split_ifs with hroom hfresh
  · set row := issuedRow digest address label expiresAt id random now
    have hgrows : ∀ before, Since Later before s.table → Since Later before (s.table ++ [row]) :=
      fun _ hsince => hsince.insert row
    simp only [fresh, decide_eq_true_eq] at hfresh
    have hissued : issuedIn (s.log ++ [.issued (generateReadOnlyToken random) row]) =
        issuedIn s.log ++ [(generateReadOnlyToken random, row)] := issuedIn_append ..
    refine ⟨⟨?_, ?_, ?_, ?_, ?_, ?_, ?_⟩, fun j => ?_⟩
    · rw [List.map_append, List.nodup_append_comm]
      exact List.nodup_cons.2 ⟨hfresh.1, h.table.ids⟩
    · rw [List.map_append, List.nodup_append_comm]
      exact List.nodup_cons.2 ⟨hfresh.2, h.table.digests⟩
    · rw [hissued, List.map_append]
      exact List.rel_append h.table.rows (.cons (Later.refl row) .nil)
    · intro issued hin
      rw [hissued] at hin
      rcases List.mem_append.1 hin with hin | hin
      · exact h.table.issuances issued hin
      · rw [List.mem_singleton.1 hin]
        exact ⟨looksLike_generate random, rfl, rfl⟩
    · intro r hr
      have hlogged : (∃ a, .revoked a r.id ∈ s.log ++ [.issued (generateReadOnlyToken random) row]) ↔
          ∃ a, .revoked a r.id ∈ s.log := by
        simp
      rw [hlogged]
      rcases List.mem_append.1 hr with hr | hr
      · exact h.table.revoked r hr
      · -- nothing was revoked under an id that is new
        rw [List.mem_singleton.1 hr]
        refine ⟨fun hset => absurd rfl hset, fun ⟨a, hin⟩ => ?_⟩
        exact absurd (h.table.revokedIds a row.id hin) hfresh.1
    · intro a id' hin
      rcases List.mem_append.1 hin with hin | hin
      · rw [List.map_append]
        exact List.mem_append_left _ (h.table.revokedIds a id' hin)
      · cases List.mem_singleton.1 hin
    · exact h.table.accepts.append nofun
    · refine calls_set i le_rfl hgrows h.calls ?_ j
      trivial
  · exact h.set i trivial
  · exact h.set i trivial

theorem inv_begin (h : Inv digest s) (i : ℕ) (call : TokenCall) : Inv digest (s.begin i call) := by
  cases call with
  | issue address label expiresAt id random => exact h.set i le_rfl
  | revoke address id => exact h.set i le_rfl
  | authenticate presented =>
    unfold Store.begin
    dsimp only
    split_ifs with hshape
    · exact h.set i le_rfl
    · have hissued : issuedIn (s.log ++ [.authenticated presented s.clock s.log.length none]) =
          issuedIn s.log := by
        rw [issuedIn_append]
        exact List.append_nil _
      refine ⟨⟨h.table.ids, h.table.digests, ?_, ?_, ?_, ?_, ?_⟩, fun j => ?_⟩
      · rw [hissued]
        exact h.table.rows
      · rw [hissued]
        exact h.table.issuances
      · intro r hr
        rw [h.table.revoked r hr]
        simp
      · intro a id' hin
        rcases List.mem_append.1 hin with hin | hin
        · exact h.table.revokedIds a id' hin
        · cases List.mem_singleton.1 hin
      · refine h.table.accepts.append fun presented' now started accepted he => ?_
        cases he
        refine ⟨le_rfl, fun id => ⟨nofun, fun ⟨row, hin, _⟩ => ?_⟩⟩
        rw [List.take_length] at hin
        exact absurd (h.table.issuances _ (mem_issuedIn.2 hin)).shape hshape
      · refine calls_set i le_rfl (fun _ hsince => hsince) h.calls ?_ j
        trivial

/-- What one action leaves of the invariant. -/
theorem inv_step (hdigest : Function.Injective digest) (h : Inv digest s) (a : Action) :
    Inv digest (s.step digest a) := by
  cases a with
  | tick ms =>
    refine ⟨h.table, fun j => ?_⟩
    have := (h.calls j).mono [] (Nat.le_add_right s.clock ms) fun _ hsince => hsince
    rwa [List.append_nil] at this
  | call i call =>
    unfold Store.step
    dsimp only
    split
    · exact inv_begin h i call
    · exact h
  | start i =>
    unfold Store.step
    dsimp only
    split
    next call now hi =>
      have hnow : CallInv s.clock s.table s.log (.called call now) := hi ▸ h.calls i
      refine h.set i ⟨hnow, Since.refl Later.refl s.table, le_rfl, ?_⟩
      rw [List.take_length]
      have hids := h.table.rows
      rw [List.forall₂_map_left_iff] at hids
      exact (List.forall₂_eq_eq_eq ▸ List.forall₂_map_left_iff.2
        (List.forall₂_map_right_iff.2 (hids.imp fun _ _ hlater => hlater.id)) : _ = _).symm
    next => exact h
  | commit i =>
    unfold Store.step
    dsimp only
    split
    next c hi =>
      unfold Store.commitStatement
      split
      next address label expiresAt id random _ =>
        exact inv_commitIssue h c.snapshot address label expiresAt id random c.now
      next presented _ => exact inv_commitAuthenticate hdigest h hi presented
      next address id _ => exact inv_commitRevoke h hi address id
    next presented now hi => exact h.set i trivial
    next => exact h

theorem inv_run (hdigest : Function.Injective digest) (actions : List Action) :
    Inv digest (run digest actions) := by
  induction actions using List.reverseRecOn with
  | nil => exact inv_init
  | append_singleton actions a ih =>
    rw [run, List.foldl_append]
    exact inv_step hdigest ih a

end Commits

section Runs

variable {digest : String → String} {s : Store}

theorem run_take_succ (actions : List Action) (n : ℕ) :
    run digest (actions.take (n + 1)) =
      actions[n]?.elim (run digest (actions.take n)) ((run digest (actions.take n)).step digest) := by
  unfold run
  rw [List.take_add_one, List.foldl_append]
  cases actions[n]? <;> rfl

/-- Rows that only changed, and time that went on, leave no more live tokens than there were. -/
theorem capped_of_later {s' : Store} (h : s.Capped) (hclock : s.clock ≤ s'.clock)
    (htable : List.Forall₂ Later s.table s'.table) : s'.Capped := fun address =>
  (countP_le_of_forall₂ htable fun _ _ hlater hlive => live_of_later hclock hlater hlive).trans (h address)

theorem forall₂_update {selects : TokenRow → Bool} {sets : TokenRow → TokenRow}
    (hsets : ∀ r, Later r (sets r)) (snapshot table : List TokenRow) :
    List.Forall₂ Later table (update TokenRow.id selects sets snapshot table) := by
  refine forall₂_map_right Later.trans (List.forall₂_same.2 fun r _ => Later.refl r) fun r _ => ?_
  split_ifs
  · exact hsets r
  · exact Later.refl r

theorem forall₂_refl (table : List TokenRow) : List.Forall₂ Later table table :=
  List.forall₂_same.2 fun r _ => Later.refl r

/-- An insert keeps to the cap exactly when it finds room. -/
theorem capped_commitIssue_iff (h : Inv digest s) (hcapped : s.Capped) {i : ℕ} {c : Statement}
    (hi : s.calls i = .running c) (address : Hex) (label : String) (expiresAt : Option ℕ) (id : String)
    (random : RandomBytes) :
    (s.commitIssue i c.snapshot (generateReadOnlyToken random) address
      (issuedRow digest address label expiresAt id random c.now)).Capped ↔
      (c.snapshot.countP (TokenRow.live address.toLowerCase c.now) < MAX_ACTIVE_TOKENS →
        fresh (issuedRow digest address label expiresAt id random c.now) s.table = true →
        unexpired expiresAt s.clock = true →
        (∀ r ∈ s.table, r.address = address.toLowerCase → r.id ∈ c.snapshot.map TokenRow.id) ∨
          s.liveTokens address < MAX_ACTIVE_TOKENS) := by
  have hc : CallInv s.clock s.table s.log (.running c) := hi ▸ h.calls i
  set row := issuedRow digest address label expiresAt id random c.now
  unfold Store.commitIssue
  split_ifs with hroom hfresh
  · have hlive : row.live address.toLowerCase s.clock = unexpired expiresAt s.clock := by
      rw [Bool.eq_iff_iff, live_iff]
      exact ⟨fun hrow => hrow.2.2, fun hrow => ⟨rfl, rfl, hrow⟩⟩
    have hcount : ∀ a : Hex, (s.table ++ [row]).countP (TokenRow.live a.toLowerCase s.clock) =
        s.liveTokens a + if row.live a.toLowerCase s.clock then 1 else 0 := by
      intro a
      rw [List.countP_append, List.countP_singleton]
      rfl
    constructor
    · intro hnew _ _ hunexpired
      have hle : (s.table ++ [row]).countP (TokenRow.live address.toLowerCase s.clock) ≤
          MAX_ACTIVE_TOKENS := hnew address
      rw [hcount, if_pos (hlive.trans hunexpired)] at hle
      exact .inr hle
    · intro hnew a
      change (s.table ++ [row]).countP (TokenRow.live a.toLowerCase s.clock) ≤ MAX_ACTIVE_TOKENS
      rw [hcount]
      by_cases ha : row.live a.toLowerCase s.clock = true
      · rw [if_pos ha]
        obtain ⟨hsame, -, hunexpired⟩ := live_iff.1 ha
        have haddress : s.liveTokens a = s.liveTokens address := by
          unfold Store.liveTokens
          rw [← hsame]
          rfl
        rw [haddress]
        rcases hnew hroom hfresh hunexpired with hseen | hlt
        · -- all that counts now was in the snapshot
          have hle : s.liveTokens address ≤
              c.snapshot.countP (TokenRow.live address.toLowerCase c.now) :=
            hc.since.countP_le (fun _ _ hlater => hlater.id)
              (fun _ _ hlater hl => live_of_later hc.now_le hlater hl) h.table.ids
              fun r hr hl => hseen r hr (live_iff.1 hl).1
          exact Nat.lt_of_le_of_lt hle hroom
        · exact hlt
      · rw [if_neg ha]
        exact hcapped a
  · exact ⟨fun _ _ hfresh' => absurd hfresh' hfresh, fun _ => hcapped⟩
  · exact ⟨fun _ hroom' => absurd hroom' hroom, fun _ => hcapped⟩

theorem capped_step_iff (h : Inv digest s) (hcapped : s.Capped) (a : Action) :
    (s.step digest a).Capped ↔ Roomy digest s a := by
  cases a with
  | tick ms =>
    refine iff_of_true ?_ trivial
    exact capped_of_later hcapped (Nat.le_add_right ..) (forall₂_refl _)
  | call i call =>
    refine iff_of_true ?_ trivial
    unfold Store.step
    dsimp only
    split
    · unfold Store.begin
      split
      · split_ifs <;> exact hcapped
      · exact hcapped
    · exact hcapped
  | start i =>
    refine iff_of_true ?_ trivial
    unfold Store.step
    dsimp only
    split <;> exact hcapped
  | commit i =>
    unfold Store.step Roomy
    dsimp only
    cases hi : s.calls i with
    | idle => exact iff_of_true hcapped trivial
    | called call now => exact iff_of_true hcapped trivial
    | naming presented now => exact iff_of_true hcapped trivial
    | answered answer => exact iff_of_true hcapped trivial
    | running c =>
      obtain ⟨call, now, snapshot, started⟩ := c
      cases call with
      | issue address label expiresAt id random =>
        exact capped_commitIssue_iff h hcapped hi address label expiresAt id random
      | authenticate presented =>
        refine iff_of_true (capped_of_later hcapped le_rfl ?_) trivial
        exact forall₂_update (later_used now) snapshot s.table
      | revoke address id =>
        refine iff_of_true (capped_of_later hcapped le_rfl ?_) trivial
        exact forall₂_update (later_revoke now) snapshot s.table

/-- Rows whose revokes are as they were. -/
theorem revokedByOwn_of_same {s' : Store} {a : Action} (h : Inv digest s)
    (hsame : ∀ r' ∈ s'.table, r'.revokedAt ≠ none → ∃ r ∈ s.table, r.id = r'.id ∧ r.revokedAt ≠ none) :
    RevokedByOwn s s' a := by
  intro r hr r' hr' hid hunrevoked hrevoked
  obtain ⟨r₁, hr₁, hid₁, hrevoked₁⟩ := hsame r' hr' hrevoked
  rw [h.table.eq_of_id hr₁ hr (hid₁.trans hid)] at hrevoked₁
  exact absurd hunrevoked hrevoked₁

theorem revokedByOwn_step (h : Inv digest s) (a : Action) : RevokedByOwn s (s.step digest a) a := by
  cases a with
  | tick ms => exact revokedByOwn_of_same h fun r' hr' hset => ⟨r', hr', rfl, hset⟩
  | call i call =>
    refine revokedByOwn_of_same h fun r' hr' hset => ⟨r', ?_, rfl, hset⟩
    unfold Store.step Store.begin at hr'
    dsimp only at hr'
    split at hr'
    · split at hr'
      · split_ifs at hr' <;> exact hr'
      · exact hr'
    · exact hr'
  | start i =>
    refine revokedByOwn_of_same h fun r' hr' hset => ⟨r', ?_, rfl, hset⟩
    unfold Store.step at hr'
    dsimp only at hr'
    split at hr' <;> exact hr'
  | commit i =>
    unfold Store.step
    dsimp only
    cases hi : s.calls i with
    | idle => exact revokedByOwn_of_same h fun r' hr' hset => ⟨r', hr', rfl, hset⟩
    | called call now => exact revokedByOwn_of_same h fun r' hr' hset => ⟨r', hr', rfl, hset⟩
    | naming presented now => exact revokedByOwn_of_same h fun r' hr' hset => ⟨r', hr', rfl, hset⟩
    | answered answer => exact revokedByOwn_of_same h fun r' hr' hset => ⟨r', hr', rfl, hset⟩
    | running c =>
      have hc : CallInv s.clock s.table s.log (.running c) := hi ▸ h.calls i
      obtain ⟨call, now, snapshot, started⟩ := c
      cases call with
      | issue address label expiresAt id random =>
        refine revokedByOwn_of_same h fun r' hr' hset => ⟨r', ?_, rfl, hset⟩
        simp only [Store.commitStatement, Store.commitIssue] at hr'
        split_ifs at hr'
        · rcases List.mem_append.1 hr' with hr' | hr'
          · exact hr'
          · rw [List.mem_singleton.1 hr'] at hset
            exact absurd rfl hset
        · exact hr'
        · exact hr'
      | authenticate presented =>
        refine revokedByOwn_of_same h fun r' hr' hset => ?_
        obtain ⟨r, hr, rfl⟩ := mem_update.1 hr'
        refine ⟨r, hr, ?_⟩
        split_ifs at hset ⊢
        · exact ⟨rfl, hset⟩
        · exact ⟨rfl, hset⟩
      | revoke address id =>
        intro r hr r' hr' hid hunrevoked hrevoked
        obtain ⟨r₁, hr₁, rfl⟩ := mem_update.1 hr'
        split_ifs at hid hrevoked with hfinds
        · have hsame : r₁ = r := h.table.eq_of_id hr₁ hr hid
          subst hsame
          have hrevocable := revocable_iff.1 ((h.table.finds_iff hc.since revocable_of_later hr).1 hfinds).1
          refine ⟨i, _, address, rfl, hi, ?_, hrevocable.2.1.symm⟩
          rw [hrevocable.1]
        · rw [h.table.eq_of_id hr₁ hr hid] at hrevoked
          exact absurd hunrevoked hrevoked

/-- Along every run the tokens presented are accepted exactly while they live, and revoked by their own
address alone; the cap holds exactly if every insert that adds a token finds none of its address added since
its snapshot, or room still. -/
theorem tokens_kept_iff (hdigest : Function.Injective digest) (actions : List Action) :
    Kept digest actions ↔
      ∀ n a, actions[n]? = some a → Roomy digest (run digest (actions.take n)) a := by
  have hinv : ∀ n, Inv digest (run digest (actions.take n)) := fun n => inv_run hdigest _
  constructor
  · intro h n a ha
    have hnext := h.capped (n + 1)
    rw [run_take_succ, ha] at hnext
    exact (capped_step_iff (hinv n) (h.capped n) a).1 hnext
  · intro h
    refine ⟨fun n => ?_, fun n => (hinv n).table.accepts, fun n a _ => revokedByOwn_step (hinv n) a⟩
    induction n with
    | zero => exact fun address => Nat.zero_le _
    | succ n ih =>
      rw [run_take_succ]
      cases ha : actions[n]? with
      | none => exact ih
      | some a => exact (capped_step_iff (hinv n) ih a).2 (h n a ha)

end Runs

section Example

def owner : Hex := ⟨"0xAb", by decide⟩

/-- The call of that number, and the token it draws. -/
def issueCall (n : ℕ) : TokenCall :=
  .issue owner "agent" none (Nat.repr n) ⟨List.replicate TOKEN_BYTES (UInt8.ofNat n), List.length_replicate⟩

def issueAlone (n : ℕ) : List Action := [.call n (issueCall n), .start n, .commit n]

/-- Nineteen tokens one after the other, then two inserts that both start before either commits. -/
def racingInserts : List Action :=
  (List.range 19).flatMap issueAlone ++
    [.call 19 (issueCall 19), .call 20 (issueCall 20), .start 19, .start 20, .commit 19, .commit 20]

/-- Both read nineteen live tokens, and both add one. -/
theorem racing_inserts_exceed_cap :
    (run id racingInserts).liveTokens owner = 21 ∧ ¬ Kept id racingInserts := by
  have hlive : (run id racingInserts).liveTokens owner = 21 := by
    decide +kernel
  refine ⟨hlive, fun h => ?_⟩
  have hcap := h.capped racingInserts.length owner
  rw [List.take_length, hlive] at hcap
  exact absurd hcap (by decide)

/-- The token of the first call, and its SHA-256. -/
def firstToken : String := generateReadOnlyToken ⟨List.replicate TOKEN_BYTES 0, List.length_replicate⟩

def firstDigest : String := "40722cf8c4827409c4ec66525778213978ca443e99e1e698fcea0ce4591656da"

/-- A token is issued, presented, revoked and presented again. -/
def presentedTwice : List Action :=
  issueAlone 0 ++ [.call 1 (.authenticate firstToken), .start 1, .commit 1, .call 2 (.revoke owner "0"),
    .start 2, .commit 2, .call 3 (.authenticate firstToken), .start 3, .commit 3, .commit 3]

theorem tokens_kept_presented_twice :
    Kept (Equiv.swap firstToken firstDigest) presentedTwice ∧
      (run (Equiv.swap firstToken firstDigest) presentedTwice).calls 1 =
        .answered (.accepted ⟨"0", "0xab", "agent", READ_ONLY_SCOPE, 0, some 0, none, none⟩) ∧
      (run (Equiv.swap firstToken firstDigest) presentedTwice).calls 3 = .answered (.refused .revoked) := by
  have hroomy : ∀ n < presentedTwice.length, ∀ a ∈ presentedTwice[n]?, Roomy
      (Equiv.swap firstToken firstDigest)
      (run (Equiv.swap firstToken firstDigest) (presentedTwice.take n)) a := by
    decide +kernel
  refine ⟨(tokens_kept_iff (Equiv.injective _) presentedTwice).2 fun n a ha => ?_, ?_, ?_⟩
  · exact hroomy n (List.getElem?_eq_some_iff.1 ha).1 a ha
  · decide +kernel
  · decide +kernel

end Example

end Linvesther.Api.Tokens
