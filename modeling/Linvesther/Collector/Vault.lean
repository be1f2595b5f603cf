import Linvesther.Base.OrderedMap
import Linvesther.Base.Transaction

/-! `kms.rs` and `vault.rs`: a credential is encrypted under a key of its own, which the tenant's key wraps;
revoked it cannot be read any more, and once its deadline has passed its secret is destroyed. -/

namespace Linvesther.Collector

open Transaction

section Crypto

abbrev Bytes := List UInt8

abbrev Key := {b : Bytes // b.length = 32}

abbrev Nonce := {b : Bytes // b.length = 12}

/-- What is used of `aes_gcm`: encryption under a key and a nonce. -/
structure AesGcm where
  encrypt : Key → Nonce → Bytes → Except String Bytes
  decrypt : Key → Nonce → Bytes → Except String Bytes

/-- What was encrypted decrypts to itself. -/
def AesGcm.Lawful (aes : AesGcm) : Prop :=
  ∀ key nonce plaintext ciphertext, aes.encrypt key nonce plaintext = .ok ciphertext →
    aes.decrypt key nonce ciphertext = .ok plaintext

inductive KmsError where
  | wrapFailed (message : String)
  | unwrapFailed (message : String)
deriving DecidableEq

/-- Wrapping may draw a nonce. -/
structure Kms where
  wrapDek : Nonce → String → Key → Except KmsError Bytes
  unwrapDek : String → Bytes → Except KmsError Key

/-- What was wrapped for a tenant unwraps for the tenant. -/
def Kms.Reliable (kms : Kms) : Prop :=
  ∀ draw tenant dek wrapped, kms.wrapDek draw tenant dek = .ok wrapped →
    kms.unwrapDek tenant wrapped = .ok dek

section LocalKms

variable (aes : AesGcm) (keks : String → Option Key)

def localWrapDek (draw : Nonce) (tenantId : String) (dek : Key) : Except KmsError Bytes :=
  match keks tenantId with
  | none => .error (.wrapFailed ("unknown tenant: " ++ tenantId))
  | some kek => do
    let ciphertext ← (aes.encrypt kek draw dek.val).mapError .wrapFailed
    pure (draw.val ++ ciphertext)

def localUnwrapDek (tenantId : String) (wrapped : Bytes) : Except KmsError Key :=
  if hlength : wrapped.length < 12 then .error (.unwrapFailed "wrapped DEK shorter than nonce")
  else
    match keks tenantId with
    | none => .error (.unwrapFailed ("unknown tenant: " ++ tenantId))
    | some kek => do
      let nonce : Nonce := ⟨wrapped.take 12, by rw [List.length_take]; omega⟩
      let plaintext ← (aes.decrypt kek nonce (wrapped.drop 12)).mapError .unwrapFailed
      if h : plaintext.length = 32 then pure ⟨plaintext, h⟩
      else .error (.unwrapFailed "unwrapped DEK is not 32 bytes")

def LocalKms : Kms := ⟨localWrapDek aes keks, localUnwrapDek aes keks⟩

variable {aes keks}

theorem localKms_reliable (haes : aes.Lawful) : (LocalKms aes keks).Reliable := by
  intro draw tenant dek wrapped h
  dsimp only [LocalKms] at h ⊢
  unfold localWrapDek at h
  unfold localUnwrapDek
  rcases hkek : keks tenant with _ | kek
  · rw [hkek] at h
    cases h
  · rw [hkek] at h
    simp only [bind_ok, mapError_ok, pure_ok] at h
    obtain ⟨ciphertext, hciphertext, rfl⟩ := h
    have hlength : ¬ (draw.val ++ ciphertext).length < 12 := by
      rw [List.length_append, draw.property]
      omega
    have htake : (draw.val ++ ciphertext).take 12 = draw.val := List.take_left' draw.property
    have hdrop : (draw.val ++ ciphertext).drop 12 = ciphertext := List.drop_left' draw.property
    rw [dif_neg hlength]
    dsimp only
    simp only [htake, hdrop, haes _ _ _ _ hciphertext]
    exact dif_pos dek.property

end LocalKms

end Crypto

section Vault

def PURGE_GRACE_PERIOD_MS : UInt64 := 24 * 60 * 60 * 1000

inductive Environment where
  | production
  | test
deriving DecidableEq

structure ApiCredential where
  apiKey : String
  apiSecret : String
deriving DecidableEq

inductive VaultError where
  | notFound (id : String)
  | alreadyExists (id : String)
  | revoked (id : String)
  | alreadyRevoked (id : String)
  | purgeNotDue (id : String)
  | alreadyPurged (id : String)
  | kms (e : KmsError)
  | encrypt (message : String)
  | decrypt (message : String)
deriving DecidableEq

structure CredentialRecord where
  credentialId : String
  tenantId : String
  venueId : String
  environment : Environment
  createdAtMs : UInt64
  revokedAtMs : Option UInt64
  purgeDeadlineMs : Option UInt64
  purged : Bool
  wrappedDek : Bytes
  nonce : Nonce
  ciphertext : Bytes
deriving DecidableEq

def CredentialRecord.isRevoked (r : CredentialRecord) : Bool := r.revokedAtMs.isSome

abbrev CredentialVault := Std.TreeMap String CredentialRecord

/-- The parts a vault is built from: its key management, the cipher and the serialisation. -/
structure VaultDeps where
  kms : Kms
  aes : AesGcm
  toVec : ApiCredential → Except String Bytes
  fromSlice : Bytes → Except String ApiCredential

structure VaultDeps.Reliable (deps : VaultDeps) : Prop where
  kms : deps.kms.Reliable
  aes : deps.aes.Lawful
  serde : ∀ credential plaintext, deps.toVec credential = .ok plaintext →
    deps.fromSlice plaintext = .ok credential

/-- What a call of `store` draws at random, or why it could not. -/
structure Draws where
  dek : Except String Key
  wrapNonce : Nonce
  nonce : Except String Nonce

variable (deps : VaultDeps)

structure StoreRequest where
  credentialId : String
  tenantId : String
  venueId : String
  environment : Environment
  credential : ApiCredential
  nowMs : UInt64
  draws : Draws

def store (vault : CredentialVault) (r : StoreRequest) : Except VaultError CredentialVault := do
  revertIf (r.credentialId ∈ vault) (.alreadyExists r.credentialId)
  let dek ← r.draws.dek.mapError .encrypt
  let wrappedDek ← (deps.kms.wrapDek r.draws.wrapNonce r.tenantId dek).mapError .kms
  let plaintext ← (deps.toVec r.credential).mapError .encrypt
  let nonce ← r.draws.nonce.mapError .encrypt
  let ciphertext ← (deps.aes.encrypt dek nonce plaintext).mapError .encrypt
  pure (vault.insert r.credentialId
    { credentialId := r.credentialId
      tenantId := r.tenantId
      venueId := r.venueId
      environment := r.environment
      createdAtMs := r.nowMs
      revokedAtMs := none
      purgeDeadlineMs := none
      purged := false
      wrappedDek
      nonce
      ciphertext })

/-- What a record decrypts to. -/
def decryptRecord (record : CredentialRecord) : Except VaultError ApiCredential := do
  let dek ← (deps.kms.unwrapDek record.tenantId record.wrappedDek).mapError .kms
  let plaintext ← (deps.aes.decrypt dek record.nonce record.ciphertext).mapError .decrypt
  (deps.fromSlice plaintext).mapError .decrypt

def retrieve (vault : CredentialVault) (id : String) : Except VaultError ApiCredential :=
  match vault[id]? with
  | none => .error (.notFound id)
  | some record => do
    revertIf (record.purged = true) (.notFound id)
    revertIf (record.isRevoked = true) (.revoked id)
    decryptRecord deps record

/-- The deadline is a sum of machine words. -/
def revoke (vault : CredentialVault) (id : String) (nowMs : UInt64) :
    Except VaultError CredentialVault :=
  match vault[id]? with
  | none => .error (.notFound id)
  | some record => do
    revertIf (record.isRevoked = true) (.alreadyRevoked id)
    pure (vault.insert id
      { record with
        revokedAtMs := some nowMs, purgeDeadlineMs := some (nowMs + PURGE_GRACE_PERIOD_MS) })

def CredentialRecord.destroyed (record : CredentialRecord) : CredentialRecord :=
  { record with
    wrappedDek := [], nonce := ⟨List.replicate 12 0, rfl⟩, ciphertext := [], purged := true }

def purge (vault : CredentialVault) (id : String) (nowMs : UInt64) :
    Except VaultError CredentialVault :=
  match vault[id]? with
  | none => .error (.notFound id)
  | some record => do
    revertIf (record.purged = true) (.alreadyPurged id)
    match record.purgeDeadlineMs with
    | none => .error (.notFound (id ++ " was never revoked"))
    | some deadline => do
      revertIf (nowMs.toNat < deadline.toNat) (.purgeNotDue id)
      pure (vault.insert id record.destroyed)

def dueForPurge (vault : CredentialVault) (nowMs : UInt64) : List String :=
  (vault.toList.filter fun p =>
    !p.2.purged && p.2.purgeDeadlineMs.any (·.toNat ≤ nowMs.toNat)).map fun p => p.2.credentialId

inductive VaultOp where
  | store (request : StoreRequest)
  | retrieve (id : String)
  | revoke (id : String) (nowMs : UInt64)
  | purge (id : String) (nowMs : UInt64)

/-- One operation on the vault, and the credential that it answers. -/
def call (vault : CredentialVault) : VaultOp → Except VaultError (CredentialVault × Option ApiCredential)
  | .store request => (store deps vault request).map (·, none)
  | .retrieve id => (retrieve deps vault id).map fun credential => (vault, some credential)
  | .revoke id nowMs => (revoke vault id nowMs).map (·, none)
  | .purge id nowMs => (purge vault id nowMs).map (·, none)

end Vault

section Calls

variable {deps : VaultDeps} {vault vault' : CredentialVault}

/-- A new id gets a record that reads back as the credential. -/
theorem store_ok (hdeps : deps.Reliable) {request : StoreRequest}
    (h : store deps vault request = .ok vault') :
    vault[request.credentialId]? = none ∧ ∃ r, vault' = vault.insert request.credentialId r ∧
      r.credentialId = request.credentialId ∧ r.revokedAtMs = none ∧ r.purgeDeadlineMs = none ∧
      r.purged = false ∧ decryptRecord deps r = .ok request.credential := by
  simp only [store, bind_ok, revertIf_ok, mapError_ok, pure_ok] at h
  obtain ⟨-, hnew, dek, -, wrappedDek, hwrapped, plaintext, hplaintext, nonce, -, ciphertext,
    hciphertext, rfl⟩ := h
  refine ⟨?_, _, rfl, rfl, rfl, rfl, rfl, ?_⟩
  · exact Std.TreeMap.getElem?_eq_none hnew
  · have hunwrap := hdeps.kms _ _ _ _ hwrapped
    have hdecrypt := hdeps.aes _ _ _ _ hciphertext
    have hserde := hdeps.serde _ _ hplaintext
    simp only [decryptRecord, bind_ok, mapError_ok]
    exact ⟨dek, hunwrap, plaintext, hdecrypt, hserde⟩

theorem retrieve_ok {id : String} {credential : ApiCredential} :
    retrieve deps vault id = .ok credential ↔ ∃ r, vault[id]? = some r ∧ r.purged = false ∧
      r.revokedAtMs = none ∧ decryptRecord deps r = .ok credential := by
  unfold retrieve
  rcases vault[id]? with _ | r
  · simp
  · simp only [bind_ok, revertIf_ok]
    simp [CredentialRecord.isRevoked]

theorem revoke_ok {id : String} {nowMs : UInt64} :
    revoke vault id nowMs = .ok vault' ↔ ∃ r, vault[id]? = some r ∧ r.revokedAtMs = none ∧
      vault.insert id { r with
        revokedAtMs := some nowMs, purgeDeadlineMs := some (nowMs + PURGE_GRACE_PERIOD_MS) } =
          vault' := by
  unfold revoke
  rcases vault[id]? with _ | r
  · simp
  · simp only [bind_ok, revertIf_ok, pure_ok]
    simp [CredentialRecord.isRevoked]

theorem purge_ok {id : String} {nowMs : UInt64} :
    purge vault id nowMs = .ok vault' ↔ ∃ r deadline, vault[id]? = some r ∧ r.purged = false ∧
      r.purgeDeadlineMs = some deadline ∧ deadline.toNat ≤ nowMs.toNat ∧
      vault.insert id r.destroyed = vault' := by
  unfold purge
  rcases vault[id]? with _ | r
  · simp
  · rcases hdeadline : r.purgeDeadlineMs with _ | deadline
    · simp only [bind_ok, revertIf_ok, hdeadline]
      simp [hdeadline]
    · simp only [bind_ok, revertIf_ok, pure_ok, hdeadline]
      simp [hdeadline]

end Calls

section History

abbrev Past := List (Accepted CredentialVault VaultOp (Option ApiCredential))

def VaultOp.id : VaultOp → String
  | .store request => request.credentialId
  | .retrieve id => id
  | .revoke id _ => id
  | .purge id _ => id

def VaultOp.stores (id : String) : VaultOp → Option ApiCredential
  | .store request => if request.credentialId = id then some request.credential else none
  | _ => none

def VaultOp.revokes (id : String) : VaultOp → Option UInt64
  | .revoke id' nowMs => if id' = id then some nowMs else none
  | _ => none

def VaultOp.purges (id : String) : VaultOp → Option UInt64
  | .purge id' nowMs => if id' = id then some nowMs else none
  | _ => none

/-- The credentials that were stored under an id. -/
def stored (id : String) (past : Past) : List ApiCredential :=
  past.filterMap fun a => a.input.stores id

/-- The times at which an id was revoked. -/
def revocations (id : String) (past : Past) : List UInt64 :=
  past.filterMap fun a => a.input.revokes id

/-- The times at which an id was purged. -/
def purges (id : String) (past : Past) : List UInt64 :=
  past.filterMap fun a => a.input.purges id

variable (deps : VaultDeps)

/-- A record as its past left it: stored once, revoked at most once and with the deadline that this set,
and readable until it was purged. -/
structure RecordOf (past : Past) (id : String) (r : CredentialRecord) : Prop where
  named : r.credentialId = id
  storedOnce : ∃ credential, stored id past = [credential] ∧
    (r.purged = false → decryptRecord deps r = .ok credential)
  revokedAt : revocations id past = r.revokedAtMs.toList
  deadline : r.purgeDeadlineMs = r.revokedAtMs.map (· + PURGE_GRACE_PERIOD_MS)
  purgedOnce : purges id past = [] ↔ r.purged = false

/-- Nothing was ever done under the id. -/
structure Unused (past : Past) (id : String) : Prop where
  stored : stored id past = []
  revoked : revocations id past = []
  purged : purges id past = []

/-- The vault is what the past made of it. -/
def HistoryOf (past : Past) (vault : CredentialVault) : Prop :=
  ∀ id : String, (vault[id]? = none → Unused past id) ∧ ∀ r, vault[id]? = some r → RecordOf deps past id r

variable {deps} {past : Past} {vault vault' : CredentialVault}

/-- An operation under one id is no part of the past of another. -/
theorem other_id (past : Past) {a : Accepted CredentialVault VaultOp (Option ApiCredential)} {id : String}
    (h : a.input.id ≠ id) :
    stored id (past ++ [a]) = stored id past ∧ revocations id (past ++ [a]) = revocations id past ∧
      purges id (past ++ [a]) = purges id past := by
  unfold stored revocations purges
  cases hinput : a.input <;> rw [hinput] at h <;>
    simp_all [VaultOp.id, VaultOp.stores, VaultOp.revokes, VaultOp.purges]

theorem RecordOf.other {a : Accepted CredentialVault VaultOp (Option ApiCredential)} {id : String}
    {r : CredentialRecord} (hr : RecordOf deps past id r) (h : a.input.id ≠ id) :
    RecordOf deps (past ++ [a]) id r := by
  obtain ⟨hstored, hrevocations, hpurges⟩ := other_id past h
  exact ⟨hr.named, by rw [hstored]; exact hr.storedOnce, by rw [hrevocations]; exact hr.revokedAt,
    hr.deadline, by rw [hpurges]; exact hr.purgedOnce⟩

theorem Unused.other {a : Accepted CredentialVault VaultOp (Option ApiCredential)} {id : String}
    (hu : Unused past id) (h : a.input.id ≠ id) : Unused (past ++ [a]) id := by
  obtain ⟨hstored, hrevocations, hpurges⟩ := other_id past h
  exact ⟨hstored.trans hu.stored, hrevocations.trans hu.revoked, hpurges.trans hu.purged⟩

/-- One record is written, and the past of its id is all that changes. -/
theorem historyOf_insert {a : Accepted CredentialVault VaultOp (Option ApiCredential)}
    {r : CredentialRecord} (hpast : HistoryOf deps past vault)
    (hr : RecordOf deps (past ++ [a]) a.input.id r) :
    HistoryOf deps (past ++ [a]) (vault.insert a.input.id r) := by
  intro id
  rw [Std.TreeMap.getElem?_insert]
  by_cases hid : a.input.id = id
  · subst hid
    rw [if_pos Std.ReflCmp.compare_self]
    refine ⟨nofun, fun r' hr' => ?_⟩
    rw [← Option.some.inj hr']
    exact hr
  · rw [if_neg fun h => hid (Std.LawfulEqCmp.eq_of_compare h)]
    exact ⟨fun hnone => ((hpast id).1 hnone).other hid, fun r' hr' => ((hpast id).2 r' hr').other hid⟩

theorem recordOf_stored {a : Accepted CredentialVault VaultOp (Option ApiCredential)}
    {request : StoreRequest} {r : CredentialRecord} (hinput : a.input = .store request)
    (hu : Unused past request.credentialId) (hname : r.credentialId = request.credentialId)
    (hrevoked : r.revokedAtMs = none) (hdeadline : r.purgeDeadlineMs = none) (hpurged : r.purged = false)
    (hreads : decryptRecord deps r = .ok request.credential) :
    RecordOf deps (past ++ [a]) request.credentialId r where
  named := hname
  storedOnce := ⟨request.credential, by
    have hnone := hu.stored
    unfold stored at hnone ⊢
    rw [List.filterMap_append, hnone]
    simp [hinput, VaultOp.stores], fun _ => hreads⟩
  revokedAt := by
    have hnone := hu.revoked
    unfold revocations at hnone ⊢
    rw [List.filterMap_append, hnone, hrevoked]
    simp [hinput, VaultOp.revokes]
  deadline := by rw [hdeadline, hrevoked, Option.map_none]
  purgedOnce := by
    have hnone := hu.purged
    unfold purges at hnone ⊢
    rw [List.filterMap_append, hnone, hpurged]
    simp [hinput, VaultOp.purges]

theorem recordOf_revoked {a : Accepted CredentialVault VaultOp (Option ApiCredential)} {id : String}
    {nowMs : UInt64} {r : CredentialRecord} (hinput : a.input = .revoke id nowMs)
    (hr : RecordOf deps past id r) (hlive : r.revokedAtMs = none) :
    RecordOf deps (past ++ [a]) id { r with
      revokedAtMs := some nowMs, purgeDeadlineMs := some (nowMs + PURGE_GRACE_PERIOD_MS) } where
  named := hr.named
  storedOnce := by
    obtain ⟨credential, hstored, hreads⟩ := hr.storedOnce
    refine ⟨credential, ?_, hreads⟩
    unfold stored at hstored ⊢
    rw [List.filterMap_append, hstored]
    simp [hinput, VaultOp.stores]
  revokedAt := by
    have hnone := hr.revokedAt
    unfold revocations at hnone ⊢
    rw [List.filterMap_append, hnone, hlive]
    simp [hinput, VaultOp.revokes]
  deadline := rfl
  purgedOnce := by
    have honce := hr.purgedOnce
    unfold purges at honce ⊢
    rw [List.filterMap_append]
    simpa [hinput, VaultOp.purges] using honce

theorem recordOf_purged {a : Accepted CredentialVault VaultOp (Option ApiCredential)} {id : String}
    {nowMs : UInt64} {r : CredentialRecord} (hinput : a.input = .purge id nowMs)
    (hr : RecordOf deps past id r) : RecordOf deps (past ++ [a]) id r.destroyed where
  named := hr.named
  storedOnce := by
    obtain ⟨credential, hstored, -⟩ := hr.storedOnce
    refine ⟨credential, ?_, fun hpurged => nomatch hpurged⟩
    unfold stored at hstored ⊢
    rw [List.filterMap_append, hstored]
    simp [hinput, VaultOp.stores]
  revokedAt := by
    have hrevoked := hr.revokedAt
    unfold revocations at hrevoked ⊢
    rw [List.filterMap_append, hrevoked]
    simp [hinput, VaultOp.revokes, CredentialRecord.destroyed]
  deadline := hr.deadline
  purgedOnce := by
    unfold purges
    rw [List.filterMap_append]
    simp [hinput, VaultOp.purges, CredentialRecord.destroyed]

/-- Reading leaves no trace in the past of any id. -/
theorem historyOf_retrieve {a : Accepted CredentialVault VaultOp (Option ApiCredential)} {id : String}
    (hinput : a.input = .retrieve id) (hpast : HistoryOf deps past vault) :
    HistoryOf deps (past ++ [a]) vault := by
  have hsame (id : String) : stored id (past ++ [a]) = stored id past ∧
      revocations id (past ++ [a]) = revocations id past ∧ purges id (past ++ [a]) = purges id past := by
    unfold stored revocations purges
    simp [hinput, VaultOp.stores, VaultOp.revokes, VaultOp.purges]
  intro id
  obtain ⟨hstored, hrevocations, hpurges⟩ := hsame id
  refine ⟨fun hnone => ?_, fun r hr => ?_⟩
  · have hu := (hpast id).1 hnone
    exact ⟨hstored.trans hu.stored, hrevocations.trans hu.revoked, hpurges.trans hu.purged⟩
  · have hr := (hpast id).2 r hr
    exact ⟨hr.named, by rw [hstored]; exact hr.storedOnce, by rw [hrevocations]; exact hr.revokedAt,
      hr.deadline, by rw [hpurges]; exact hr.purgedOnce⟩

/-- One accepted operation and the past with it. -/
theorem historyOf_step (hdeps : deps.Reliable) {op : VaultOp} {out : Option ApiCredential}
    (hpast : HistoryOf deps past vault) (h : call deps vault op = .ok (vault', out)) :
    HistoryOf deps (past ++ [⟨vault, op, out⟩]) vault' := by
  cases op with
  | store request =>
    simp only [call, map_ok, Prod.mk.injEq] at h
    obtain ⟨_, hstore, rfl, -⟩ := h
    obtain ⟨hnew, r, rfl, hname, hrevoked, hdeadline, hpurged, hreads⟩ := store_ok hdeps hstore
    exact historyOf_insert hpast
      (recordOf_stored rfl ((hpast _).1 hnew) hname hrevoked hdeadline hpurged hreads)
  | retrieve id =>
    simp only [call, map_ok, Prod.mk.injEq] at h
    obtain ⟨_, -, rfl, -⟩ := h
    exact historyOf_retrieve rfl hpast
  | revoke id nowMs =>
    simp only [call, map_ok, Prod.mk.injEq] at h
    obtain ⟨_, hrevoke, rfl, -⟩ := h
    obtain ⟨r, hr, hlive, rfl⟩ := revoke_ok.1 hrevoke
    exact historyOf_insert hpast (recordOf_revoked rfl ((hpast _).2 r hr) hlive)
  | purge id nowMs =>
    simp only [call, map_ok, Prod.mk.injEq] at h
    obtain ⟨_, hpurge, rfl, -⟩ := h
    obtain ⟨r, deadline, hr, -, -, -, rfl⟩ := purge_ok.1 hpurge
    exact historyOf_insert hpast (recordOf_purged rfl ((hpast _).2 r hr))

/-- After any operations the vault is what they made of it. -/
theorem historyOf_run (hdeps : deps.Reliable) (ops : List VaultOp) :
    HistoryOf deps (accepted (call deps) ∅ ops) (run (call deps) ∅ ops) := by
  have hstart : HistoryOf deps [] (∅ : CredentialVault) := fun id =>
    ⟨fun _ => ⟨rfl, rfl, rfl⟩, fun r hr => by simp at hr⟩
  exact @accepted_history _ _ _ _ (call deps) (HistoryOf deps)
    (fun as s i s' o hpast hcall => historyOf_step hdeps hpast hcall) _ _ ops hstart

end History

section Lifecycle

variable {deps : VaultDeps} {past : Past} {vault : CredentialVault}

/-- What can be read is what was stored and has been neither revoked nor purged. -/
theorem retrieve_iff (hpast : HistoryOf deps past vault) (id : String) (credential : ApiCredential) :
    retrieve deps vault id = .ok credential ↔
      credential ∈ stored id past ∧ revocations id past = [] ∧ purges id past = [] := by
  rw [retrieve_ok]
  rcases hr : vault[id]? with _ | r
  · have hu := (hpast id).1 hr
    simp [hu.stored]
  · have hof := (hpast id).2 r hr
    obtain ⟨credential', hstored, hreads⟩ := hof.storedOnce
    rw [hstored, hof.revokedAt, hof.purgedOnce, List.mem_singleton, Option.toList_eq_nil_iff]
    constructor
    · rintro ⟨r', hr', hpurged, hlive, hdecrypt⟩
      rw [← Option.some.inj hr'] at hpurged hlive hdecrypt
      rw [hreads hpurged, Except.ok.injEq] at hdecrypt
      exact ⟨hdecrypt.symm, hlive, hpurged⟩
    · rintro ⟨rfl, hlive, hpurged⟩
      exact ⟨r, rfl, hpurged, hlive, hreads hpurged⟩

/-- What can be purged was revoked, its deadline has passed, and it has not been purged before. -/
theorem purge_iff (hpast : HistoryOf deps past vault) (id : String) (nowMs : UInt64) :
    (∃ vault', purge vault id nowMs = .ok vault') ↔
      (∃ t ∈ revocations id past, (t + PURGE_GRACE_PERIOD_MS).toNat ≤ nowMs.toNat) ∧
        purges id past = [] := by
  rcases hr : vault[id]? with _ | r
  · have hu := (hpast id).1 hr
    rw [hu.revoked]
    simp [purge_ok, hr]
  · have hof := (hpast id).2 r hr
    rw [hof.revokedAt, hof.purgedOnce]
    simp only [purge_ok, hr, Option.some.injEq, Option.mem_toList]
    constructor
    · rintro ⟨vault', r', deadline, rfl, hpurged, hdeadline, hdue, -⟩
      rw [hof.deadline, Option.map_eq_some_iff] at hdeadline
      obtain ⟨t, ht, rfl⟩ := hdeadline
      exact ⟨⟨t, ht, hdue⟩, hpurged⟩
    · rintro ⟨⟨t, ht, hdue⟩, hpurged⟩
      refine ⟨_, r, t + PURGE_GRACE_PERIOD_MS, rfl, hpurged, ?_, hdue, rfl⟩
      rw [hof.deadline, ht, Option.map_some]

/-- The ids that the schedule is given are those that can be purged. -/
theorem mem_dueForPurge (hpast : HistoryOf deps past vault) (id : String) (nowMs : UInt64) :
    id ∈ dueForPurge vault nowMs ↔ ∃ vault', purge vault id nowMs = .ok vault' := by
  simp only [dueForPurge, purge_ok, List.mem_map, List.mem_filter, OrderedMap.mem_toList,
    Bool.and_eq_true, Bool.not_eq_true', Option.any_eq_true, decide_eq_true_eq, Prod.exists]
  constructor
  · rintro ⟨id', r, ⟨hr, hpurged, deadline, hdeadline, hdue⟩, hname⟩
    rw [((hpast id').2 r hr).named] at hname
    subst hname
    exact ⟨_, r, deadline, hr, hpurged, hdeadline, hdue, rfl⟩
  · rintro ⟨-, r, deadline, hr, hpurged, hdeadline, hdue, -⟩
    exact ⟨id, r, ⟨hr, hpurged, deadline, hdeadline, hdue⟩, ((hpast id).2 r hr).named⟩

/-- Purging leaves nothing of the secret, and does not touch any other id. -/
theorem purge_destroys {vault' : CredentialVault} {id : String} {nowMs : UInt64}
    (h : purge vault id nowMs = .ok vault') :
    (∃ r : CredentialRecord, vault'[id]? = some r.destroyed) ∧ ∀ other, other ≠ id → vault'[other]? = vault[other]? := by
  obtain ⟨r, deadline, hr, -, -, -, rfl⟩ := purge_ok.1 h
  refine ⟨⟨r, Std.TreeMap.getElem?_insert_self⟩, fun other hother => ?_⟩
  rw [Std.TreeMap.getElem?_insert, if_neg fun heq => hother (Std.LawfulEqCmp.eq_of_compare heq).symm]

/-- After any operations: what can be read was stored and is neither revoked nor purged; what is revoked
stays so; what can be purged are the revoked ids whose deadline has passed, and nothing of their secrets
stays; no id is stored twice. -/
theorem vault_lifecycle (hdeps : deps.Reliable) (ops : List VaultOp) :
    let past := accepted (call deps) ∅ ops
    let vault := run (call deps) ∅ ops
    (∀ id credential, retrieve deps vault id = .ok credential ↔
      credential ∈ stored id past ∧ revocations id past = [] ∧ purges id past = []) ∧
    (∀ id more credential, revocations id past ≠ [] →
      retrieve deps (run (call deps) ∅ (ops ++ more)) id ≠ .ok credential) ∧
    (∀ id nowMs, (∃ vault', purge vault id nowMs = .ok vault') ↔
      (∃ t ∈ revocations id past, (t + PURGE_GRACE_PERIOD_MS).toNat ≤ nowMs.toNat) ∧
        purges id past = []) ∧
    (∀ id nowMs vault', purge vault id nowMs = .ok vault' →
      (∃ r : CredentialRecord, vault'[id]? = some r.destroyed) ∧ ∀ other, other ≠ id → vault'[other]? = vault[other]?) ∧
    (∀ id nowMs, id ∈ dueForPurge vault nowMs ↔ ∃ vault', purge vault id nowMs = .ok vault') ∧
    ∀ id, (stored id past).length ≤ 1 := by
  intro past vault
  have hpast : HistoryOf deps past vault := historyOf_run hdeps ops
  refine ⟨retrieve_iff hpast, fun id more credential hrevoked hread => ?_, purge_iff hpast,
    fun id nowMs vault' h => purge_destroys h, mem_dueForPurge hpast, fun id => ?_⟩
  · have hlater := ((retrieve_iff (historyOf_run hdeps (ops ++ more)) id credential).1 hread).2.1
    unfold revocations at hrevoked hlater
    rw [accepted_append, List.filterMap_append, List.append_eq_nil_iff] at hlater
    exact hrevoked hlater.1
  · rcases hr : vault[id]? with _ | r
    · rw [((hpast id).1 hr).stored]
      exact Nat.zero_le _
    · obtain ⟨credential, hstored, -⟩ := ((hpast id).2 r hr).storedOnce
      rw [hstored]
      exact le_rfl

end Lifecycle

section Example

/-- The keys of a tenant and of a credential, and the nonces that are drawn. -/
def exampleKek : Key := ⟨(List.range 32).map UInt8.ofNat, rfl⟩

def exampleDek : Key := ⟨(List.range' 32 32).map UInt8.ofNat, rfl⟩

def wrapNonce : Nonce := ⟨List.replicate 12 1, rfl⟩

def storeNonce : Nonce := ⟨List.replicate 12 2, rfl⟩

def exampleCredential : ApiCredential := ⟨"k", "s"⟩

/-- `{"api_key":"k","api_secret":"s"}`. -/
def examplePlaintext : Bytes :=
  [123, 34, 97, 112, 105, 95, 107, 101, 121, 34, 58, 34, 107, 34, 44, 34, 97, 112, 105, 95, 115, 101, 99,
   114, 101, 116, 34, 58, 34, 115, 34, 125]

/-- AES-256-GCM of the credential's key under the tenant's. -/
def wrappedExample : Bytes :=
  [87, 226, 199, 22, 76, 160, 78, 65, 252, 125, 77, 51, 52, 74, 124, 247, 251, 95, 189, 232, 165, 182, 32,
   235, 203, 226, 61, 215, 161, 52, 192, 14, 179, 233, 208, 158, 191, 194, 82, 106, 85, 183, 100, 54, 11,
   252, 2, 89]

/-- AES-256-GCM of the credential under its key. -/
def exampleCiphertext : Bytes :=
  [22, 44, 84, 203, 69, 83, 128, 251, 157, 109, 152, 41, 17, 229, 97, 166, 138, 36, 18, 242, 208, 125, 148,
   155, 29, 227, 155, 233, 33, 158, 177, 209, 66, 130, 239, 145, 93, 23, 207, 77, 86, 97, 167, 74, 216, 157,
   255, 169]

/-- The cipher on the two messages of the example. -/
def exampleAes : AesGcm where
  encrypt key nonce plaintext :=
    if key = exampleKek ∧ nonce = wrapNonce ∧ plaintext = exampleDek.val then .ok wrappedExample
    else if key = exampleDek ∧ nonce = storeNonce ∧ plaintext = examplePlaintext then
      .ok exampleCiphertext
    else .error "not in the example"
  decrypt key nonce ciphertext :=
    if key = exampleKek ∧ nonce = wrapNonce ∧ ciphertext = wrappedExample then .ok exampleDek.val
    else if key = exampleDek ∧ nonce = storeNonce ∧ ciphertext = exampleCiphertext then
      .ok examplePlaintext
    else .error "aead::Error"

theorem exampleAes_lawful : exampleAes.Lawful := by
  intro key nonce plaintext ciphertext h
  dsimp only [exampleAes] at h ⊢
  split_ifs at h with hwrap hstore
  · obtain ⟨rfl, rfl, rfl⟩ := hwrap
    rw [← Except.ok.inj h]
    exact if_pos ⟨rfl, rfl, rfl⟩
  · obtain ⟨rfl, rfl, rfl⟩ := hstore
    have hkeys : exampleDek ≠ exampleKek := by decide
    rw [← Except.ok.inj h, if_neg fun h => hkeys h.1]
    exact if_pos ⟨rfl, rfl, rfl⟩

def exampleDeps : VaultDeps where
  kms := LocalKms exampleAes fun tenant => if tenant = "t1" then some exampleKek else none
  aes := exampleAes
  toVec credential := if credential = exampleCredential then .ok examplePlaintext else .error ""
  fromSlice plaintext := if plaintext = examplePlaintext then .ok exampleCredential else .error ""

theorem exampleDeps_reliable : exampleDeps.Reliable where
  kms := localKms_reliable exampleAes_lawful
  aes := exampleAes_lawful
  serde credential plaintext h := by
    dsimp only [exampleDeps] at h ⊢
    split_ifs at h with hcredential
    rw [← Except.ok.inj h, hcredential]
    exact if_pos rfl

/-- One credential, revoked a second after it was stored. -/
def exampleOps : List VaultOp :=
  [.store ⟨"c1", "t1", "binance", .production, exampleCredential, 1000,
      ⟨.ok exampleDek, wrapNonce, .ok storeNonce⟩⟩, .revoke "c1" 2000]

/-- It can be read before and not after, and purged a day later. -/
theorem vault_lifecycle_example :
    retrieve exampleDeps (run (call exampleDeps) ∅ (exampleOps.take 1)) "c1" = .ok exampleCredential ∧
      (∀ credential, retrieve exampleDeps (run (call exampleDeps) ∅ exampleOps) "c1" ≠ .ok credential) ∧
      (∃ vault', purge (run (call exampleDeps) ∅ exampleOps) "c1" 86402000 = .ok vault') ∧
      ¬ ∃ vault', purge (run (call exampleDeps) ∅ exampleOps) "c1" 86401999 = .ok vault' := by
  have hbefore := vault_lifecycle exampleDeps_reliable (exampleOps.take 1)
  have hafter := vault_lifecycle exampleDeps_reliable exampleOps
  refine ⟨(hbefore.1 _ _).2 (by decide +kernel), fun credential h => ?_,
    (hafter.2.2.1 _ _).2 (by decide +kernel), fun h => ?_⟩
  · exact absurd ((hafter.1 _ _).1 h).2.1 (by decide +kernel)
  · exact absurd ((hafter.2.2.1 _ _).1 h) (by decide +kernel)

end Example

end Linvesther.Collector
