import Linvesther.Api.AuthStores

/-! `credentialStore.ts`: the stores of registered keys and of passkeys, in memory and in the database. The
database keeps the first registration of a key, the memory the last one. -/

namespace Linvesther.Api

open ChainWorker Program

section Calls

variable {J : Type}

/-- A call of `CredentialStore` or of `WebAuthnCredentialStore`. -/
inductive StoreCall where
  | register (subjectKey : Hex) (qx qy : String) (method : CredentialMethod)
  | get (subjectKey : Hex)
  | save (credentialId : String) (credential : WebAuthnCredential)
  | getPasskey (credentialId : String)
  | updateCounter (credentialId : String) (counter : ℕ)
deriving DecidableEq

/-- What `get` answers; nothing counts the uses of a registered key. -/
structure StoredCredential (J : Type) where
  subjectKey : Hex
  method : CredentialMethod
  qx : Value J
  qy : Value J
  counter : ℕ
deriving DecidableEq

inductive StoreAnswer (J : Type) where
  | done
  | credential (found : Option (StoredCredential J))
  | passkey (found : Option WebAuthnCredential)
deriving DecidableEq

variable (storage : Storage) (pgText : J → String)

def toCredential (subjectKey : Hex) (r : RegisteredKey J) : StoredCredential J :=
  ⟨subjectKey, r.method, r.qx, r.qy, 0⟩

def serve : StoreCall → AuthM J (StoreAnswer J)
  | .register subjectKey qx qy method => do
    registerCredential storage pgText subjectKey (.text qx) (.text qy) method
    pure .done
  | .get subjectKey => do
    let s ← get
    pure (.credential ((s.credentials subjectKey).map (toCredential subjectKey)))
  | .save credentialId credential => do
    saveCredential storage credentialId credential
    pure .done
  | .getPasskey credentialId => do
    let s ← get
    pure (.passkey (s.credentialsById credentialId))
  | .updateCounter credentialId counter => do
    Api.updateCounter credentialId counter
    pure .done

/-- The stores after one call, and what it answers: no call throws. -/
def written (s : AuthState J) (call : StoreCall) : AuthState J := final (serve storage pgText call s)

def answered (s : AuthState J) (call : StoreCall) : Option (StoreAnswer J) :=
  match serve storage pgText call s with
  | .ok a _ => some a
  | .error _ _ => none

/-- The stores after some calls, empty at first. -/
def held (calls : List (StoreCall)) : AuthState J :=
  calls.foldl (written storage pgText) (.init J)

/-- Both hold the same registered keys and passkeys. -/
structure SameStores (s s' : AuthState J) : Prop where
  credentials : s.credentials = s'.credentials
  passkeys : s.credentialsById = s'.credentialsById

/-- A write that says nothing else than what is stored already, if something is. -/
def Repeats (s : AuthState J) : StoreCall → Prop
  | .register subjectKey qx qy method => ∀ r ∈ s.credentials subjectKey, r = ⟨method, .text qx, .text qy⟩
  | .save credentialId credential => ∀ r ∈ s.credentialsById credentialId, r = credential
  | _ => True

/-- What is registered stays as it is, but for the counter of a passkey that is updated. -/
def FirstWins (calls : List (StoreCall)) : Prop :=
  ∀ n m, n ≤ m →
    (∀ subjectKey, ∀ r ∈ (held storage pgText (calls.take n)).credentials subjectKey,
      (held storage pgText (calls.take m)).credentials subjectKey = some r) ∧
    ∀ credentialId, ∀ c ∈ (held storage pgText (calls.take n)).credentialsById credentialId,
      ∃ c' ∈ (held storage pgText (calls.take m)).credentialsById credentialId,
        c'.publicKeyCose = c.publicKeyCose ∧ (c'.counter = c.counter ∨
          ∃ i counter, n ≤ i ∧ i < m ∧ calls[i]? = some (.updateCounter credentialId counter))

end Calls

section Agreement

variable {J : Type} {storage : Storage} {pgText : J → String} {s s' : AuthState J}

theorem held_take_succ (calls : List (StoreCall)) (n : ℕ) :
    held storage pgText (calls.take (n + 1)) =
      calls[n]?.elim (held storage pgText (calls.take n))
        (written storage pgText (held storage pgText (calls.take n))) := by
  unfold held
  rw [List.take_add_one, List.foldl_append]
  rcases calls[n]? with _ | call <;> rfl

theorem answered_get (subjectKey : Hex) :
    answered storage pgText s (.get subjectKey) =
      some (.credential ((s.credentials subjectKey).map (toCredential subjectKey))) := rfl

theorem answered_getPasskey (credentialId : String) :
    answered storage pgText s (.getPasskey credentialId) =
      some (.passkey (s.credentialsById credentialId)) := rfl

theorem toCredential_injective (subjectKey : Hex) :
    Function.Injective (toCredential (J := J) subjectKey) := by
  intro r r' h
  cases r
  cases r'
  simpa [toCredential] using h

/-- Stores that are the same answer every call alike, and only they do. -/
theorem sameStores_iff :
    SameStores s s' ↔ ∀ question, answered .memory pgText s question = answered .postgres pgText s' question := by
  constructor
  · intro hsame question
    cases question with
    | register subjectKey qx qy method => rfl
    | get subjectKey => rw [answered_get, answered_get, hsame.credentials]
    | save credentialId credential => rfl
    | getPasskey credentialId => rw [answered_getPasskey, answered_getPasskey, hsame.passkeys]
    | updateCounter credentialId counter => rfl
  · intro h
    refine ⟨funext fun subjectKey => ?_, funext fun credentialId => ?_⟩
    · have hget := h (.get subjectKey)
      simp only [answered_get, Option.some.injEq, StoreAnswer.credential.injEq] at hget
      exact Option.map_injective (toCredential_injective subjectKey) hget
    · have hget := h (.getPasskey credentialId)
      simpa only [answered_getPasskey, Option.some.injEq, StoreAnswer.passkey.injEq] using hget

/-- The memory is written by every call; the database keeps what it has. -/
theorem written_memory_register (subjectKey : Hex) (qx qy : String) (method : CredentialMethod) :
    written .memory pgText s (.register subjectKey qx qy method) =
      { s with credentials := Function.update s.credentials subjectKey (some ⟨method, .text qx, .text qy⟩) } :=
  rfl

theorem written_postgres_register (subjectKey : Hex) (qx qy : String) (method : CredentialMethod) :
    written .postgres pgText s (.register subjectKey qx qy method) =
      { s with
        credentials := Function.update s.credentials subjectKey
          ((s.credentials subjectKey).or (some ⟨method, .text qx, .text qy⟩)) } := by
  cases h : s.credentials subjectKey with
  | none => simp [written, serve, registerCredential, registerCredential.column, bind, EStateM.bind,
      modify, modifyGet, MonadStateOf.modifyGet, EStateM.modifyGet, pure, EStateM.pure, final, h]
  | some r =>
    have hkept : Function.update s.credentials subjectKey (some r) = s.credentials := by
      rw [← h, Function.update_eq_self]
    simp [written, serve, registerCredential, bind, EStateM.bind, modify, modifyGet,
      MonadStateOf.modifyGet, EStateM.modifyGet, pure, EStateM.pure, final, h, hkept]

theorem written_memory_save (credentialId : String) (credential : WebAuthnCredential) :
    written .memory pgText s (.save credentialId credential) =
      { s with credentialsById := Function.update s.credentialsById credentialId (some credential) } :=
  rfl

theorem written_postgres_save (credentialId : String) (credential : WebAuthnCredential) :
    written .postgres pgText s (.save credentialId credential) =
      { s with
        credentialsById := Function.update s.credentialsById credentialId
          ((s.credentialsById credentialId).or (some credential)) } := by
  cases h : s.credentialsById credentialId with
  | none => simp [written, serve, saveCredential, bind, EStateM.bind, modify, modifyGet,
      MonadStateOf.modifyGet, EStateM.modifyGet, pure, EStateM.pure, final, h]
  | some c =>
    have hkept : Function.update s.credentialsById credentialId (some c) = s.credentialsById := by
      rw [← h, Function.update_eq_self]
    simp [written, serve, saveCredential, bind, EStateM.bind, modify, modifyGet,
      MonadStateOf.modifyGet, EStateM.modifyGet, pure, EStateM.pure, final, h, hkept]

theorem written_updateCounter (credentialId : String) (counter : ℕ) :
    written storage pgText s (.updateCounter credentialId counter) =
      { s with
        credentialsById := Function.update s.credentialsById credentialId
          ((s.credentialsById credentialId).map fun stored => { stored with counter }) } :=
  rfl

/-- A write and one that keeps what there is agree exactly when there is nothing else. -/
theorem update_or_iff {κ ν : Type} [DecidableEq κ] (f : κ → Option ν) (k : κ) (v : ν) :
    Function.update f k (some v) = Function.update f k ((f k).or (some v)) ↔ ∀ r ∈ f k, r = v := by
  constructor
  · intro h r hr
    have hk := congrFun h k
    rw [Function.update_self, Function.update_self, Option.mem_def.1 hr] at hk
    exact (Option.some.inj hk).symm
  · intro h
    cases hk : f k with
    | none => rfl
    | some r => rw [h r hk]; rfl

/-- One call keeps the stores the same exactly when it repeats what is stored. -/
theorem written_same_iff (hsame : SameStores s s') (call : StoreCall) :
    SameStores (written .memory pgText s call) (written .postgres pgText s' call) ↔
      Repeats s' call := by
  cases call with
  | register subjectKey qx qy method =>
    rw [written_memory_register, written_postgres_register, hsame.credentials]
    exact ⟨fun h => (update_or_iff _ _ _).1 h.credentials,
      fun h => ⟨(update_or_iff _ _ _).2 h, hsame.passkeys⟩⟩
  | get subjectKey => exact ⟨fun _ => trivial, fun _ => hsame⟩
  | save credentialId credential =>
    rw [written_memory_save, written_postgres_save, hsame.passkeys]
    exact ⟨fun h => (update_or_iff _ _ _).1 h.passkeys,
      fun h => ⟨hsame.credentials, (update_or_iff _ _ _).2 h⟩⟩
  | getPasskey credentialId => exact ⟨fun _ => trivial, fun _ => hsame⟩
  | updateCounter credentialId counter =>
    rw [written_updateCounter, written_updateCounter]
    refine ⟨fun _ => trivial, fun _ => ⟨hsame.credentials, ?_⟩⟩
    rw [hsame.passkeys]

theorem Repeats.congr (hsame : SameStores s s') {call : StoreCall} : Repeats s call = Repeats s' call := by
  cases call <;> simp only [Repeats, hsame.credentials, hsame.passkeys]

/-- What one call leaves of what is registered. -/
theorem written_keeps {call : StoreCall} (h : storage = .postgres ∨ Repeats s call) :
    (∀ subjectKey, ∀ r ∈ s.credentials subjectKey,
      (written storage pgText s call).credentials subjectKey = some r) ∧
    ∀ credentialId, ∀ c ∈ s.credentialsById credentialId,
      ∃ c' ∈ (written storage pgText s call).credentialsById credentialId,
        c'.publicKeyCose = c.publicKeyCose ∧
          (c'.counter = c.counter ∨ ∃ counter, call = .updateCounter credentialId counter) := by
  cases call with
  | register key qx qy method =>
    refine ⟨fun subjectKey r hr => ?_, fun credentialId c hc => ⟨c, ?_, rfl, .inl rfl⟩⟩
    · by_cases hkey : subjectKey = key
      · subst hkey
        cases storage with
        | memory =>
          have hrepeats := h.resolve_left nofun r hr
          rw [written_memory_register, hrepeats]
          exact Function.update_self ..
        | postgres =>
          rw [written_postgres_register, Option.mem_def.1 hr]
          exact Function.update_self ..
      · cases storage with
        | memory =>
          rw [written_memory_register]
          exact (Function.update_of_ne hkey ..).trans hr
        | postgres =>
          rw [written_postgres_register]
          exact (Function.update_of_ne hkey ..).trans hr
    · cases storage with
      | memory => exact hc
      | postgres =>
        rw [written_postgres_register]
        exact hc
  | get subjectKey => exact ⟨fun _ _ hr => hr, fun _ c hc => ⟨c, hc, rfl, .inl rfl⟩⟩
  | save id credential =>
    refine ⟨fun subjectKey r hr => ?_, fun credentialId c hc => ⟨c, ?_, rfl, .inl rfl⟩⟩
    · cases storage with
      | memory => exact hr
      | postgres =>
        rw [written_postgres_save]
        exact hr
    · by_cases hid : credentialId = id
      · subst hid
        cases storage with
        | memory =>
          have hrepeats := h.resolve_left nofun c hc
          rw [written_memory_save, hrepeats]
          exact Function.update_self ..
        | postgres =>
          rw [written_postgres_save, Option.mem_def.1 hc]
          exact Function.update_self ..
      · cases storage with
        | memory =>
          rw [written_memory_save]
          exact (Function.update_of_ne hid ..).trans hc
        | postgres =>
          rw [written_postgres_save]
          exact (Function.update_of_ne hid ..).trans hc
  | getPasskey credentialId => exact ⟨fun _ _ hr => hr, fun _ c hc => ⟨c, hc, rfl, .inl rfl⟩⟩
  | updateCounter id counter =>
    rw [written_updateCounter]
    refine ⟨fun _ _ hr => hr, fun credentialId c hc => ?_⟩
    by_cases hid : credentialId = id
    · subst hid
      refine ⟨{ c with counter }, ?_, rfl, .inr ⟨counter, rfl⟩⟩
      rw [Option.mem_def.1 hc]
      exact Function.update_self ..
    · exact ⟨c, (Function.update_of_ne hid ..).trans hc, rfl, .inl rfl⟩

/-- First wins along a run of which every call keeps what is registered. -/
theorem firstWins_of_repeats {calls : List StoreCall}
    (h : storage = .postgres ∨
      ∀ n call, calls[n]? = some call → Repeats (held storage pgText (calls.take n)) call) :
    FirstWins storage pgText calls := by
  intro n m hnm
  induction m, hnm using Nat.le_induction with
  | base => exact ⟨fun _ _ hr => hr, fun _ c hc => ⟨c, hc, rfl, .inl rfl⟩⟩
  | succ m hnm ih =>
    obtain ⟨ihkeys, ihpasskeys⟩ := ih
    rw [held_take_succ]
    cases hcall : calls[m]? with
    | none => exact ⟨ihkeys, fun id c hc => by
        obtain ⟨c', hc', hcose, hcounter⟩ := ihpasskeys id c hc
        exact ⟨c', hc', hcose, hcounter.imp_right fun ⟨i, k, hni, him, hi⟩ => ⟨i, k, hni, by omega, hi⟩⟩⟩
    | some call =>
      obtain ⟨hkeys, hpasskeys⟩ := written_keeps (h.imp_right fun h => h m call hcall)
      refine ⟨fun key r hr => hkeys key r (ihkeys key r hr), fun id c hc => ?_⟩
      obtain ⟨c₁, hc₁, hcose₁, hcounter₁⟩ := ihpasskeys id c hc
      obtain ⟨c₂, hc₂, hcose₂, hcounter₂⟩ := hpasskeys id c₁ hc₁
      refine ⟨c₂, hc₂, hcose₂.trans hcose₁, ?_⟩
      cases hcounter₂ with
      | inl hsame =>
        rw [hsame]
        exact hcounter₁.imp_right fun ⟨i, k, hni, him, hi⟩ => ⟨i, k, hni, by omega, hi⟩
      | inr hupdate =>
        obtain ⟨counter, rfl⟩ := hupdate
        exact .inr ⟨m, counter, hnm, Nat.lt_succ_self m, hcall⟩

/-- The stores in memory and in the database answer alike all along a run exactly when every write of the
run repeats what is stored; then, in both, what is registered first stays. -/
theorem stores_agree_iff (pgText : J → String) (calls : List StoreCall) :
    ((∀ n question, answered .memory pgText (held .memory pgText (calls.take n)) question =
        answered .postgres pgText (held .postgres pgText (calls.take n)) question) ∧
      ∀ storage, FirstWins storage pgText calls) ↔
    ∀ n call, calls[n]? = some call → Repeats (held .postgres pgText (calls.take n)) call := by
  constructor
  · intro ⟨hagree, _⟩ n call hcall
    have hsame := sameStores_iff.2 (hagree n)
    have hnext := sameStores_iff.2 (hagree (n + 1))
    rw [held_take_succ, held_take_succ, hcall] at hnext
    exact (written_same_iff hsame call).1 hnext
  · intro hrepeats
    have hsame : ∀ n, SameStores (held .memory pgText (calls.take n))
        (held .postgres pgText (calls.take n)) := by
      intro n
      induction n with
      | zero => exact ⟨rfl, rfl⟩
      | succ n ih =>
        rw [held_take_succ, held_take_succ]
        cases hcall : calls[n]? with
        | none => exact ih
        | some call => exact (written_same_iff ih call).2 (hrepeats n call hcall)
    refine ⟨fun n => sameStores_iff.1 (hsame n), fun storage => firstWins_of_repeats ?_⟩
    cases storage with
    | postgres => exact .inl rfl
    | memory =>
      refine .inr fun n call hcall => ?_
      have := hrepeats n call hcall
      rwa [Repeats.congr (hsame n)]

/-- A key registered again, with another method. -/
theorem second_registration_swaps_method :
    let key : Hex := ⟨"0xab", by decide⟩
    let calls : List StoreCall :=
      [.register key "0x01" "0x02" .vault, .register key "0x01" "0x02" .webauthn]
    answered .memory Empty.elim (held .memory Empty.elim calls) (.get key) =
      some (.credential (some ⟨key, .webauthn, .text "0x01", .text "0x02", 0⟩)) ∧
    answered .postgres Empty.elim (held .postgres Empty.elim calls) (.get key) =
      some (.credential (some ⟨key, .vault, .text "0x01", .text "0x02", 0⟩)) := by
  decide

end Agreement

end Linvesther.Api
