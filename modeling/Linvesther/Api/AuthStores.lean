import Linvesther.ChainWorker.Relayer

/-! The stores of `apps/api/src/auth`: challenges, registered keys, passkeys and sessions, in memory
or in the database. -/

namespace Linvesther.Api

open ChainWorker Program

abbrev Bytes := List UInt8

/-- A value of a JSON body, or of a field it lacks. -/
inductive Value (J : Type) where
  | text (s : String)
  | other (j : J)
deriving DecidableEq

/-- The three stores of challenges. -/
inductive Pool where
  | vault | registration | authentication
deriving DecidableEq

structure RegisteredKey (J : Type) where
  method : CredentialMethod
  qx : Value J
  qy : Value J
deriving DecidableEq

/-- A passkey as the WebAuthn library needs it to check a later assertion. -/
structure WebAuthnCredential where
  publicKeyCose : Bytes
  counter : ℕ
deriving DecidableEq

structure Session where
  address : Hex
  csrfToken : String
  expiresAt : ℕ
deriving DecidableEq

/-- The stores, with what has been issued and consumed so far: no route reads the last two. -/
structure AuthState (J : Type) where
  nonces : Pool → List (String × ℕ)
  credentials : Hex → Option (RegisteredKey J)
  credentialsById : String → Option WebAuthnCredential
  sessions : String → Option Session
  issued : List (Pool × String)
  consumed : List (Pool × String)

inductive AuthError where
  | typeError | rangeError | invalidKey | malformedKey | duplicateKey | unserializable
deriving DecidableEq

abbrev AuthM (J : Type) := EStateM AuthError (AuthState J)

def AuthState.init (J : Type) : AuthState J :=
  ⟨fun _ => [], fun _ => none, fun _ => none, fun _ => none, [], []⟩

/-- Which of the two kinds of store the API was started with. -/
inductive Storage where
  | memory | postgres
deriving DecidableEq

def NONCE_TTL_MS : ℕ := 5 * 60 * 1000

def NONCE_CAPACITY : ℕ := 10000

def SESSION_TTL_MS : ℕ := 30 * 24 * 60 * 60 * 1000

section Nonces

variable {J : Type}

/-- `Map.set`: a key that is there keeps its place. -/
def setNonce (rows : List (String × ℕ)) (nonce : String) (expiresAt : ℕ) : List (String × ℕ) :=
  if nonce ∈ rows.map Prod.fst then rows.map fun r => if r.1 = nonce then (nonce, expiresAt) else r
  else rows ++ [(nonce, expiresAt)]

def evictExpired (now : ℕ) (rows : List (String × ℕ)) : List (String × ℕ) :=
  rows.filter (now < ·.2)

/-- `MemoryNonceStore.issue`: room is made before the nonce is added. -/
def issueInMemory (now : ℕ) (nonce : String) (rows : List (String × ℕ)) : List (String × ℕ) :=
  let rows := if NONCE_CAPACITY ≤ rows.length then evictExpired now rows else rows
  let rows := rows.drop (rows.length + 1 - NONCE_CAPACITY)
  setNonce rows nonce (now + NONCE_TTL_MS)

/-- `PostgresNonceStore.issue` after its insert: the newest stay. -/
def pruneRows (now : ℕ) (rows : List (String × ℕ)) : List (String × ℕ) :=
  ((evictExpired now rows).insertionSort fun a b => b.2 ≤ a.2).take NONCE_CAPACITY

def issue (storage : Storage) (pool : Pool) (now : ℕ) (nonce : String) : AuthM J String := do
  let s ← get
  match storage with
  | .memory =>
    set { s with
      nonces := Function.update s.nonces pool (issueInMemory now nonce (s.nonces pool))
      issued := (pool, nonce) :: s.issued }
    pure nonce
  | .postgres =>
    -- the nonce is the primary key of the table that the stores share
    if nonce ∈ (s.nonces .vault ++ s.nonces .registration ++ s.nonces .authentication).map Prod.fst then
      throw .duplicateKey
    else
      set { s with
        nonces := Function.update s.nonces pool
          (pruneRows now (s.nonces pool ++ [(nonce, now + NONCE_TTL_MS)]))
        issued := (pool, nonce) :: s.issued }
      pure nonce

/-- `consume` takes the nonce out of the store even if it has expired. -/
def consume (pool : Pool) (now : ℕ) (nonce : Value J) : AuthM J Bool := do
  let s ← get
  match nonce with
  | .other _ => pure false
  | .text nonce =>
    match (s.nonces pool).find? (·.1 = nonce) with
    | none => pure false
    | some row =>
      set { s with
        nonces := Function.update s.nonces pool ((s.nonces pool).filter (·.1 ≠ nonce))
        consumed := (pool, nonce) :: s.consumed }
      pure (decide (now < row.2))

/-- The challenge waits in its store and has not expired. -/
def AuthState.Live (s : AuthState J) (pool : Pool) (now : ℕ) (challenge : String) : Prop :=
  ∃ row ∈ (s.nonces pool).find? (·.1 = challenge), now < row.2

instance (s : AuthState J) (pool : Pool) (now : ℕ) (challenge : String) :
    Decidable (s.Live pool now challenge) :=
  inferInstanceAs (Decidable (∃ row ∈ (s.nonces pool).find? (·.1 = challenge), now < row.2))

def AuthState.keys (s : AuthState J) (pool : Pool) : List String := (s.nonces pool).map Prod.fst

theorem AuthState.Live.mem_keys {s : AuthState J} {pool : Pool} {now : ℕ} {challenge : String}
    (h : s.Live pool now challenge) : challenge ∈ s.keys pool := by
  obtain ⟨row, hrow, -⟩ := h
  have hkey : row.1 = challenge := by simpa using List.find?_some hrow
  exact hkey ▸ List.mem_map_of_mem (List.mem_of_find?_eq_some hrow)

theorem mem_setNonce {rows : List (String × ℕ)} {nonce : String} {expiresAt : ℕ} {n : String}
    (h : n ∈ (setNonce rows nonce expiresAt).map Prod.fst) : n ∈ rows.map Prod.fst ∨ n = nonce := by
  rw [setNonce] at h
  split_ifs at h with hmem
  · obtain ⟨r', hr', rfl⟩ := List.mem_map.1 h
    obtain ⟨r, hr, rfl⟩ := List.mem_map.1 hr'
    by_cases hkey : r.1 = nonce
    · exact .inr (by rw [if_pos hkey])
    · exact .inl (by rw [if_neg hkey]; exact List.mem_map_of_mem hr)
  · simpa using h

theorem mem_issueInMemory {rows : List (String × ℕ)} {now : ℕ} {nonce n : String}
    (h : n ∈ (issueInMemory now nonce rows).map Prod.fst) : n ∈ rows.map Prod.fst ∨ n = nonce := by
  refine (mem_setNonce h).imp_left fun hn => ?_
  have hsub : ∀ l : List (String × ℕ), (l.drop (l.length + 1 - NONCE_CAPACITY)).map Prod.fst ⊆
      l.map Prod.fst := fun l => List.map_subset _ (List.drop_subset _ _)
  have := hsub _ hn
  split_ifs at this
  · exact List.map_subset _ List.filter_sublist.subset this
  · exact this

theorem mem_pruneRows {rows : List (String × ℕ)} {now : ℕ} {n : String}
    (h : n ∈ (pruneRows now rows).map Prod.fst) : n ∈ rows.map Prod.fst := by
  obtain ⟨r, hr, rfl⟩ := List.mem_map.1 h
  have hsorted := (List.mem_insertionSort _).1 (List.mem_of_mem_take hr)
  exact List.mem_map_of_mem (List.filter_sublist.subset hsorted)

/-- A challenge that is asked for is added to the issued ones, and may push others out. -/
theorem issue_triple {storage : Storage} {pool : Pool} {now : ℕ} {nonce : String}
    {s₀ : AuthState J} :
    Triple (· = s₀) (issue storage pool now nonce)
      (fun _ s => ∃ rows, s = { s₀ with
          nonces := Function.update s₀.nonces pool rows, issued := (pool, nonce) :: s₀.issued } ∧
        ∀ n ∈ rows.map Prod.fst, n ∈ s₀.keys pool ∨ n = nonce)
      fun _ s => s = s₀ := by
  rintro s rfl
  cases storage with
  | memory => exact ⟨_, rfl, fun n hn => mem_issueInMemory hn⟩
  | postgres =>
    simp only [issue, bind, EStateM.bind, get, getThe, MonadStateOf.get, EStateM.get]
    split_ifs with htaken
    · rfl
    · exact ⟨_, rfl, fun n hn => by simpa [AuthState.keys] using mem_pruneRows hn⟩

/-- The stores once a challenge that was waiting has been taken out. -/
def AuthState.without (s : AuthState J) (pool : Pool) (nonce : String) : AuthState J :=
  { s with
    nonces := Function.update s.nonces pool ((s.nonces pool).filter (·.1 ≠ nonce))
    consumed := (pool, nonce) :: s.consumed }

theorem consume_triple {pool : Pool} {now : ℕ} {nonce : Value J} {s₀ : AuthState J} :
    Triple (· = s₀) (consume pool now nonce)
      (fun b s => (b = true → ∃ n, nonce = .text n ∧ s₀.Live pool now n) ∧
        (s = s₀ ∨ ∃ n ∈ s₀.keys pool, s = s₀.without pool n))
      fun _ _ => False := by
  rintro s rfl
  cases nonce with
  | other j => exact ⟨nofun, .inl rfl⟩
  | text n =>
    simp only [consume, bind, EStateM.bind, get, getThe, MonadStateOf.get, EStateM.get]
    cases hrow : (s.nonces pool).find? (·.1 = n) with
    | none => exact ⟨nofun, .inl rfl⟩
    | some row =>
      have hkey : row.1 = n := by simpa using List.find?_some hrow
      refine ⟨fun hb => ⟨n, rfl, row, hrow, of_decide_eq_true hb⟩, .inr ⟨n, ?_, rfl⟩⟩
      exact hkey ▸ List.mem_map_of_mem (List.mem_of_find?_eq_some hrow)

theorem consume_live {pool : Pool} {now : ℕ} {n : String} {s : AuthState J}
    (h : s.Live pool now n) :
    consume pool now (.text n) s = .ok true (s.without pool n) := by
  obtain ⟨row, hrow, hfresh⟩ := h
  simp only [consume, bind, EStateM.bind, get, getThe, MonadStateOf.get, EStateM.get,
    Option.mem_def.1 hrow]
  rw [decide_eq_true hfresh]
  rfl

theorem consume_eq (pool : Pool) (now : ℕ) (n : String) (s : AuthState J) :
    ∃ s', consume pool now (.text n) s = .ok (decide (s.Live pool now n)) s' := by
  by_cases hlive : s.Live pool now n
  · exact ⟨_, by rw [consume_live hlive, decide_eq_true hlive]⟩
  rw [decide_eq_false hlive]
  simp only [consume, bind, EStateM.bind, get, getThe, MonadStateOf.get, EStateM.get]
  cases hrow : (s.nonces pool).find? (·.1 = n) with
  | none => exact ⟨s, rfl⟩
  | some row =>
    have hexpired : ¬ now < row.2 := fun h => hlive ⟨row, hrow, h⟩
    refine ⟨s.without pool n, ?_⟩
    rw [← decide_eq_false hexpired]
    rfl

end Nonces

section Keys

variable {J : Type}

/-- `pgText` is the text a value becomes in a column of type TEXT. -/
def registerCredential (storage : Storage) (pgText : J → String) (subjectKey : Hex)
    (qx qy : Value J) (method : CredentialMethod) : AuthM J Unit :=
  match storage with
  | .memory => modify fun s =>
      { s with credentials := Function.update s.credentials subjectKey (some ⟨method, qx, qy⟩) }
  | .postgres => modify fun s =>
      if (s.credentials subjectKey).isSome then s
      else { s with
        credentials :=
          Function.update s.credentials subjectKey (some ⟨method, column qx, column qy⟩) }
where
  column : Value J → Value J
    | .text t => .text t
    | .other j => .text (pgText j)

def saveCredential (storage : Storage) (credentialId : String) (credential : WebAuthnCredential) :
    AuthM J Unit :=
  modify fun s =>
    if storage = .postgres ∧ (s.credentialsById credentialId).isSome then s
    else { s with
      credentialsById := Function.update s.credentialsById credentialId (some credential) }

def updateCounter (credentialId : String) (counter : ℕ) : AuthM J Unit :=
  modify fun s =>
    { s with
      credentialsById := Function.update s.credentialsById credentialId
        ((s.credentialsById credentialId).map fun stored => { stored with counter }) }

end Keys

section Sessions

variable {J : Type}

/-- `create`, with the two random tokens it draws. The database also clears what has expired. -/
def createSession (storage : Storage) (now : ℕ) (id csrfToken : String) (address : Hex) :
    AuthM J Session := do
  let s ← get
  let session : Session := ⟨address, csrfToken, now + SESSION_TTL_MS⟩
  match storage with
  | .memory =>
    set { s with sessions := Function.update s.sessions id (some session) }
    pure session
  | .postgres =>
    if (s.sessions id).isSome then throw .duplicateKey
    else
      let sessions := Function.update s.sessions id (some session)
      set { s with sessions := fun i => (sessions i).filter fun x => now < x.expiresAt }
      pure session

end Sessions

end Linvesther.Api
