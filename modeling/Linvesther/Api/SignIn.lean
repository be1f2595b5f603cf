import Linvesther.Api.AuthRoutes

/-! A session is proof that its key was used, as long as every key that is registered signed its own
registration and every key that is sent is the one its address is derived from. -/

namespace Linvesther.Api

open ChainWorker Program

section Statement

variable {J R : Type} (deps : AuthDeps J R)

/-- What an authenticator signs: the client data, and the challenge in it, by its hash. -/
def signedData (response : R) : Bytes :=
  deps.authenticatorData response ++ deps.sha256 (deps.clientDataJSON response)

def SignedResponse (key : P256Key) (response : R) : Prop :=
  ∃ signature ∈ deps.signature response, deps.ecdsa key (signedData deps response) signature = true

/-- The request carries a signature under the key over a challenge of the store. -/
def SignedOver (key : P256Key) (pool : Pool) (challenge : String) : AuthRequest J R → Prop
  | .registerVerify (some response) => pool = .registration ∧
      deps.clientChallenge (deps.clientDataJSON response) = some challenge ∧
      SignedResponse deps key response
  | .loginVerify (some response) => pool = .authentication ∧
      deps.clientChallenge (deps.clientDataJSON response) = some challenge ∧
      SignedResponse deps key response
  | .vaultVerify (some body) => pool = .vault ∧ body.challenge = .text challenge ∧
      ∃ signature, hexToBytes deps body.signature = .ok signature ∧
        deps.ecdsa key (utf8 challenge) signature = true
  | _ => False

/-- The request shows possession of the key: what is signed was issued and not consumed before. -/
def Shows (s : AuthState J) (request : AuthRequest J R) (key : P256Key) : Prop :=
  ∃ pool challenge, SignedOver deps key pool challenge request ∧
    (pool, challenge) ∈ s.issued ∧ (pool, challenge) ∉ s.consumed

def ShowsKeyOf (s : AuthState J) (request : AuthRequest J R) (address : Hex) : Prop :=
  ∃ key, deriveSubjectKey deps (.text (toHex key.x)) (.text (toHex key.y)) = .ok address ∧
    Shows deps s request key

/-- The sessions that a request opens are of keys it shows possession of. -/
def Proven (s : AuthState J) (request : AuthRequest J R) (s' : AuthState J) : Prop :=
  ∀ sid session, s'.sessions sid = some session → s.sessions sid ≠ some session →
    ShowsKeyOf deps s request session.address

abbrev Step (J R : Type) := Moment × AuthRequest J R

def step (s : AuthState J) (x : Step J R) : AuthState J := final (x.2.handle deps x.1 s)

/-- A condition on every step of a run and the state before it. -/
def Along (P : AuthState J → Step J R → Prop) : AuthState J → List (Step J R) → Prop
  | _, [] => True
  | s, x :: xs => P s x ∧ Along P (step deps s x) xs

def IsP256 (publicKeyCose : Bytes) (key : P256Key) : Prop :=
  deps.decodeCredentialPublicKey publicKeyCose = some ⟨true, some 1, some key.x, some key.y⟩

/-- A registration that would be accepted is of a P-256 key that signed it. -/
def RegistersOwnKey (s : AuthState J) (now : ℕ) (response : R) : Prop :=
  ∀ info coordinates, Asks deps .registration deps.registrationShape now response s →
    deps.verifyRegistration response = some info →
    ec2Coordinates deps info.credential.publicKeyCose = .ok (some coordinates) →
    ∃ key, IsP256 deps info.credential.publicKeyCose key ∧ SignedResponse deps key response

/-- What is hashed to the address of a proof that would be accepted is the key it is checked
against. -/
def SendsOwnKey (s : AuthState J) (now : ℕ) (body : VaultProof J) : Prop :=
  ∀ challenge key bytes, body.challenge = .text challenge → s.Live .vault now challenge →
    vaultKey deps body.qx body.qy = .ok key →
    verifyRawSignature deps body.qx body.qy challenge body.signature = .ok true →
    deps.concat body.qx body.qy = some bytes → bytes = key.x ++ key.y

def Meets (s : AuthState J) (x : Step J R) : Prop :=
  match x.2 with
  | .registerVerify (some response) => RegistersOwnKey deps s x.1.now response
  | .vaultVerify (some body) => SendsOwnKey deps s x.1.now body
  | _ => True

/-- What the code relies on: viem reads back the hex it is given, and an assertion is checked
against the key that is stored. -/
structure AuthDeps.Sound : Prop where
  concat_toHex (x y : Bytes) : deps.concat (.text (toHex x)) (.text (toHex y)) = some (x ++ y)
  authenticates (response : R) (stored : WebAuthnCredential) (newCounter : ℕ) (key : P256Key)
    (h : deps.verifyAuthentication response stored = some newCounter)
    (hkey : IsP256 deps stored.publicKeyCose key) : SignedResponse deps key response

end Statement

section Invariant

variable {J R : Type} {deps : AuthDeps J R} {s₀ s : AuthState J}

/-- Challenges wait in a store from their issue until they are consumed, and the stored passkeys
are P-256 keys. -/
structure Kept (deps : AuthDeps J R) (s : AuthState J) : Prop where
  issued : ∀ pool, ∀ n ∈ s.keys pool, (pool, n) ∈ s.issued
  unconsumed : ∀ pool, ∀ n ∈ s.keys pool, (pool, n) ∉ s.consumed
  consumed : s.consumed ⊆ s.issued
  p256 : ∀ id stored, s.credentialsById id = some stored →
    ∃ key, IsP256 deps stored.publicKeyCose key

theorem Kept.init : Kept deps (AuthState.init J) :=
  ⟨nofun, nofun, fun _ h => h, nofun⟩

theorem keys_without (s : AuthState J) (pool q : Pool) (n m : String) :
    m ∈ (s.without pool n).keys q → m ∈ s.keys q ∧ (q, m) ≠ (pool, n) := by
  intro h
  by_cases hq : q = pool
  · subst hq
    simp only [AuthState.keys, AuthState.without, Function.update_self, List.mem_map,
      List.mem_filter] at h
    obtain ⟨r, ⟨hr, hne⟩, rfl⟩ := h
    exact ⟨List.mem_map_of_mem hr, by simpa using hne⟩
  · refine ⟨?_, fun h => hq (Prod.mk.inj h).1⟩
    simpa [AuthState.keys, AuthState.without, Function.update_of_ne hq] using h

theorem Kept.without (h : Kept deps s) {pool : Pool} {n : String} (hn : n ∈ s.keys pool) :
    Kept deps (s.without pool n) where
  issued q m hm := h.issued q m (keys_without s pool q n m hm).1
  unconsumed q m hm hc := by
    obtain ⟨hmem, hne⟩ := keys_without s pool q n m hm
    rcases List.mem_cons.1 hc with heq | hc
    · exact hne heq
    · exact h.unconsumed q m hmem hc
  consumed := List.cons_subset.2 ⟨h.issued pool n hn, h.consumed⟩
  p256 := h.p256

theorem Kept.issue (h : Kept deps s) {pool : Pool} {nonce : String} {rows : List (String × ℕ)}
    (hfresh : ∀ q, (q, nonce) ∉ s.issued)
    (hrows : ∀ n ∈ rows.map Prod.fst, n ∈ s.keys pool ∨ n = nonce) :
    Kept deps { s with
      nonces := Function.update s.nonces pool rows, issued := (pool, nonce) :: s.issued } := by
  have hkeys : ∀ q m, m ∈ AuthState.keys { s with
      nonces := Function.update s.nonces pool rows, issued := (pool, nonce) :: s.issued } q →
      m ∈ s.keys q ∨ (q, m) = (pool, nonce) := by
    intro q m hm
    by_cases hq : q = pool
    · subst hq
      simp only [AuthState.keys, Function.update_self] at hm
      exact (hrows m hm).imp_right fun h => by rw [h]
    · simp only [AuthState.keys, Function.update_of_ne hq] at hm
      exact .inl hm
  refine ⟨fun q m hm => ?_, fun q m hm hc => ?_, fun x hx => .tail _ (h.consumed hx), h.p256⟩
  · rcases hkeys q m hm with hold | hnew
    · exact .tail _ (h.issued q m hold)
    · exact hnew ▸ .head _
  · rcases hkeys q m hm with hold | hnew
    · exact h.unconsumed q m hold hc
    · exact hfresh pool (h.consumed (hnew ▸ hc))

theorem Kept.shows (h : Kept deps s) {request : AuthRequest J R} {key : P256Key} {pool : Pool}
    {now : ℕ} {challenge : String} (hlive : s.Live pool now challenge)
    (hsigned : SignedOver deps key pool challenge request) : Shows deps s request key :=
  ⟨pool, challenge, hsigned, h.issued _ _ hlive.mem_keys, h.unconsumed _ _ hlive.mem_keys⟩

theorem Kept.credentials (h : Kept deps s) (credentials : Hex → Option (RegisteredKey J)) :
    Kept deps { s with credentials } :=
  ⟨h.issued, h.unconsumed, h.consumed, h.p256⟩

theorem Kept.sessions (h : Kept deps s) (sessions : String → Option Session) :
    Kept deps { s with sessions } :=
  ⟨h.issued, h.unconsumed, h.consumed, h.p256⟩

/-- While a request is handled, before it opens a session. -/
structure During (deps : AuthDeps J R) (s₀ s : AuthState J) : Prop where
  kept : Kept deps s
  sessions : s.sessions = s₀.sessions
  issued : s.issued = s₀.issued

/-- Once a request has been handled. -/
structure Done (deps : AuthDeps J R) (s₀ : AuthState J) (x : Step J R) (s : AuthState J) :
    Prop where
  kept : Kept deps s
  proven : Proven deps s₀ x.2 s
  issued : ∀ pool n, (pool, n) ∈ s.issued → (pool, n) ∈ s₀.issued ∨ n = x.1.nonce

theorem During.done (h : During deps s₀ s) (x : Step J R) : Done deps s₀ x s :=
  ⟨h.kept, fun _ _ hs hn => absurd (h.sessions ▸ hs) hn, fun _ _ hn => .inl (h.issued ▸ hn)⟩

theorem Triple.lift {α : Type} {P : AuthState J → Prop} {x : Except AuthError α} :
    Triple P (lift x) (fun a s => x = .ok a ∧ P s) fun _ => P := by
  intro s hs
  cases x with
  | ok a => exact ⟨rfl, hs⟩
  | error e => exact hs

end Invariant

section Routes

variable {J R : Type} {deps : AuthDeps J R} {s₀ : AuthState J}

theorem consume_during {pool : Pool} {now : ℕ} {nonce : Value J} (h : Kept deps s₀) :
    Triple (· = s₀) (consume pool now nonce)
      (fun b s => During deps s₀ s ∧ (b = true → ∃ n, nonce = .text n ∧ s₀.Live pool now n))
      fun _ s => During deps s₀ s := by
  refine consume_triple.conseq (fun _ hs => hs) ?_ nofun
  rintro b s ⟨hb, rfl | ⟨n, hn, rfl⟩⟩
  · exact ⟨⟨h, rfl, rfl⟩, hb⟩
  · exact ⟨⟨h.without hn, rfl, rfl⟩, hb⟩

theorem expectedChallenge_during {pool : Pool} {shape : R → Bool} {now : ℕ} {response : R}
    (h : Kept deps s₀) :
    Triple (· = s₀) (expectedChallenge deps pool shape now response)
      (fun b s => During deps s₀ s ∧ (b = true → Asks deps pool shape now response s₀))
      fun _ s => During deps s₀ s := by
  refine .ite (fun hshape => ?_) fun _ => .pure ?_
  · cases hc : deps.clientChallenge (deps.clientDataJSON response) with
    | none =>
      refine .pure ?_
      rintro s rfl
      exact ⟨⟨h, rfl, rfl⟩, nofun⟩
    | some challenge =>
      refine (consume_during h).conseq (fun _ hs => hs) ?_ fun _ _ hs => hs
      rintro b s ⟨hs, hb⟩
      refine ⟨hs, fun hbt => ⟨hshape, challenge, hc, ?_⟩⟩
      obtain ⟨n, hn, hlive⟩ := hb hbt
      cases hn
      exact hlive
  · rintro s rfl
    exact ⟨⟨h, rfl, rfl⟩, nofun⟩

theorem ec2Coordinates_p256 {cose : Bytes} {key : P256Key} (h : IsP256 deps cose key) :
    ec2Coordinates deps cose = .ok (some (toHex key.x, toHex key.y)) := by
  rw [ec2Coordinates, h]
  rfl

theorem saveCredential_during {storage : Storage} {id : String} {credential : WebAuthnCredential}
    (hkey : ∃ key, IsP256 deps credential.publicKeyCose key) :
    Triple (During deps s₀) (saveCredential storage id credential) (fun _ s => During deps s₀ s)
      fun _ s => During deps s₀ s := by
  refine .modify fun s hs => ?_
  split_ifs
  · exact hs
  · refine ⟨⟨hs.kept.issued, hs.kept.unconsumed, hs.kept.consumed, fun i stored hi => ?_⟩,
      hs.sessions, hs.issued⟩
    by_cases hid : i = id
    · subst hid
      cases (Function.update_self i (some credential) s.credentialsById).symm.trans hi
      exact hkey
    · exact hs.kept.p256 i stored ((Function.update_of_ne hid _ _).symm.trans hi)

theorem updateCounter_during {id : String} {counter : ℕ} :
    Triple (During deps s₀) (updateCounter id counter) (fun _ s => During deps s₀ s)
      fun _ s => During deps s₀ s := by
  refine .modify fun s hs => ⟨⟨hs.kept.issued, hs.kept.unconsumed, hs.kept.consumed,
    fun i stored hi => ?_⟩, hs.sessions, hs.issued⟩
  by_cases hid : i = id
  · subst hid
    obtain ⟨old, hold, rfl⟩ := Option.map_eq_some_iff.1
      ((Function.update_self i _ s.credentialsById).symm.trans hi)
    exact hs.kept.p256 i old hold
  · exact hs.kept.p256 i stored ((Function.update_of_ne hid _ _).symm.trans hi)

theorem registerCredential_during {storage : Storage} {pgText : J → String} {subjectKey : Hex}
    {qx qy : Value J} {method : CredentialMethod} :
    Triple (During deps s₀) (registerCredential storage pgText subjectKey qx qy method)
      (fun _ s => During deps s₀ s) fun _ s => During deps s₀ s := by
  cases storage with
  | memory => exact .modify fun s hs => ⟨hs.kept.credentials _, hs.sessions, hs.issued⟩
  | postgres =>
    refine .modify fun s hs => ?_
    split_ifs
    · exact hs
    · exact ⟨hs.kept.credentials _, hs.sessions, hs.issued⟩

/-- A coordinate pair that a ceremony returns is of a key the request shows possession of. -/
def OfShownKey (deps : AuthDeps J R) (s₀ : AuthState J) (request : AuthRequest J R)
    (result : Option (String × String)) : Prop :=
  ∀ qx qy, result = some (qx, qy) →
    ∃ key : P256Key, qx = toHex key.x ∧ qy = toHex key.y ∧ Shows deps s₀ request key

theorem finishRegistration_during {now : ℕ} {response : R} (h : Kept deps s₀)
    (hown : RegistersOwnKey deps s₀ now response) :
    Triple (· = s₀) (finishRegistration deps now response)
      (fun result s => During deps s₀ s ∧
        OfShownKey deps s₀ (.registerVerify (some response)) result)
      fun _ s => During deps s₀ s := by
  refine (expectedChallenge_during h).bind fun b => .ite (fun hb => ?_) fun _ => .pure ?_
  · subst hb
    cases hinfo : deps.verifyRegistration response with
    | none => exact .pure fun s hs => ⟨hs.1, nofun⟩
    | some info =>
      refine (Triple.lift.conseq (fun _ hs => hs) (fun _ _ hs => hs) fun _ _ hs => hs.1).bind
        fun coordinates => ?_
      cases coordinates with
      | none => exact .pure fun s hs => ⟨hs.2.1, nofun⟩
      | some coordinates =>
        refine .assume (fun _ hs => And.intro hs.1 (hs.2.2 rfl)) fun hfacts => ?_
        obtain ⟨hcoords, hasks⟩ := hfacts
        obtain ⟨key, hkey, hsigned⟩ := hown info coordinates hasks hinfo hcoords
        obtain ⟨-, challenge, hchallenge, hlive⟩ := hasks
        refine ((saveCredential_during ⟨key, hkey⟩).conseq (fun _ hs => hs.2.1) (fun _ _ hs => hs)
          fun _ _ hs => hs).bind fun _ => .pure fun s hs => ⟨hs, fun qx qy hq => ⟨key, ?_⟩⟩
        cases hcoords.symm.trans (ec2Coordinates_p256 hkey)
        cases hq
        exact ⟨rfl, rfl, h.shows hlive ⟨rfl, hchallenge, hsigned⟩⟩
  · exact fun s hs => ⟨hs.1, nofun⟩

theorem finishAuthentication_during {now : ℕ} {response : R} (hdeps : deps.Sound)
    (h : Kept deps s₀) :
    Triple (· = s₀) (finishAuthentication deps now response)
      (fun result s => During deps s₀ s ∧ OfShownKey deps s₀ (.loginVerify (some response)) result)
      fun _ s => During deps s₀ s := by
  refine Triple.bind (Q := fun r s => r = s₀ ∧ s = s₀) (.get fun s hs => ⟨hs, hs⟩) fun s₁ => ?_
  rintro s ⟨rfl, rfl⟩
  cases hstored : storedCredential deps response s with
  | none => exact ⟨⟨h, rfl, rfl⟩, nofun⟩
  | some found =>
    obtain ⟨id, stored⟩ := found
    obtain ⟨id', -, hid⟩ := Option.bind_eq_some_iff.1 hstored
    obtain ⟨stored', hlookup, heq⟩ := Option.map_eq_some_iff.1 hid
    cases heq
    obtain ⟨key, hkey⟩ := h.p256 _ _ hlookup
    refine Triple.bind (expectedChallenge_during h) (fun b => .ite (fun hb => ?_) fun _ => .pure ?_)
      s rfl
    · subst hb
      cases hverified : deps.verifyAuthentication response stored with
      | none => exact .pure fun s hs => ⟨hs.1, nofun⟩
      | some newCounter =>
        refine .assume (fun _ hs => hs.2 rfl) fun hfacts => ?_
        obtain ⟨-, challenge, hchallenge, hlive⟩ := hfacts
        refine (updateCounter_during.conseq (fun _ hs => hs.1) (fun _ _ hs => hs)
          fun _ _ hs => hs).bind fun _ => Triple.lift.conseq (fun _ hs => hs)
            (fun result s hs => ⟨hs.2, fun qx qy hq => ⟨key, ?_⟩⟩) fun _ _ hs => hs
        have hcoords := hs.1.symm.trans (ec2Coordinates_p256 hkey)
        cases hq
        cases hcoords
        exact ⟨rfl, rfl, h.shows hlive
          ⟨rfl, hchallenge, hdeps.authenticates response stored newCounter key hverified hkey⟩⟩
    · exact fun s hs => ⟨hs.1, nofun⟩

theorem createSession_done {storage : Storage} {now : ℕ} {sid csrfToken : String} {address : Hex}
    {x : Step J R} (hshows : ShowsKeyOf deps s₀ x.2 address) :
    Triple (During deps s₀) (createSession storage now sid csrfToken address)
      (fun _ s => Done deps s₀ x s) fun _ s => Done deps s₀ x s := by
  have hupdate : ∀ (s : AuthState J) (session : Session), session.address = address →
      s.sessions = s₀.sessions → ∀ i y, Function.update s.sessions sid (some session) i = some y →
      s₀.sessions i ≠ some y → ShowsKeyOf deps s₀ x.2 y.address := by
    intro s session haddress hsame i y hy hnew
    by_cases hi : i = sid
    · subst hi
      cases (Function.update_self i (some session) s.sessions).symm.trans hy
      exact haddress ▸ hshows
    · exact absurd (hsame ▸ (Function.update_of_ne hi _ _).symm.trans hy) hnew
  intro s hs
  have hissued : ∀ pool n, (pool, n) ∈ s.issued → (pool, n) ∈ s₀.issued ∨ n = x.1.nonce :=
    fun _ _ hn => .inl (hs.issued ▸ hn)
  cases storage with
  | memory =>
    exact ⟨hs.kept.sessions _,
      hupdate s ⟨address, csrfToken, now + SESSION_TTL_MS⟩ rfl hs.sessions, hissued⟩
  | postgres =>
    simp only [createSession, bind, EStateM.bind, get, getThe, MonadStateOf.get, EStateM.get]
    split_ifs
    · exact hs.done x
    · refine ⟨hs.kept.sessions _, fun i y hy => ?_, hissued⟩
      exact hupdate s ⟨address, csrfToken, now + SESSION_TTL_MS⟩ rfl hs.sessions i y
        (Option.filter_eq_some_iff.1 hy).1

theorem signIn_done {m : Moment} {address : Hex} {x : Step J R}
    (hshows : ShowsKeyOf deps s₀ x.2 address) :
    Triple (During deps s₀) (signIn deps m address) (fun _ s => Done deps s₀ x s)
      fun _ s => Done deps s₀ x s :=
  (createSession_done hshows).bind fun _ => .pure fun _ hs => hs

theorem ShowsKeyOf.of_result {request : AuthRequest J R} {result : Option (String × String)}
    {qx qy : String} {address : Hex} (h : OfShownKey deps s₀ request result)
    (hresult : result = some (qx, qy))
    (haddress : deriveSubjectKey deps (.text qx) (.text qy) = .ok address) :
    ShowsKeyOf deps s₀ request address := by
  obtain ⟨key, rfl, rfl, hshows⟩ := h qx qy hresult
  exact ⟨key, haddress, hshows⟩

theorem registerVerify_done {m : Moment} {response : R} (h : Kept deps s₀)
    (hown : RegistersOwnKey deps s₀ m.now response) :
    Triple (· = s₀) (registerVerify deps m response)
      (fun _ s => Done deps s₀ (m, .registerVerify (some response)) s)
      fun _ s => Done deps s₀ (m, .registerVerify (some response)) s := by
  refine ((finishRegistration_during h hown).conseq (fun _ hs => hs) (fun _ _ hs => hs)
    fun _ _ hs => hs.done _).bind fun result => ?_
  cases result with
  | none => exact .pure fun s hs => hs.1.done _
  | some coordinates =>
    refine .assume (fun _ hs => hs.2) fun hshown => ?_
    refine (Triple.lift.conseq (fun _ hs => hs.1) (fun _ _ hs => hs) fun _ _ hs => hs.done _).bind
      fun subjectKey => .assume (fun _ hs => hs.1) fun haddress => ?_
    refine (registerCredential_during.conseq (fun _ hs => hs.2) (fun _ _ hs => hs)
      fun _ _ hs => hs.done _).bind fun _ => ?_
    exact signIn_done (.of_result hshown rfl haddress)

theorem loginVerify_done {m : Moment} {response : R} (hdeps : deps.Sound) (h : Kept deps s₀) :
    Triple (· = s₀) (loginVerify deps m response)
      (fun _ s => Done deps s₀ (m, .loginVerify (some response)) s)
      fun _ s => Done deps s₀ (m, .loginVerify (some response)) s := by
  refine ((finishAuthentication_during hdeps h).conseq (fun _ hs => hs) (fun _ _ hs => hs)
    fun _ _ hs => hs.done _).bind fun result => ?_
  cases result with
  | none => exact .pure fun s hs => hs.1.done _
  | some coordinates =>
    refine .assume (fun _ hs => hs.2) fun hshown => ?_
    refine (Triple.lift.conseq (fun _ hs => hs.1) (fun _ _ hs => hs) fun _ _ hs => hs.done _).bind
      fun subjectKey => .assume (fun _ hs => hs.1) fun haddress => ?_
    exact (signIn_done (.of_result hshown rfl haddress)).conseq (fun _ hs => hs.2)
      (fun _ _ hs => hs) fun _ _ hs => hs

theorem verifySignature_during {now : ℕ} {qx qy nonce signature : Value J} (h : Kept deps s₀) :
    Triple (· = s₀) (verifySignature deps now qx qy nonce signature)
      (fun b s => During deps s₀ s ∧ (b = true → ∃ challenge, nonce = .text challenge ∧
        s₀.Live .vault now challenge ∧
        verifyRawSignature deps qx qy challenge signature = .ok true))
      fun _ s => During deps s₀ s := by
  refine (consume_during h).bind fun b => .ite (fun hb => ?_) fun _ => .pure fun s hs =>
    ⟨hs.1, nofun⟩
  subst hb
  refine .assume (fun _ hs => hs.2 rfl) fun hlive => ?_
  obtain ⟨challenge, rfl, hlive⟩ := hlive
  refine Triple.lift.conseq (fun _ hs => hs.1) (fun b s hs => ⟨hs.2, fun hb => ?_⟩)
    fun _ _ hs => hs
  exact ⟨challenge, rfl, hlive, hb ▸ hs.1⟩

theorem vaultVerify_done {m : Moment} {body : VaultProof J} (hdeps : deps.Sound)
    (h : Kept deps s₀) (hown : SendsOwnKey deps s₀ m.now body) :
    Triple (· = s₀) (vaultVerify deps m body)
      (fun _ s => Done deps s₀ (m, .vaultVerify (some body)) s)
      fun _ s => Done deps s₀ (m, .vaultVerify (some body)) s := by
  refine ((verifySignature_during h).conseq (fun _ hs => hs) (fun _ _ hs => hs)
    fun _ _ hs => hs.done _).bind fun b => .ite (fun hb => ?_) fun _ => .pure fun s hs =>
      hs.1.done _
  subst hb
  refine .assume (fun _ hs => hs.2 rfl) fun hverified => ?_
  obtain ⟨challenge, hchallenge, hlive, hraw⟩ := hverified
  obtain ⟨key, sig, hkey, hsig, hecdsa⟩ := verifyRawSignature_ok hraw
  refine (Triple.lift.conseq (fun _ hs => hs.1) (fun _ _ hs => hs) fun _ _ hs => hs.done _).bind
    fun subjectKey => .assume (fun _ hs => hs.1) fun haddress => ?_
  have hshows : ShowsKeyOf deps s₀ (.vaultVerify (some body)) subjectKey := by
    refine ⟨key, ?_, h.shows hlive ⟨rfl, hchallenge, sig, hsig, hecdsa⟩⟩
    rw [deriveSubjectKey] at haddress ⊢
    cases hbytes : deps.concat body.qx body.qy with
    | none => simp [hbytes] at haddress
    | some bytes =>
      have hown : bytes = key.x ++ key.y := hown challenge key bytes hchallenge hlive hkey hraw hbytes
      rw [hbytes] at haddress
      rw [hdeps.concat_toHex, ← hown]
      exact haddress
  refine Triple.bind (Q := fun _ s => During deps s₀ s) (.get fun s hs => hs.2) fun s₁ => ?_
  refine .ite (fun _ => ?_) fun _ => ?_
  · exact (registerCredential_during.conseq (fun _ hs => hs) (fun _ _ hs => hs)
      fun _ _ hs => hs.done _).bind fun _ => signIn_done hshows
  · exact signIn_done hshows

theorem options_done {storage : Storage} {pool : Pool} {m : Moment} {request : AuthRequest J R}
    (h : Kept deps s₀) (hfresh : ∀ q, (q, m.nonce) ∉ s₀.issued) :
    Triple (· = s₀)
      (do pure (AuthReply.challenge (← issue storage pool m.now m.nonce)))
      (fun _ s => Done deps s₀ (m, request) s) fun _ s => Done deps s₀ (m, request) s := by
  refine (issue_triple.conseq (fun _ hs => hs) (fun _ _ hs => ?_) fun _ s hs => ?_).bind
    fun _ => .pure fun _ hs => hs
  · obtain ⟨rows, rfl, hrows⟩ := hs
    refine ⟨h.issue hfresh hrows, fun _ _ hs hn => absurd hs hn, fun q n hn => ?_⟩
    rcases List.mem_cons.1 hn with heq | hold
    · exact .inr (congrArg Prod.snd heq)
    · exact .inl hold
  · exact During.done ⟨hs ▸ h, hs ▸ rfl, hs ▸ rfl⟩ (m, request)

end Routes

section Runs

variable {J R : Type} {deps : AuthDeps J R}

theorem step_done {s : AuthState J} {x : Step J R} (hdeps : deps.Sound) (h : Kept deps s)
    (hfresh : ∀ pool, (pool, x.1.nonce) ∉ s.issued) (hmeets : Meets deps s x) :
    Done deps s x (step deps s x) := by
  have hkept : Done deps s x s := During.done ⟨h, rfl, rfl⟩ x
  obtain ⟨m, request⟩ := x
  suffices Triple (· = s) (request.handle deps m) (fun _ => Done deps s (m, request))
      fun _ => Done deps s (m, request) from this.final rfl
  cases request with
  | registerOptions => exact options_done h hfresh
  | loginOptions => exact options_done h hfresh
  | vaultChallenge => exact options_done h hfresh
  | registerVerify response =>
    cases response with
    | none => exact .throw fun _ hs => hs ▸ hkept
    | some response => exact registerVerify_done h hmeets
  | loginVerify response =>
    cases response with
    | none => exact .throw fun _ hs => hs ▸ hkept
    | some response => exact loginVerify_done hdeps h
  | vaultVerify body =>
    cases body with
    | none => exact .throw fun _ hs => hs ▸ hkept
    | some body => exact vaultVerify_done hdeps h hmeets

theorem run_proven {s : AuthState J} {steps : List (Step J R)} (hdeps : deps.Sound)
    (h : Kept deps s) (hnonces : (steps.map (·.1.nonce)).Nodup)
    (hfresh : ∀ x ∈ steps, ∀ pool, (pool, x.1.nonce) ∉ s.issued)
    (hmeets : Along deps (Meets deps) s steps) :
    Along deps (fun s x => Proven deps s x.2 (step deps s x)) s steps := by
  induction steps generalizing s with
  | nil => exact trivial
  | cons x steps ih =>
    obtain ⟨hx, hnonces⟩ := List.nodup_cons.1 hnonces
    have hdone := step_done hdeps h (hfresh x (.head _)) hmeets.1
    refine ⟨hdone.proven, ih hdone.kept hnonces (fun y hy pool hissued => ?_) hmeets.2⟩
    rcases hdone.issued pool y.1.nonce hissued with hold | heq
    · exact hfresh y (.tail _ hy) pool hold
    · exact hx (List.mem_map.2 ⟨y, hy, heq⟩)

/-- In a run in which every key that is registered signs its registration, and every address is
derived from the key that is checked, nobody gets a session without the key of its address. -/
theorem sign_in_proves_possession (deps : AuthDeps J R) (hdeps : deps.Sound)
    (steps : List (Step J R)) (hnonces : (steps.map (·.1.nonce)).Nodup)
    (hmeets : Along deps (Meets deps) (.init J) steps) :
    Along deps (fun s x => Proven deps s x.2 (step deps s x)) (.init J) steps :=
  run_proven hdeps .init hnonces (fun _ _ _ => nofun) hmeets

end Runs
section Opened

variable {J R : Type} {deps : AuthDeps J R} {s : AuthState J} {m : Moment}

theorem signIn_opens {address : Hex} (hsid : s.sessions m.sid = none) :
    (final (signIn deps m address s)).sessions m.sid =
      some ⟨address, m.csrfToken, m.now + SESSION_TTL_MS⟩ := by
  have hopened : Function.update s.sessions m.sid
      (some ⟨address, m.csrfToken, m.now + SESSION_TTL_MS⟩) m.sid =
      some ⟨address, m.csrfToken, m.now + SESSION_TTL_MS⟩ := Function.update_self ..
  simp only [signIn, createSession, bind, EStateM.bind, get, getThe, MonadStateOf.get, EStateM.get]
  cases deps.storage with
  | memory => exact hopened
  | postgres =>
    rw [hsid]
    change (Function.update s.sessions m.sid _ m.sid).filter _ = _
    rw [hopened]
    exact Option.filter_eq_some_iff.2 ⟨rfl, by simp [SESSION_TTL_MS]⟩

theorem saveCredential_ok (storage : Storage) (id : String) (credential : WebAuthnCredential) :
    ∃ s', saveCredential storage id credential s = .ok ⟨⟩ s' ∧ s'.sessions = s.sessions := by
  refine ⟨_, rfl, ?_⟩
  beta_reduce
  split_ifs <;> rfl

theorem registerCredential_ok (storage : Storage) (pgText : J → String) (subjectKey : Hex)
    (qx qy : Value J) (method : CredentialMethod) :
    ∃ s', registerCredential storage pgText subjectKey qx qy method s = .ok ⟨⟩ s' ∧
      s'.sessions = s.sessions := by
  cases storage with
  | memory => exact ⟨_, rfl, rfl⟩
  | postgres =>
    refine ⟨_, rfl, ?_⟩
    beta_reduce
    split_ifs <;> rfl

variable {response : R} {challenge : String} {info : RegistrationInfo} {key : P256Key}

theorem finishRegistration_ok
    (hasks : Asks deps .registration deps.registrationShape m.now response s)
    (hinfo : deps.verifyRegistration response = some info)
    (hkey : IsP256 deps info.credential.publicKeyCose key) :
    ∃ s', finishRegistration deps m.now response s =
      .ok (some (toHex key.x, toHex key.y)) s' ∧ s'.sessions = s.sessions := by
  obtain ⟨hshape, challenge, hchallenge, hlive⟩ := hasks
  have hasked : expectedChallenge deps .registration deps.registrationShape m.now response s =
      .ok true (s.without .registration challenge) := by
    rw [expectedChallenge, if_pos hshape, Option.mem_def.1 hchallenge]
    exact consume_live hlive
  obtain ⟨s', hsave, hsame⟩ := saveCredential_ok (s := s.without .registration challenge)
    deps.storage info.credentialId info.credential
  refine ⟨s', ?_, hsame⟩
  rw [finishRegistration, bind_of_ok hasked, if_pos rfl, hinfo]
  simp only
  rw [ec2Coordinates_p256 hkey, bind_of_ok (show lift _ _ = .ok _ _ from rfl)]
  exact bind_of_ok hsave

/-- Whoever names the coordinates of a key in a registration that the library accepts has a session
for its address. -/
theorem registerVerify_opens (hdeps : deps.Sound)
    (hasks : Asks deps .registration deps.registrationShape m.now response s)
    (hinfo : deps.verifyRegistration response = some info)
    (hkey : IsP256 deps info.credential.publicKeyCose key) (hsid : s.sessions m.sid = none) :
    (step deps s (m, .registerVerify (some response))).sessions m.sid =
      some ⟨deps.getAddress (key.x ++ key.y), m.csrfToken, m.now + SESSION_TTL_MS⟩ := by
  obtain ⟨s₁, hfinish, h₁⟩ := finishRegistration_ok hasks hinfo hkey
  obtain ⟨s₂, hregister, h₂⟩ := registerCredential_ok (s := s₁) deps.storage deps.pgText
    (deps.getAddress (key.x ++ key.y)) (.text (toHex key.x)) (.text (toHex key.y)) .webauthn
  have haddress : deriveSubjectKey deps (.text (toHex key.x)) (.text (toHex key.y)) =
      .ok (deps.getAddress (key.x ++ key.y)) := by
    rw [deriveSubjectKey, hdeps.concat_toHex]
  have hsid₂ : s₂.sessions m.sid = none := by rw [h₂, h₁, hsid]
  rw [step, AuthRequest.handle, registerVerify, bind_of_ok hfinish]
  simp only
  rw [haddress, bind_of_ok (show lift _ _ = .ok _ _ from rfl), bind_of_ok hregister]
  exact signIn_opens hsid₂

/-- For registrations the condition is exact, if a key is settled by its address. -/
theorem registration_proven_iff (hdeps : deps.Sound) (hkept : Kept deps s)
    (hasks : Asks deps .registration deps.registrationShape m.now response s)
    (hinfo : deps.verifyRegistration response = some info)
    (hkey : IsP256 deps info.credential.publicKeyCose key) (hsid : s.sessions m.sid = none)
    (haddress : ∀ other : P256Key, deps.getAddress (other.x ++ other.y) =
      deps.getAddress (key.x ++ key.y) → other = key) :
    Proven deps s (.registerVerify (some response))
        (step deps s (m, .registerVerify (some response))) ↔
      SignedResponse deps key response := by
  have hopens := registerVerify_opens hdeps hasks hinfo hkey hsid
  constructor
  · intro hproven
    obtain ⟨other, hother, pool, challenge', hsigned, -⟩ :=
      hproven m.sid _ hopens (by rw [hsid]; nofun)
    rw [deriveSubjectKey, hdeps.concat_toHex] at hother
    obtain rfl := haddress other (Except.ok.inj hother)
    exact hsigned.2.2
  · intro hsigned
    refine (registerVerify_done (m := m) hkept ?_).final rfl |>.proven
    intro info' coordinates _ hinfo' _
    cases hinfo.symm.trans hinfo'
    exact ⟨key, hkey, hsigned⟩

variable {body : VaultProof J} {bytes : Bytes}

theorem vaultVerify_opens (hchallenge : body.challenge = .text challenge)
    (hlive : s.Live .vault m.now challenge)
    (hraw : verifyRawSignature deps body.qx body.qy challenge body.signature = .ok true)
    (hbytes : deps.concat body.qx body.qy = some bytes) (hsid : s.sessions m.sid = none) :
    (step deps s (m, .vaultVerify (some body))).sessions m.sid =
      some ⟨deps.getAddress bytes, m.csrfToken, m.now + SESSION_TTL_MS⟩ := by
  have hverify : verifySignature deps m.now body.qx body.qy body.challenge body.signature s =
      .ok true (s.without .vault challenge) := by
    rw [hchallenge, verifySignature, bind_of_ok (consume_live hlive), if_pos rfl, hraw]
    rfl
  have haddress : deriveSubjectKey deps body.qx body.qy = .ok (deps.getAddress bytes) := by
    rw [deriveSubjectKey, hbytes]
  obtain ⟨s₁, hregister, h₁⟩ := registerCredential_ok (s := s.without .vault challenge)
    deps.storage deps.pgText (deps.getAddress bytes) body.qx body.qy .vault
  rw [step, AuthRequest.handle, vaultVerify, bind_of_ok hverify, if_pos rfl, haddress,
    bind_of_ok (show lift _ _ = .ok _ _ from rfl),
    bind_of_ok (show (get : AuthM J (AuthState J)) _ = .ok (s.without .vault challenge) _ from rfl)]
  split_ifs
  · rw [bind_of_ok hregister]
    have hsid₁ : s₁.sessions m.sid = none := by rw [h₁]; exact hsid
    exact signIn_opens hsid₁
  · have hsid' : (s.without .vault challenge).sessions m.sid = none := hsid
    exact signIn_opens hsid'

/-- And for vault proofs, if moreover a signature is of one key only. -/
theorem vault_proven_iff (hdeps : deps.Sound) (hkept : Kept deps s)
    (hchallenge : body.challenge = .text challenge) (hlive : s.Live .vault m.now challenge)
    (hkey : vaultKey deps body.qx body.qy = .ok key)
    (hraw : verifyRawSignature deps body.qx body.qy challenge body.signature = .ok true)
    (hbytes : deps.concat body.qx body.qy = some bytes) (hsid : s.sessions m.sid = none)
    (haddress : ∀ other : P256Key,
      deps.getAddress (other.x ++ other.y) = deps.getAddress bytes → other.x ++ other.y = bytes)
    (hideal : ∀ other signature, hexToBytes deps body.signature = .ok signature →
      deps.ecdsa other (utf8 challenge) signature = true → other = key) :
    Proven deps s (.vaultVerify (some body)) (step deps s (m, .vaultVerify (some body))) ↔
      bytes = key.x ++ key.y := by
  have hopens := vaultVerify_opens hchallenge hlive hraw hbytes hsid
  constructor
  · intro hproven
    obtain ⟨other, hother, pool, challenge', ⟨-, hchallenge', signature, hsig, hsigned⟩, -⟩ :=
      hproven m.sid _ hopens (by rw [hsid]; nofun)
    cases hchallenge.symm.trans hchallenge'
    rw [deriveSubjectKey, hdeps.concat_toHex] at hother
    rw [← haddress other (Except.ok.inj hother), hideal other signature hsig hsigned]
  · intro hown
    refine (vaultVerify_done (m := m) hdeps hkept ?_).final rfl |>.proven
    intro challenge' key' bytes' _ _ hkey' _ hbytes'
    cases hkey.symm.trans hkey'
    cases hbytes.symm.trans hbytes'
    exact hown

end Opened

section WellFormed

variable {J R : Type} {deps : AuthDeps J R}

/-- Coordinates sent as 32 bytes each are the ones the key is imported with. -/
theorem sendsOwnKey_toHex {s : AuthState J} {now : ℕ} {x y : Bytes} (hx : x.length = 32)
    (hy : y.length = 32) (challenge signature : Value J)
    (hraw : ∀ raw key, deps.importKey raw = some key → raw = 4 :: (key.x ++ key.y))
    (hdeps : deps.Sound) :
    SendsOwnKey deps s now ⟨.text (toHex x), .text (toHex y), challenge, signature⟩ := by
  intro challenge' key bytes _ _ hkey _ hbytes
  have himport : rawPublicKey deps (.text (toHex x)) (.text (toHex y)) = .ok (4 :: (x ++ y)) := by
    simp [rawPublicKey, hexToBytes, textBytes_toHex, setAt, bind, Except.bind, hx, hy]
  simp only [vaultKey, himport, bind, Except.bind] at hkey
  cases hk : deps.importKey (4 :: (x ++ y)) with
  | none => simp [hk] at hkey
  | some key' =>
    rw [hk] at hkey
    cases hkey
    have hsame := (List.cons.inj (hraw _ _ hk)).2
    rw [hdeps.concat_toHex] at hbytes
    exact (Option.some.inj hbytes).symm.trans hsame

end WellFormed

section Example

def exampleClientData : Bytes :=
  utf8 ("\x7b\"type\":\"webauthn.create\",\"challenge\":\"ZURkN1VsZFh0SlJDZjRrQlQ1ZlhtU2p6azQwVTY" ++
    "xSGlEN1hleVlOT3N3UQ\",\"origin\":\"https://localhost\"\x7d")

def exampleClientDataHash : Bytes :=
  textBytes "0xf739effb90926f52847f068199e8b0e64e555b485a4a9ff5876925dbd0747b13"

def exampleAuthenticatorData : Bytes :=
  textBytes "0x49960de5880e8c687434170f6476605b8fe4aeb9a28632c7995cf3ba831d9763" ++
    [0x45, 0, 0, 0, 0] ++ List.replicate 16 0 ++ [0, 4, 1, 2, 3, 4] ++ exampleCose

def exampleAttestation : Bytes := textBytes <|
  "0x51590b7a515140d2d784c85608668fdfef8c82fd1f5be52421554a0dc3d033ed" ++
    "e8e397043689993a1504746d6167aa11b8e76b5edc64543edb1791abc519253d"

/-- A registration of `exampleKey` by its public half, with or without an attestation. -/
structure ExampleResponse where
  attested : Bool

/-- The libraries at the inputs of the runs below. -/
def exampleAuthDeps : AuthDeps Unit ExampleResponse where
  storage := .memory
  sliced _ := none
  pgText _ := ""
  concat
    | .text qx, .text qy => some (textBytes qx ++ textBytes qy)
    | _, _ => none
  getAddress bytes :=
    if bytes = exampleKey.x ++ exampleKey.y then exampleAddress
    else zeroAddress
  importKey raw := if raw = 4 :: (exampleKey.x ++ exampleKey.y) then some exampleKey else none
  ecdsa key message signature := decide (key = exampleKey ∧
    (message = exampleAuthenticatorData ++ exampleClientDataHash ∧ signature = exampleAttestation ∨
      message = utf8 exampleNonces.2 ∧ signature = textBytes exampleSignature))
  sha256 bytes := if bytes = exampleClientData then exampleClientDataHash else []
  decodeCredentialPublicKey cose :=
    if cose = exampleCose then some ⟨true, some 1, some exampleKey.x, some exampleKey.y⟩ else none
  id _ := some "AQIDBA"
  clientDataJSON _ := exampleClientData
  authenticatorData _ := exampleAuthenticatorData
  signature response := if response.attested then some exampleAttestation else none
  clientChallenge bytes := if bytes = exampleClientData then some exampleNonces.1 else none
  registrationShape _ := true
  authenticationShape _ := false
  verifyRegistration _ := some ⟨"AQIDBA", ⟨exampleCose, 0⟩⟩
  verifyAuthentication _ _ := none

theorem exampleAuthDeps_sound : exampleAuthDeps.Sound where
  concat_toHex x y := by
    change some (textBytes (toHex x) ++ textBytes (toHex y)) = some (x ++ y)
    rw [textBytes_toHex, textBytes_toHex]
  authenticates _ _ _ _ h := nomatch h

theorem exampleClientData_challenge :
    exampleAuthDeps.clientChallenge exampleClientData = some exampleNonces.1 := by
  simp [exampleAuthDeps]

theorem exampleCose_p256 : IsP256 exampleAuthDeps exampleCose exampleKey := by
  simp [IsP256, exampleAuthDeps]

/-- A registration and a vault sign-in, each over a challenge of its own. -/
def exampleRun (attested : Bool) : List (Step Unit ExampleResponse) :=
  [(⟨0, exampleNonces.1, "sid1", "csrf1"⟩, .registerOptions),
   (⟨1000, "unused1", "sid2", "csrf2"⟩, .registerVerify (some ⟨attested⟩)),
   (⟨2000, exampleNonces.2, "sid3", "csrf3"⟩, .vaultChallenge),
   (⟨3000, "unused2", "sid4", "csrf4"⟩, .vaultVerify (some
     ⟨.text (toHex exampleKey.x), .text (toHex exampleKey.y), .text exampleNonces.2,
      .text exampleSignature⟩))]

theorem sign_in_proves_possession_attested :
    Along exampleAuthDeps (fun s x => Proven exampleAuthDeps s x.2 (step exampleAuthDeps s x))
      (.init Unit) (exampleRun true) := by
  refine sign_in_proves_possession exampleAuthDeps exampleAuthDeps_sound (exampleRun true)
    (by decide) ⟨trivial, ?_, trivial, ?_, trivial⟩
  · intro info coordinates _ hinfo _
    cases hinfo
    exact ⟨exampleKey, exampleCose_p256, exampleAttestation, rfl, by decide +kernel⟩
  · refine sendsOwnKey_toHex exampleKey.x_length exampleKey.y_length _ _ ?_ exampleAuthDeps_sound
    intro raw key h
    obtain ⟨hraw, rfl⟩ : raw = 4 :: (exampleKey.x ++ exampleKey.y) ∧ exampleKey = key := by
      simpa [exampleAuthDeps] using h
    exact hraw

/-- A registration without an attestation opens a session for the address of a key that signed
nothing. -/
theorem unsigned_registration_signs_in :
    exampleAuthDeps.Sound ∧
      ((exampleRun false).map (·.1.nonce)).Nodup ∧
      ¬ Along exampleAuthDeps (fun s x => Proven exampleAuthDeps s x.2 (step exampleAuthDeps s x))
        (.init Unit) (exampleRun false) := by
  refine ⟨exampleAuthDeps_sound, by decide, fun h => ?_⟩
  obtain ⟨key, -, pool, challenge, hsigned, -⟩ := h.2.1 "sid2" _
    (registerVerify_opens exampleAuthDeps_sound ⟨rfl, exampleNonces.1, exampleClientData_challenge,
      (exampleNonces.1, NONCE_TTL_MS), rfl, by decide⟩ rfl exampleCose_p256 rfl) nofun
  obtain ⟨signature, hsignature, -⟩ := hsigned.2.2
  exact nomatch hsignature

end Example

end Linvesther.Api
