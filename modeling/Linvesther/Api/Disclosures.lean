import Linvesther.Api.Consent

/-! `claims/store.ts`, `evaluate.ts` and the disclosure routes: records are kept under the digest of the
claim set, which does not name the owner. A digest that comes again replaces the record in memory and is
ignored in the database. -/

namespace Linvesther.Api

open ChainWorker Program

structure DisclosureRecord (J R : Type) where
  claimSet : ClaimSet
  credential : IdentityCredentialProof J R
  owner : Hex
  publishedAt : ℤ

/-- The records in the order in which their digests came first. -/
abbrev Disclosures (J R : Type) := List (String × DisclosureRecord J R)

section Store

variable {J R : Type}

/-- `save` of either store. -/
def saveDisclosure (storage : Storage) (digest : String) (record : DisclosureRecord J R)
    (rows : Disclosures J R) : Disclosures J R :=
  if digest ∈ rows.map Prod.fst then
    match storage with
    | .memory => rows.map fun r => if r.1 = digest then (digest, record) else r
    | .postgres => rows
  else rows ++ [(digest, record)]

def getDisclosure (rows : Disclosures J R) (digest : String) : Option (DisclosureRecord J R) :=
  (rows.find? (·.1 = digest)).map Prod.snd

def listByOwner (storage : Storage) (rows : Disclosures J R) (owner : Hex) : Disclosures J R :=
  let mine := rows.filter fun r => r.2.owner.toLowerCase = owner.toLowerCase
  match storage with
  | .memory => mine
  | .postgres => mine.insertionSort fun a b => a.2.publishedAt ≤ b.2.publishedAt

theorem getDisclosure_cons (r : String × DisclosureRecord J R) (rows : Disclosures J R)
    (digest : String) :
    getDisclosure (r :: rows) digest = if r.1 = digest then some r.2 else getDisclosure rows digest := by
  rw [getDisclosure, List.find?_cons]
  by_cases h : r.1 = digest
  · simp [h]
  · simp [h, getDisclosure]

theorem getDisclosure_eq_none {rows : Disclosures J R} {digest : String} :
    getDisclosure rows digest = none ↔ digest ∉ rows.map Prod.fst := by
  induction rows with
  | nil => simp [getDisclosure]
  | cons r rows ih =>
    rw [getDisclosure_cons, List.map_cons, List.mem_cons]
    by_cases h : r.1 = digest
    · simp [h]
    · simp [h, ih, Ne.symm h]

theorem getDisclosure_append (rows : Disclosures J R) (digest digest' : String)
    (record : DisclosureRecord J R) :
    getDisclosure (rows ++ [(digest, record)]) digest' =
      (getDisclosure rows digest').or (if digest = digest' then some record else none) := by
  induction rows with
  | nil => simp [getDisclosure]
  | cons r rows ih =>
    rw [List.cons_append, getDisclosure_cons, getDisclosure_cons, ih]
    split_ifs <;> simp

theorem getDisclosure_replaced (rows : Disclosures J R) (digest digest' : String)
    (record : DisclosureRecord J R) :
    getDisclosure (rows.map fun r => if r.1 = digest then (digest, record) else r) digest' =
      if digest = digest' then (getDisclosure rows digest').map fun _ => record
      else getDisclosure rows digest' := by
  induction rows with
  | nil => simp [getDisclosure]
  | cons r rows ih =>
    rw [List.map_cons, getDisclosure_cons, getDisclosure_cons, ih]
    by_cases hr : r.1 = digest
    · by_cases hd : digest = digest'
      · simp [hr, hd]
      · simp [hr, hd]
    · by_cases hd : digest = digest'
      · subst hd
        simp [hr]
      · simp [hr, hd]

/-- What is under a digest once a record has been saved. -/
theorem getDisclosure_save (storage : Storage) (digest digest' : String) (record : DisclosureRecord J R)
    (rows : Disclosures J R) :
    getDisclosure (saveDisclosure storage digest record rows) digest' =
      if digest = digest' then
        match storage with
        | .memory => some record
        | .postgres => (getDisclosure rows digest').or (some record)
      else getDisclosure rows digest' := by
  unfold saveDisclosure
  by_cases hmem : digest ∈ rows.map Prod.fst
  · have hfound : getDisclosure rows digest ≠ none := fun h => getDisclosure_eq_none.1 h hmem
    obtain ⟨kept, hkept⟩ := Option.ne_none_iff_exists'.1 hfound
    rw [if_pos hmem]
    cases storage with
    | memory =>
      simp only [getDisclosure_replaced]
      by_cases hd : digest = digest'
      · subst hd
        simp [hkept]
      · simp [hd]
    | postgres =>
      by_cases hd : digest = digest'
      · subst hd
        simp [hkept]
      · simp [hd]
  · rw [if_neg hmem, getDisclosure_append]
    by_cases hd : digest = digest'
    · subst hd
      rw [getDisclosure_eq_none.2 hmem]
      cases storage <;> simp
    · simp [hd]

/-- A record that is found is listed with those of its owner. -/
theorem mem_listByOwner {storage : Storage} {rows : Disclosures J R} {digest : String}
    {record : DisclosureRecord J R} (h : getDisclosure rows digest = some record) :
    (digest, record) ∈ listByOwner storage rows record.owner := by
  obtain ⟨r, hr, rfl⟩ := Option.map_eq_some_iff.1 h
  have hkey : r.1 = digest := by simpa using List.find?_some hr
  have hmine : (digest, r.2) ∈ rows.filter fun x => x.2.owner.toLowerCase = r.2.owner.toLowerCase := by
    rw [List.mem_filter]
    exact ⟨hkey ▸ List.mem_of_find?_eq_some hr, by simp⟩
  cases storage with
  | memory => exact hmine
  | postgres => exact (List.mem_insertionSort _).2 hmine

end Store

section Evaluate

/-- The figures of an owner that are finite numbers. -/
abbrev ClaimMetrics := String → Option ℚ

inductive ClaimCheckError where
  | claimNotSatisfied | metricUnavailable | unsupportedClaim
deriving DecidableEq

def compare : Comparison → ℚ → ℚ → Bool
  | .GE, value, threshold => threshold ≤ value
  | .GT, value, threshold => threshold < value
  | .LE, value, threshold => value ≤ threshold
  | .LT, value, threshold => value < threshold

/-- `number` reads a text as `Number` does, if it is a finite number. -/
def checkClaim (number : String → Option ℚ) (metrics : ClaimMetrics) :
    ClaimPredicate → Option ClaimCheckError
  | .range .. | .value .. => some .unsupportedClaim
  | .compare type metric threshold =>
    match metrics metric, number threshold with
    | none, _ => some .metricUnavailable
    | some _, none => some .unsupportedClaim
    | some value, some threshold =>
      if Api.compare type value threshold then none else some .claimNotSatisfied

def checkClaims (number : String → Option ℚ) (claims : List ClaimPredicate) (metrics : ClaimMetrics) :
    Option ClaimCheckError :=
  if claims = [] then some .unsupportedClaim else claims.findSome? (checkClaim number metrics)

end Evaluate

section Routes

variable {J R : Type}

/-- `get` of either session store: the one in memory forgets what has expired. -/
def getSession (storage : Storage) (now : ℕ) (sid : String) : AuthM J (Option Session) := do
  match (← get).sessions sid with
  | none => pure none
  | some session =>
    if session.expiresAt ≤ now then
      match storage with
      | .memory =>
        modify fun s => { s with sessions := Function.update s.sessions sid none }
        pure none
      | .postgres => pure none
    else pure (some session)

def requireSession (storage : Storage) (now : ℕ) : Option String → AuthM J (Option Session)
  | none => pure none
  | some sid => if sid = "" then pure none else getSession storage now sid

structure ClaimsState (J R : Type) where
  auth : AuthState J
  disclosures : Disclosures J R

def onAuth {α : Type} (x : AuthM J α) : EStateM AuthError (ClaimsState J R) α := fun s =>
  match x s.auth with
  | .ok a auth => .ok a { s with auth }
  | .error e auth => .error e { s with auth }

structure DiscloseRequest (J R : Type) where
  sid : Option String
  claimSet : ClaimSet
  credential : IdentityCredentialProof J R

inductive DiscloseReply where
  | unauthenticated | nothingToProve
  | refused (error : ClaimCheckError)
  | rejected (error : DisclosureError)
  | created (digest : String)
deriving DecidableEq

variable [DecidableEq J] (deps : AuthDeps J R) (claimDeps : ClaimDeps) (number : String → Option ℚ)

/-- `POST /claims/disclose`. `currentMetrics` is what the option answers for the owner, if it is set. -/
def disclose (now : ℕ) (currentMetrics : Option (Option ClaimMetrics)) (request : DiscloseRequest J R) :
    EStateM AuthError (ClaimsState J R) DiscloseReply := do
  match ← onAuth (requireSession deps.storage now request.sid) with
  | none => pure .unauthenticated
  | some session =>
    match gate currentMetrics request.claimSet.claims with
    | some reply => pure reply
    | none =>
      match ← onAuth (verifyConsent deps claimDeps now request.claimSet request.credential
          session.address now) with
      | .error error => pure (.rejected error)
      | .ok digest => do
        modify fun s =>
          { s with
            disclosures := saveDisclosure deps.storage digest
              ⟨request.claimSet, request.credential, session.address, now⟩ s.disclosures }
        pure (.created digest)
where
  gate : Option (Option ClaimMetrics) → List ClaimPredicate → Option DiscloseReply
    | none, _ => none
    | some none, _ => some .nothingToProve
    | some (some metrics), claims => (checkClaims number claims metrics).map .refused

structure PublicClaim where
  digest : String
  owner : Hex
  claimSet : ClaimSet
  publishedAt : ℤ
deriving DecidableEq

inductive PublicError where
  | notFound | expired
deriving DecidableEq

/-- `GET /public/claims/:digest`. -/
def publicClaim (rows : Disclosures J R) (digest : String) (now : ℤ) : Except PublicError PublicClaim :=
  match getDisclosure rows digest with
  | none => .error .notFound
  | some record =>
    if record.claimSet.audience ≠ "public" then .error .notFound
    else if (checkExpiry claimDeps record.claimSet now).isSome then .error .expired
    else .ok ⟨digest, record.owner, record.claimSet, record.publishedAt⟩

/-- A request to publish, or anything else the API does: that leaves the records as they are. -/
inductive ClaimsEvent (J R : Type) where
  | disclose (now : ℕ) (currentMetrics : Option (Option ClaimMetrics)) (request : DiscloseRequest J R)
  | others (auth : AuthState J)

def claimsStep (s : ClaimsState J R) : ClaimsEvent J R → ClaimsState J R
  | .disclose now currentMetrics request =>
    final (disclose deps claimDeps number now currentMetrics request s)
  | .others auth => { s with auth }

/-- The state after the first `n` events, with no record at first. -/
def claimsAfter (events : List (ClaimsEvent J R)) (n : ℕ) : ClaimsState J R :=
  (events.take n).foldl (claimsStep deps claimDeps number) ⟨.init J, []⟩

/-- A request of the owner is answered 201 with the digest. -/
def Publishes (s : ClaimsState J R) (owner : Hex) (digest : String) : ClaimsEvent J R → Prop
  | .disclose now currentMetrics request =>
    ∃ session auth s', requireSession deps.storage now request.sid s.auth = .ok (some session) auth ∧
      session.address = owner ∧
      disclose deps claimDeps number now currentMetrics request s = .ok (.created digest) s'
  | .others _ => False

/-- What is published names its publisher for ever after. -/
def BelongsToPublisher (events : List (ClaimsEvent J R)) : Prop :=
  ∀ n m owner digest event, n < m → events[n]? = some event →
    Publishes deps claimDeps number (claimsAfter deps claimDeps number events n) owner digest event →
    let rows := (claimsAfter deps claimDeps number events m).disclosures
    (∃ record ∈ getDisclosure rows digest, record.owner = owner) ∧
    (∃ record, (digest, record) ∈ listByOwner deps.storage rows owner) ∧
    ∀ now, ∀ page, publicClaim claimDeps rows digest now = .ok page → page.owner = owner

end Routes

section Publishing

variable {J R : Type} [DecidableEq J] {deps : AuthDeps J R} {claimDeps : ClaimDeps}
  {number : String → Option ℚ} {s : ClaimsState J R}

omit [DecidableEq J] in
theorem onAuth_ok {α : Type} {x : AuthM J α} {a : α} {auth : AuthState J} (h : x s.auth = .ok a auth) :
    onAuth x s = .ok a { s with auth } := by
  simp only [onAuth, h]

omit [DecidableEq J] in
theorem onAuth_error {α : Type} {x : AuthM J α} {e : AuthError} {auth : AuthState J}
    (h : x s.auth = .error e auth) : onAuth x s = .error e { s with auth } := by
  simp only [onAuth, h]

/-- A request saves a record of the owner of its session, under the digest it is answered, or none. -/
theorem disclose_cases (deps : AuthDeps J R) (claimDeps : ClaimDeps) (number : String → Option ℚ)
    (now : ℕ) (currentMetrics : Option (Option ClaimMetrics)) (request : DiscloseRequest J R)
    (s : ClaimsState J R) :
    (∃ session auth digest s', requireSession deps.storage now request.sid s.auth = .ok (some session) auth ∧
      disclose deps claimDeps number now currentMetrics request s = .ok (.created digest) s' ∧
      s'.disclosures = saveDisclosure deps.storage digest
        ⟨request.claimSet, request.credential, session.address, now⟩ s.disclosures) ∨
    (∀ digest s', disclose deps claimDeps number now currentMetrics request s ≠ .ok (.created digest) s') ∧
      (final (disclose deps claimDeps number now currentMetrics request s)).disclosures = s.disclosures := by
  rw [disclose]
  cases hsession : requireSession deps.storage now request.sid s.auth with
  | error e auth =>
    rw [bind_of_error (onAuth_error hsession)]
    exact .inr ⟨nofun, rfl⟩
  | ok found auth =>
    rw [bind_of_ok (onAuth_ok hsession)]
    cases found with
    | none => exact .inr ⟨nofun, rfl⟩
    | some session =>
      cases hgate : disclose.gate number currentMetrics request.claimSet.claims with
      | some reply =>
        refine .inr ⟨fun digest s' h => ?_, rfl⟩
        have hreply : reply = .created digest := (EStateM.Result.ok.inj h).1
        subst hreply
        revert hgate
        rcases currentMetrics with _ | _ | metrics
        · exact nofun
        · exact nofun
        · simp [disclose.gate]
      | none =>
        simp only
        cases hconsent : verifyConsent deps claimDeps now request.claimSet request.credential
            session.address now auth with
        | error e auth' =>
          rw [bind_of_error (onAuth_error hconsent)]
          exact .inr ⟨nofun, rfl⟩
        | ok result auth' =>
          rw [bind_of_ok (onAuth_ok hconsent)]
          cases result with
          | error error => exact .inr ⟨nofun, rfl⟩
          | ok digest => exact .inl ⟨session, auth, digest, _, rfl, rfl, rfl⟩

/-- What one event does to the records. -/
theorem claimsStep_cases (deps : AuthDeps J R) (claimDeps : ClaimDeps) (number : String → Option ℚ)
    (s : ClaimsState J R) (event : ClaimsEvent J R) :
    (∃ digest record, Publishes deps claimDeps number s record.owner digest event ∧
      (∀ owner digest', Publishes deps claimDeps number s owner digest' event →
        owner = record.owner ∧ digest' = digest) ∧
      (claimsStep deps claimDeps number s event).disclosures =
        saveDisclosure deps.storage digest record s.disclosures) ∨
    (∀ owner digest, ¬ Publishes deps claimDeps number s owner digest event) ∧
      (claimsStep deps claimDeps number s event).disclosures = s.disclosures := by
  cases event with
  | others auth => exact .inr ⟨fun _ _ => id, rfl⟩
  | disclose now currentMetrics request =>
    obtain ⟨session, auth, digest, s', hsession, hcreated, hsaved⟩ | ⟨hnone, hkept⟩ :=
      disclose_cases deps claimDeps number now currentMetrics request s
    · refine .inl ⟨digest, ⟨request.claimSet, request.credential, session.address, now⟩,
        ⟨session, auth, s', hsession, rfl, hcreated⟩, fun owner digest' h => ?_, ?_⟩
      · obtain ⟨session', auth', s'', hsession', howner, hcreated'⟩ := h
        cases hsession.symm.trans hsession'
        cases hcreated.symm.trans hcreated'
        exact ⟨howner.symm, rfl⟩
      · rw [claimsStep, hcreated]
        exact hsaved
    · exact .inr ⟨fun owner digest ⟨_, _, s', _, _, h⟩ => hnone digest s' h, hkept⟩

theorem claimsAfter_succ {events : List (ClaimsEvent J R)} {n : ℕ} {event : ClaimsEvent J R}
    (h : events[n]? = some event) :
    claimsAfter deps claimDeps number events (n + 1) =
      claimsStep deps claimDeps number (claimsAfter deps claimDeps number events n) event := by
  rw [claimsAfter, List.take_add_one, h, List.foldl_append]
  rfl

theorem claimsAfter_succ_of_none {events : List (ClaimsEvent J R)} {n : ℕ} (h : events[n]? = none) :
    claimsAfter deps claimDeps number events (n + 1) = claimsAfter deps claimDeps number events n := by
  rw [claimsAfter, List.take_add_one, h, List.foldl_append]
  rfl

/-- Every record was published by its owner under its digest. -/
theorem exists_published {events : List (ClaimsEvent J R)} {n : ℕ} {digest : String}
    {record : DisclosureRecord J R}
    (h : getDisclosure (claimsAfter deps claimDeps number events n).disclosures digest = some record) :
    ∃ k event, k < n ∧ events[k]? = some event ∧
      Publishes deps claimDeps number (claimsAfter deps claimDeps number events k) record.owner digest
        event := by
  induction n with
  | zero => exact nomatch h
  | succ n ih =>
    have hearlier : getDisclosure (claimsAfter deps claimDeps number events n).disclosures digest =
        some record → ∃ k event, k < n + 1 ∧ events[k]? = some event ∧ Publishes deps claimDeps number
          (claimsAfter deps claimDeps number events k) record.owner digest event := by
      intro h
      obtain ⟨k, event, hk, hevent, hpublishes⟩ := ih h
      exact ⟨k, event, hk.trans (Nat.lt_succ_self n), hevent, hpublishes⟩
    cases hevent : events[n]? with
    | none =>
      rw [claimsAfter_succ_of_none hevent] at h
      exact hearlier h
    | some event =>
      rw [claimsAfter_succ hevent] at h
      obtain ⟨digest', record', hpublishes, -, hsaved⟩ | ⟨-, hkept⟩ :=
        claimsStep_cases deps claimDeps number (claimsAfter deps claimDeps number events n) event
      · rw [hsaved, getDisclosure_save] at h
        split_ifs at h with hdigest
        · subst hdigest
          have hnew : record' = record → ∃ k event, k < n + 1 ∧ events[k]? = some event ∧
              Publishes deps claimDeps number (claimsAfter deps claimDeps number events k) record.owner
                digest' event := by
            rintro rfl
            exact ⟨n, event, Nat.lt_succ_self n, hevent, hpublishes⟩
          cases hstorage : deps.storage with
          | memory =>
            rw [hstorage] at h
            exact hnew (Option.some.inj h)
          | postgres =>
            rw [hstorage] at h
            cases hold : getDisclosure (claimsAfter deps claimDeps number events n).disclosures digest' with
            | none =>
              rw [hold] at h
              exact hnew (Option.some.inj h)
            | some old =>
              rw [hold] at h
              exact hearlier (hold.trans h)
        · exact hearlier h
      · rw [hkept] at h
        exact hearlier h

/-- Under the digest of what is published there is a record of its publisher then, if one that was there is too. -/
theorem Publishes.recorded {event : ClaimsEvent J R} {owner : Hex} {digest : String}
    (h : Publishes deps claimDeps number s owner digest event)
    (hown : ∀ record ∈ getDisclosure s.disclosures digest, record.owner = owner) :
    ∃ record ∈ getDisclosure (claimsStep deps claimDeps number s event).disclosures digest, record.owner = owner := by
  obtain ⟨digest', record', -, honly, hsaved⟩ | ⟨hnone, -⟩ := claimsStep_cases deps claimDeps number s event
  · obtain ⟨rfl, rfl⟩ := honly owner digest h
    rw [hsaved, getDisclosure_save, if_pos rfl]
    cases hstorage : deps.storage with
    | memory => exact ⟨record', rfl, rfl⟩
    | postgres =>
      cases hold : getDisclosure s.disclosures digest with
      | none => exact ⟨record', rfl, rfl⟩
      | some old => exact ⟨old, rfl, hown old hold⟩
  · exact absurd h (hnone owner digest)

/-- A record stays one of its owner's, if only its owner publishes under its digest. -/
theorem recorded_step {event : ClaimsEvent J R} {owner : Hex} {digest : String}
    (hown : ∀ owner' digest', Publishes deps claimDeps number s owner' digest' event →
      ∀ record ∈ getDisclosure s.disclosures digest', record.owner = owner')
    (h : ∃ record ∈ getDisclosure s.disclosures digest, record.owner = owner) :
    ∃ record ∈ getDisclosure (claimsStep deps claimDeps number s event).disclosures digest, record.owner = owner := by
  obtain ⟨record, hrecord, howner⟩ := h
  obtain ⟨digest', record', hpublishes, -, hsaved⟩ | ⟨-, hkept⟩ := claimsStep_cases deps claimDeps number s event
  · by_cases hdigest : digest' = digest
    · subst hdigest
      obtain ⟨found, hfound, hfoundOwner⟩ := hpublishes.recorded (hown _ _ hpublishes)
      exact ⟨found, hfound, hfoundOwner.trans ((hown _ _ hpublishes record hrecord).symm.trans howner)⟩
    · rw [hsaved, getDisclosure_save, if_neg hdigest]
      exact ⟨record, hrecord, howner⟩
  · rw [hkept]
    exact ⟨record, hrecord, howner⟩

/-- What is published names its publisher for ever after exactly when nothing is published under a digest
that has a record of another owner. -/
theorem belongs_to_publisher_iff (deps : AuthDeps J R) (claimDeps : ClaimDeps)
    (number : String → Option ℚ) (events : List (ClaimsEvent J R)) :
    BelongsToPublisher deps claimDeps number events ↔
      ∀ n event owner digest, events[n]? = some event →
        Publishes deps claimDeps number (claimsAfter deps claimDeps number events n) owner digest event →
        ∀ record ∈ getDisclosure (claimsAfter deps claimDeps number events n).disclosures digest,
          record.owner = owner := by
  constructor
  · intro h n event owner digest hevent hpublishes record hrecord
    have hnow := h n (n + 1) owner digest event (Nat.lt_succ_self n) hevent hpublishes
    obtain ⟨⟨found, hfound, howner⟩, -, -⟩ := hnow
    rw [claimsAfter_succ hevent] at hfound
    obtain ⟨digest', record', -, honly, hsaved⟩ | ⟨hnone, -⟩ :=
      claimsStep_cases deps claimDeps number (claimsAfter deps claimDeps number events n) event
    · obtain ⟨rfl, rfl⟩ := honly owner digest hpublishes
      rw [hsaved, getDisclosure_save, if_pos rfl] at hfound
      cases hstorage : deps.storage with
      | memory =>
        -- the record that was there belonged to whoever published it
        obtain ⟨k, event', hk, hevent', hpublishes'⟩ := exists_published hrecord
        obtain ⟨⟨found', hfound', howner'⟩, -, -⟩ :=
          h k (n + 1) record.owner digest event' (by omega) hevent' hpublishes'
        rw [claimsAfter_succ hevent, hsaved, getDisclosure_save, if_pos rfl] at hfound'
        exact howner'.symm.trans ((congrArg _ (Option.some.inj (hfound'.symm.trans hfound))).trans howner)
      | postgres =>
        rw [hstorage] at hfound
        rw [Option.mem_def.1 hrecord] at hfound
        rw [Option.some.inj hfound]
        exact howner
    · exact absurd hpublishes (hnone owner digest)
  · intro h n m owner digest event hnm hevent hpublishes
    have hfound : ∃ record ∈ getDisclosure (claimsAfter deps claimDeps number events m).disclosures digest,
        record.owner = owner := by
      induction m, hnm using Nat.le_induction with
      | base =>
        rw [claimsAfter_succ hevent]
        exact hpublishes.recorded (h n event owner digest hevent hpublishes)
      | succ m hnm ih =>
        cases hevent' : events[m]? with
        | none =>
          rw [claimsAfter_succ_of_none hevent']
          exact ih
        | some event' =>
          rw [claimsAfter_succ hevent']
          exact recorded_step (fun owner' digest' => h m event' owner' digest' hevent') ih
    obtain ⟨record, hrecord, howner⟩ := hfound
    refine ⟨⟨record, hrecord, howner⟩, ⟨record, howner ▸ mem_listByOwner hrecord⟩, fun now page hpage => ?_⟩
    rw [publicClaim, Option.mem_def.1 hrecord] at hpage
    simp only at hpage
    split_ifs at hpage
    cases hpage
    exact howner

end Publishing

section Example

/-- The key whose private half is 2. -/
def secondKey : P256Key where
  x := textBytes "0x7cf27b188d034f7e8a52380304b51ac3c08969e277f21b35a60b48fc47669978"
  y := textBytes "0x07775510db8ed040293d9ac69f7430dbba7dade63ce982299e04b79d227873d1"
  x_length := by decide
  y_length := by decide

def secondAddress : Hex := ⟨"0x288f0Cd85005f34168f731a468aef268C2F9456F", by decide⟩

/-- A claim that is true of both owners. -/
def sharedClaimSet : ClaimSet :=
  { exampleClaimSet "0xc1" with claims := [.compare .GE "return" "0"] }

def sharedJson : String :=
  "\x7b\"audience\":\"public\",\"checkpointId\":\"0xc1\",\"claims\":[\x7b\"metric\":\"return\",\"threshold" ++
    "\":\"0\",\"type\":\"GE\"\x7d],\"expiresAt\":\"2027-01-01T00:00:00.000Z\",\"identityId\":\"0x1\",\"nonce" ++
    "\":\"n1\",\"periodEnd\":\"2026-06-30\",\"periodStart\":\"2026-01-01\",\"trackId\":\"0x2\"\x7d"

def sharedDigest : String := "06e259cfb7530a72813ecc01913b868c118e405a04a596133f9d93a84696b6d2"

def sharedSignatures : String × String :=
  ("0x372351eddbf85adb4c57ffd806e3f6341aa4d4cdf4a8b3fc37a2732cfabde7fb" ++
    "1b0af08674820791acfa0222e40bc360c7330186e031fac7071a5423dfc1a198",
   "0x5384bce61558ceacece29e71a6b54a36d8e2632ba0fd12f7ef03c7879119c887" ++
    "1a443be105d73afc20a6b25a8a80fd4f9701729f8681082d71529a6cc0e0061f")

def exampleCanonical : ClaimDeps :=
  { exampleClaimDeps with
    canonicalize claimSet := if claimSet = sharedClaimSet then some sharedJson else none }

/-- Both keys have signed the digest of the claim. -/
def exampleDisclosureDeps (storage : Storage) : AuthDeps Unit Unit :=
  { exampleConsentDeps with
    storage
    importKey := fun raw =>
      if raw = 4 :: (exampleKey.x ++ exampleKey.y) then some exampleKey
      else if raw = 4 :: (secondKey.x ++ secondKey.y) then some secondKey
      else none
    ecdsa := fun key message signature => decide (message = utf8 sharedDigest ∧
      (key = exampleKey ∧ signature = textBytes sharedSignatures.1 ∨
        key = secondKey ∧ signature = textBytes sharedSignatures.2))
    sha256 := fun bytes =>
      if bytes = utf8 sharedJson then textBytes ("0x" ++ sharedDigest) else [] }

/-- Two owners are signed in, each with a key of the vault. -/
def exampleOwners : AuthState Unit :=
  { AuthState.init Unit with
    credentials := fun subjectKey =>
      if subjectKey = exampleAddress then
        some ⟨.vault, .text (toHex exampleKey.x), .text (toHex exampleKey.y)⟩
      else if subjectKey = secondAddress then
        some ⟨.vault, .text (toHex secondKey.x), .text (toHex secondKey.y)⟩
      else none
    sessions := fun sid =>
      if sid = "a" then some ⟨exampleAddress, "csrf", 1800000000000⟩
      else if sid = "b" then some ⟨secondAddress, "csrf", 1800000000000⟩
      else none }

def exampleNumber (text : String) : Option ℚ := if text = "0" then some 0 else none

/-- A year with a return of a quarter. -/
def exampleMetrics : ClaimMetrics := fun metric => if metric = "return" then some (1 / 4) else none

def exampleDisclose (sid signature : String) : ClaimsEvent Unit Unit :=
  .disclose 1790000000000 (some (some exampleMetrics))
    ⟨some sid, sharedClaimSet, .vault (.text signature)⟩

def exampleEvents : List (ClaimsEvent Unit Unit) :=
  [.others exampleOwners, exampleDisclose "a" sharedSignatures.1, exampleDisclose "b" sharedSignatures.2]

theorem rawPublicKey_toHex (deps : AuthDeps Unit Unit) (key : P256Key) :
    rawPublicKey deps (.text (toHex key.x)) (.text (toHex key.y)) = .ok (4 :: (key.x ++ key.y)) := by
  simp [rawPublicKey, hexToBytes, textBytes_toHex, setAt, bind, Except.bind, key.x_length, key.y_length]

theorem sharedDigest_text :
    String.ofList ((textBytes ("0x" ++ sharedDigest)).flatMap byteHex) = sharedDigest := by
  decide +kernel

theorem sharedDigest_eq (storage : Storage) :
    claimSetDigest (exampleDisclosureDeps storage) exampleCanonical sharedClaimSet = .ok sharedDigest := by
  have hcanonical : exampleCanonical.canonicalize sharedClaimSet = some sharedJson := by
    simp [exampleCanonical]
  have hsha : (exampleDisclosureDeps storage).sha256 (utf8 sharedJson) = textBytes ("0x" ++ sharedDigest) := by
    simp [exampleDisclosureDeps]
  rw [claimSetDigest, canonicalClaimSetJson, hcanonical]
  simp only [bind, Except.bind]
  rw [hsha]
  exact congrArg _ sharedDigest_text

/-- A request of one of the owners for the claim is answered 201. -/
theorem example_publishes (storage : Storage) (disclosures : Disclosures Unit Unit)
    {sid signature : String} {owner : Hex} {key : P256Key} (hsid : sid ≠ "")
    (hsession : exampleOwners.sessions sid = some ⟨owner, "csrf", 1800000000000⟩)
    (hcredential : exampleOwners.credentials owner =
      some ⟨.vault, .text (toHex key.x), .text (toHex key.y)⟩)
    (hkey : (exampleDisclosureDeps storage).importKey (4 :: (key.x ++ key.y)) = some key)
    (hsigned : (exampleDisclosureDeps storage).ecdsa key (utf8 sharedDigest) (textBytes signature) = true) :
    Publishes (exampleDisclosureDeps storage) exampleCanonical exampleNumber
      ⟨exampleOwners, disclosures⟩ owner sharedDigest (exampleDisclose sid signature) ∧
    claimsStep (exampleDisclosureDeps storage) exampleCanonical exampleNumber
        ⟨exampleOwners, disclosures⟩ (exampleDisclose sid signature) =
      ⟨exampleOwners, saveDisclosure storage sharedDigest
        ⟨sharedClaimSet, .vault (.text signature), owner, 1790000000000⟩ disclosures⟩ := by
  have hfound : requireSession storage 1790000000000 (some sid) exampleOwners =
      .ok (some ⟨owner, "csrf", 1800000000000⟩) exampleOwners := by
    simp only [requireSession, if_neg hsid, getSession]
    rw [bind_of_ok (show (get : AuthM Unit _) exampleOwners = .ok exampleOwners exampleOwners from rfl),
      hsession]
    rfl
  have hverify : verify (exampleDisclosureDeps storage) 1790000000000 owner sharedDigest
      (.vault (.text signature)) exampleOwners = .ok true exampleOwners := by
    rw [verify, bind_of_ok (show (get : AuthM Unit _) exampleOwners = .ok exampleOwners exampleOwners
      from rfl), hcredential]
    have hraw : verifyRawSignature (exampleDisclosureDeps storage) (.text (toHex key.x))
        (.text (toHex key.y)) sharedDigest (.text signature) = .ok true := by
      simp only [verifyRawSignature, vaultKey, rawPublicKey_toHex, bind, Except.bind, hkey, hexToBytes,
        hsigned]
    simp only [IdentityCredentialProof.method, ne_eq, not_true_eq_false, hraw]
    rfl
  have hconsent : verifyConsent (exampleDisclosureDeps storage) exampleCanonical 1790000000000
      sharedClaimSet (.vault (.text signature)) owner 1790000000000 exampleOwners =
      .ok (.ok sharedDigest) exampleOwners := by
    have hfresh : checkExpiry exampleCanonical sharedClaimSet 1790000000000 = none := rfl
    simp only [verifyConsent, hfresh, sharedDigest_eq]
    rw [bind_of_ok (show lift (.ok sharedDigest) exampleOwners = .ok sharedDigest exampleOwners from rfl),
      bind_of_ok hverify]
    rfl
  have hgate : disclose.gate exampleNumber (some (some exampleMetrics)) sharedClaimSet.claims = none := by
    simp [disclose.gate, checkClaims, checkClaim, sharedClaimSet, exampleMetrics, exampleNumber, Api.compare]
  have hdisclose : disclose (exampleDisclosureDeps storage) exampleCanonical exampleNumber 1790000000000
      (some (some exampleMetrics)) ⟨some sid, sharedClaimSet, .vault (.text signature)⟩
      ⟨exampleOwners, disclosures⟩ = .ok (.created sharedDigest)
        ⟨exampleOwners, saveDisclosure storage sharedDigest
          ⟨sharedClaimSet, .vault (.text signature), owner, 1790000000000⟩ disclosures⟩ := by
    rw [disclose, bind_of_ok (onAuth_ok hfound)]
    simp only [hgate]
    rw [bind_of_ok (onAuth_ok hconsent)]
    rfl
  exact ⟨⟨_, _, _, hfound, rfl, hdisclose⟩, congrArg final hdisclose⟩

theorem exampleKeys_ne : secondKey.x ++ secondKey.y ≠ exampleKey.x ++ exampleKey.y := by decide +kernel

theorem both_publish (storage : Storage) :
    ¬ BelongsToPublisher (exampleDisclosureDeps storage) exampleCanonical exampleNumber exampleEvents := by
  intro h
  have hstart : claimsAfter (exampleDisclosureDeps storage) exampleCanonical exampleNumber exampleEvents 1 =
      ⟨exampleOwners, []⟩ := rfl
  have hnext : claimsAfter (exampleDisclosureDeps storage) exampleCanonical exampleNumber exampleEvents 2 =
      claimsStep (exampleDisclosureDeps storage) exampleCanonical exampleNumber
        (claimsAfter (exampleDisclosureDeps storage) exampleCanonical exampleNumber exampleEvents 1)
        (exampleDisclose "a" sharedSignatures.1) := claimsAfter_succ rfl
  obtain ⟨hfirst, hstep⟩ := @example_publishes storage [] "a" sharedSignatures.1 exampleAddress
    exampleKey (by decide) rfl rfl (by simp [exampleDisclosureDeps]) (by simp [exampleDisclosureDeps])
  obtain ⟨hsecond, -⟩ := @example_publishes storage (saveDisclosure storage sharedDigest
      ⟨sharedClaimSet, .vault (.text sharedSignatures.1), exampleAddress, 1790000000000⟩ []) "b"
    sharedSignatures.2 secondAddress secondKey (by decide) rfl rfl
    (by simp [exampleDisclosureDeps, exampleKeys_ne]) (by simp [exampleDisclosureDeps])
  rw [← hstep, ← hstart, ← hnext] at hsecond
  rw [← hstart] at hfirst
  obtain ⟨⟨record, hrecord, howner⟩, -, -⟩ := h 1 3 _ _ _ (by decide) rfl hfirst
  obtain ⟨⟨record', hrecord', howner'⟩, -, -⟩ := h 2 3 _ _ _ (by decide) rfl hsecond
  cases hrecord.symm.trans hrecord'
  exact absurd (howner.symm.trans howner') (by decide)

/-- The same claim published by a second owner takes the first one's page in memory; in the database the
second owner has none. -/
theorem second_publisher_collides :
    ¬ BelongsToPublisher (exampleDisclosureDeps .memory) exampleCanonical exampleNumber exampleEvents ∧
    ¬ BelongsToPublisher (exampleDisclosureDeps .postgres) exampleCanonical exampleNumber exampleEvents :=
  ⟨both_publish .memory, both_publish .postgres⟩

end Example

end Linvesther.Api
