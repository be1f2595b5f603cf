import Linvesther.Api.AuthRoutes

/-! `disclosure.ts`, `identitySignature.ts` and `claimSet.ts`: a vault signature is over the digest
of what is disclosed, an assertion is over a challenge that has nothing to do with it. -/

namespace Linvesther.Api

open ChainWorker Program

inductive Comparison where
  | GE | GT | LE | LT
deriving DecidableEq

inductive ClaimPredicate where
  | compare (type : Comparison) (metric threshold : String)
  | range (metric min max : String)
  | value (metric value : String)
deriving DecidableEq

structure ClaimSet where
  identityId : String
  trackId : String
  checkpointId : String
  periodStart : String
  periodEnd : String
  claims : List ClaimPredicate
  audience : String
  nonce : String
  expiresAt : String
deriving DecidableEq

/-- The JCS package and `Date`: a value may have no canonical form, and a text may be no date. -/
structure ClaimDeps where
  canonicalize : ClaimSet → Option String
  getTime : String → Option ℤ

inductive IdentityCredentialProof (J R : Type) where
  | vault (signature : Value J)
  | webauthn (response : R)

def IdentityCredentialProof.method {J R : Type} : IdentityCredentialProof J R → CredentialMethod
  | .vault _ => .vault
  | .webauthn _ => .webauthn

inductive DisclosureError where
  | expired | signatureInvalid
deriving DecidableEq

section Consent

variable {J R : Type} [DecidableEq J] (deps : AuthDeps J R) (claimDeps : ClaimDeps)

def canonicalClaimSetJson (claimSet : ClaimSet) : Except AuthError String :=
  match claimDeps.canonicalize claimSet with
  | some json => .ok json
  | none => .error .unserializable

def claimSetDigest (claimSet : ClaimSet) : Except AuthError String := do
  let json ← canonicalClaimSetJson claimDeps claimSet
  .ok (String.ofList ((deps.sha256 (utf8 json)).flatMap byteHex))

/-- A comparison with `NaN` is false: what has no date never expires. -/
def checkExpiry (claimSet : ClaimSet) (now : ℤ) : Option DisclosureError :=
  match claimDeps.getTime claimSet.expiresAt with
  | some expiresAt => if expiresAt ≤ now then some .expired else none
  | none => none

/-- `verify` of `identitySignature.ts`. The WebAuthn branch does not look at the digest. -/
def verify (clock : ℕ) (subjectKey : Hex) (digest : String) (proof : IdentityCredentialProof J R) :
    AuthM J Bool := do
  match (← get).credentials subjectKey with
  | none => pure false
  | some credential =>
    if credential.method ≠ proof.method then pure false
    else
      match proof with
      | .vault signature =>
        lift (verifyRawSignature deps credential.qx credential.qy digest signature)
      | .webauthn response =>
        match ← finishAuthentication deps clock response with
        | none => pure false
        | some (qx, qy) =>
          pure (decide (.text qx = credential.qx ∧ .text qy = credential.qy))

def verifyConsent (clock : ℕ) (claimSet : ClaimSet)
    (credential : IdentityCredentialProof J R) (subjectKey : Hex) (now : ℤ) :
    AuthM J (Except DisclosureError String) := do
  match checkExpiry claimDeps claimSet now with
  | some error => pure (.error error)
  | none =>
    let digest ← lift (claimSetDigest deps claimDeps claimSet)
    if ← verify deps clock subjectKey digest credential then pure (.ok digest)
    else pure (.error .signatureInvalid)

/-- The proof is accepted as consent to the claim set. -/
def Accepts (clock : ℕ) (claimSet : ClaimSet) (proof : IdentityCredentialProof J R)
    (subjectKey : Hex) (now : ℤ) (s : AuthState J) : Prop :=
  ∃ digest s', verifyConsent deps claimDeps clock claimSet proof subjectKey now s =
    .ok (.ok digest) s'

/-- The response answers a waiting challenge with a passkey that is stored. -/
def Authenticates (clock : ℕ) (response : R) (coordinates : String × String) (s : AuthState J) :
    Prop :=
  ∃ id stored newCounter, storedCredential deps response s = some (id, stored) ∧
    Asks deps .authentication deps.authenticationShape clock response s ∧
    deps.verifyAuthentication response stored = some newCounter ∧
    ec2Coordinates deps stored.publicKeyCose = .ok (some coordinates)

/-- That passkey is the one the subject key is registered with. -/
def Asserts (clock : ℕ) (subjectKey : Hex) (response : R) (s : AuthState J) : Prop :=
  ∃ qx qy, s.credentials subjectKey = some ⟨.webauthn, .text qx, .text qy⟩ ∧
    Authenticates deps clock response (qx, qy) s

/-- What keeps consent to one claim set from being consent to another. -/
def BoundTo (clock : ℕ) (a b : ClaimSet) (proof : IdentityCredentialProof J R) (subjectKey : Hex)
    (now : ℤ) (s : AuthState J) : Prop :=
  match proof with
  | .vault _ => True
  | .webauthn response => checkExpiry claimDeps a now = some .expired ∨
      checkExpiry claimDeps b now = some .expired ∨ ¬ Asserts deps clock subjectKey response s

end Consent

section Branches

variable {J R : Type} [DecidableEq J] {deps : AuthDeps J R} {claimDeps : ClaimDeps}
  {clock : ℕ} {subjectKey : Hex} {digest : String} {s : AuthState J}

omit [DecidableEq J] in
theorem finishAuthentication_ok_iff (response : R) (coordinates : String × String) :
    (∃ s', finishAuthentication deps clock response s = .ok (some coordinates) s') ↔
      Authenticates deps clock response coordinates s := by
  have hget : (get : AuthM J (AuthState J)) s = .ok s s := rfl
  rw [finishAuthentication, bind_of_ok hget, Authenticates]
  cases hstored : storedCredential deps response s with
  | none => exact iff_of_false (fun ⟨_, h⟩ => nomatch h) fun ⟨_, _, _, h, _⟩ => nomatch h
  | some found =>
    obtain ⟨b, s₁, hasked, hb⟩ :=
      expectedChallenge_eq deps .authentication deps.authenticationShape clock response s
    simp only
    rw [bind_of_ok hasked]
    by_cases hasks : Asks deps .authentication deps.authenticationShape clock response s
    · rw [if_pos (hb.2 hasks)]
      cases hverified : deps.verifyAuthentication response found.2 with
      | none =>
        refine iff_of_false (fun ⟨_, h⟩ => nomatch h) ?_
        rintro ⟨_, _, _, heq, _, h, _⟩
        cases heq
        exact nomatch hverified.symm.trans h
      | some newCounter =>
        simp only
        rw [bind_of_ok (show updateCounter found.1 newCounter s₁ = .ok ⟨⟩ _ from rfl)]
        constructor
        · rintro ⟨s', h⟩
          refine ⟨found.1, found.2, newCounter, rfl, hasks, hverified, ?_⟩
          cases hcoords : ec2Coordinates deps found.2.publicKeyCose with
          | error e =>
            rw [hcoords] at h
            exact nomatch h
          | ok result =>
            rw [hcoords] at h
            cases h
            rfl
        · rintro ⟨_, _, _, heq, _, _, hcoords⟩
          cases heq
          rw [hcoords]
          exact ⟨_, rfl⟩
    · rw [if_neg fun h => hasks (hb.1 h)]
      exact iff_of_false (fun ⟨_, h⟩ => nomatch h) fun ⟨_, _, _, _, h, _⟩ => hasks h

theorem verify_webauthn_iff (response : R) :
    (∃ s', verify deps clock subjectKey digest (.webauthn response) s = .ok true s') ↔
      Asserts deps clock subjectKey response s := by
  have hget : (get : AuthM J (AuthState J)) s = .ok s s := rfl
  rw [verify, bind_of_ok hget, Asserts]
  cases hcredential : s.credentials subjectKey with
  | none => exact iff_of_false (fun ⟨_, h⟩ => nomatch h) fun ⟨_, _, h, _⟩ => nomatch h
  | some credential =>
    obtain ⟨method, kx, ky⟩ := credential
    cases method with
    | vault => exact iff_of_false (fun ⟨_, h⟩ => nomatch h) fun ⟨_, _, h, _⟩ => nomatch h
    | webauthn =>
      have hmethod : ¬ (CredentialMethod.webauthn ≠
          (IdentityCredentialProof.webauthn response : IdentityCredentialProof J R).method) :=
        not_not_intro rfl
      simp only
      rw [if_neg hmethod]
      constructor
      · rintro ⟨s', h⟩
        cases hfinish : finishAuthentication deps clock response s with
        | error e s₁ =>
          rw [bind_of_error hfinish] at h
          exact nomatch h
        | ok result s₁ =>
          rw [bind_of_ok hfinish] at h
          cases result with
          | none => exact nomatch h
          | some coordinates =>
            obtain ⟨qx, qy⟩ := coordinates
            have hsame := of_decide_eq_true (EStateM.Result.ok.inj h).1
            obtain ⟨rfl, rfl⟩ := hsame
            exact ⟨qx, qy, rfl, (finishAuthentication_ok_iff response (qx, qy)).1 ⟨s₁, hfinish⟩⟩
      · rintro ⟨qx, qy, heq, hauth⟩
        cases heq
        obtain ⟨s₁, hfinish⟩ := (finishAuthentication_ok_iff response (qx, qy)).2 hauth
        exact ⟨s₁, by rw [bind_of_ok hfinish]; simp [pure, EStateM.pure]⟩

theorem verify_vault {signature : Value J} {s' : AuthState J}
    (h : verify deps clock subjectKey digest (.vault signature) s = .ok true s') :
    ∃ credential ∈ s.credentials subjectKey,
      verifyRawSignature deps credential.qx credential.qy digest signature = .ok true := by
  have hget : (get : AuthM J (AuthState J)) s = .ok s s := rfl
  rw [verify, bind_of_ok hget] at h
  cases hcredential : s.credentials subjectKey with
  | none =>
    rw [hcredential] at h
    exact nomatch h
  | some credential =>
    rw [hcredential] at h
    simp only at h
    split_ifs at h with hmethod
    · exact nomatch h
    · refine ⟨credential, rfl, ?_⟩
      cases hraw : verifyRawSignature deps credential.qx credential.qy digest signature with
      | error e =>
        rw [hraw] at h
        exact nomatch h
      | ok b =>
        rw [hraw] at h
        cases h
        rfl

theorem accepts_iff {claimSet : ClaimSet} {proof : IdentityCredentialProof J R} {now : ℤ}
    (hdigest : claimSetDigest deps claimDeps claimSet = .ok digest) :
    Accepts deps claimDeps clock claimSet proof subjectKey now s ↔
      checkExpiry claimDeps claimSet now = none ∧
        ∃ s', verify deps clock subjectKey digest proof s = .ok true s' := by
  rw [Accepts]
  cases hexpiry : checkExpiry claimDeps claimSet now with
  | some error =>
    refine iff_of_false (fun ⟨_, _, h⟩ => ?_) fun h => nomatch h.1
    rw [verifyConsent, hexpiry] at h
    exact nomatch h
  | none =>
    simp only [verifyConsent, hexpiry]
    rw [hdigest]
    rw [bind_of_ok (show lift (.ok digest) s = .ok digest s from rfl)]
    cases hverify : verify deps clock subjectKey digest proof s with
    | error e s₁ =>
      rw [bind_of_error hverify]
      exact iff_of_false (fun ⟨_, _, h⟩ => nomatch h) fun ⟨_, _, h⟩ => nomatch h
    | ok b s₁ =>
      rw [bind_of_ok hverify]
      cases b with
      | false => exact iff_of_false (fun ⟨_, _, h⟩ => nomatch h) fun ⟨_, _, h⟩ => nomatch h
      | true => exact iff_of_true ⟨digest, s₁, rfl⟩ ⟨trivial, s₁, rfl⟩

theorem checkExpiry_eq_none_iff (claimSet : ClaimSet) (now : ℤ) :
    checkExpiry claimDeps claimSet now = none ↔
      checkExpiry claimDeps claimSet now ≠ some .expired := by
  rw [checkExpiry]
  cases claimDeps.getTime claimSet.expiresAt with
  | none => simp
  | some expiresAt =>
    by_cases h : expiresAt ≤ now
    · simp [h]
    · simp [h]

/-- A signature of the vault is over one digest only. -/
theorem vault_not_both {a b : ClaimSet} {da db : String} {signature : Value J} {now : ℤ}
    (hideal : ∀ key m₁ m₂ sig, deps.ecdsa key m₁ sig = true → deps.ecdsa key m₂ sig = true →
      m₁ = m₂)
    (ha : claimSetDigest deps claimDeps a = .ok da) (hb : claimSetDigest deps claimDeps b = .ok db)
    (hne : da ≠ db) :
    ¬ (Accepts deps claimDeps clock a (.vault signature) subjectKey now s ∧
      Accepts deps claimDeps clock b (.vault signature) subjectKey now s) := by
  rintro ⟨hacc, hacc'⟩
  obtain ⟨-, s₁, hverify⟩ := (accepts_iff ha).1 hacc
  obtain ⟨-, s₂, hverify'⟩ := (accepts_iff hb).1 hacc'
  obtain ⟨credential, hcredential, hraw⟩ := verify_vault hverify
  obtain ⟨credential', hcredential', hraw'⟩ := verify_vault hverify'
  obtain rfl : credential = credential' :=
    Option.some.inj (hcredential.symm.trans hcredential')
  obtain ⟨key, sig, hkey, hsig, hecdsa⟩ := verifyRawSignature_ok hraw
  obtain ⟨key', sig', hkey', hsig', hecdsa'⟩ := verifyRawSignature_ok hraw'
  cases hkey.symm.trans hkey'
  cases hsig.symm.trans hsig'
  exact hne (utf8_injective (hideal key _ _ sig hecdsa hecdsa'))

end Branches

/-- One proof is consent to two claim sets unless it is a vault signature, or one of them has
expired, or the passkey of the subject key has answered no waiting challenge with it. -/
theorem consent_exact_iff {J R : Type} [DecidableEq J] (deps : AuthDeps J R) (claimDeps : ClaimDeps)
    (hideal : ∀ key m₁ m₂ signature, deps.ecdsa key m₁ signature = true →
      deps.ecdsa key m₂ signature = true → m₁ = m₂)
    (clock : ℕ) (a b : ClaimSet) (da db : String)
    (ha : claimSetDigest deps claimDeps a = .ok da) (hb : claimSetDigest deps claimDeps b = .ok db)
    (hne : da ≠ db) (proof : IdentityCredentialProof J R) (subjectKey : Hex) (now : ℤ)
    (s : AuthState J) :
    ¬ (Accepts deps claimDeps clock a proof subjectKey now s ∧
        Accepts deps claimDeps clock b proof subjectKey now s) ↔
      BoundTo deps claimDeps clock a b proof subjectKey now s := by
  cases proof with
  | vault signature => exact iff_of_true (vault_not_both hideal ha hb hne) trivial
  | webauthn response =>
    rw [accepts_iff ha, accepts_iff hb, verify_webauthn_iff, verify_webauthn_iff,
      checkExpiry_eq_none_iff, checkExpiry_eq_none_iff, BoundTo]
    tauto

section Example

/-- The canonical JSON of a claim set that claims nothing. -/
def exampleClaimDeps : ClaimDeps where
  canonicalize c := some ("\x7b\"audience\":\"" ++ c.audience ++ "\",\"checkpointId\":\"" ++
    c.checkpointId ++ "\",\"claims\":[],\"expiresAt\":\"" ++ c.expiresAt ++ "\",\"identityId\":\"" ++
    c.identityId ++ "\",\"nonce\":\"" ++ c.nonce ++ "\",\"periodEnd\":\"" ++ c.periodEnd ++
    "\",\"periodStart\":\"" ++ c.periodStart ++ "\",\"trackId\":\"" ++ c.trackId ++ "\"\x7d")
  getTime text := if text = "2027-01-01T00:00:00.000Z" then some 1798761600000 else none

/-- What was shown to the owner, and the same claims for another checkpoint. -/
def exampleClaimSet (checkpointId : String) : ClaimSet where
  identityId := "0x1"
  trackId := "0x2"
  checkpointId
  periodStart := "2026-01-01"
  periodEnd := "2026-06-30"
  claims := []
  audience := "public"
  nonce := "n1"
  expiresAt := "2027-01-01T00:00:00.000Z"

def exampleJson (checkpointId : String) : String :=
  (exampleClaimDeps.canonicalize (exampleClaimSet checkpointId)).getD ""

/-- One assertion by `exampleKey` of the second challenge. -/
def exampleConsentDeps : AuthDeps Unit Unit where
  storage := .memory
  sliced _ := none
  pgText _ := ""
  concat
    | .text qx, .text qy => some (textBytes qx ++ textBytes qy)
    | _, _ => none
  getAddress bytes :=
    if bytes = exampleKey.x ++ exampleKey.y then exampleAddress
    else zeroAddress
  importKey raw := if raw = 4 :: (exampleKey.x ++ exampleKey.y) then some exampleKey else none
  ecdsa key message signature := decide (key = exampleKey ∧ message = utf8 exampleNonces.2 ∧
    signature = textBytes exampleSignature)
  sha256 bytes :=
    if bytes = utf8 (exampleJson "0xc1") then
      textBytes "0xaa4c4f9dfb6fd7cdba18c6b6f4d8a31b265e173116c7f8cf60dc48bf449b79c9"
    else if bytes = utf8 (exampleJson "0xc2") then
      textBytes "0x035a0fb4e467dac740ec065bd654ef00efe9dc2813670684cfeed7c7304e0b60"
    else []
  decodeCredentialPublicKey cose :=
    if cose = exampleCose then some ⟨true, some 1, some exampleKey.x, some exampleKey.y⟩ else none
  id _ := some "AQIDBA"
  clientDataJSON _ := utf8 ("\x7b\"type\":\"webauthn.get\",\"challenge\":\"WW00ZU8yazF4bW9zaXJuS" ++
    "VQ4UGRWU0pUQ1F4dWtmV1VtYnpMeDdqX3hjSQ\",\"origin\":\"https://localhost\"\x7d")
  authenticatorData _ :=
    textBytes "0x49960de5880e8c687434170f6476605b8fe4aeb9a28632c7995cf3ba831d97630500000000"
  signature _ := none
  clientChallenge _ := some exampleNonces.2
  registrationShape _ := false
  authenticationShape _ := true
  verifyRegistration _ := none
  verifyAuthentication _ stored := if stored.publicKeyCose = exampleCose then some 0 else none

/-- A passkey is registered and has been asked for an assertion. -/
def exampleConsentState : AuthState Unit :=
  { AuthState.init Unit with
    nonces := fun pool => if pool = .authentication then [(exampleNonces.2, NONCE_TTL_MS)] else []
    credentials := fun subjectKey => if subjectKey = exampleAddress then
      some ⟨.webauthn, .text (toHex exampleKey.x), .text (toHex exampleKey.y)⟩ else none
    credentialsById := fun id => if id = "AQIDBA" then some ⟨exampleCose, 0⟩ else none }

def exampleDigest (checkpointId : String) : String :=
  String.ofList ((exampleConsentDeps.sha256 (utf8 (exampleJson checkpointId))).flatMap byteHex)

theorem exampleDigest_ne : exampleDigest "0xc1" ≠ exampleDigest "0xc2" := by decide +kernel

theorem exampleConsentDeps_ideal (key : P256Key) (m₁ m₂ signature : Bytes)
    (h₁ : exampleConsentDeps.ecdsa key m₁ signature = true)
    (h₂ : exampleConsentDeps.ecdsa key m₂ signature = true) : m₁ = m₂ :=
  (of_decide_eq_true h₁).2.1.trans (of_decide_eq_true h₂).2.1.symm

theorem example_asserts :
    Asserts exampleConsentDeps 1000 exampleAddress () exampleConsentState := by
  refine ⟨toHex exampleKey.x, toHex exampleKey.y, ?_, "AQIDBA", ⟨exampleCose, 0⟩, 0, rfl,
    ⟨rfl, exampleNonces.2, rfl, (exampleNonces.2, NONCE_TTL_MS), rfl, by decide⟩, ?_, ?_⟩
  · simp [exampleConsentState]
  · simp [exampleConsentDeps]
  · simp [ec2Coordinates, exampleConsentDeps]

/-- An assertion made for one checkpoint publishes the claims for another. -/
theorem assertion_consents_to_both :
    claimSetDigest exampleConsentDeps exampleClaimDeps (exampleClaimSet "0xc1") ≠
      claimSetDigest exampleConsentDeps exampleClaimDeps (exampleClaimSet "0xc2") ∧
    Accepts exampleConsentDeps exampleClaimDeps 1000 (exampleClaimSet "0xc1") (.webauthn ())
      exampleAddress 1790000000000 exampleConsentState ∧
    Accepts exampleConsentDeps exampleClaimDeps 1000 (exampleClaimSet "0xc2") (.webauthn ())
      exampleAddress 1790000000000 exampleConsentState := by
  have hdigest : ∀ checkpointId, claimSetDigest exampleConsentDeps exampleClaimDeps
      (exampleClaimSet checkpointId) = .ok (exampleDigest checkpointId) := fun _ => rfl
  refine ⟨?_, (accepts_iff (hdigest _)).2 ⟨rfl, (verify_webauthn_iff ()).2 example_asserts⟩,
    (accepts_iff (hdigest _)).2 ⟨rfl, (verify_webauthn_iff ()).2 example_asserts⟩⟩
  rw [hdigest, hdigest]
  exact fun h => exampleDigest_ne (Except.ok.inj h)

theorem consent_exact_assertion :
    ¬ (Accepts exampleConsentDeps exampleClaimDeps 1000 (exampleClaimSet "0xc1") (.webauthn ())
          exampleAddress 1790000000000 exampleConsentState ∧
        Accepts exampleConsentDeps exampleClaimDeps 1000 (exampleClaimSet "0xc2") (.webauthn ())
          exampleAddress 1790000000000 exampleConsentState) ↔
      BoundTo exampleConsentDeps exampleClaimDeps 1000 (exampleClaimSet "0xc1")
        (exampleClaimSet "0xc2") (.webauthn ()) exampleAddress 1790000000000 exampleConsentState :=
  consent_exact_iff exampleConsentDeps exampleClaimDeps exampleConsentDeps_ideal 1000
    (exampleClaimSet "0xc1") (exampleClaimSet "0xc2") (exampleDigest "0xc1") (exampleDigest "0xc2")
    rfl rfl exampleDigest_ne (.webauthn ()) exampleAddress 1790000000000 exampleConsentState

end Example

end Linvesther.Api
