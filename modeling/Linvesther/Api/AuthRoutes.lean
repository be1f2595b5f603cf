import Linvesther.Api.AuthStores

/-! `vault.ts`, `webauthn.ts` and the sign-in routes of `app.ts`. The libraries they call are
parameters. -/

namespace Linvesther.Api

open ChainWorker Program

/-- A P-256 public key by its coordinates. -/
structure P256Key where
  x : Bytes
  y : Bytes
  x_length : x.length = 32
  y_length : y.length = 32
deriving DecidableEq

/-- A decoded COSE key: whether it is of type EC2, and its curve and coordinates if it has them. -/
structure CoseKey where
  isEC2 : Bool
  crv : Option ℕ
  x : Option Bytes
  y : Option Bytes

structure RegistrationInfo where
  credentialId : String
  credential : WebAuthnCredential

/-- What the API calls: `J` are the JSON values that are not strings, `R` the responses of
authenticators. -/
structure AuthDeps (J R : Type) where
  storage : Storage
  /-- What `slice` and `parseInt` make of a value that is not a string, or `none` if they throw. -/
  sliced : J → Option Bytes
  pgText : J → String
  /-- The bytes that `keccak256(concat([qx, qy]))` hashes, or `none` if viem throws. -/
  concat : Value J → Value J → Option Bytes
  /-- The address in the last 20 bytes of the hash. -/
  getAddress : Bytes → Hex
  importKey : Bytes → Option P256Key
  /-- ECDSA over P-256 with SHA-256. -/
  ecdsa : P256Key → Bytes → Bytes → Bool
  sha256 : Bytes → Bytes
  decodeCredentialPublicKey : Bytes → Option CoseKey
  id : R → Option String
  clientDataJSON : R → Bytes
  authenticatorData : R → Bytes
  /-- The signature of an assertion, or of an attestation statement that has one. -/
  signature : R → Option Bytes
  /-- The challenge that client data names, as text. -/
  clientChallenge : Bytes → Option String
  /-- The checks that come before the library asks about the challenge. -/
  registrationShape : R → Bool
  authenticationShape : R → Bool
  /-- What the library answers once the challenge is accepted, or `none` if it throws or answers
  that the response is not verified. -/
  verifyRegistration : R → Option RegistrationInfo
  verifyAuthentication : R → WebAuthnCredential → Option ℕ

/-- The moment of a request, and the random values drawn for it. -/
structure Moment where
  now : ℕ
  nonce : String
  sid : String
  csrfToken : String
deriving DecidableEq

section Hexadecimal

def hexDigit (n : ℕ) : Char := "0123456789abcdef".toList.getD n '0'

def byteHex (b : UInt8) : List Char := [hexDigit (b.toNat / 16), hexDigit (b.toNat % 16)]

def toHex (bytes : Bytes) : String := "0x" ++ String.ofList (bytes.flatMap byteHex)

def hexValue (c : Char) : Option ℕ :=
  let n := "0123456789abcdef".toList.idxOf c.toLower
  if n < 16 then some n else none

/-- What JavaScript trims. -/
def isWhiteSpace (c : Char) : Bool :=
  c.toNat ∈ [9, 10, 11, 12, 13, 32, 160, 5760, 8232, 8233, 8239, 8287, 12288, 65279] ||
    (8192 ≤ c.toNat && c.toNat ≤ 8202)

/-- `Number.parseInt(_, 16)` of at most two characters: the digits up to the first character that
is none. `NaN` is 0, as a byte array stores it. -/
def parseInt (text : List Char) : ℤ :=
  match text.dropWhile isWhiteSpace with
  | '-' :: rest => -digits 0 rest
  | '+' :: rest => digits 0 rest
  | rest => digits 0 rest
where
  digits (acc : ℤ) : List Char → ℤ
    | [] => acc
    | c :: rest =>
      match hexValue c with
      | some n => digits (16 * acc + n) rest
      | none => acc

/-- Two characters a byte; an odd one at the end is dropped. -/
def pairBytes : List Char → Bytes
  | c :: d :: rest => UInt8.ofNat (parseInt [c, d] % 256).toNat :: pairBytes rest
  | _ => []

/-- `slice(2)` drops two characters, whatever they are. -/
def textBytes (hex : String) : Bytes := pairBytes (hex.toList.drop 2)

theorem parseInt_hexDigit : ∀ i j : Fin 16, parseInt [hexDigit i, hexDigit j] = 16 * i + j := by
  decide

theorem pairBytes_byteHex (b : UInt8) (rest : List Char) :
    pairBytes (byteHex b ++ rest) = b :: pairBytes rest := by
  have hb : b.toNat < 256 := b.toNat_lt
  have hparse := parseInt_hexDigit ⟨b.toNat / 16, by omega⟩ ⟨b.toNat % 16, by omega⟩
  have hvalue : (16 * ((b.toNat / 16 : ℕ) : ℤ) + ((b.toNat % 16 : ℕ) : ℤ)) = b.toNat := by omega
  simp only [byteHex, List.cons_append, List.nil_append, pairBytes]
  rw [hparse, hvalue]
  congr 1
  have : ((b.toNat : ℤ) % 256).toNat = b.toNat := by omega
  rw [this]
  exact UInt8.ofNat_toNat

theorem textBytes_toHex (bytes : Bytes) : textBytes (toHex bytes) = bytes := by
  have hdigits : ((toHex bytes).toList.drop 2) = bytes.flatMap byteHex := by
    simp [toHex]
  rw [textBytes, hdigits]
  induction bytes with
  | nil => rfl
  | cons b bytes ih => rw [List.flatMap_cons, pairBytes_byteHex, ih (by simp [toHex])]

variable {J R : Type} (deps : AuthDeps J R)

def hexToBytes : Value J → Except AuthError Bytes
  | .text hex => .ok (textBytes hex)
  | .other j => match deps.sliced j with
    | some bytes => .ok bytes
    | none => .error .typeError

end Hexadecimal

section Vault

variable {J R : Type} (deps : AuthDeps J R)

/-- `Uint8Array.set` throws if the source does not fit. -/
def setAt (target source : Bytes) (offset : ℕ) : Except AuthError Bytes :=
  if offset + source.length ≤ target.length then
    .ok (target.take offset ++ source ++ target.drop (offset + source.length))
  else .error .rangeError

def rawPublicKey (qx qy : Value J) : Except AuthError Bytes := do
  let raw ← setAt (4 :: List.replicate 64 0) (← hexToBytes deps qx) 1
  setAt raw (← hexToBytes deps qy) 33

/-- The key that a pair of coordinates is imported as. -/
def vaultKey (qx qy : Value J) : Except AuthError P256Key := do
  let raw ← rawPublicKey deps qx qy
  match deps.importKey raw with
  | some key => .ok key
  | none => .error .invalidKey

def utf8 (text : String) : Bytes := text.toUTF8.data.toList

theorem utf8_injective : Function.Injective utf8 := fun _ _ h =>
  String.toByteArray_inj.1 (ByteArray.ext (Array.toList_inj.1 h))

def verifyRawSignature (qx qy : Value J) (message : String) (signature : Value J) :
    Except AuthError Bool := do
  let key ← vaultKey deps qx qy
  let signature ← hexToBytes deps signature
  .ok (deps.ecdsa key (utf8 message) signature)

/-- A raw signature is checked against the key that is imported. -/
theorem verifyRawSignature_ok {deps : AuthDeps J R} {qx qy signature : Value J} {message : String}
    (h : verifyRawSignature deps qx qy message signature = .ok true) :
    ∃ key sig, vaultKey deps qx qy = .ok key ∧ hexToBytes deps signature = .ok sig ∧
      deps.ecdsa key (utf8 message) sig = true := by
  simp only [verifyRawSignature, bind, Except.bind] at h
  cases hkey : vaultKey deps qx qy with
  | error e => simp [hkey] at h
  | ok key =>
    cases hsig : hexToBytes deps signature with
    | error e => simp [hkey, hsig] at h
    | ok sig =>
      simp only [hkey, hsig, Except.ok.injEq] at h
      exact ⟨key, sig, rfl, rfl, h⟩

def lift {α : Type} (x : Except AuthError α) : AuthM J α :=
  match x with
  | .ok a => pure a
  | .error e => throw e

def verifySignature (now : ℕ) (qx qy challenge signature : Value J) : AuthM J Bool := do
  if ← consume .vault now challenge then
    match challenge with
    | .text challenge => lift (verifyRawSignature deps qx qy challenge signature)
    | .other _ => pure false
  else pure false

end Vault

section WebAuthn

variable {J R : Type} (deps : AuthDeps J R)

def ec2Coordinates (publicKeyCose : Bytes) : Except AuthError (Option (String × String)) :=
  match deps.decodeCredentialPublicKey publicKeyCose with
  | none => .error .malformedKey
  | some coseKey =>
    if coseKey.isEC2 then
      match coseKey.x, coseKey.y with
      | some x, some y => .ok (some (toHex x, toHex y))
      | _, _ => .ok none
    else .ok none

/-- The library asks about the challenge that the response names, unless it throws before. -/
def expectedChallenge (pool : Pool) (shape : R → Bool) (now : ℕ) (response : R) : AuthM J Bool :=
  if shape response then
    match deps.clientChallenge (deps.clientDataJSON response) with
    | some challenge => consume pool now (.text challenge)
    | none => pure false
  else pure false

/-- The response names a challenge that waits in the store. -/
def Asks (pool : Pool) (shape : R → Bool) (now : ℕ) (response : R) (s : AuthState J) : Prop :=
  shape response = true ∧
    ∃ challenge ∈ deps.clientChallenge (deps.clientDataJSON response), s.Live pool now challenge

theorem expectedChallenge_eq (pool : Pool) (shape : R → Bool) (now : ℕ) (response : R)
    (s : AuthState J) :
    ∃ b s', expectedChallenge deps pool shape now response s = .ok b s' ∧
      (b = true ↔ Asks deps pool shape now response s) := by
  rw [expectedChallenge, Asks]
  by_cases hshape : shape response
  · rw [if_pos hshape]
    cases hc : deps.clientChallenge (deps.clientDataJSON response) with
    | none => exact ⟨false, s, rfl, by simp⟩
    | some challenge =>
      obtain ⟨s', hs'⟩ := consume_eq pool now challenge s
      exact ⟨_, s', hs', by simp [hshape]⟩
  · rw [if_neg hshape]
    exact ⟨false, s, rfl, by simp [hshape]⟩

def finishRegistration (now : ℕ) (response : R) : AuthM J (Option (String × String)) := do
  if ← expectedChallenge deps .registration deps.registrationShape now response then
    match deps.verifyRegistration response with
    | none => pure none
    | some info =>
      match ← lift (ec2Coordinates deps info.credential.publicKeyCose) with
      | none => pure none
      | some coordinates =>
        saveCredential deps.storage info.credentialId info.credential
        pure (some coordinates)
  else pure none

/-- The passkey that a response names. -/
def storedCredential (response : R) (s : AuthState J) : Option (String × WebAuthnCredential) :=
  (deps.id response).bind fun id => (s.credentialsById id).map (id, ·)

def finishAuthentication (now : ℕ) (response : R) : AuthM J (Option (String × String)) := do
  match storedCredential deps response (← get) with
  | none => pure none
  | some (id, stored) =>
    if ← expectedChallenge deps .authentication deps.authenticationShape now response then
      match deps.verifyAuthentication response stored with
      | none => pure none
      | some newCounter =>
        updateCounter id newCounter
        lift (ec2Coordinates deps stored.publicKeyCose)
    else pure none

end WebAuthn

section Routes

variable {J R : Type} (deps : AuthDeps J R) (m : Moment)

def deriveSubjectKey (qx qy : Value J) : Except AuthError Hex :=
  match deps.concat qx qy with
  | some bytes => .ok (deps.getAddress bytes)
  | none => .error .typeError

structure VaultProof (J : Type) where
  qx : Value J
  qy : Value J
  challenge : Value J
  signature : Value J

/-- The requests of the sign-in routes. A body that is needed and missing is `none`. -/
inductive AuthRequest (J R : Type) where
  | registerOptions
  | registerVerify (response : Option R)
  | loginOptions
  | loginVerify (response : Option R)
  | vaultChallenge
  | vaultVerify (body : Option (VaultProof J))

inductive AuthReply where
  | challenge (challenge : String)
  | signatureInvalid
  | signedIn (sid : String) (session : Session)
deriving DecidableEq

def signIn (subjectKey : Hex) : AuthM J AuthReply := do
  let session ← createSession deps.storage m.now m.sid m.csrfToken subjectKey
  pure (.signedIn m.sid session)

def registerVerify (response : R) : AuthM J AuthReply := do
  match ← finishRegistration deps m.now response with
  | none => pure .signatureInvalid
  | some (qx, qy) =>
    let subjectKey ← lift (deriveSubjectKey deps (.text qx) (.text qy))
    registerCredential deps.storage deps.pgText subjectKey (.text qx) (.text qy) .webauthn
    signIn deps m subjectKey

def loginVerify (response : R) : AuthM J AuthReply := do
  match ← finishAuthentication deps m.now response with
  | none => pure .signatureInvalid
  | some (qx, qy) =>
    let subjectKey ← lift (deriveSubjectKey deps (.text qx) (.text qy))
    signIn deps m subjectKey

def vaultVerify (body : VaultProof J) : AuthM J AuthReply := do
  if ← verifySignature deps m.now body.qx body.qy body.challenge body.signature then
    let subjectKey ← lift (deriveSubjectKey deps body.qx body.qy)
    if ((← get).credentials subjectKey).isNone then
      registerCredential deps.storage deps.pgText subjectKey body.qx body.qy .vault
    signIn deps m subjectKey
  else pure .signatureInvalid

def AuthRequest.handle : AuthRequest J R → AuthM J AuthReply
  | .registerOptions => do pure (.challenge (← issue deps.storage .registration m.now m.nonce))
  | .registerVerify (some response) => Api.registerVerify deps m response
  | .loginOptions => do pure (.challenge (← issue deps.storage .authentication m.now m.nonce))
  | .loginVerify (some response) => Api.loginVerify deps m response
  | .vaultChallenge => do pure (.challenge (← issue deps.storage .vault m.now m.nonce))
  | .vaultVerify (some body) => Api.vaultVerify deps m body
  | .registerVerify none | .loginVerify none | .vaultVerify none => throw .typeError

end Routes

section Example

/-- The key whose private half is 1. -/
def exampleKey : P256Key where
  x := textBytes "0x6b17d1f2e12c4247f8bce6e563a440f277037d812deb33a0f4a13945d898c296"
  y := textBytes "0x4fe342e2fe1a7f9b8ee7eb4a7c0f9e162bce33576b315ececbb6406837bf51f5"
  x_length := by decide
  y_length := by decide

def exampleAddress : Hex := ⟨"0xD3A9F047ad43D7E2e4e7e491f1fE2E657A2651b6", by decide⟩

def zeroAddress : Hex := ⟨"0x0000000000000000000000000000000000000000", by decide⟩

def exampleCose : Bytes :=
  [0xa5, 1, 2, 3, 0x26, 0x20, 1, 0x21, 0x58, 0x20] ++ exampleKey.x ++ [0x22, 0x58, 0x20] ++
    exampleKey.y

def exampleNonces : String × String :=
  ("eDd7UldXtJRCf4kBT5fXmSjzk40U61HiD7XeyYNOswQ", "Ym4eO2k1xmosirnIT8PdVSJTCQxukfWUmbzLx7j_xcI")

def exampleSignature : String :=
  "0x8e533b6fa0bf7b4625bb30667c01fb607ef9f8b8a80fef5b300628703187b2a3" ++
    "a9d7524935e0372ee76016c9051a32b64d670ac779ea42f41b6bd6c242ba7650"

end Example

end Linvesther.Api
