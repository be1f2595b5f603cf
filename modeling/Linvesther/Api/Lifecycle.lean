import Linvesther.ChainWorker.RelayFlow

/-! `chainLifecycle.ts` and the write routes of `routes.ts`: the begin halves of the commands check
who is asking, the finish halves relay a signed challenge that the client sends back. -/

namespace Linvesther.Api

open ChainWorker

structure Credential where
  method : CredentialMethod
  qx : Hex
  qy : Hex
deriving DecidableEq

structure Identity where
  identityId : Hex
  owner : Hex
  pendingOwner : Option Hex
  ownerEpoch : ℕ
  state : IdentityState
  createdAtBlock : ℕ
deriving DecidableEq

structure Account where
  accountId : Hex
  trackId : Hex
  venueId : Hex
  state : AccountRegistry.AccountState
deriving DecidableEq

/-- The rows of the projection that the routes read, by their primary keys. -/
structure Projected where
  identities : List Identity
  accounts : List Account
  identities_nodup : (identities.map (·.identityId)).Nodup

/-- What the routes see: the projection, the identity a track has on chain, the factory's prediction
of an account's address, and the registered credentials. -/
structure View where
  projection : Projected
  tracks : Hex → Hex
  predicted : CredentialMethod → Hex → Hex → Hex
  credentials : Hex → Option Credential
  profileRegistry : Option Hex

structure OnChainProfile where
  name : String
  bio : String
  updatedAt : ℕ
deriving DecidableEq

/-- What is read back once a command has been mined. -/
structure Later where
  projection : Projected
  profile : OnChainProfile

inductive LifecycleCode where
  | notFound | forbidden | invalidState
deriving DecidableEq

inductive HandlerError where
  | unauthenticated
  | profilesNotEnabled
  | lifecycle (code : LifecycleCode) (message : String)
  | unsupportedConfirmationMethod
  | relay (e : RelayError)
  | notReadBack (message : String)
deriving DecidableEq

namespace Projected

def getIdentity (p : Projected) (identityId : Hex) : Option Identity :=
  p.identities.find? (·.identityId = identityId)

def getIdentityByOwner (p : Projected) (owner : Hex) : Option Identity :=
  ((p.identities.filter fun i => i.owner.toLowerCase = owner.toLowerCase).argmin
    (·.createdAtBlock)).bind fun i => p.getIdentity i.identityId

def getAccount (p : Projected) (accountId : Hex) : Option Account :=
  p.accounts.find? (·.accountId = accountId)

end Projected

section Checks

variable (w : View)

def requireCredential (subjectKey : Hex) : Except HandlerError Credential :=
  match w.credentials subjectKey with
  | some credential => .ok credential
  | none => .error (.lifecycle .notFound s!"no credential registered for {subjectKey.text}")

def predictedAccountAddress (credential : Credential) : Hex :=
  w.predicted credential.method credential.qx credential.qy

/-- The check of `beginCreateTrack`. -/
def requireIdentityOwner (identityId subjectKey : Hex) : Except HandlerError Credential := do
  let credential ← requireCredential w subjectKey
  match w.projection.getIdentity identityId with
  | none => .error (.lifecycle .notFound s!"identity {identityId.text} does not exist")
  | some identity =>
    if (predictedAccountAddress w credential).toLowerCase ≠ identity.owner.toLowerCase then
      .error (.lifecycle .forbidden
        s!"{subjectKey.text} does not own identity {identityId.text}")
    else .ok credential

/-- The check of `beginConfirmIdentity`. -/
def requirePendingOwner (identityId subjectKey : Hex) : Except HandlerError Hex := do
  let credential ← requireCredential w subjectKey
  match w.projection.getIdentity identityId with
  | none => .error (.lifecycle .notFound s!"identity {identityId.text} does not exist")
  | some identity =>
    match identity.pendingOwner with
    | none => .error (.lifecycle .invalidState
        s!"identity {identityId.text} has no pending rotation to confirm")
    | some pendingOwner =>
      if (predictedAccountAddress w credential).toLowerCase ≠ pendingOwner.toLowerCase then
        .error (.lifecycle .forbidden
          s!"{subjectKey.text} does not control the pending owner of identity {identityId.text}")
      else .ok pendingOwner

/-- The check of `beginRegisterAccount`. -/
def requireTrackIdentityOwner (trackId subjectKey : Hex) : Except HandlerError Credential := do
  let credential ← requireCredential w subjectKey
  match w.projection.getIdentity (w.tracks trackId) with
  | none => .error (.lifecycle .notFound
      s!"track {trackId.text} does not belong to a known identity")
  | some identity =>
    if (predictedAccountAddress w credential).toLowerCase ≠ identity.owner.toLowerCase then
      .error (.lifecycle .forbidden
        s!"{subjectKey.text} does not own the identity behind track {trackId.text}")
    else .ok credential

/-- The check of `beginActivateAccount` and `beginRemoveAccount`. -/
def requireAccountIdentityOwner (accountId subjectKey : Hex) :
    Except HandlerError (Credential × Account) := do
  let credential ← requireCredential w subjectKey
  match w.projection.getAccount accountId with
  | none => .error (.lifecycle .notFound s!"account {accountId.text} does not exist")
  | some account =>
    match w.projection.getIdentity (w.tracks account.trackId) with
    | none => .error (.lifecycle .notFound
        s!"account {accountId.text}'s track does not belong to a known identity")
    | some identity =>
      if (predictedAccountAddress w credential).toLowerCase ≠
          identity.owner.toLowerCase then
        .error (.lifecycle .forbidden
          s!"{subjectKey.text} does not own the identity behind account {accountId.text}")
      else .ok (credential, account)

def findMyIdentity (subjectKey : Hex) : Option Identity :=
  (w.credentials subjectKey).bind fun credential =>
    w.projection.getIdentityByOwner (predictedAccountAddress w credential)

def findOwnedIdentity (subjectKey : Hex) : Option Identity :=
  (findMyIdentity w subjectKey).filter (·.state = .active)

end Checks

section Handlers

variable {D : Type} (deps : RelayFlowDeps D) (answers : ℕ → Answers (World.Event Hex Hex))
  (w : View) (later : Later)

abbrev Handler (D α : Type) := EStateM HandlerError (RelayState D (List Command)) α

def relaying {α : Type} (flow : Flow D α) : Handler D α := flow.adaptExcept .relay

/-- The only checks of the finish halves of the lifecycle routes. -/
def requireVault (subjectKey : Hex) : Handler D Credential :=
  match requireCredential w subjectKey with
  | .error e => throw e
  | .ok credential =>
    if credential.method ≠ .vault then throw .unsupportedConfirmationMethod else pure credential

/-- `resyncUntil`: the resynced projection shows what is waited for, or never does. -/
def readBack {α : Type} (found : Option α) (message : String) : Handler D α :=
  match found with
  | some a => pure a
  | none => throw (.notReadBack message)

def confirmIdentity (subjectKey : Hex) (challenge : ConfirmOwnerRotationChallenge)
    (signature : Hex) : Handler D Identity := do
  let _ ← requireVault w subjectKey
  let _ ← relaying (confirmIdentityCreation deps answers challenge signature)
  readBack ((later.projection.getIdentity challenge.identityId).filter (·.state = .active))
    s!"identity {challenge.identityId.text} not found in projection immediately after confirmation"

def createTrack (subjectKey : Hex) (challenge : CreateTrackChallenge) (signature : Hex) :
    Handler D Hex := do
  let _ ← requireVault w subjectKey
  relaying (ChainWorker.createTrack deps answers challenge signature)

def registerAccount (subjectKey : Hex) (challenge : RegisterAccountChallenge) (signature : Hex) :
    Handler D Account := do
  let _ ← requireVault w subjectKey
  let accountId ← relaying (ChainWorker.registerAccount deps answers challenge signature)
  readBack (later.projection.getAccount accountId)
    s!"account {accountId.text} not found in projection immediately after registration"

def activateAccount (subjectKey : Hex) (challenge : ActivateAccountChallenge) (signature : Hex) :
    Handler D Account := do
  let _ ← requireVault w subjectKey
  let _ ← relaying (ChainWorker.activateAccount deps answers challenge signature)
  readBack ((later.projection.getAccount challenge.accountId).filter (·.state = .active))
    s!"account {challenge.accountId.text} not found in projection immediately after activation"

def removeAccount (subjectKey : Hex) (challenge : RemoveAccountChallenge) (signature : Hex) :
    Handler D Account := do
  let _ ← requireVault w subjectKey
  let _ ← relaying (ChainWorker.removeAccount deps answers challenge signature)
  readBack ((later.projection.getAccount challenge.accountId).filter (·.state = .removed))
    s!"account {challenge.accountId.text} not found in projection immediately after removal"

/-- The check of `setIdentityProfile`, which the other finish halves lack. -/
def requireOwnProfile (registry subjectKey : Hex) (challenge : SetProfileChallenge) :
    Handler D Identity :=
  match findOwnedIdentity w subjectKey with
  | none => throw (.lifecycle .forbidden "this profile change is not for your identity")
  | some identity =>
    if challenge.identityId ≠ identity.identityId ∨
        challenge.verifyingContract.toLowerCase ≠ registry.toLowerCase then
      throw (.lifecycle .forbidden "this profile change is not for your identity")
    else pure identity

def setIdentityProfile (subjectKey : Hex) (challenge : SetProfileChallenge) (signature : Hex) :
    Handler D OnChainProfile :=
  match w.profileRegistry with
  | none => throw (.lifecycle .invalidState "profiles are not enabled on this deployment")
  | some registry => do
    let _ ← requireVault w subjectKey
    let _ ← requireOwnProfile w registry subjectKey challenge
    let _ ← relaying (setProfile deps answers challenge signature)
    pure later.profile

/-- A request of a write route: the id in its path, which no route looks at, and its body. -/
inductive WriteRequest where
  | confirm (identityId : Hex) (challenge : ConfirmOwnerRotationChallenge) (signature : Hex)
  | createTrack (identityId : Hex) (challenge : CreateTrackChallenge) (signature : Hex)
  | registerAccount (trackId : Hex) (challenge : RegisterAccountChallenge) (signature : Hex)
  | activateAccount (accountId : Hex) (challenge : ActivateAccountChallenge) (signature : Hex)
  | removeAccount (accountId : Hex) (challenge : RemoveAccountChallenge) (signature : Hex)
  | profile (challenge : SetProfileChallenge) (signature : Hex)

/-- The routes, for the address of the session the request comes with. -/
def WriteRequest.handle (session : Option Hex) (request : WriteRequest) : Handler D Unit :=
  match session with
  | none => throw .unauthenticated
  | some address =>
    match request with
    | .confirm _ c signature => discard (Api.confirmIdentity deps answers w later address c signature)
    | .createTrack _ c signature => discard (Api.createTrack deps answers w address c signature)
    | .registerAccount _ c signature =>
      discard (Api.registerAccount deps answers w later address c signature)
    | .activateAccount _ c signature =>
      discard (Api.activateAccount deps answers w later address c signature)
    | .removeAccount _ c signature =>
      discard (Api.removeAccount deps answers w later address c signature)
    | .profile c signature =>
      if w.profileRegistry = none then throw .profilesNotEnabled
      else discard (Api.setIdentityProfile deps answers w later address c signature)

end Handlers

end Linvesther.Api
