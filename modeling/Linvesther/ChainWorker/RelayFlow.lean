import Linvesther.ChainWorker.PostgresProjectionStore
import Linvesther.ChainWorker.Relayer

/-! `relayFlow.ts`, `accountFlow.ts` and `profileFlow.ts`: the commands relayed for a user, each with
the key it is relayed under. Of a challenge only the `message` is relayed, and of a profile's the
contract it names. -/

namespace Linvesther.ChainWorker

structure ProposeOwnerRotation where
  identityId : Hex
  newOwner : Hex
  ownerEpoch : ℤ
  nonce : ℤ
  deadline : ℤ

@[ext] structure ConfirmOwnerRotationChallenge where
  identityId : Hex
  newOwner : Hex
  ownerEpoch : ℤ
  nonce : ℤ
  deadline : ℤ
deriving DecidableEq

@[ext] structure CreateTrackChallenge where
  identityId : Hex
  financialProfileId : Hex
  denominationCommitment : Hex
  ownerEpoch : ℤ
  nonce : ℤ
  deadline : ℤ
deriving DecidableEq

@[ext] structure RegisterAccountChallenge where
  trackId : Hex
  venueId : Hex
  authenticatedIdCommitment : Hex
  environment : ℤ
  ownerEpoch : ℤ
  nonce : ℤ
  deadline : ℤ
deriving DecidableEq

@[ext] structure ActivateAccountChallenge where
  accountId : Hex
  eligibleFrom : ℤ
  reasonHash : Hex
  ownerEpoch : ℤ
  nonce : ℤ
  deadline : ℤ
deriving DecidableEq

@[ext] structure RemoveAccountChallenge where
  accountId : Hex
  reasonHash : Hex
  ownerEpoch : ℤ
  nonce : ℤ
  deadline : ℤ
deriving DecidableEq

@[ext] structure SetProfileChallenge where
  verifyingContract : Hex
  identityId : Hex
  name : String
  bio : String
  nonce : ℤ
  deadline : ℤ
deriving DecidableEq

/-- What `encodeFunctionData` is given: a function of one of the contracts and its arguments. -/
inductive FunctionCall where
  | deployWebAuthnAccount (qx qy : Hex)
  | deployP256VaultAccount (qx qy : Hex)
  | createIdentity (identityType : ℤ)
  | proposeOwnerRotation (identityId newOwner : Hex) (ownerEpoch nonce deadline : ℤ)
      (signature : Hex)
  | confirmOwnerRotation (identityId newOwner : Hex) (ownerEpoch nonce deadline : ℤ)
      (signature : Hex)
  | createTrack (identityId financialProfileId denominationCommitment : Hex)
      (ownerEpoch nonce deadline : ℤ) (signature : Hex)
  | registerAccount (trackId venueId authenticatedIdCommitment : Hex)
      (environment ownerEpoch nonce deadline : ℤ) (signature : Hex)
  | activateAccount (accountId : Hex) (eligibleFrom : ℤ) (reasonHash : Hex)
      (ownerEpoch nonce deadline : ℤ) (signature : Hex)
  | removeAccount (accountId reasonHash : Hex) (ownerEpoch nonce deadline : ℤ) (signature : Hex)
  | setProfile (identityId : Hex) (name bio : String) (nonce deadline : ℤ) (signature : Hex)
deriving DecidableEq

structure RelayFlowDeps (D : Type) where
  identityRegistry : Hex
  accountFactory : Hex
  accountRegistry : Hex
  minBalanceWei : ℕ
  /-- Throws on arguments that do not have the ABI's types. -/
  encodeFunctionData : FunctionCall → Option D
  /-- The relayer's own signature, for a chain id. -/
  signTypedData : ℕ → ProposeOwnerRotation → Hex

/-- One use of the relayer in the flows. -/
inductive Command where
  | deploy (method : CredentialMethod) (qx qy : Hex)
  | create (method : CredentialMethod) (qx qy : Hex)
  | propose (identityId accountAddress : Hex) (deadline : ℤ) (signature : Hex)
  | confirm (challenge : ConfirmOwnerRotationChallenge) (signature : Hex)
  | createTrack (challenge : CreateTrackChallenge) (signature : Hex)
  | registerAccount (challenge : RegisterAccountChallenge) (signature : Hex)
  | activateAccount (challenge : ActivateAccountChallenge) (signature : Hex)
  | removeAccount (challenge : RemoveAccountChallenge) (signature : Hex)
  | setProfile (challenge : SetProfileChallenge) (signature : Hex)
deriving DecidableEq

def CredentialMethod.text : CredentialMethod → String
  | .webauthn => "webauthn"
  | .vault => "vault"

/-- What the template of the key puts between its colons. -/
def Command.keyParts : Command → List String
  | .deploy method qx qy => ["deploy", method.text, qx.text, qy.text]
  | .create method qx qy => ["create", method.text, qx.text, qy.text]
  | .propose identityId _ _ _ => ["propose", identityId.text]
  | .confirm c _ => ["confirm", c.identityId.text]
  | .createTrack c _ => ["createTrack", c.identityId.text, toString c.nonce]
  | .registerAccount c _ => ["registerAccount", c.trackId.text, toString c.nonce]
  | .activateAccount c _ => ["activateAccount", c.accountId.text, toString c.nonce]
  | .removeAccount c _ => ["removeAccount", c.accountId.text, toString c.nonce]
  | .setProfile c signature =>
    ["setProfile", c.identityId.text, toString c.nonce, signature.text]

def Command.dedupKey (c : Command) : String := ":".intercalate c.keyParts

def Command.call : Command → FunctionCall
  | .deploy .webauthn qx qy => .deployWebAuthnAccount qx qy
  | .deploy .vault qx qy => .deployP256VaultAccount qx qy
  | .create _ _ _ => .createIdentity 0
  | .propose identityId accountAddress deadline signature =>
    .proposeOwnerRotation identityId accountAddress 0 0 deadline signature
  | .confirm c signature =>
    .confirmOwnerRotation c.identityId c.newOwner c.ownerEpoch c.nonce c.deadline signature
  | .createTrack c signature =>
    .createTrack c.identityId c.financialProfileId c.denominationCommitment c.ownerEpoch c.nonce
      c.deadline signature
  | .registerAccount c signature =>
    .registerAccount c.trackId c.venueId c.authenticatedIdCommitment c.environment c.ownerEpoch
      c.nonce c.deadline signature
  | .activateAccount c signature =>
    .activateAccount c.accountId c.eligibleFrom c.reasonHash c.ownerEpoch c.nonce c.deadline signature
  | .removeAccount c signature =>
    .removeAccount c.accountId c.reasonHash c.ownerEpoch c.nonce c.deadline signature
  | .setProfile c signature =>
    .setProfile c.identityId c.name c.bio c.nonce c.deadline signature

section Flows

variable {D : Type} (deps : RelayFlowDeps D)

def Command.to_ : Command → Hex
  | .deploy .. => deps.accountFactory
  | .create .. | .propose .. | .confirm .. | .createTrack .. => deps.identityRegistry
  | .registerAccount .. | .activateAccount .. | .removeAccount .. => deps.accountRegistry
  | .setProfile c _ => c.verifyingContract

def Command.request (c : Command) : Option (RelayRequest D) :=
  (deps.encodeFunctionData c.call).map fun data => ⟨c.dedupKey, c.to_ deps, data⟩

/-- The flows with the relayer: the state keeps the commands relayed so far, in order. -/
abbrev Flow (D α : Type) := EStateM RelayError (RelayState D (List Command)) α

variable (answers : ℕ → Answers (World.Event Hex Hex))

def relayCommand (c : Command) : Flow D Hex :=
  match c.request deps with
  | none => throw .encoding
  | some request => do
    modify fun s => { s with log := s.log ++ [c] }
    relay answers deps.minBalanceWei request

/-- Ten minutes from now. -/
def nowDeadline : Flow D ℤ := do
  let a ← nextAnswers answers
  pure (a.now + 600)

def ensureAccountDeployed (method : CredentialMethod) (qx qy : Hex) : Flow D Hex := do
  let predicted ← ask answers fun a => a.predicted method qx qy
  let deployed ← ask answers fun a => a.deployed predicted
  if deployed then pure predicted
  else do
    let deployTxHash ← relayCommand deps answers (.deploy method qx qy)
    let _ ← waitForSuccessfulReceipt answers deployTxHash
    pure predicted

/-- The first event of a receipt that `read` finds what it looks for in. -/
def findEvent {α : Type} (events : List (World.Event Hex Hex))
    (read : DomainEvent Hex Hex → Option α) : Flow D α :=
  match (events.filterMap decodeDomainEvent).findSome? read with
  | some a => pure a
  | none => throw .missingEvent

def identityCreated : DomainEvent Hex Hex → Option Hex
  | .identityCreated identityId _ _ _ => some identityId
  | _ => none

def trackCreated : DomainEvent Hex Hex → Option Hex
  | .trackCreated _ trackId _ _ => some trackId
  | _ => none

def accountRegistered : DomainEvent Hex Hex → Option Hex
  | .accountRegistered _ accountId _ _ _ => some accountId
  | _ => none

def startIdentityCreation (qx qy : Hex) (method : CredentialMethod) : Flow D (Hex × Hex) := do
  let accountAddress ← ensureAccountDeployed deps answers method qx qy
  let createTxHash ← relayCommand deps answers (.create method qx qy)
  let events ← waitForSuccessfulReceipt answers createTxHash
  let identityId ← findEvent events identityCreated
  let deadline ← nowDeadline answers
  let chainId ← ask answers (·.chainId)
  let proposeSignature := deps.signTypedData chainId
    { identityId, newOwner := accountAddress, ownerEpoch := 0, nonce := 0, deadline }
  let proposeTxHash ← relayCommand deps answers
    (.propose identityId accountAddress deadline proposeSignature)
  let _ ← waitForSuccessfulReceipt answers proposeTxHash
  pure (identityId, accountAddress)

/-- Relaying a signed command and waiting for its receipt: the whole of `confirmIdentityCreation`,
`activateAccount`, `removeAccount` and `setProfile`. -/
def relayAndWait (c : Command) : Flow D Hex := do
  let txHash ← relayCommand deps answers c
  let _ ← waitForSuccessfulReceipt answers txHash
  pure txHash

def confirmIdentityCreation (challenge : ConfirmOwnerRotationChallenge) (signature : Hex) :
    Flow D Hex :=
  relayAndWait deps answers (.confirm challenge signature)

/-- Relaying a signed command whose receipt names what it created: `createTrack` and
`registerAccount`. -/
def relayAndFind (c : Command) (read : DomainEvent Hex Hex → Option Hex) : Flow D Hex := do
  let txHash ← relayCommand deps answers c
  let events ← waitForSuccessfulReceipt answers txHash
  findEvent events read

def createTrack (challenge : CreateTrackChallenge) (signature : Hex) : Flow D Hex :=
  relayAndFind deps answers (.createTrack challenge signature) trackCreated

def registerAccount (challenge : RegisterAccountChallenge) (signature : Hex) : Flow D Hex :=
  relayAndFind deps answers (.registerAccount challenge signature) accountRegistered

def activateAccount (challenge : ActivateAccountChallenge) (signature : Hex) : Flow D Hex :=
  relayAndWait deps answers (.activateAccount challenge signature)

def removeAccount (challenge : RemoveAccountChallenge) (signature : Hex) : Flow D Hex :=
  relayAndWait deps answers (.removeAccount challenge signature)

def setProfile (challenge : SetProfileChallenge) (signature : Hex) : Flow D Hex :=
  relayAndWait deps answers (.setProfile challenge signature)

/-- A call of a flow, by whichever session. -/
inductive FlowCall where
  | startIdentityCreation (qx qy : Hex) (method : CredentialMethod)
  | confirmIdentityCreation (challenge : ConfirmOwnerRotationChallenge) (signature : Hex)
  | createTrack (challenge : CreateTrackChallenge) (signature : Hex)
  | registerAccount (challenge : RegisterAccountChallenge) (signature : Hex)
  | activateAccount (challenge : ActivateAccountChallenge) (signature : Hex)
  | removeAccount (challenge : RemoveAccountChallenge) (signature : Hex)
  | setProfile (challenge : SetProfileChallenge) (signature : Hex)

def FlowCall.exec : FlowCall → Flow D Unit
  | .startIdentityCreation qx qy method =>
    discard (ChainWorker.startIdentityCreation deps answers qx qy method)
  | .confirmIdentityCreation c signature =>
    discard (ChainWorker.confirmIdentityCreation deps answers c signature)
  | .createTrack c signature => discard (ChainWorker.createTrack deps answers c signature)
  | .registerAccount c signature => discard (ChainWorker.registerAccount deps answers c signature)
  | .activateAccount c signature => discard (ChainWorker.activateAccount deps answers c signature)
  | .removeAccount c signature => discard (ChainWorker.removeAccount deps answers c signature)
  | .setProfile c signature => discard (ChainWorker.setProfile deps answers c signature)

/-- A call with the answers of the node while it runs. -/
structure FlowStep where
  call : FlowCall
  answers : ℕ → Answers (World.Event Hex Hex)

def RelayState.init : RelayState D (List Command) := ⟨fun _ => none, [], [], 0⟩

def FlowStep.run (step : FlowStep) (s : RelayState D (List Command)) :
    EStateM.Result RelayError (RelayState D (List Command)) Unit :=
  step.call.exec deps step.answers { s with clock := 0 }

/-- The state after some calls, whether they returned or threw. -/
def runFlows (steps : List FlowStep) (s : RelayState D (List Command)) :
    RelayState D (List Command) :=
  steps.foldl (fun s step => Program.final (step.run deps s)) s

end Flows

section Example

/-- The registries 0x1, 0x2 and 0x3, and calldata that is the call itself. -/
def exampleDeps : RelayFlowDeps FunctionCall where
  identityRegistry := ⟨"0x1", by decide⟩
  accountFactory := ⟨"0x2", by decide⟩
  accountRegistry := ⟨"0x3", by decide⟩
  minBalanceWei := 0
  encodeFunctionData := some
  signTypedData _ _ := ⟨"0x5e1f", by decide⟩

def exampleIdentityId : Hex := ⟨"0x7", by decide⟩

def revertedHash : Hex := ⟨"0xbad", by decide⟩

/-- A node that mines what it is sent, under the given hash, and reverts the transaction 0xbad. -/
def exampleAnswers (txHash : Hex) : Answers (World.Event Hex Hex) where
  up := true
  knows _ := true
  balance := 1
  pendingNonce := 0
  txHash := txHash
  reverted h := h = revertedHash
  events _ := [.identity (.identityCreated exampleIdentityId ⟨"0x9", by decide⟩ .person 0)]
  predicted _ qx _ := qx
  deployed _ := false
  chainId := 1
  now := 100

end Example

end Linvesther.ChainWorker
