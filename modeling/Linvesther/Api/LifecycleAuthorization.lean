import Linvesther.Api.Lifecycle

/-! Who a write route broadcasts for: the begin halves check that the session owns what the challenge
names, and the finish halves, but for the profile's, only that it has a vault credential. -/

namespace Linvesther.Api

open ChainWorker Program

section Ownership

variable {w : View} {subjectKey : Hex}

/-- The identity's owner is the account predicted from the credential of the session's address. -/
def OwnedBy (w : View) (subjectKey identityId : Hex) : Prop :=
  ∃ credential ∈ w.credentials subjectKey, ∃ identity ∈ w.projection.getIdentity identityId,
    (predictedAccountAddress w credential).toLowerCase = identity.owner.toLowerCase

def PendingOwnedBy (w : View) (subjectKey identityId : Hex) : Prop :=
  ∃ credential ∈ w.credentials subjectKey, ∃ identity ∈ w.projection.getIdentity identityId,
    ∃ pendingOwner ∈ identity.pendingOwner,
      (predictedAccountAddress w credential).toLowerCase = pendingOwner.toLowerCase

/-- The identity behind the account's track is owned. -/
def AccountOwnedBy (w : View) (subjectKey accountId : Hex) : Prop :=
  ∃ account ∈ w.projection.getAccount accountId,
    OwnedBy w subjectKey (w.tracks account.trackId)

instance (w : View) (subjectKey identityId : Hex) : Decidable (OwnedBy w subjectKey identityId) :=
  inferInstanceAs (Decidable (∃ credential ∈ w.credentials subjectKey,
    ∃ identity ∈ w.projection.getIdentity identityId,
      (predictedAccountAddress w credential).toLowerCase = identity.owner.toLowerCase))

instance (w : View) (subjectKey identityId : Hex) :
    Decidable (PendingOwnedBy w subjectKey identityId) :=
  inferInstanceAs (Decidable (∃ credential ∈ w.credentials subjectKey,
    ∃ identity ∈ w.projection.getIdentity identityId, ∃ pendingOwner ∈ identity.pendingOwner,
      (predictedAccountAddress w credential).toLowerCase = pendingOwner.toLowerCase))

instance (w : View) (subjectKey accountId : Hex) :
    Decidable (AccountOwnedBy w subjectKey accountId) :=
  inferInstanceAs (Decidable (∃ account ∈ w.projection.getAccount accountId,
    OwnedBy w subjectKey (w.tracks account.trackId)))

/-- An address check at the end of a check. -/
theorem ite_forbidden_ok {α : Type} {a b : String} {e : HandlerError} {r : α} :
    (∃ x, (if a ≠ b then .error e else .ok r : Except HandlerError α) = .ok x) ↔ a = b := by
  by_cases h : a = b <;> simp [h]

theorem requireIdentityOwner_ok {identityId : Hex} :
    (∃ credential, requireIdentityOwner w identityId subjectKey = .ok credential) ↔
      OwnedBy w subjectKey identityId := by
  rw [requireIdentityOwner, requireCredential, OwnedBy]
  cases w.credentials subjectKey with
  | none => simp [bind, Except.bind]
  | some credential =>
    cases w.projection.getIdentity identityId with
    | none => simp [bind, Except.bind]
    | some identity => exact ite_forbidden_ok.trans (by simp)

theorem requirePendingOwner_ok {identityId : Hex} :
    (∃ pendingOwner, requirePendingOwner w identityId subjectKey = .ok pendingOwner) ↔
      PendingOwnedBy w subjectKey identityId := by
  rw [requirePendingOwner, requireCredential, PendingOwnedBy]
  cases w.credentials subjectKey with
  | none => simp [bind, Except.bind]
  | some credential =>
    cases w.projection.getIdentity identityId with
    | none => simp [bind, Except.bind]
    | some identity =>
      cases hpending : identity.pendingOwner with
      | none => simp [bind, Except.bind, hpending]
      | some pendingOwner =>
        simp only [bind, Except.bind, hpending]
        exact ite_forbidden_ok.trans (by simp [hpending])

theorem requireTrackIdentityOwner_ok {trackId : Hex} :
    (∃ credential, requireTrackIdentityOwner w trackId subjectKey = .ok credential) ↔
      OwnedBy w subjectKey (w.tracks trackId) := by
  rw [requireTrackIdentityOwner, requireCredential, OwnedBy]
  cases w.credentials subjectKey with
  | none => simp [bind, Except.bind]
  | some credential =>
    cases w.projection.getIdentity (w.tracks trackId) with
    | none => simp [bind, Except.bind]
    | some identity => exact ite_forbidden_ok.trans (by simp)

theorem requireAccountIdentityOwner_ok {accountId : Hex} :
    (∃ r, requireAccountIdentityOwner w accountId subjectKey = .ok r) ↔
      AccountOwnedBy w subjectKey accountId := by
  rw [requireAccountIdentityOwner, requireCredential, AccountOwnedBy]
  simp only [OwnedBy]
  cases w.credentials subjectKey with
  | none => simp [bind, Except.bind]
  | some credential =>
    cases w.projection.getAccount accountId with
    | none => simp [bind, Except.bind]
    | some account =>
      cases hidentity : w.projection.getIdentity (w.tracks account.trackId) with
      | none => simp [bind, Except.bind, hidentity]
      | some identity =>
        simp only [bind, Except.bind, hidentity]
        exact ite_forbidden_ok.trans (by simp [hidentity])

/-- With the primary key, an identity found by its owner is the one found by its id. -/
theorem Projected.getIdentityByOwner_owner {p : Projected} {owner : Hex} {identity : Identity}
    (h : p.getIdentityByOwner owner = some identity) :
    identity.owner.toLowerCase = owner.toLowerCase ∧
      p.getIdentity identity.identityId = some identity := by
  obtain ⟨found, hfound, hget⟩ := Option.bind_eq_some_iff.1 h
  obtain ⟨hmem, howner⟩ := List.mem_filter.1 (List.argmin_mem hfound)
  have hidentity : identity ∈ p.identities := List.mem_of_find?_eq_some hget
  have hid : identity.identityId = found.identityId := by simpa using List.find?_some hget
  obtain rfl : identity = found :=
    List.inj_on_of_nodup_map p.identities_nodup hidentity hmem hid
  exact ⟨by simpa using howner, hget⟩

theorem findOwnedIdentity_owned {identity : Identity}
    (h : findOwnedIdentity w subjectKey = some identity) :
    OwnedBy w subjectKey identity.identityId := by
  obtain ⟨hfound, -⟩ := Option.filter_eq_some_iff.1 h
  obtain ⟨credential, hcredential, hbyOwner⟩ := Option.bind_eq_some_iff.1 hfound
  obtain ⟨howner, hget⟩ := Projected.getIdentityByOwner_owner hbyOwner
  exact ⟨credential, hcredential, identity, hget, howner.symm⟩

end Ownership

section Broadcasts

variable {D : Type} {deps : RelayFlowDeps D} {answers : ℕ → Answers (World.Event Hex Hex)}
  {w : View} {later : Later} {session : Option Hex} {subjectKey : Hex}
  {s : RelayState D (List Command)}

/-- The relayer sends a command: it can be encoded, no transaction the node knows is recorded under
its key, and the node takes it. -/
def Sends (deps : RelayFlowDeps D) (answers : ℕ → Answers (World.Event Hex Hex))
    (s : RelayState D (List Command)) (c : Command) : Prop :=
  (deps.encodeFunctionData c.call).isSome = true ∧ ¬ Recorded answers s c.dedupKey ∧
    Takes answers deps.minBalanceWei
      (if (s.records c.dedupKey).isSome then s.clock + 1 else s.clock)

instance (deps : RelayFlowDeps D) (answers : ℕ → Answers (World.Event Hex Hex))
    (s : RelayState D (List Command)) (c : Command) : Decidable (Sends deps answers s c) :=
  inferInstanceAs (Decidable (_ ∧ _))

theorem relayCommand_sent_ne (c : Command) (s : RelayState D (List Command)) :
    (final (relayCommand deps answers c s)).sent ≠ s.sent ↔ Sends deps answers s c := by
  rw [relayCommand, Sends, Command.request]
  cases deps.encodeFunctionData c.call with
  | none => exact iff_of_false (fun h => h rfl) fun h => by simp at h
  | some data =>
    simp only [Option.map_some, Option.isSome_some, true_and]
    exact relay_sent_ne ⟨c.dedupKey, c.to_ deps, data⟩ { s with log := s.log ++ [c] }

theorem relayAndWait_sent (c : Command) (s : RelayState D (List Command)) :
    (final (relayAndWait deps answers c s)).sent = (final (relayCommand deps answers c s)).sent :=
  final_bind (fun _ s => (final_bind (fun _ _ => rfl) s).trans
    (waitForSuccessfulReceipt_sent _ s)) s

theorem relayAndFind_sent (c : Command) (read : DomainEvent Hex Hex → Option Hex)
    (s : RelayState D (List Command)) :
    (final (relayAndFind deps answers c read s)).sent =
      (final (relayCommand deps answers c s)).sent := by
  refine final_bind (fun _ s => (final_bind (fun events s => ?_) s).trans
    (waitForSuccessfulReceipt_sent _ s)) s
  rw [findEvent]
  cases (events.filterMap decodeDomainEvent).findSome? read <;> rfl

theorem relaying_sent {α : Type} (flow : Flow D α) (s : RelayState D (List Command)) :
    (final (relaying flow s)).sent = (final (flow s)).sent :=
  congrArg RelayState.sent (final_adaptExcept _ _ _)

theorem readBack_sent {α : Type} (found : Option α) (message : String)
    (s : RelayState D (List Command)) : (final (readBack found message s)).sent = s.sent := by
  cases found <;> rfl

theorem discard_sent {α : Type} (x : Handler D α) (s : RelayState D (List Command)) :
    (final (discard x s)).sent = (final (x s)).sent :=
  final_bind (f := fun _ => pure ()) (fun _ _ => rfl) s

/-- The session's address has a registered vault credential. -/
def HasVaultCredential (w : View) (subjectKey : Hex) : Prop :=
  ∃ credential ∈ w.credentials subjectKey, credential.method = .vault

instance (w : View) (subjectKey : Hex) : Decidable (HasVaultCredential w subjectKey) :=
  inferInstanceAs (Decidable (∃ credential ∈ w.credentials subjectKey, credential.method = .vault))

/-- A finish half that checks for a vault credential and then relays sends for such a session. -/
theorem requireVault_bind_sent {α : Type} {f : Credential → Handler D α} {c : Command}
    (hf : ∀ credential, (final (f credential s)).sent =
      (final (relayCommand deps answers c s)).sent) :
    (final ((requireVault w subjectKey >>= f) s)).sent ≠ s.sent ↔
      HasVaultCredential w subjectKey ∧ Sends deps answers s c := by
  rw [← relayCommand_sent_ne, HasVaultCredential]
  cases hcredential : w.credentials subjectKey with
  | none =>
    have hthrow : requireVault w subjectKey s = .error (.lifecycle .notFound
        s!"no credential registered for {subjectKey.text}") s := by
      rw [requireVault, requireCredential, hcredential]
      rfl
    rw [bind_of_error hthrow]
    exact iff_of_false (fun h => h rfl) fun h => by simp at h
  | some credential =>
    by_cases hvault : credential.method = .vault
    · have hok : requireVault w subjectKey s = .ok credential s := by
        rw [requireVault, requireCredential, hcredential]
        dsimp only
        rw [if_neg (by simpa using hvault)]
        rfl
      rw [bind_of_ok hok, hf]
      simp [hvault]
    · have hthrow : requireVault w subjectKey s = .error .unsupportedConfirmationMethod s := by
        rw [requireVault, requireCredential, hcredential]
        dsimp only
        rw [if_pos hvault]
        rfl
      rw [bind_of_error hthrow]
      exact iff_of_false (fun h => h rfl) fun h => by simp [hvault] at h

theorem requireVault_sent (s : RelayState D (List Command)) :
    (final (requireVault w subjectKey s)).sent = s.sent := by
  rw [requireVault]
  cases requireCredential w subjectKey with
  | error e => rfl
  | ok credential =>
    dsimp only
    split_ifs <;> rfl

theorem requireOwnProfile_sent (registry : Hex) (challenge : SetProfileChallenge)
    (s : RelayState D (List Command)) :
    (final (requireOwnProfile w registry subjectKey challenge s)).sent = s.sent := by
  rw [requireOwnProfile]
  cases findOwnedIdentity w subjectKey with
  | none => rfl
  | some identity =>
    dsimp only
    split_ifs <;> rfl

theorem requireOwnProfile_ok {registry : Hex} {challenge : SetProfileChallenge}
    {identity : Identity} {s' : RelayState D (List Command)}
    (h : requireOwnProfile w registry subjectKey challenge s = .ok identity s') :
    OwnedBy w subjectKey challenge.identityId := by
  rw [requireOwnProfile] at h
  cases hfound : findOwnedIdentity w subjectKey with
  | none =>
    rw [hfound] at h
    cases h
  | some found =>
    rw [hfound] at h
    by_cases hother : challenge.identityId ≠ found.identityId ∨
        challenge.verifyingContract.toLowerCase ≠ registry.toLowerCase
    · dsimp only at h
      rw [if_pos hother] at h
      cases h
    · rw [not_or, not_not] at hother
      rw [hother.1]
      exact findOwnedIdentity_owned hfound

/-- Only for the owner of the identity it names does a profile change get past its check. -/
theorem setIdentityProfile_owned {challenge : SetProfileChallenge} {signature : Hex}
    (h : (final (setIdentityProfile deps answers w later subjectKey challenge signature s)).sent ≠
      s.sent) : OwnedBy w subjectKey challenge.identityId := by
  rw [setIdentityProfile] at h
  cases hregistry : w.profileRegistry with
  | none =>
    rw [hregistry] at h
    exact absurd rfl h
  | some registry =>
    rw [hregistry] at h
    by_contra hother
    refine h ((final_bind (g := RelayState.sent) (fun credential s => ?_) s).trans
      (requireVault_sent s))
    cases hcheck : requireOwnProfile w registry subjectKey challenge s with
    | ok identity s' => exact absurd (requireOwnProfile_ok hcheck) hother
    | error e s' =>
      have hsent := @requireOwnProfile_sent _ w subjectKey registry challenge s
      rw [bind_of_error hcheck]
      rwa [hcheck] at hsent

/-- The command a request has the relayer send. -/
def WriteRequest.command : WriteRequest → Command
  | .confirm _ c signature => .confirm c signature
  | .createTrack _ c signature => .createTrack c signature
  | .registerAccount _ c signature => .registerAccount c signature
  | .activateAccount _ c signature => .activateAccount c signature
  | .removeAccount _ c signature => .removeAccount c signature
  | .profile c signature => .setProfile c signature

/-- The requester owns what the challenge names, and the path names it too. -/
def WriteRequest.Authorized (w : View) (subjectKey : Hex) : WriteRequest → Prop
  | .confirm identityId c _ => PendingOwnedBy w subjectKey c.identityId ∧ identityId = c.identityId
  | .createTrack identityId c _ => OwnedBy w subjectKey c.identityId ∧ identityId = c.identityId
  | .registerAccount trackId c _ =>
    OwnedBy w subjectKey (w.tracks c.trackId) ∧ trackId = c.trackId
  | .activateAccount accountId c _ =>
    AccountOwnedBy w subjectKey c.accountId ∧ accountId = c.accountId
  | .removeAccount accountId c _ =>
    AccountOwnedBy w subjectKey c.accountId ∧ accountId = c.accountId
  | .profile c _ => OwnedBy w subjectKey c.identityId

instance (w : View) (subjectKey : Hex) (request : WriteRequest) :
    Decidable (request.Authorized w subjectKey) := by
  cases request <;> unfold WriteRequest.Authorized <;> infer_instance

def WriteRequest.isProfile : WriteRequest → Bool
  | .profile .. => true
  | _ => false

/-- Handling the request has the relayer send a transaction. -/
def Broadcasts (deps : RelayFlowDeps D) (answers : ℕ → Answers (World.Event Hex Hex)) (w : View)
    (later : Later) (session : Option Hex) (s : RelayState D (List Command))
    (request : WriteRequest) : Prop :=
  (final (request.handle deps answers w later session s)).sent ≠ s.sent

instance [DecidableEq D] (request : WriteRequest) :
    Decidable (Broadcasts deps answers w later session s request) :=
  inferInstanceAs (Decidable (_ ≠ _))

/-- A route of the lifecycle broadcasts for every session with a vault credential. -/
theorem broadcasts_iff {request : WriteRequest} (h : request.isProfile = false) :
    Broadcasts deps answers w later session s request ↔
      ∃ address ∈ session, HasVaultCredential w address ∧
        Sends deps answers s request.command := by
  cases session with
  | none => exact iff_of_false (fun h => h rfl) (by simp)
  | some address =>
    simp only [Broadcasts, WriteRequest.handle, Option.mem_some_iff, exists_eq_left']
    cases request with
    | profile => cases h
    | confirm identityId c signature =>
      rw [discard_sent]
      refine requireVault_bind_sent fun credential => ?_
      exact (final_bind (fun _ _ => readBack_sent _ _ _) s).trans
        ((relaying_sent _ _).trans (relayAndWait_sent _ _))
    | createTrack identityId c signature =>
      rw [discard_sent]
      refine requireVault_bind_sent fun credential => ?_
      exact (relaying_sent _ _).trans (relayAndFind_sent _ _ _)
    | registerAccount trackId c signature =>
      rw [discard_sent]
      refine requireVault_bind_sent fun credential => ?_
      exact (final_bind (fun _ _ => readBack_sent _ _ _) s).trans
        ((relaying_sent _ _).trans (relayAndFind_sent _ _ _))
    | activateAccount accountId c signature =>
      rw [discard_sent]
      refine requireVault_bind_sent fun credential => ?_
      exact (final_bind (fun _ _ => readBack_sent _ _ _) s).trans
        ((relaying_sent _ _).trans (relayAndWait_sent _ _))
    | removeAccount accountId c signature =>
      rw [discard_sent]
      refine requireVault_bind_sent fun credential => ?_
      exact (final_bind (fun _ _ => readBack_sent _ _ _) s).trans
        ((relaying_sent _ _).trans (relayAndWait_sent _ _))

/-- A write route broadcasts for the owner of what the challenge names only, exactly if it is the
profile's, or the session has no vault credential, or the relayer does not send, or the requester is
that owner and the path names the same id. -/
theorem write_authorized_iff {request : WriteRequest} :
    (Broadcasts deps answers w later session s request →
        ∃ address ∈ session, request.Authorized w address) ↔
      request.isProfile = true ∨ (∀ address ∈ session, ¬ HasVaultCredential w address) ∨
        ¬ Sends deps answers s request.command ∨
          ∃ address ∈ session, request.Authorized w address := by
  cases hprofile : request.isProfile with
  | false =>
    rw [broadcasts_iff hprofile]
    simp only [Bool.false_eq_true, false_or]
    constructor
    · intro h
      by_cases hvault : ∀ address ∈ session, ¬ HasVaultCredential w address
      · exact .inl hvault
      by_cases hsends : Sends deps answers s request.command
      · push Not at hvault
        obtain ⟨address, haddress, hvault⟩ := hvault
        exact .inr (.inr (h ⟨address, haddress, hvault, hsends⟩))
      · exact .inr (.inl hsends)
    · rintro (hnone | hsilent | hauthorized) ⟨address, haddress, hvault, hsends⟩
      · exact absurd hvault (hnone address haddress)
      · exact absurd hsends hsilent
      · exact hauthorized
  | true =>
    refine iff_of_true (fun h => ?_) (.inl rfl)
    cases request with
    | profile challenge signature =>
      cases session with
      | none => exact absurd rfl h
      | some address =>
        refine ⟨address, rfl, ?_⟩
        simp only [Broadcasts, WriteRequest.handle] at h
        split_ifs at h
        · exact absurd rfl h
        · rw [discard_sent] at h
          exact setIdentityProfile_owned h
    | _ => cases hprofile

end Broadcasts

section OthersIdentity

/-- The address 0x51 has a vault credential for the account 0xc; the identity 0x7 is owned by the
account 0xa, and the account 0xb1 is to own it next. -/
def exampleView : View where
  projection :=
    { identities := [⟨exampleIdentityId, ⟨"0xa", by decide⟩, some ⟨"0xb1", by decide⟩, 0,
        .pendingConfirmation, 1⟩]
      accounts := []
      identities_nodup := by decide }
  tracks _ := ⟨"0x70", by decide⟩
  predicted _ qx _ := qx
  credentials address :=
    if address = ⟨"0x51", by decide⟩ then
      some ⟨.vault, ⟨"0xc", by decide⟩, ⟨"0xd", by decide⟩⟩
    else none
  profileRegistry := none

/-- The session of 0x51 sends a confirmation for the identity 0x7 down the path of another. -/
theorem others_identity_broadcast :
    let request : WriteRequest := .confirm ⟨"0x81", by decide⟩
      ⟨exampleIdentityId, ⟨"0xb1", by decide⟩, 0, 0, 700⟩ ⟨"0x5a", by decide⟩
    let session : Option Hex := some ⟨"0x51", by decide⟩
    Broadcasts exampleDeps (fun _ => exampleAnswers ⟨"0xe", by decide⟩) exampleView
        ⟨exampleView.projection, ⟨"", "", 0⟩⟩ session .init request ∧
      ¬ ∃ address ∈ session, request.Authorized exampleView address := by
  decide +kernel

end OthersIdentity

end Linvesther.Api
