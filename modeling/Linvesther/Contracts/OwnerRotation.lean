import Linvesther.Contracts.CommandReplay

/-! The two-step rotation over a whole run: an identity changes hands only to the owner its current
owner proposed last, in the same epoch, and with the signatures of both. -/

namespace Linvesther

open Transaction

variable {A B : Type}

section History

/-- The owner a transaction proposes, and for which identity. -/
def Tx.proposes (tx : Tx A B) : Option (B × A) :=
  match tx.call with
  | .identity (.proposeOwnerRotation identityId newOwner ..) => some (identityId, newOwner)
  | _ => none

/-- The transaction decides who is proposed for the identity. -/
def Tx.Decides (tx : Tx A B) (identityId : B) : Prop :=
  (∃ newOwner, tx.proposes = some (identityId, newOwner)) ∨ tx.confirms = some identityId

/-- What was accepted of a run. -/
abbrev World.Past (A B : Type) := List (Accepted (World A B) (Tx A B) (List (World.Event A B)))

/-- The signer signed the command of an accepted transaction. -/
def SignedBy (evm : Evm A B) (at_ : Deployment A) (signer : A) (tx : Tx A B) : Prop :=
  ∃ cmd, tx.call.command evm at_ = some cmd ∧
    tx.block.isValidSignatureNow signer cmd.digest cmd.signature = true

/-- The last decision in the past about who is proposed: the owner of the identity, in its epoch,
signed a proposal of its pending owner. -/
def ProposedBy (evm : Evm A B) (at_ : Deployment A) (past : World.Past A B) (identityId : B)
    (identity : IdentityRegistry.Identity A) : Prop :=
  ∃ as a bs, past = as ++ a :: bs ∧
    a.input.proposes = some (identityId, identity.pendingOwner) ∧
    (a.pre.identity.identities identityId).owner = identity.owner ∧
    (a.pre.identity.identities identityId).ownerEpoch = identity.ownerEpoch ∧
    SignedBy evm at_ identity.owner a.input ∧ identity.pendingOwner ≠ identity.owner ∧
    ∀ b ∈ bs, ¬ b.input.Decides identityId

/-- Every pending owner was proposed. -/
def Proposed [Zero A] (evm : Evm A B) (at_ : Deployment A) (past : World.Past A B) (w : World A B) :
    Prop :=
  ∀ identityId, (w.identity.identities identityId).pendingOwner ≠ 0 →
    ProposedBy evm at_ past identityId (w.identity.identities identityId)

variable {evm : Evm A B} {at_ : Deployment A}

theorem ProposedBy.ne_owner {past : World.Past A B} {identityId : B}
    {identity : IdentityRegistry.Identity A} (h : ProposedBy evm at_ past identityId identity) :
    identity.pendingOwner ≠ identity.owner := by
  obtain ⟨as, a, bs, -, -, -, -, -, hne, -⟩ := h
  exact hne

theorem ProposedBy.later {past : World.Past A B} {identityId : B}
    {identity identity' : IdentityRegistry.Identity A}
    {a : Accepted (World A B) (Tx A B) (List (World.Event A B))}
    (h : ProposedBy evm at_ past identityId identity) (ha : ¬ a.input.Decides identityId)
    (howner : identity'.owner = identity.owner)
    (hpending : identity'.pendingOwner = identity.pendingOwner)
    (hepoch : identity'.ownerEpoch = identity.ownerEpoch) :
    ProposedBy evm at_ (past ++ [a]) identityId identity' := by
  obtain ⟨as, p, bs, rfl, hproposes, hp⟩ := h
  unfold ProposedBy
  rw [howner, hpending, hepoch]
  refine ⟨as, p, bs ++ [a], by simp, hproposes, hp.1, hp.2.1, hp.2.2.1, hp.2.2.2.1, fun b hb => ?_⟩
  rcases List.mem_append.1 hb with hb | hb
  · exact hp.2.2.2.2 b hb
  · rw [List.mem_singleton.1 hb]
    exact ha

end History

section Steps

variable [DecidableEq A] [DecidableEq B] [Zero A] [Zero B] {evm : Evm A B} {at_ : Deployment A}
  {w w' : World A B} {tx : Tx A B} {logs : List (World.Event A B)} {past : World.Past A B}

omit [DecidableEq A] [DecidableEq B] [Zero B] in
/-- A call that keeps what a proposal is about keeps the proposal. -/
theorem Proposed.later {a : Accepted (World A B) (Tx A B) (List (World.Event A B))}
    {identityId : B} {identity' : IdentityRegistry.Identity A} (h : Proposed evm at_ past w)
    (ha : ¬ a.input.Decides identityId)
    (howner : identity'.owner = (w.identity.identities identityId).owner)
    (hpending : identity'.pendingOwner = (w.identity.identities identityId).pendingOwner)
    (hepoch : identity'.ownerEpoch = (w.identity.identities identityId).ownerEpoch)
    (hne : identity'.pendingOwner ≠ 0) : ProposedBy evm at_ (past ++ [a]) identityId identity' := by
  rw [hpending] at hne
  exact (h identityId hne).later ha howner hpending hepoch

omit [Zero B] in
theorem World.identity_proposed {c : IdentityRegistry.Call A B} {s : IdentityRegistry.State A B}
    {l : List (IdentityRegistry.Event A B)} (h : Proposed evm at_ past w)
    (htx : tx.call = .identity c)
    (hcall : IdentityRegistry.call evm at_.identityRegistry w.identity tx.block tx.sender c =
      .ok (s, l)) :
    Proposed evm at_ (past ++ [⟨w, tx, logs⟩]) { w with identity := s } := by
  intro i hne
  dsimp only at hne ⊢
  rcases c with _ | identityId | ⟨identityId, newOwner⟩ | identityId
  · have hdecides : ¬ tx.Decides i := by
      simp [Tx.Decides, Tx.proposes, Tx.confirms, htx, IdentityRegistry.Call.confirms]
    obtain rfl := IdentityRegistry.createIdentity_ok hcall
    dsimp only at hne ⊢
    rw [Function.update_apply] at hne ⊢
    split_ifs at hne ⊢ with hi
    · exact absurd rfl hne
    · exact h.later hdecides rfl rfl rfl hne
  · have hdecides : ¬ tx.Decides i := by
      simp [Tx.Decides, Tx.proposes, Tx.confirms, htx, IdentityRegistry.Call.confirms]
    have hidentities := IdentityRegistry.createTrack_ok hcall
    rw [hidentities, Function.update_apply] at hne ⊢
    split_ifs at hne ⊢ with hi
    · subst hi
      exact h.later hdecides rfl rfl rfl hne
    · exact h.later hdecides rfl rfl rfl hne
  · obtain ⟨-, hsame, hsigned, hidentities⟩ := IdentityRegistry.proposeOwnerRotation_ok hcall
    rw [hidentities, Function.update_apply] at hne ⊢
    split_ifs at hne ⊢ with hi
    · subst hi
      refine ⟨past, ⟨w, tx, logs⟩, [], rfl, by simp [Tx.proposes, htx], rfl, rfl, ?_, hsame, by simp⟩
      exact ⟨_, by rw [htx]; rfl, hsigned⟩
    · refine h.later ?_ rfl rfl rfl hne
      simp [Tx.Decides, Tx.proposes, Tx.confirms, htx, IdentityRegistry.Call.confirms, Ne.symm hi]
  · obtain ⟨-, -, -, -, hidentities⟩ := IdentityRegistry.confirmOwnerRotation_ok hcall
    rw [hidentities, Function.update_apply] at hne ⊢
    split_ifs at hne ⊢ with hi
    · exact absurd rfl hne
    · refine h.later ?_ rfl rfl rfl hne
      simp [Tx.Decides, Tx.proposes, Tx.confirms, htx, IdentityRegistry.Call.confirms, Ne.symm hi]

theorem World.call_proposed (h : Proposed evm at_ past w)
    (hcall : World.call evm at_ w tx = .ok (w', logs)) :
    Proposed evm at_ (past ++ [⟨w, tx, logs⟩]) w' := by
  rcases World.call_ok hcall with ⟨c, s, l, htx, hc, rfl, -⟩ | ⟨c, s, l, htx, -, rfl, -⟩ |
    ⟨c, s, l, htx, -, rfl, -⟩
  · exact World.identity_proposed h htx hc
  · exact fun i hne =>
      h.later (by simp [Tx.Decides, Tx.proposes, Tx.confirms, htx]) rfl rfl rfl hne
  · exact fun i hne =>
      h.later (by simp [Tx.Decides, Tx.proposes, Tx.confirms, htx]) rfl rfl rfl hne

end Steps

section Runs

variable [DecidableEq A] [DecidableEq B] [Zero A] [Zero B] (evm : Evm A B) (at_ : Deployment A)

/-- The confirmation of a rotation, with everything that led to it. -/
structure Rotation (past : World.Past A B) (tx : Tx A B) (identityId : B)
    (before after : IdentityRegistry.Identity A) : Prop where
  signed : SignedBy evm at_ after.owner tx
  pending : before.pendingOwner = after.owner
  proposed : ProposedBy evm at_ past identityId before
  ne_zero : after.owner ≠ 0
  ne_owner : after.owner ≠ before.owner
  ownerEpoch : after.ownerEpoch = before.ownerEpoch + 1
  cleared : after.pendingOwner = 0

variable {evm at_}

/-- One transaction: a confirmation is a rotation, and nothing else changes an owner or an epoch. -/
theorem World.call_rotation (hk : Function.Injective evm.keccak256) {w w' : World A B} {tx : Tx A B}
    {logs : List (World.Event A B)} {past : World.Past A B} (hw : w.Numbered evm at_)
    (hpast : Proposed evm at_ past w) (hcall : World.call evm at_ w tx = .ok (w', logs))
    {identityId : B} (hexists : (w.identity.identities identityId).exists_ = true) :
    let before := w.identity.identities identityId
    let after := w'.identity.identities identityId
    after.exists_ = true ∧
    (tx.confirms = some identityId → Rotation evm at_ past tx identityId before after) ∧
    (tx.confirms ≠ some identityId →
      after.owner = before.owner ∧ after.ownerEpoch = before.ownerEpoch) := by
  intro before after
  rcases World.call_ok hcall with ⟨c, s, l, htx, hc, rfl, -⟩ | ⟨c, s, l, htx, -, rfl, -⟩ |
    ⟨c, s, l, htx, -, rfl, -⟩
  · rcases c with _ | i | i | ⟨i, newOwner⟩
    · have hne : identityId ≠ evm.keccak256 (.encodePacked [.uint evm.chainid,
          .address at_.identityRegistry, .address tx.sender, .uint w.identity.identityCounter]) := by
        intro heq
        rcases hw.identity identityId with hnone | ⟨sender, n, hn, hid⟩
        · rw [hnone] at hexists
          exact absurd hexists (by simp [IdentityRegistry.noIdentity])
        · have hargs := hk (hid.symm.trans heq)
          simp only [Preimage.encodePacked.injEq, List.cons.injEq, Word.uint.injEq] at hargs
          omega
      obtain rfl := IdentityRegistry.createIdentity_ok hc
      simp only [after, Function.update_of_ne hne]
      exact ⟨hexists, by simp [Tx.confirms, htx, IdentityRegistry.Call.confirms],
        fun _ => ⟨rfl, rfl⟩⟩
    · have hidentities := IdentityRegistry.createTrack_ok hc
      simp only [after, hidentities, Function.update_apply]
      refine ⟨?_, by simp [Tx.confirms, htx, IdentityRegistry.Call.confirms], fun _ => ?_⟩
      · split_ifs with hi
        · exact hi ▸ hexists
        · exact hexists
      · split_ifs with hi
        · exact hi ▸ ⟨rfl, rfl⟩
        · exact ⟨rfl, rfl⟩
    · obtain ⟨-, -, -, hidentities⟩ := IdentityRegistry.proposeOwnerRotation_ok hc
      simp only [after, hidentities, Function.update_apply]
      refine ⟨?_, by simp [Tx.confirms, htx, IdentityRegistry.Call.confirms], fun _ => ?_⟩
      · split_ifs with hi
        · exact hi ▸ hexists
        · exact hexists
      · split_ifs with hi
        · exact hi ▸ ⟨rfl, rfl⟩
        · exact ⟨rfl, rfl⟩
    · obtain ⟨-, hpending, rfl, hsigned, hidentities⟩ :=
        IdentityRegistry.confirmOwnerRotation_ok hc
      simp only [after, hidentities, Function.update_apply, Tx.confirms, htx,
        IdentityRegistry.Call.confirms, Option.some.injEq]
      by_cases hi : identityId = i
      · subst hi
        rw [if_pos rfl]
        have hproposed := hpast identityId hpending
        refine ⟨hexists, fun _ => ?_, fun hne => absurd rfl hne⟩
        exact {
          signed := ⟨_, by rw [htx]; rfl, hsigned⟩
          pending := rfl
          proposed := hproposed
          ne_zero := hpending
          ne_owner := hproposed.ne_owner
          ownerEpoch := rfl
          cleared := rfl }
      · rw [if_neg hi]
        exact ⟨hexists, fun heq => absurd heq.symm hi, fun _ => ⟨rfl, rfl⟩⟩
  · exact ⟨hexists, by simp [Tx.confirms, htx], fun _ => ⟨rfl, rfl⟩⟩
  · exact ⟨hexists, by simp [Tx.confirms, htx], fun _ => ⟨rfl, rfl⟩⟩

/-- Over every run: an identity changes hands and epoch only by a confirmed rotation, and a confirmed
rotation was proposed by its owner, in its epoch, as the last proposal. -/
theorem two_step_ownership (hk : Function.Injective evm.keccak256) (txs : List (Tx A B))
    {as bs : World.Past A B} {a : Accepted (World A B) (Tx A B) (List (World.Event A B))}
    (hrun : World.accepted evm at_ .init txs = as ++ a :: bs) {identityId : B}
    (hexists : (a.pre.identity.identities identityId).exists_ = true) :
    let before := a.pre.identity.identities identityId
    let after := (commit (World.call evm at_) a.pre a.input).identity.identities identityId
    after.exists_ = true ∧
    (a.input.confirms = some identityId → Rotation evm at_ as a.input identityId before after) ∧
    (a.input.confirms ≠ some identityId →
      after.owner = before.owner ∧ after.ownerEpoch = before.ownerEpoch) := by
  obtain ⟨js, ks, w', -, hjs, hpre, hcall, -⟩ := accepted_split hrun
  have hnumbered := (World.run_later hk (World.init_numbered evm at_) js).1
  have hproposed : Proposed evm at_ (World.accepted evm at_ .init js) (World.run evm at_ .init js) :=
    @accepted_history _ _ _ _ (World.call evm at_) (Proposed evm at_)
      (fun _ _ _ _ _ h hc => World.call_proposed h hc) _ [] js fun _ hne => absurd rfl hne
  unfold World.run at hnumbered hproposed
  rw [hpre] at hnumbered hproposed
  unfold World.accepted at hproposed
  rw [hjs] at hproposed
  rw [commit_ok hcall]
  exact World.call_rotation hk hnumbered hproposed hcall hexists

end Runs

section Example

theorem exampleRotation_length :
    3 < (World.accepted Symbol.evm exampleDeployment .init exampleRotation).length := by
  decide +kernel

/-- The fourth transaction hands the identity of 7 to 8, as the third proposed. -/
theorem two_step_ownership_rotation :
    ∃ as a bs, World.accepted Symbol.evm exampleDeployment .init exampleRotation = as ++ a :: bs ∧
      (a.pre.identity.identities exampleIdentity).owner = 7 ∧
      ((commit (World.call Symbol.evm exampleDeployment) a.pre a.input).identity.identities
        exampleIdentity).owner = 8 ∧
      Rotation Symbol.evm exampleDeployment as a.input exampleIdentity
        (a.pre.identity.identities exampleIdentity)
        ((commit (World.call Symbol.evm exampleDeployment) a.pre a.input).identity.identities
          exampleIdentity) := by
  have hsplit := List.take_append_drop 3
    (World.accepted Symbol.evm exampleDeployment .init exampleRotation)
  rw [List.drop_eq_getElem_cons exampleRotation_length] at hsplit
  refine ⟨_, _, _, hsplit.symm, by decide +kernel, by decide +kernel, ?_⟩
  have hrotation := @two_step_ownership _ _ _ _ _ _ _ _ Symbol.keccak256_injective exampleRotation
    _ _ _ hsplit.symm exampleIdentity (by decide +kernel)
  exact hrotation.2.1 (by decide +kernel)

end Example

end Linvesther
