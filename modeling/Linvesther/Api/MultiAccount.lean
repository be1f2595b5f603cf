import Mathlib

/-! `multi-account/`: the members of a track, transfers between them, and the value of all of them together. A transfer is
checked for its amounts alone; what it does to the consolidated value depends on how often its accounts are members. -/

namespace Linvesther.Api.MultiAccount

section Code

structure MemberAccount where
  accountId : String
  joinedAtMs : ℤ
  navMicros : ℤ
  hasGap : Bool
deriving DecidableEq

structure TrackMembership where
  trackId : String
  members : List MemberAccount
deriving DecidableEq

structure InternalTransfer where
  fromAccountId : String
  toAccountId : String
  outgoingMicros : ℤ
  feeMicros : ℤ
  incomingMicros : ℤ
deriving DecidableEq

structure TransferReconciliationError where
  outgoing : ℤ
  incomingPlusFee : ℤ
deriving DecidableEq

inductive AggregateResult where
  | available (navMicros : ℤ)
  | unavailable (accountId : String)
deriving DecidableEq

def consolidatedNav (members : List MemberAccount) : AggregateResult :=
  match members.find? MemberAccount.hasGap with
  | some gapped => .unavailable gapped.accountId
  | none => .available (members.foldl (fun sum member => sum + member.navMicros) 0)

def validateInternalTransfer (transfer : InternalTransfer) : Except TransferReconciliationError Unit :=
  let incomingPlusFee := transfer.incomingMicros + transfer.feeMicros
  if transfer.outgoingMicros ≠ incomingPlusFee then .error ⟨transfer.outgoingMicros, incomingPlusFee⟩ else .ok ()

structure MemoryMultiAccountStore where
  memberships : String → Option (List MemberAccount)
  transfers : String → Option (List InternalTransfer)

namespace MemoryMultiAccountStore

def empty : MemoryMultiAccountStore := ⟨fun _ => none, fun _ => none⟩

def members (store : MemoryMultiAccountStore) (trackId : String) : List MemberAccount :=
  (store.memberships trackId).getD []

def getTransfers (store : MemoryMultiAccountStore) (trackId : String) : List InternalTransfer :=
  (store.transfers trackId).getD []

def setMembers (store : MemoryMultiAccountStore) (trackId : String) (updated : List MemberAccount) :
    MemoryMultiAccountStore :=
  { store with memberships := Function.update store.memberships trackId (some updated) }

def addMember (store : MemoryMultiAccountStore) (trackId : String) (member : MemberAccount) :
    TrackMembership × MemoryMultiAccountStore :=
  let updated := store.members trackId ++ [member]
  (⟨trackId, updated⟩, store.setMembers trackId updated)

def setGap (store : MemoryMultiAccountStore) (trackId accountId : String) (hasGap : Bool) : MemoryMultiAccountStore :=
  store.setMembers trackId
    ((store.members trackId).map fun member => if member.accountId = accountId then { member with hasGap } else member)

def getMembership (store : MemoryMultiAccountStore) (trackId : String) : Option TrackMembership :=
  (store.memberships trackId).map fun members => ⟨trackId, members⟩

/-- What a transfer makes of a member: the account it leaves comes first. -/
def moved (transfer : InternalTransfer) (member : MemberAccount) : MemberAccount :=
  if member.accountId = transfer.fromAccountId then
    { member with navMicros := member.navMicros - transfer.outgoingMicros }
  else if member.accountId = transfer.toAccountId then
    { member with navMicros := member.navMicros + transfer.incomingMicros }
  else member

def recordTransfer (store : MemoryMultiAccountStore) (trackId : String) (transfer : InternalTransfer) :
    Except TransferReconciliationError TrackMembership × MemoryMultiAccountStore :=
  match validateInternalTransfer transfer with
  | .error e => (.error e, store)
  | .ok () =>
    let updated := (store.members trackId).map (moved transfer)
    let transfers := Function.update store.transfers trackId (some (store.getTransfers trackId ++ [transfer]))
    (.ok ⟨trackId, updated⟩, { store.setMembers trackId updated with transfers })

end MemoryMultiAccountStore

end Code

open MemoryMultiAccountStore

section Value

variable {store : MemoryMultiAccountStore} {trackId : String} {transfer : InternalTransfer} {members : List MemberAccount}

/-- The value of all members together, whether or not one has a gap. -/
def navOf (members : List MemberAccount) : ℤ := (members.map MemberAccount.navMicros).sum

theorem consolidatedNav_eq (members : List MemberAccount) : consolidatedNav members =
    ((members.find? MemberAccount.hasGap).map fun gapped => .unavailable gapped.accountId).getD
      (.available (navOf members)) := by
  have hfold : ∀ start, members.foldl (fun sum member => sum + member.navMicros) start = start + navOf members := by
    intro start
    unfold navOf
    induction members generalizing start with
    | nil => simp
    | cons member rest ih => rw [List.foldl_cons, ih, List.map_cons, List.sum_cons, add_assoc]
  unfold consolidatedNav
  rw [hfold, zero_add]
  cases members.find? MemberAccount.hasGap <;> rfl

/-- The members that a transfer leaves, and those that it reaches. -/
def leaving (transfer : InternalTransfer) (members : List MemberAccount) : ℕ :=
  members.countP fun member => member.accountId = transfer.fromAccountId

def reached (transfer : InternalTransfer) (members : List MemberAccount) : ℕ :=
  members.countP fun member => member.accountId ≠ transfer.fromAccountId ∧ member.accountId = transfer.toAccountId

theorem nav_moved (transfer : InternalTransfer) (member : MemberAccount) : (moved transfer member).navMicros =
    member.navMicros - (if member.accountId = transfer.fromAccountId then 1 else 0) * transfer.outgoingMicros +
      (if member.accountId ≠ transfer.fromAccountId ∧ member.accountId = transfer.toAccountId then 1 else 0) *
        transfer.incomingMicros := by
  unfold moved
  by_cases hfrom : member.accountId = transfer.fromAccountId
  · rw [if_pos hfrom, if_pos hfrom, if_neg fun h => h.1 hfrom]
    ring
  · by_cases hto : member.accountId = transfer.toAccountId
    · rw [if_neg hfrom, if_pos hto, if_neg hfrom, if_pos ⟨hfrom, hto⟩]
      ring
    · rw [if_neg hfrom, if_neg hto, if_neg hfrom, if_neg fun h => hto h.2]
      ring

theorem navOf_moved (transfer : InternalTransfer) (members : List MemberAccount) :
    navOf (members.map (moved transfer)) =
      navOf members - leaving transfer members * transfer.outgoingMicros + reached transfer members * transfer.incomingMicros := by
  unfold navOf leaving reached
  induction members with
  | nil => simp
  | cons member rest ih =>
    rw [List.map_cons, List.map_cons, List.sum_cons, ih, List.map_cons, List.sum_cons, List.countP_cons, List.countP_cons,
      nav_moved]
    simp only [decide_eq_true_eq]
    push_cast
    ring

/-- A member as it was, or one of the two accounts with another value. -/
def Changed (transfer : InternalTransfer) (before after : MemberAccount) : Prop :=
  after = before ∨ (before.accountId = transfer.fromAccountId ∨ before.accountId = transfer.toAccountId) ∧
    after = { before with navMicros := after.navMicros }

theorem changed_moved (transfer : InternalTransfer) (member : MemberAccount) :
    Changed transfer member (moved transfer member) := by
  unfold moved
  split_ifs with hfrom hto
  · exact .inr ⟨.inl hfrom, rfl⟩
  · exact .inr ⟨.inr hto, rfl⟩
  · exact .inl rfl

theorem find?_gap_moved (transfer : InternalTransfer) (members : List MemberAccount) :
    ((members.map (moved transfer)).find? MemberAccount.hasGap).map MemberAccount.accountId =
      (members.find? MemberAccount.hasGap).map MemberAccount.accountId := by
  have hsame : ∀ member, (moved transfer member).hasGap = member.hasGap ∧
      (moved transfer member).accountId = member.accountId := by
    intro member
    unfold moved
    split_ifs <;> exact ⟨rfl, rfl⟩
  rw [List.find?_map, Option.map_map]
  have hgap : MemberAccount.hasGap ∘ moved transfer = MemberAccount.hasGap := funext fun member => (hsame member).1
  rw [hgap]
  congr 1
  exact funext fun member => (hsame member).2

/-- A transfer costs its fee and nothing else. -/
def Balanced (transfer : InternalTransfer) (members : List MemberAccount) : Prop :=
  transfer.outgoingMicros * ((leaving transfer members : ℤ) - 1) =
    transfer.incomingMicros * ((reached transfer members : ℤ) - 1)

theorem navOf_moved_iff (h : transfer.outgoingMicros = transfer.incomingMicros + transfer.feeMicros) :
    navOf (members.map (moved transfer)) = navOf members - transfer.feeMicros ↔ Balanced transfer members := by
  unfold Balanced
  rw [navOf_moved]
  constructor <;> intro heq <;> linarith

theorem validate_ok_iff : validateInternalTransfer transfer = .ok () ↔
    transfer.outgoingMicros = transfer.incomingMicros + transfer.feeMicros := by
  unfold validateInternalTransfer
  dsimp only
  split_ifs with h
  · exact iff_of_false (by simp) h
  · exact iff_of_true rfl (not_not.1 h)

/-- Two different accounts that are each a member once. -/
theorem balanced_of_once (hfrom : leaving transfer members = 1) (hto : reached transfer members = 1) :
    Balanced transfer members := by
  unfold Balanced
  rw [hfrom, hto]
  norm_num

end Value

section Transfers

variable (store : MemoryMultiAccountStore) (trackId : String) (transfer : InternalTransfer)

/-- A transfer that is recorded: what is returned is what is kept, only its accounts change, and the value of all of them
falls by the fee. -/
structure Recorded (membership : TrackMembership) (after : MemoryMultiAccountStore) : Prop where
  kept : after.getMembership trackId = some membership
  listed : after.getTransfers trackId = store.getTransfers trackId ++ [transfer]
  others : ∀ other, other ≠ trackId →
    after.memberships other = store.memberships other ∧ after.transfers other = store.transfers other
  changed : List.Forall₂ (Changed transfer) (store.members trackId) membership.members
  nav : navOf membership.members = navOf (store.members trackId) - transfer.feeMicros
  consolidated : ∀ nav, consolidatedNav (store.members trackId) = .available nav →
    consolidatedNav membership.members = .available (nav - transfer.feeMicros)

/-- A transfer either throws and leaves everything as it was, or is recorded. -/
def Conserves : Prop :=
  (∃ e, store.recordTransfer trackId transfer = (.error e, store)) ∨
    ∃ membership after, store.recordTransfer trackId transfer = (.ok membership, after) ∧
      Recorded store trackId transfer membership after

variable {store trackId transfer}

/-- What a transfer whose amounts add up leaves. -/
theorem recordTransfer_ok (hamounts : transfer.outgoingMicros = transfer.incomingMicros + transfer.feeMicros) :
    store.recordTransfer trackId transfer = (.ok ⟨trackId, (store.members trackId).map (moved transfer)⟩,
      { store.setMembers trackId ((store.members trackId).map (moved transfer)) with
        transfers := Function.update store.transfers trackId (some (store.getTransfers trackId ++ [transfer])) }) := by
  rw [recordTransfer, validate_ok_iff.2 hamounts]

theorem recorded_of_balanced (hamounts : transfer.outgoingMicros = transfer.incomingMicros + transfer.feeMicros)
    (h : Balanced transfer (store.members trackId)) : Conserves store trackId transfer := by
  have hnav := (navOf_moved_iff hamounts).2 h
  refine .inr ⟨_, _, recordTransfer_ok hamounts, ?_⟩
  refine ⟨?_, ?_, fun other hother => ?_, ?_, hnav, fun nav havailable => ?_⟩
  · simp [getMembership, setMembers]
  · simp [getTransfers]
  · simp [setMembers, hother]
  · rw [List.forall₂_map_right_iff]
    exact List.forall₂_same.2 fun member _ => changed_moved transfer member
  · rw [consolidatedNav_eq] at havailable ⊢
    have hgap := find?_gap_moved transfer (store.members trackId)
    cases hfind : (store.members trackId).find? MemberAccount.hasGap with
    | some gapped =>
      rw [hfind] at havailable
      cases havailable
    | none =>
      rw [hfind] at havailable hgap
      rw [Option.map_eq_none_iff.1 hgap]
      have hsum := AggregateResult.available.inj havailable
      change AggregateResult.available (navOf _) = _
      rw [hnav, hsum]

theorem nav_of_conserves (hamounts : transfer.outgoingMicros = transfer.incomingMicros + transfer.feeMicros)
    (h : Conserves store trackId transfer) :
    navOf ((store.members trackId).map (moved transfer)) = navOf (store.members trackId) - transfer.feeMicros := by
  rcases h with ⟨e, herror⟩ | ⟨membership, after, hok, hrecorded⟩
  · rw [recordTransfer_ok hamounts] at herror
    cases herror
  · rw [recordTransfer_ok hamounts] at hok
    obtain rfl := Except.ok.inj (Prod.mk.inj hok).1
    exact hrecorded.nav

/-- A track of one account. -/
def oneMember : MemoryMultiAccountStore := (MemoryMultiAccountStore.empty.addMember "track" ⟨"a", 0, 100, false⟩).2

end Transfers

section Runs

inductive Command where
  | addMember (trackId : String) (member : MemberAccount)
  | setGap (trackId accountId : String) (hasGap : Bool)
  | recordTransfer (trackId : String) (transfer : InternalTransfer)

def apply (store : MemoryMultiAccountStore) : Command → MemoryMultiAccountStore
  | .addMember trackId member => (store.addMember trackId member).2
  | .setGap trackId accountId hasGap => store.setGap trackId accountId hasGap
  | .recordTransfer trackId transfer => (store.recordTransfer trackId transfer).2

/-- What a command is to change a track's value by: what joins it, less the fees. -/
def expected (trackId : String) : Command → ℤ
  | .addMember track member => if track = trackId then member.navMicros else 0
  | .setGap .. => 0
  | .recordTransfer track transfer =>
    if track = trackId ∧ transfer.outgoingMicros = transfer.incomingMicros + transfer.feeMicros then -transfer.feeMicros
    else 0

/-- Every transfer of a run conserves the value where it is recorded. -/
def Sound : MemoryMultiAccountStore → List Command → Prop
  | _, [] => True
  | store, c :: rest =>
    (∀ trackId transfer, c = .recordTransfer trackId transfer → Conserves store trackId transfer) ∧
      Sound (apply store c) rest

variable {store : MemoryMultiAccountStore} {trackId : String}

theorem members_setMembers (store : MemoryMultiAccountStore) (trackId track : String) (updated : List MemberAccount) :
    (store.setMembers track updated).members trackId = if trackId = track then updated else store.members trackId := by
  unfold members setMembers
  dsimp only
  by_cases htrack : trackId = track
  · rw [if_pos htrack, htrack, Function.update_self, Option.getD_some]
  · rw [if_neg htrack, Function.update_of_ne htrack]

theorem navOf_setGap (accountId : String) (hasGap : Bool) (members : List MemberAccount) :
    navOf (members.map fun member => if member.accountId = accountId then { member with hasGap } else member) =
      navOf members := by
  unfold navOf
  rw [List.map_map]
  congr 1
  refine List.map_congr_left fun member _ => ?_
  rw [Function.comp_apply]
  split_ifs <;> rfl

/-- What one command does to the value of a track. -/
theorem navOf_apply (trackId : String) {c : Command}
    (h : ∀ track transfer, c = .recordTransfer track transfer → Conserves store track transfer) :
    navOf ((apply store c).members trackId) = navOf (store.members trackId) + expected trackId c := by
  cases c with
  | addMember track member =>
    rw [apply, addMember, members_setMembers, expected]
    by_cases htrack : trackId = track
    · subst htrack
      rw [if_pos rfl, if_pos rfl]
      simp [navOf]
    · rw [if_neg htrack, if_neg (Ne.symm htrack), add_zero]
  | setGap track accountId hasGap =>
    rw [apply, setGap, members_setMembers, expected, add_zero]
    split_ifs with htrack
    · rw [navOf_setGap, htrack]
    · rfl
  | recordTransfer track transfer =>
    have hconserves := h track transfer rfl
    rw [apply, expected]
    by_cases hamounts : transfer.outgoingMicros = transfer.incomingMicros + transfer.feeMicros
    · rw [recordTransfer_ok hamounts]
      change navOf ((store.setMembers track _).members trackId) = _
      rw [members_setMembers]
      by_cases htrack : trackId = track
      · subst htrack
        rw [if_pos rfl, if_pos ⟨rfl, hamounts⟩, nav_of_conserves hamounts hconserves, sub_eq_add_neg]
      · rw [if_neg htrack, if_neg fun h => htrack h.1.symm, add_zero]
    · rw [if_neg fun h => hamounts h.2, add_zero]
      unfold recordTransfer
      cases hvalid : validateInternalTransfer transfer with
      | error e => rfl
      | ok u => exact absurd (validate_ok_iff.1 hvalid) hamounts

/-- Over a run of such transfers a track's value is what joined it, less the fees. -/
theorem navOf_run (trackId : String) {commands : List Command} (h : Sound store commands) :
    navOf ((commands.foldl apply store).members trackId) =
      navOf (store.members trackId) + (commands.map (expected trackId)).sum := by
  induction commands generalizing store with
  | nil => simp
  | cons c rest ih => rw [List.foldl_cons, ih h.2, navOf_apply trackId h.1, List.map_cons, List.sum_cons, add_assoc]

end Runs

end Linvesther.Api.MultiAccount
