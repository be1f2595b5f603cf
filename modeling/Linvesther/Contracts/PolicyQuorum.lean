import Linvesther.Contracts.PolicyImmutability

/-! Two of three and the timelock: the count of an action is the number of its approvers, no action is
executed twice, and what is effective was published by an executed action 72 hours before. -/

namespace Linvesther.PolicyRegistry

open Transaction

variable {A B : Type}

section Tally

/-- One more of the list. -/
theorem countP_update {α : Type*} [DecidableEq α] {l : List α} (hnodup : l.Nodup) {f : α → Bool}
    {a : α} (ha : a ∈ l) (hf : f a = false) :
    l.countP (Function.update f a true) = l.countP f + 1 := by
  induction l with
  | nil => exact absurd ha List.not_mem_nil
  | cons b l ih =>
    rw [List.nodup_cons] at hnodup
    rcases List.mem_cons.1 ha with rfl | ha
    · have hsame : l.countP (Function.update f a true) = l.countP f := by
        refine List.countP_congr fun b hb => ?_
        have hne : b ≠ a := fun heq => hnodup.1 (heq ▸ hb)
        rw [Function.update_of_ne hne]
      rw [List.countP_cons, List.countP_cons, hsame, Function.update_self, hf]
      rfl
    · have hne : b ≠ a := fun heq => hnodup.1 (heq ▸ ha)
      rw [List.countP_cons, List.countP_cons, ih hnodup.2 ha, Function.update_of_ne hne]
      omega

/-- How many governors have approved an action. -/
def State.approvers (s : State A B) (actionId : B) : ℕ :=
  s.governors.countP (s.hasApproved actionId)

/-- The approvals of every action are those of governors, and the action counts them. -/
structure State.Tallied (evm : Evm A B) (this : A) (s : State A B) : Prop where
  nodup : s.governors.Nodup
  governor : ∀ a, s.isGovernor a = true ↔ a ∈ s.governors
  approver : ∀ actionId a, s.hasApproved actionId a = true → a ∈ s.governors
  counted : ∀ actionId, (s.actions actionId).approvalCount = s.approvers actionId
  unknown : ∀ actionId, (s.actions actionId).exists_ = false →
    (∀ a, s.hasApproved actionId a = false) ∧ (s.actions actionId).executed = false
  numbered : ∀ actionId, (s.actions actionId).exists_ = true →
    ∃ policyKind policyHash n, n < s.actionCounter ∧
      (actionId = versionActionId evm this policyKind policyHash n ∨
        actionId = invalidationActionId evm this policyKind policyHash n)
  quorum : ∀ actionId, (s.actions actionId).executed = true →
    REQUIRED_APPROVALS ≤ (s.actions actionId).approvalCount

/-- A number of at least two is of two different ones. -/
theorem two_of_countP {α : Type*} {l : List α} (hnodup : l.Nodup) {f : α → Bool}
    (h : 2 ≤ l.countP f) : ∃ a ∈ l, ∃ b ∈ l, a ≠ b ∧ f a = true ∧ f b = true := by
  rw [List.countP_eq_length_filter] at h
  rcases hfilter : l.filter f with - | ⟨a, - | ⟨b, rest⟩⟩
  · simp [hfilter] at h
  · simp [hfilter] at h
  · have hmem : ∀ c ∈ a :: b :: rest, c ∈ l ∧ f c = true := fun c hc =>
      List.mem_filter.1 (hfilter ▸ hc)
    have hne := hnodup.filter f
    rw [hfilter, List.nodup_cons] at hne
    exact ⟨a, (hmem a (by simp)).1, b, (hmem b (by simp)).1, fun heq => hne.1 (by simp [heq]),
      (hmem a (by simp)).2, (hmem b (by simp)).2⟩

end Tally

section Steps

variable [DecidableEq A] [DecidableEq B] [Zero B] {evm : Evm A B} {this : A}
  {s s' : State A B} {tx : Tx A B} {logs : List (Event A B)}

/-- The action a call approves. -/
def Call.approves : Call B → Option B
  | .approveVersion actionId | .approveInvalidation actionId => some actionId
  | _ => none

/-- An action that is proposed: it has the approval of its proposer, and the next number. -/
structure Proposal (evm : Evm A B) (this : A) (s s' : State A B) (actionId : B)
    (action : GovernanceAction A B) : Prop where
  id : ∃ policyKind policyHash,
    actionId = versionActionId evm this policyKind policyHash s.actionCounter ∨
      actionId = invalidationActionId evm this policyKind policyHash s.actionCounter
  count : action.approvalCount = 1
  pending : action.executed = false
  next : s'.actionCounter = s.actionCounter + 1

/-- An action that is approved once more. -/
structure Approval (s s' : State A B) (tx : Tx A B) (actionId : B)
    (action : GovernanceAction A B) : Prop where
  known : (s.actions actionId).exists_ = true
  pending : (s.actions actionId).executed = false
  fresh : s.hasApproved actionId tx.sender = false
  count : action.approvalCount = (s.actions actionId).approvalCount + 1
  executed : action.executed = true ↔ REQUIRED_APPROVALS ≤ action.approvalCount
  next : s'.actionCounter = s.actionCounter

/-- What an accepted call does to the actions. -/
theorem call_actions (hcall : call evm this s tx = .ok (s', logs)) :
    s.isGovernor tx.sender = true ∧ s'.governors = s.governors ∧ s'.isGovernor = s.isGovernor ∧
    ∃ actionId action, s'.actions = Function.update s.actions actionId action ∧
      s'.hasApproved = Function.update s.hasApproved actionId
        (Function.update (s.hasApproved actionId) tx.sender true) ∧
      action.exists_ = true ∧
      (tx.call.approves = none ∧ Proposal evm this s s' actionId action ∨
        tx.call.approves = some actionId ∧ Approval s s' tx actionId action) := by
  rcases htx : tx.call with ⟨policyKind, policyHash, metadataHash⟩ | actionId |
    ⟨policyKind, policyHash, reasonHash, exposureStart, exposureEnd⟩ | actionId
  · simp only [call, htx] at hcall
    obtain ⟨hgovernor, -, rfl⟩ := proposeVersion_ok hcall
    exact ⟨hgovernor, rfl, rfl, _, _, rfl, rfl, rfl,
      .inl ⟨rfl, ⟨_, _, .inl rfl⟩, rfl, rfl, rfl⟩⟩
  · simp only [call, htx] at hcall
    obtain ⟨hgovernor, hexists, hpending, -, hfresh, hcases⟩ := approveVersion_ok hcall
    rcases hcases with ⟨hfew, rfl⟩ | ⟨hquorum, rfl⟩
    · exact ⟨hgovernor, rfl, rfl, actionId, _, rfl, rfl, hexists,
        .inr ⟨rfl, hexists, hpending, hfresh, rfl, by simp [hpending, hfew], rfl⟩⟩
    · exact ⟨hgovernor, rfl, rfl, actionId, _, rfl, rfl, hexists,
        .inr ⟨rfl, hexists, hpending, hfresh, rfl, by simp [hquorum], rfl⟩⟩
  · simp only [call, htx] at hcall
    obtain ⟨hgovernor, -, -, rfl⟩ := proposeInvalidation_ok hcall
    exact ⟨hgovernor, rfl, rfl, _, _, rfl, rfl, rfl,
      .inl ⟨rfl, ⟨_, _, .inr rfl⟩, rfl, rfl, rfl⟩⟩
  · simp only [call, htx] at hcall
    obtain ⟨hgovernor, hexists, hpending, -, hfresh, hcases⟩ := approveInvalidation_ok hcall
    rcases hcases with ⟨hfew, rfl⟩ | ⟨hquorum, -, rfl⟩
    · exact ⟨hgovernor, rfl, rfl, actionId, _, rfl, rfl, hexists,
        .inr ⟨rfl, hexists, hpending, hfresh, rfl, by simp [hpending, hfew], rfl⟩⟩
    · exact ⟨hgovernor, rfl, rfl, actionId, _, rfl, rfl, hexists,
        .inr ⟨rfl, hexists, hpending, hfresh, rfl, by simp [hquorum], rfl⟩⟩

omit [DecidableEq A] [DecidableEq B] [Zero B] in
/-- Actions are numbered, so the next one is new. -/
theorem State.Tallied.proposal_unknown (hk : Function.Injective evm.keccak256)
    (h : s.Tallied evm this) {actionId : B} {action : GovernanceAction A B}
    (hproposal : Proposal evm this s s' actionId action) :
    (s.actions actionId).exists_ = false := by
  by_contra hexists
  obtain ⟨k, p, n, hn, hid⟩ := h.numbered actionId (by simpa using hexists)
  obtain ⟨k', p', hid'⟩ := hproposal.id
  have hsame : n = s.actionCounter := by
    rcases hid with rfl | rfl
    · rcases hid' with hid' | hid'
      · have hargs := hk hid'
        simp only [Preimage.encodePacked.injEq, List.cons.injEq, Word.uint.injEq] at hargs
        omega
      · exact absurd (hk hid') (by simp)
    · rcases hid' with hid' | hid'
      · exact absurd (hk hid') (by simp)
      · have hargs := hk hid'
        simp only [Preimage.encodePacked.injEq, List.cons.injEq, Word.uint.injEq] at hargs
        omega
  omega

theorem call_tallied (hk : Function.Injective evm.keccak256) (h : s.Tallied evm this)
    (hcall : call evm this s tx = .ok (s', logs)) : s'.Tallied evm this := by
  obtain ⟨hgovernor, hgovernors, hisGovernor, actionId, action, hactions, happroved, hexists, hcases⟩ :=
    call_actions hcall
  have hsender : tx.sender ∈ s.governors := (h.governor _).1 hgovernor
  have hcount : action.approvalCount = s.approvers actionId + 1 ∧
      s.hasApproved actionId tx.sender = false := by
    rcases hcases with ⟨-, hproposal⟩ | ⟨-, happroval⟩
    · have hunknown := h.unknown actionId (h.proposal_unknown hk hproposal)
      refine ⟨?_, hunknown.1 _⟩
      have hzero : s.approvers actionId = 0 := by
        simp [State.approvers, hunknown.1]
      rw [hproposal.count, hzero]
    · rw [happroval.count, h.counted]
      exact ⟨rfl, happroval.fresh⟩
  have happrovers (id : B) : s'.approvers id =
      if id = actionId then s.approvers actionId + 1 else s.approvers id := by
    unfold State.approvers
    rw [hgovernors, happroved, Function.update_apply]
    split_ifs with hid
    · exact countP_update h.nodup hsender hcount.2
    · rfl
  refine {
    nodup := hgovernors ▸ h.nodup
    governor := by rw [hgovernors, hisGovernor]; exact h.governor
    approver := fun id a ha => ?_
    counted := fun id => ?_
    unknown := fun id hid => ?_
    numbered := fun id hid => ?_
    quorum := fun id hid => ?_ }
  · rw [happroved, Function.update_apply] at ha
    rw [hgovernors]
    split_ifs at ha with hid
    · rw [Function.update_apply] at ha
      split_ifs at ha with hsame
      · exact hsame ▸ hsender
      · exact h.approver _ a ha
    · exact h.approver _ a ha
  · rw [happrovers, hactions, Function.update_apply]
    split_ifs with hid
    · exact hcount.1
    · exact h.counted id
  · rw [hactions, Function.update_apply] at hid
    rw [happroved, hactions, Function.update_apply, Function.update_apply]
    split_ifs at hid ⊢ with hsame
    · rw [hexists] at hid
      cases hid
    · exact h.unknown id hid
  · rcases hcases with ⟨-, hproposal⟩ | ⟨-, happroval⟩
    · rw [hproposal.next]
      by_cases hsame : id = actionId
      · obtain ⟨k, p, hk'⟩ := hproposal.id
        exact ⟨k, p, _, Nat.lt_succ_self _, hsame ▸ hk'⟩
      · rw [hactions, Function.update_of_ne hsame] at hid
        obtain ⟨k, p, n, hn, hid⟩ := h.numbered id hid
        exact ⟨k, p, n, Nat.lt_succ_of_lt hn, hid⟩
    · rw [happroval.next]
      by_cases hsame : id = actionId
      · exact h.numbered id (hsame ▸ happroval.known)
      · rw [hactions, Function.update_of_ne hsame] at hid
        exact h.numbered id hid
  · rw [hactions, Function.update_apply] at hid ⊢
    split_ifs at hid ⊢ with hsame
    · rcases hcases with ⟨-, hproposal⟩ | ⟨-, happroval⟩
      · rw [hproposal.pending] at hid
        cases hid
      · exact happroval.executed.1 hid
    · exact h.quorum id hid

/-- An executed action stays as it is. -/
theorem call_executed (hk : Function.Injective evm.keccak256) (h : s.Tallied evm this)
    (hcall : call evm this s tx = .ok (s', logs)) {actionId : B}
    (hexecuted : (s.actions actionId).executed = true) :
    s'.actions actionId = s.actions actionId ∧ tx.call.approves ≠ some actionId := by
  obtain ⟨-, -, -, id, action, hactions, -, -, hcases⟩ := call_actions hcall
  have hne : actionId ≠ id := by
    rintro rfl
    rcases hcases with ⟨-, hproposal⟩ | ⟨-, happroval⟩
    · rw [(h.unknown actionId (h.proposal_unknown hk hproposal)).2] at hexecuted
      cases hexecuted
    · rw [happroval.pending] at hexecuted
      cases hexecuted
  rw [hactions, Function.update_of_ne hne]
  refine ⟨rfl, ?_⟩
  rcases hcases with ⟨hnone, -⟩ | ⟨hsome, -⟩
  · rw [hnone]
    simp
  · rw [hsome]
    simpa using Ne.symm hne

end Steps

section History

variable [DecidableEq A] [DecidableEq B] [Zero B] {evm : Evm A B} {this : A}
  {s s' : State A B} {tx : Tx A B} {logs : List (Event A B)}

/-- What was accepted of a run. -/
abbrev Past (A B : Type) := List (Accepted (State A B) (Tx A B) (List (Event A B)))

/-- The action that an accepted call executes: the one whose approvals it makes enough. -/
def executes (a : Accepted (State A B) (Tx A B) (List (Event A B))) : Option B :=
  a.input.call.approves.filter fun actionId =>
    REQUIRED_APPROVALS ≤ (a.pre.actions actionId).approvalCount + 1

/-- Executing an action is what sets its flag. -/
theorem executes_iff (hcall : call evm this s tx = .ok (s', logs)) (actionId : B) :
    executes ⟨s, tx, logs⟩ = some actionId ↔
      (s.actions actionId).executed = false ∧ (s'.actions actionId).executed = true := by
  obtain ⟨-, -, -, id, action, hactions, -, -, hcases⟩ := call_actions hcall
  rcases hcases with ⟨hnone, hproposal⟩ | ⟨hsome, happroval⟩
  · simp only [executes, hnone, Option.filter_none, reduceCtorEq, false_iff, not_and, hactions,
      Function.update_apply]
    intro hpending
    split_ifs with hid
    · rw [hproposal.pending]
      simp
    · rw [hpending]
      simp
  · simp only [executes, hsome, Option.filter_eq_some_iff, Option.some.injEq, decide_eq_true_eq,
      hactions, Function.update_apply]
    constructor
    · rintro ⟨rfl, hquorum⟩
      refine ⟨happroval.pending, ?_⟩
      rw [if_pos rfl]
      exact happroval.executed.2 (happroval.count ▸ hquorum)
    · rintro ⟨hpending, hexecuted⟩
      split_ifs at hexecuted with hid
      · rw [hid]
        exact ⟨rfl, happroval.count ▸ happroval.executed.1 hexecuted⟩
      · rw [hpending] at hexecuted
        cases hexecuted

/-- An accepted call executes an action of this kind for the policy. -/
def Executes (kind : ActionKind) (policyKind policyHash : B) (actionId : B)
    (a : Accepted (State A B) (Tx A B) (List (Event A B))) : Prop :=
  executes a = some actionId ∧ (a.pre.actions actionId).kind = kind ∧
    (a.pre.actions actionId).policyKind = policyKind ∧
    (a.pre.actions actionId).policyHash = policyHash

/-- What a version that is not invalidated owes its publication to. -/
def PublishedBy (past : Past A B) (s : State A B) (policyKind policyHash : B) : Prop :=
  ∃ as a bs actionId, past = as ++ a :: bs ∧
    Executes .scheduleVersion policyKind policyHash actionId a ∧
    (s.versions policyKind policyHash).effectiveFrom = a.input.timestamp64 + TIMELOCK_DELAY ∧
    (s.actions actionId).executed = true ∧
    ∀ b ∈ bs, ∀ id, ¬ Executes .invalidateVersion policyKind policyHash id b

def Published (past : Past A B) (s : State A B) : Prop :=
  ∀ policyKind policyHash, (s.versions policyKind policyHash).exists_ = true →
    (s.versions policyKind policyHash).status ≠ .invalidated →
    PublishedBy past s policyKind policyHash

omit [DecidableEq A] [DecidableEq B] [Zero B] in
theorem PublishedBy.later {past : Past A B} {policyKind policyHash : B}
    {a : Accepted (State A B) (Tx A B) (List (Event A B))}
    (h : PublishedBy past s policyKind policyHash)
    (hversion : s'.versions policyKind policyHash = s.versions policyKind policyHash)
    (hexecuted : ∀ actionId, (s.actions actionId).executed = true →
      (s'.actions actionId).executed = true)
    (ha : ∀ id, ¬ Executes .invalidateVersion policyKind policyHash id a) :
    PublishedBy (past ++ [a]) s' policyKind policyHash := by
  obtain ⟨as, p, bs, actionId, rfl, hp, heffective, hdone, hbs⟩ := h
  refine ⟨as, p, bs ++ [a], actionId, by simp, hp, by rw [hversion, heffective],
    hexecuted _ hdone, fun b hb => ?_⟩
  rcases List.mem_append.1 hb with hb | hb
  · exact hbs b hb
  · rw [List.mem_singleton.1 hb]
    exact ha

theorem call_published (hk : Function.Injective evm.keccak256) (ht : s.Tallied evm this)
    {past : Past A B} (h : Published past s) (hcall : call evm this s tx = .ok (s', logs)) :
    Published (past ++ [⟨s, tx, logs⟩]) s' := by
  have hexecuted (id : B) (hid : (s.actions id).executed = true) :
      (s'.actions id).executed = true := by
    rw [(call_executed hk ht hcall hid).1, hid]
  intro k p hexists hstatus
  have hunchanged (hversion : s'.versions k p = s.versions k p)
      (hnone : ∀ id, ¬ Executes .invalidateVersion k p id ⟨s, tx, logs⟩) :
      PublishedBy (past ++ [⟨s, tx, logs⟩]) s' k p := by
    rw [hversion] at hexists hstatus
    exact (h k p hexists hstatus).later hversion hexecuted hnone
  rcases htx : tx.call with ⟨policyKind, policyHash, metadataHash⟩ | actionId |
    ⟨policyKind, policyHash, reasonHash, exposureStart, exposureEnd⟩ | actionId
  · have hnone (id : B) : ¬ Executes .invalidateVersion k p id ⟨s, tx, logs⟩ := by
      simp [Executes, executes, htx, Call.approves]
    simp only [call, htx] at hcall
    obtain ⟨-, -, rfl⟩ := proposeVersion_ok hcall
    exact hunchanged rfl hnone
  · simp only [call, htx] at hcall
    obtain ⟨-, -, -, hkind, -, hcases⟩ := approveVersion_ok hcall
    have hnone (id : B) : ¬ Executes .invalidateVersion k p id ⟨s, tx, logs⟩ := by
      rintro ⟨hid, hinvalidate, -⟩
      simp only [executes, htx, Call.approves, Option.filter_eq_some_iff, Option.some.injEq] at hid
      rw [← hid.1, hkind] at hinvalidate
      cases hinvalidate
    rcases hcases with ⟨-, rfl⟩ | ⟨hquorum, rfl⟩
    · exact hunchanged rfl hnone
    · by_cases hkp : k = (s.actions actionId).policyKind ∧ p = (s.actions actionId).policyHash
      · obtain ⟨rfl, rfl⟩ := hkp
        refine ⟨past, ⟨s, tx, logs⟩, [], actionId, rfl, ⟨?_, hkind, rfl, rfl⟩, ?_, ?_, by simp⟩
        · simpa [executes, htx, Call.approves] using hquorum
        · simp [setVersion]
        · simp [setVersion, withApproval]
      · exact hunchanged (by rw [setVersion_versions, if_neg hkp]; rfl) hnone
  · have hnone (id : B) : ¬ Executes .invalidateVersion k p id ⟨s, tx, logs⟩ := by
      simp [Executes, executes, htx, Call.approves]
    simp only [call, htx] at hcall
    obtain ⟨-, -, -, rfl⟩ := proposeInvalidation_ok hcall
    exact hunchanged rfl hnone
  · simp only [call, htx] at hcall
    obtain ⟨-, -, -, -, -, hcases⟩ := approveInvalidation_ok hcall
    rcases hcases with ⟨hfew, rfl⟩ | ⟨-, -, rfl⟩
    · refine hunchanged rfl ?_
      rintro id ⟨hid, -⟩
      simp only [executes, htx, Call.approves, Option.filter_eq_some_iff, Option.some.injEq,
        decide_eq_true_eq] at hid
      exact absurd hid.2 (by rw [← hid.1]; exact Nat.not_le.2 hfew)
    · by_cases hkp : k = (s.actions actionId).policyKind ∧ p = (s.actions actionId).policyHash
      · have hinvalidated (v : PolicyVersion A B) : (setVersion s (s.actions actionId).policyKind
            (s.actions actionId).policyHash v).versions k p = v := by
          rw [setVersion_versions, if_pos hkp]
        exact absurd (congrArg PolicyVersion.status (hinvalidated _)) hstatus
      · refine hunchanged (by rw [setVersion_versions, if_neg hkp]; rfl) ?_
        rintro id ⟨hid, -, hkind, hhash⟩
        simp only [executes, htx, Call.approves, Option.filter_eq_some_iff, Option.some.injEq] at hid
        rw [← hid.1] at hkind hhash
        exact hkp ⟨hkind.symm, hhash.symm⟩

end History

section Runs

variable [DecidableEq A] [DecidableEq B] {evm : Evm A B} {this : A}

omit [DecidableEq B] in
theorem addGovernor_governors [Zero A] {s s' : State A B} {governor : A}
    (h : addGovernor s governor = .ok s') (hnodup : s.governors.Nodup)
    (hgovernor : ∀ a, s.isGovernor a = true ↔ a ∈ s.governors) :
    s'.governors = s.governors ++ [governor] ∧ s'.governors.Nodup ∧
      ∀ a, s'.isGovernor a = true ↔ a ∈ s'.governors := by
  simp only [addGovernor, bind_ok, revertIf_ok, pure_ok] at h
  obtain ⟨-, -, -, hnew, rfl⟩ := h
  rw [hgovernor] at hnew
  refine ⟨rfl, ?_, fun a => ?_⟩
  · rw [List.nodup_append]
    exact ⟨hnodup, List.nodup_singleton _, fun a ha b hb heq =>
      hnew (List.mem_singleton.1 hb ▸ heq ▸ ha)⟩
  · rw [List.mem_append, List.mem_singleton, ← hgovernor]
    dsimp only
    rw [Function.update_apply]
    split_ifs with ha
    · simp [ha]
    · simp [ha]

omit [DecidableEq B] in
variable (evm this) in
theorem deployed_tallied [Zero A] [Zero B] {g₁ g₂ g₃ : A} {s₀ : State A B}
    (h : constructor_ g₁ g₂ g₃ = .ok s₀) :
    s₀.governors = [g₁, g₂, g₃] ∧ s₀.Tallied evm this ∧ Published [] s₀ := by
  obtain ⟨_, _, hs₀⟩ := constructor_ok h
  simp only [constructor_, bind_ok] at h
  obtain ⟨s₁, h₁, s₂, h₂, h₃⟩ := h
  obtain ⟨hgovernors₁, hnodup₁, hgovernor₁⟩ :=
    addGovernor_governors h₁ List.nodup_nil (by simp [State.init])
  obtain ⟨hgovernors₂, hnodup₂, hgovernor₂⟩ := addGovernor_governors h₂ hnodup₁ hgovernor₁
  obtain ⟨hgovernors, hnodup, hgovernor⟩ := addGovernor_governors h₃ hnodup₂ hgovernor₂
  refine ⟨by rw [hgovernors, hgovernors₂, hgovernors₁]; rfl, ?_, ?_⟩
  · refine ⟨hnodup, hgovernor, ?_, ?_, ?_, ?_, ?_⟩
    · simp [hs₀, State.init]
    · simp [hs₀, State.init, State.approvers, noAction]
    · simp [hs₀, State.init, noAction]
    · simp [hs₀, State.init, noAction]
    · simp [hs₀, State.init, noAction]
  · intro k p hexists
    simp [hs₀, State.init, noVersion] at hexists

variable [Zero B]

theorem run_tallied (hk : Function.Injective evm.keccak256) {s : State A B}
    (h : s.Tallied evm this) (txs : List (Tx A B)) :
    (run (call evm this) s txs).Tallied evm this ∧
      (run (call evm this) s txs).governors = s.governors := by
  refine @run_invariant_all _ _ _ _ (call evm this)
    (fun s' => s'.Tallied evm this ∧ s'.governors = s.governors) ?_ _ txs ⟨h, rfl⟩
  rintro s₁ tx s₂ logs ⟨h₁, hgovernors⟩ hcall
  exact ⟨call_tallied hk h₁ hcall, (call_actions hcall).2.1.trans hgovernors⟩

theorem run_executed (hk : Function.Injective evm.keccak256) {s : State A B}
    (h : s.Tallied evm this) {actionId : B} (hexecuted : (s.actions actionId).executed = true)
    (txs : List (Tx A B)) : ((run (call evm this) s txs).actions actionId).executed = true := by
  have hboth := @run_invariant_all _ _ _ _ (call evm this)
    (fun s' => s'.Tallied evm this ∧ (s'.actions actionId).executed = true) ?_ _ txs ⟨h, hexecuted⟩
  · exact hboth.2
  · rintro s₁ tx s₂ logs ⟨h₁, hexecuted₁⟩ hcall
    refine ⟨call_tallied hk h₁ hcall, ?_⟩
    rw [(call_executed hk h₁ hcall hexecuted₁).1, hexecuted₁]

/-- No action is executed twice. -/
theorem executes_pairwise (hk : Function.Injective evm.keccak256) {s : State A B}
    (h : s.Tallied evm this) (txs : List (Tx A B)) :
    (accepted (call evm this) s txs).Pairwise fun a a' =>
      ∀ actionId, executes a = some actionId → executes a' ≠ some actionId := by
  refine @accepted_pairwise _ _ _ _ (call evm this) (fun s => s.Tallied evm this) _
    (fun s₁ tx s₂ logs h₁ hcall => ⟨call_tallied hk h₁ hcall, ?_⟩) _ txs h
  intro txs' a' ha' actionId hfirst hsecond
  have hdone := ((executes_iff hcall actionId).1 hfirst).2
  obtain ⟨as, bs, s₃, rfl, hrun, hcall'⟩ := mem_accepted ha'
  have htallied := (run_tallied hk (call_tallied hk h₁ hcall) as).1
  have hstill := run_executed hk (call_tallied hk h₁ hcall) hdone as
  rw [hrun] at htallied hstill
  have hpending := ((executes_iff hcall' actionId).1 hsecond).1
  rw [hpending] at hstill
  cases hstill

/-- Two governors have approved an action. -/
def State.TwoApproved (s : State A B) (actionId : B) : Prop :=
  ∃ g ∈ s.governors, ∃ g' ∈ s.governors, g ≠ g' ∧ s.hasApproved actionId g = true ∧
    s.hasApproved actionId g' = true

omit [DecidableEq A] [DecidableEq B] [Zero B] in
theorem State.Tallied.twoApproved {s : State A B} (h : s.Tallied evm this) {actionId : B}
    (hexecuted : (s.actions actionId).executed = true) : s.TwoApproved actionId := by
  have hquorum := h.quorum actionId hexecuted
  rw [h.counted] at hquorum
  exact two_of_countP h.nodup hquorum

/-- After any run: the count of an action is the number of the governors who approved it, an executed
action has two of them and is executed once, and what is effective was published by the execution of
an action 72 hours before, and not invalidated since. -/
theorem two_of_three [Zero A] (hk : Function.Injective evm.keccak256) {g₁ g₂ g₃ : A} {s₀ : State A B}
    (h : constructor_ g₁ g₂ g₃ = .ok s₀) {txs : List (Tx A B)}
    (htime : ∀ tx ∈ txs, tx.timestamp < 2 ^ 64) :
    let s := run (call evm this) s₀ txs
    let accepted := accepted (call evm this) s₀ txs
    (s.governors = [g₁, g₂, g₃] ∧ s.governors.Nodup) ∧
    (∀ actionId, (s.actions actionId).approvalCount = s.approvers actionId ∧
      ∀ a, s.hasApproved actionId a = true → a ∈ s.governors) ∧
    (∀ actionId, (s.actions actionId).executed = true → s.TwoApproved actionId) ∧
    accepted.Pairwise (fun a a' =>
      ∀ actionId, executes a = some actionId → executes a' ≠ some actionId) ∧
    ∀ t policyKind policyHash, isEffective s t policyKind policyHash = true →
      ∃ as a bs actionId, accepted = as ++ a :: bs ∧
        Executes .scheduleVersion policyKind policyHash actionId a ∧ s.TwoApproved actionId ∧
        a.input.timestamp + TIMELOCK_DELAY ≤ t ∧
        ∀ b ∈ bs, ∀ id, ¬ Executes .invalidateVersion policyKind policyHash id b := by
  intro s accepted
  obtain ⟨hgovernors, htallied₀, hpublished₀⟩ := deployed_tallied evm this h
  obtain ⟨htallied, hsame⟩ := run_tallied hk htallied₀ txs
  refine ⟨⟨hsame.trans hgovernors, htallied.nodup⟩,
    fun id => ⟨htallied.counted id, htallied.approver id⟩, fun id => htallied.twoApproved,
    executes_pairwise hk htallied₀ txs, fun t k p heffective => ?_⟩
  have hpublished := @accepted_history _ _ _ _ (call evm this)
    (fun past s => s.Tallied evm this ∧ Published past s)
    (fun _ _ _ _ _ h hcall => ⟨call_tallied hk h.1 hcall, call_published hk h.1 h.2 hcall⟩)
    _ [] txs ⟨htallied₀, hpublished₀⟩
  unfold isEffective at heffective
  dsimp only at heffective
  split_ifs at heffective with hgone
  rw [not_or] at hgone
  obtain ⟨as, a, bs, id, hsplit, hexecutes, hfrom, hdone, hbs⟩ :=
    hpublished.2 k p (by simpa using hgone.1) hgone.2
  refine ⟨as, a, bs, id, hsplit, hexecutes, htallied.twoApproved hdone, ?_, hbs⟩
  obtain ⟨js, ks, -, rfl, -⟩ := accepted_split hsplit
  have hbound := htime a.input (by simp)
  rw [hfrom, Tx.timestamp64, Nat.mod_eq_of_lt hbound] at heffective
  exact of_decide_eq_true heffective

end Runs

section Example

/-- Governor 1 proposes hash 5 of kind 4, and governor 2 approves it. -/
def publication : List (Tx ℕ Symbol) :=
  [{ timestamp := 10, sender := 1, call := .proposeVersion (.nat 4) (.nat 5) (.nat 100) },
   { timestamp := 12, sender := 2, call := .approveVersion (proposedId 0) }]

theorem two_of_three_publication :
    ∃ as a bs actionId, accepted (call Symbol.evm 9) exampleRegistry publication = as ++ a :: bs ∧
      Executes .scheduleVersion (.nat 4) (.nat 5) actionId a ∧
      (run (call Symbol.evm 9) exampleRegistry publication).TwoApproved actionId ∧
      a.input.timestamp + TIMELOCK_DELAY ≤ 259212 ∧
      ∀ b ∈ bs, ∀ id, ¬ Executes .invalidateVersion (.nat 4) (.nat 5) id b :=
  (@two_of_three _ _ _ _ Symbol.evm 9 _ _ Symbol.keccak256_injective 1 2 3 exampleRegistry rfl
    publication (by decide)).2.2.2.2 259212 (.nat 4) (.nat 5) (by decide)

end Example

end Linvesther.PolicyRegistry
