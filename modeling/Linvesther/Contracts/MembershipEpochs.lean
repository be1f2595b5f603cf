import Linvesther.Contracts.CommandReplay

/-! The membership of a track over a whole run: the latest epoch lists its active accounts, and the
epochs are a chain of roots that only grows. -/

namespace Linvesther.AccountRegistry

open Transaction

variable {A B : Type}

section Rebuild

variable [DecidableEq B] [Zero B]

/-- The loop of `removeAccount`: what is not left out is written at the next index of an array, and
an index past its end panics. -/
def rebuild (accountId : B) : List B → List B → ℕ → Except (Error B) (List B)
  | [], nextMembers, _ => pure nextMembers
  | member :: members, nextMembers, writeIndex =>
    if member ≠ accountId then do
      revertIf (nextMembers.length ≤ writeIndex) .panic
      rebuild accountId members (nextMembers.set writeIndex member) (writeIndex + 1)
    else rebuild accountId members nextMembers writeIndex

/-- The array is one shorter than the members, if there are any, and zero at first. -/
def rebuildMembers (members : List B) (accountId : B) : Except (Error B) (List B) := do
  revertIf (members.length < 1) .panic
  rebuild accountId members (List.replicate (members.length - 1) 0) 0

omit [DecidableEq B] [Zero B] in
theorem set_length_append (kept free : List B) (slot member : B) :
    (kept ++ slot :: free).set kept.length member = kept ++ [member] ++ free := by
  induction kept with
  | nil => rfl
  | cons k kept ih => simp

/-- The loop fills the array from the left. -/
theorem rebuild_eq (accountId : B) (members kept : List B) (free : ℕ) :
    rebuild accountId members (kept ++ List.replicate free 0) kept.length =
      if free < (members.filter (· ≠ accountId)).length then .error .panic
      else .ok (kept ++ members.filter (· ≠ accountId) ++
        List.replicate (free - (members.filter (· ≠ accountId)).length) 0) := by
  induction members generalizing kept free with
  | nil => simp [rebuild, pure, Except.pure]
  | cons member members ih =>
    unfold rebuild
    by_cases hmember : member = accountId
    · simp only [hmember, ne_eq, not_true_eq_false, if_false, decide_false, Bool.false_eq_true,
        not_false_eq_true, List.filter_cons_of_neg]
      exact ih kept free
    · simp only [ne_eq, hmember, not_false_eq_true, if_true, decide_true, List.filter_cons_of_pos,
        List.length_cons]
      rcases free with - | free
      · simp [revertIf, bind, Except.bind]
      · have hbound : ¬ (kept ++ List.replicate (free + 1) (0 : B)).length ≤ kept.length := by simp
        have hset : (kept ++ List.replicate (free + 1) (0 : B)).set kept.length member =
            (kept ++ [member]) ++ List.replicate free 0 := set_length_append kept _ 0 member
        have hlength : kept.length + 1 = (kept ++ [member]).length := by simp
        rw [hset, hlength]
        simp only [revertIf, if_neg hbound, bind, Except.bind]
        rw [ih, Nat.add_sub_add_right, List.append_assoc kept, List.singleton_append]
        simp only [Nat.add_lt_add_iff_right]

/-- What the loop leaves is what the model of `removeAccount` says. -/
theorem rebuildMembers_eq (members : List B) (accountId : B) :
    rebuildMembers members accountId = membersWithout members accountId := by
  have hloop := rebuild_eq accountId members [] (members.length - 1)
  rw [List.nil_append, List.length_nil, List.nil_append] at hloop
  unfold rebuildMembers membersWithout
  rw [hloop]
  rcases members with - | ⟨member, members⟩
  · rfl
  · simp only [revertIf, List.length_cons, Nat.not_lt.2 (Nat.le_add_left 1 _), if_false,
      reduceCtorEq, bind, Except.bind]
    split_ifs
    · rfl
    · rfl

/-- A member is left out of members that are listed once. -/
theorem membersWithout_of_mem {members : List B} (hnodup : members.Nodup) {accountId : B}
    (hmem : accountId ∈ members) :
    membersWithout members accountId = .ok (members.filter (· ≠ accountId)) := by
  have hlength : (members.filter (· ≠ accountId)).length = members.length - 1 := by
    rw [← List.length_erase_of_mem hmem, hnodup.erase_eq_filter]
    congr 1
    refine List.filter_congr fun member _ => ?_
    by_cases hmember : member = accountId
    · simp [hmember]
    · simp [hmember]
  unfold membersWithout
  dsimp only
  rw [hlength, Nat.sub_self, List.replicate_zero, List.append_nil]
  simp [revertIf, List.ne_nil_of_mem hmem, bind, Except.bind, pure, Except.pure]

end Rebuild

section Members

/-- A registered, active account of the track. -/
def AccountBinding.Member (account : AccountBinding B) (trackId : B) : Prop :=
  account.exists_ = true ∧ account.state = .active ∧ account.trackId = trackId

/-- The current members are the active accounts, each once. -/
def State.Membership (s : State B) (trackId : B) : Prop :=
  (currentMembers s trackId).Nodup ∧
    ∀ accountId, accountId ∈ currentMembers s trackId ↔ (s.accounts accountId).Member trackId

variable [DecidableEq B] [Zero B] {evm : Evm A B} {this : A}
  {identityRegistry : IdentityRegistry.State A B} {s s' : State B} {b : Block A B}

omit [Zero B] in
theorem State.Membership.same {accountId : B} {account : AccountBinding B}
    (h : ∀ trackId, s.Membership trackId) (hepochs : s'.membershipEpochs = s.membershipEpochs)
    (haccounts : s'.accounts = Function.update s.accounts accountId account)
    (hmember : ∀ trackId, account.Member trackId ↔ (s.accounts accountId).Member trackId) :
    ∀ trackId, s'.Membership trackId := by
  intro trackId
  unfold State.Membership currentMembers
  rw [hepochs]
  refine ⟨(h trackId).1, fun id => ((h trackId).2 id).trans ?_⟩
  rw [haccounts, Function.update_apply]
  split_ifs with hid
  · rw [hid, hmember]
  · rfl

omit [DecidableEq B] [Zero B] in
theorem currentMembers_of_concat {epoch : MembershipEpoch B} {epochs : List (MembershipEpoch B)}
    {trackId : B} (h : s.membershipEpochs trackId = epochs ++ [epoch]) :
    currentMembers s trackId = epoch.accountIds := by
  unfold currentMembers
  rw [h, List.getLast?_concat]

omit [Zero B] in
theorem State.Membership.next {accountId trackId : B} {account : AccountBinding B}
    {epoch : MembershipEpoch B} (h : ∀ trackId, s.Membership trackId)
    (hepochs : s'.membershipEpochs = Function.update s.membershipEpochs trackId
      (s.membershipEpochs trackId ++ [epoch]))
    (haccounts : s'.accounts = Function.update s.accounts accountId account)
    (hnodup : epoch.accountIds.Nodup)
    (hmembers : ∀ id, id ∈ epoch.accountIds ↔ (s'.accounts id).Member trackId)
    (hother : ∀ t, t ≠ trackId →
      (account.Member t ↔ (s.accounts accountId).Member t)) :
    ∀ trackId, s'.Membership trackId := by
  intro t
  by_cases ht : t = trackId
  · subst ht
    have hcurrent : currentMembers s' t = epoch.accountIds :=
      currentMembers_of_concat (by rw [hepochs, Function.update_self])
    unfold State.Membership
    rw [hcurrent]
    exact ⟨hnodup, hmembers⟩
  · have hcurrent : currentMembers s' t = currentMembers s t := by
      unfold currentMembers
      rw [hepochs, Function.update_of_ne ht]
    unfold State.Membership
    rw [hcurrent]
    refine ⟨(h t).1, fun id => ((h t).2 id).trans ?_⟩
    rw [haccounts, Function.update_apply]
    split_ifs with hid
    · rw [hid, hother t ht]
    · rfl

/-- Every accepted call keeps the two views of the members equal, as long as a registration takes a
new id. -/
theorem call_membership {c : Call B} {logs : List (Event B)}
    (hfresh : ∀ trackId, (s.accounts (evm.keccak256 (.encodePacked [.uint evm.chainid, .address this,
      .bytes32 trackId, .uint s.accountCounter]))).exists_ = false)
    (h : ∀ trackId, s.Membership trackId)
    (hcall : call evm this identityRegistry s b c = .ok (s', logs)) :
    ∀ trackId, s'.Membership trackId := by
  rcases c with trackId | accountId | accountId | accountId
  · obtain ⟨hepochs, haccounts⟩ := registerAccount_ok hcall
    refine State.Membership.same h hepochs haccounts fun t => ?_
    simp [AccountBinding.Member, hfresh trackId]
  · obtain ⟨hexists, hstate, haccounts, hepochs⟩ := activateAccount_ok hcall
    have hnew : accountId ∉ currentMembers s (s.accounts accountId).trackId := by
      rw [(h _).2]
      simp [AccountBinding.Member, hstate]
    refine State.Membership.next h hepochs haccounts ?_ (fun id => ?_) fun t ht => ?_
    · refine List.nodup_append.2 ⟨(h _).1, List.nodup_singleton _, fun id hid id' hid' heq => ?_⟩
      rw [heq, List.mem_singleton.1 hid'] at hid
      exact hnew hid
    · dsimp only [nextEpoch]
      rw [haccounts, Function.update_apply, List.mem_append, List.mem_singleton, (h _).2]
      split_ifs with hid
      · simp [hid, AccountBinding.Member, hexists]
      · simp [hid]
    · simp [AccountBinding.Member, Ne.symm ht]
  · obtain ⟨hexists, haccounts, ⟨hactive, members, hmembers, hepochs⟩ | ⟨hinactive, hepochs⟩⟩ :=
      removeAccount_ok hcall
    · have hmem : accountId ∈ currentMembers s (s.accounts accountId).trackId :=
        ((h _).2 accountId).2 ⟨hexists, hactive, rfl⟩
      rw [membersWithout_of_mem (h _).1 hmem] at hmembers
      obtain rfl := Except.ok.inj hmembers
      refine State.Membership.next h hepochs haccounts ?_ (fun id => ?_) fun t ht => ?_
      · exact (h _).1.filter _
      · dsimp only [nextEpoch]
        rw [haccounts, Function.update_apply, List.mem_filter, (h _).2, decide_eq_true_eq]
        split_ifs with hid
        · simp [hid, AccountBinding.Member]
        · simp [hid]
      · simp [AccountBinding.Member, Ne.symm ht]
    · refine State.Membership.same h hepochs haccounts fun t => ?_
      simp [AccountBinding.Member, hinactive]
  · obtain ⟨hexists, hstate, rfl⟩ := rotateBindingCredential_ok hcall
    exact State.Membership.same h rfl rfl fun t => Iff.rfl

/-- What an accepted call does to the epochs of a track: nothing, or it opens the next one. -/
theorem call_epochs {c : Call B} {logs : List (Event B)}
    (hcall : call evm this identityRegistry s b c = .ok (s', logs)) (trackId : B) :
    s'.membershipEpochs trackId = s.membershipEpochs trackId ∨
      ∃ members reasonHash, s'.membershipEpochs trackId =
        s.membershipEpochs trackId ++ [nextEpoch evm s b trackId members reasonHash] := by
  have hupdate {t members reasonHash} (hepochs : s'.membershipEpochs =
      Function.update s.membershipEpochs t
        (s.membershipEpochs t ++ [nextEpoch evm s b t members reasonHash])) :
      s'.membershipEpochs trackId = s.membershipEpochs trackId ∨
        ∃ members reasonHash, s'.membershipEpochs trackId =
          s.membershipEpochs trackId ++ [nextEpoch evm s b trackId members reasonHash] := by
    rw [hepochs, Function.update_apply]
    split_ifs with ht
    · subst ht
      exact .inr ⟨members, reasonHash, rfl⟩
    · exact .inl rfl
  rcases c with _ | accountId | accountId | accountId
  · exact .inl (by rw [(registerAccount_ok hcall).1])
  · exact hupdate (activateAccount_ok hcall).2.2.2
  · obtain ⟨-, -, ⟨-, members, -, hepochs⟩ | ⟨-, hepochs⟩⟩ := removeAccount_ok hcall
    · exact hupdate hepochs
    · exact .inl (by rw [hepochs])
  · obtain ⟨-, -, rfl⟩ := rotateBindingCredential_ok hcall
    exact .inl rfl

end Members

section Epochs

/-- The epochs of a track are a chain of roots, each the hash of its own ids. -/
structure Chained [Zero B] (evm : Evm A B) (epochs : List (MembershipEpoch B)) : Prop where
  rooted : ∀ epoch ∈ epochs, epoch.accountSetRoot = evm.keccak256 (.encodeArray epoch.accountIds)
  first : ∀ epoch ∈ epochs.head?, epoch.previousRoot = 0
  linked : epochs.IsChain fun epoch next => next.previousRoot = epoch.accountSetRoot

variable [DecidableEq B] [Zero B] {evm : Evm A B} {this : A}
  {identityRegistry : IdentityRegistry.State A B} {s s' : State B} {b : Block A B}

theorem call_chained {c : Call B} {logs : List (Event B)} {trackId : B}
    (h : Chained evm (s.membershipEpochs trackId))
    (hcall : call evm this identityRegistry s b c = .ok (s', logs)) :
    Chained evm (s'.membershipEpochs trackId) := by
  rcases call_epochs hcall trackId with hsame | ⟨members, reasonHash, hnext⟩
  · rw [hsame]
    exact h
  · rw [hnext]
    refine ⟨fun epoch hepoch => ?_, fun epoch hepoch => ?_, ?_⟩
    · rcases List.mem_append.1 hepoch with hepoch | hepoch
      · exact h.rooted epoch hepoch
      · rw [List.mem_singleton.1 hepoch]
        rfl
    · rcases hepochs : s.membershipEpochs trackId with - | ⟨first, rest⟩
      · rw [hepochs] at hepoch
        obtain rfl := Option.some.inj hepoch
        simp [nextEpoch, hepochs]
      · rw [hepochs] at hepoch
        refine h.first epoch ?_
        rw [hepochs]
        exact hepoch
    · rw [List.isChain_append]
      refine ⟨h.linked, .singleton _, fun epoch hepoch next hnext => ?_⟩
      obtain rfl := Option.some.inj hnext
      rw [Option.mem_def] at hepoch
      simp [nextEpoch, hepoch]

end Epochs

section Runs

variable [DecidableEq A] [DecidableEq B] [Zero A] [Zero B] {evm : Evm A B} {at_ : Deployment A}

/-- The accounts and the epochs of every track. -/
def WellFormed (evm : Evm A B) (at_ : Deployment A) (w : World A B) : Prop :=
  w.Numbered evm at_ ∧ (∀ trackId, w.account.Membership trackId) ∧
    ∀ trackId, Chained evm (w.account.membershipEpochs trackId)

theorem world_wellFormed (hk : Function.Injective evm.keccak256) {w w' : World A B} {tx : Tx A B}
    {logs : List (World.Event A B)} (h : WellFormed evm at_ w)
    (hcall : World.call evm at_ w tx = .ok (w', logs)) : WellFormed evm at_ w' := by
  obtain ⟨hnumbered, hmembers, hchained⟩ := h
  refine ⟨(World.call_step hk hnumbered hcall).1, ?_⟩
  rcases World.call_ok hcall with ⟨c, s, l, -, -, rfl, -⟩ | ⟨c, s, l, -, hc, rfl, -⟩ |
    ⟨c, s, l, -, -, rfl, -⟩
  · exact ⟨hmembers, hchained⟩
  · refine ⟨call_membership (fun trackId => ?_) hmembers hc,
      fun trackId => call_chained (hchained trackId) hc⟩
    -- accounts are numbered, so the next id is new
    by_contra hexists
    obtain ⟨trackId', n, hn, hid⟩ := hnumbered.account _ (Bool.of_not_eq_false hexists)
    have hargs := hk hid
    simp only [Preimage.encodePacked.injEq, List.cons.injEq, Word.uint.injEq] at hargs
    omega
  · exact ⟨hmembers, hchained⟩

variable (at_) in
theorem run_wellFormed (hk : Function.Injective evm.keccak256) (txs : List (Tx A B)) :
    WellFormed evm at_ (World.run evm at_ .init txs) := by
  refine run_invariant_all (fun _ _ _ _ h hcall => world_wellFormed hk h hcall) txs
    ⟨World.init_numbered evm at_, fun trackId => ?_, fun trackId => ?_⟩
  · simp [State.Membership, currentMembers, World.init, State.init, AccountBinding.Member, noAccount]
  · exact ⟨by simp [World.init, State.init], by simp [World.init, State.init], .nil⟩

variable (evm at_) in
/-- What a transaction does to the epochs of a track, accepted or not. -/
theorem commit_epochs (w : World A B) (tx : Tx A B) (trackId : B) :
    (commit (World.call evm at_) w tx).account.membershipEpochs trackId =
        w.account.membershipEpochs trackId ∨
      ∃ members reasonHash, (commit (World.call evm at_) w tx).account.membershipEpochs trackId =
        w.account.membershipEpochs trackId ++
          [nextEpoch evm w.account tx.block trackId members reasonHash] := by
  rcases hcall : World.call evm at_ w tx with e | ⟨w', logs⟩
  · exact .inl (by rw [commit_error hcall])
  · rw [commit_ok hcall]
    rcases World.call_ok hcall with ⟨c, s, l, -, -, rfl, -⟩ | ⟨c, s, l, -, hc, rfl, -⟩ |
      ⟨c, s, l, -, -, rfl, -⟩
    · exact .inl rfl
    · exact call_epochs hc trackId
    · exact .inl rfl

variable (evm at_) in
/-- Epochs are only ever added. -/
theorem run_epochs_prefix (w : World A B) (txs : List (Tx A B)) (trackId : B) :
    w.account.membershipEpochs trackId <+:
      (World.run evm at_ w txs).account.membershipEpochs trackId := by
  induction txs generalizing w with
  | nil => exact List.prefix_refl _
  | cons tx txs ih =>
    refine List.IsPrefix.trans ?_ (ih (commit (World.call evm at_) w tx))
    rcases commit_epochs evm at_ w tx trackId with hsame | ⟨_, _, hnext⟩
    · rw [hsame]
    · rw [hnext]
      exact List.prefix_append _ _

/-- Epochs take effect at the times of the transactions that opened them, one after the other. -/
theorem run_epochs_ordered {txs : List (Tx A B)}
    (htime : txs.Pairwise fun tx tx' => tx.block.timestamp ≤ tx'.block.timestamp)
    (hbound : ∀ tx ∈ txs, tx.block.timestamp < 2 ^ 64) (trackId : B) :
    let epochs := (World.run evm at_ .init txs).account.membershipEpochs trackId
    (epochs.Pairwise fun epoch next => epoch.effectiveFrom ≤ next.effectiveFrom) ∧
      ∀ epoch ∈ epochs, ∃ tx ∈ txs, epoch.effectiveFrom = tx.block.timestamp := by
  induction txs using List.reverseRecOn with
  | nil => exact ⟨List.Pairwise.nil, fun epoch hepoch => absurd hepoch List.not_mem_nil⟩
  | append_singleton txs tx ih =>
    rw [List.pairwise_append] at htime
    obtain ⟨hordered, htimes⟩ := ih htime.1 fun tx htx => hbound tx (by simp [htx])
    intro epochs
    have hrun : epochs = (commit (World.call evm at_) (World.run evm at_ .init txs)
        tx).account.membershipEpochs trackId := by
      simp only [epochs, World.run, run_append, run_cons, run_nil]
    have hlast := hbound tx (by simp)
    rcases commit_epochs evm at_ (World.run evm at_ .init txs) tx trackId with
      hsame | ⟨members, reasonHash, hnext⟩
    · rw [hrun, hsame]
      refine ⟨hordered, fun epoch hepoch => ?_⟩
      obtain ⟨tx', htx', htime'⟩ := htimes epoch hepoch
      exact ⟨tx', by simp [htx'], htime'⟩
    · have hnow : (nextEpoch evm (World.run evm at_ .init txs).account tx.block trackId members
          reasonHash).effectiveFrom = tx.block.timestamp := Nat.mod_eq_of_lt hlast
      rw [hrun, hnext]
      refine ⟨List.pairwise_append.2 ⟨hordered, List.pairwise_singleton _ _, ?_⟩, ?_⟩
      · intro epoch hepoch next hnext
        obtain ⟨tx', htx', htime'⟩ := htimes epoch hepoch
        rw [List.mem_singleton.1 hnext, hnow, htime']
        exact htime.2.2 tx' htx' tx (by simp)
      · intro epoch hepoch
        rcases List.mem_append.1 hepoch with hepoch | hepoch
        · obtain ⟨tx', htx', htime'⟩ := htimes epoch hepoch
          exact ⟨tx', by simp [htx'], htime'⟩
        · rw [List.mem_singleton.1 hepoch]
          exact ⟨tx, by simp, hnow⟩

/-- After every run, and for every track: the current members are the active accounts, each once; the
epochs are a chain of roots that took effect in order; they extend those of every earlier point of
the run; and the loop that leaves out an active account stays within its array. -/
theorem membership_epochs (hk : Function.Injective evm.keccak256) {txs : List (Tx A B)}
    (htime : txs.Pairwise fun tx tx' => tx.block.timestamp ≤ tx'.block.timestamp)
    (hbound : ∀ tx ∈ txs, tx.block.timestamp < 2 ^ 64) (trackId : B) :
    let s := (World.run evm at_ .init txs).account
    s.Membership trackId ∧ Chained evm (s.membershipEpochs trackId) ∧
    ((s.membershipEpochs trackId).Pairwise fun epoch next =>
      epoch.effectiveFrom ≤ next.effectiveFrom) ∧
    (∀ earlier, earlier <+: txs →
      (World.run evm at_ .init earlier).account.membershipEpochs trackId <+:
        s.membershipEpochs trackId) ∧
    ∀ accountId, (s.accounts accountId).Member trackId →
      rebuildMembers (currentMembers s trackId) accountId =
        .ok ((currentMembers s trackId).filter (· ≠ accountId)) := by
  intro s
  obtain ⟨-, hmembers, hchained⟩ := run_wellFormed at_ hk txs
  refine ⟨hmembers trackId, hchained trackId, (run_epochs_ordered htime hbound trackId).1, ?_, ?_⟩
  · rintro earlier ⟨later, rfl⟩
    have hbegins := run_epochs_prefix evm at_ (World.run evm at_ .init earlier)
      later trackId
    simpa only [s, World.run, run_append] using hbegins
  · intro accountId hmember
    rw [rebuildMembers_eq]
    exact membersWithout_of_mem (hmembers trackId).1 (((hmembers trackId).2 accountId).2 hmember)

end Runs

section Example

def secondAccount : Symbol :=
  Symbol.keccak256 (.encodePacked [.uint 1, .address 2, .bytes32 exampleTrack, .uint 1])

/-- Two accounts are registered and activated, and the first one is removed. -/
def exampleMembership : List (Tx ℕ Symbol) :=
  [signedBy 7 (.identity (.createIdentity .person)),
   signedBy 7 (.identity (.createTrack exampleIdentity 0 0 0 0 20 [1])),
   signedBy 7 (.account (.registerAccount exampleTrack 0 0 .production 0 0 20 [2])),
   signedBy 7 (.account (.registerAccount exampleTrack 0 0 .production 0 1 20 [3])),
   signedBy 7 (.account (.activateAccount exampleAccount 10 0 0 2 20 [4])),
   signedBy 7 (.account (.activateAccount secondAccount 10 0 0 3 20 [5])),
   signedBy 7 (.account (.removeAccount exampleAccount 0 0 4 20 [6]))]

theorem signedBy_timestamp (signer : ℕ) (c : World.Call ℕ Symbol) :
    (signedBy signer c).block.timestamp = 10 := by
  unfold signedBy
  dsimp only
  split
  · rfl
  · rfl

theorem membership_epochs_removed :
    let s := (World.run Symbol.evm exampleDeployment .init exampleMembership).account
    (s.membershipEpochs exampleTrack).map (·.accountIds) =
      [[exampleAccount], [exampleAccount, secondAccount], [secondAccount]] ∧
    s.Membership exampleTrack ∧ Chained Symbol.evm (s.membershipEpochs exampleTrack) := by
  have hepochs := @membership_epochs _ _ _ _ _ _ Symbol.evm exampleDeployment
    Symbol.keccak256_injective exampleMembership (by simp [exampleMembership, signedBy_timestamp])
    (by simp [exampleMembership, signedBy_timestamp]) exampleTrack
  refine ⟨by decide +kernel, hepochs.1, ?_⟩
  have hchained := hepochs.2.1
  exact hchained

end Example

end Linvesther.AccountRegistry
