import Linvesther.Contracts.PolicyRegistry

/-! Published policy versions are immutable, as long as no second pending proposal for the same
hash is approved after the first one was published. -/

namespace Linvesther.PolicyRegistry

open Transaction

variable {A B : Type}

/-- What may still change of a version: a scheduled one may be invalidated. -/
structure PolicyVersion.Keeps (v v' : PolicyVersion A B) : Prop where
  exists_ : v'.exists_ = true
  metadataHash : v'.metadataHash = v.metadataHash
  proposer : v'.proposer = v.proposer
  publishedAt : v'.publishedAt = v.publishedAt
  effectiveFrom : v'.effectiveFrom = v.effectiveFrom
  invalidated : v.status = .invalidated → v' = v

theorem PolicyVersion.Keeps.refl {v : PolicyVersion A B} (h : v.exists_ = true) : v.Keeps v :=
  ⟨h, rfl, rfl, rfl, rfl, fun _ => rfl⟩

theorem PolicyVersion.Keeps.trans {v v' v'' : PolicyVersion A B} (h : v.Keeps v')
    (h' : v'.Keeps v'') : v.Keeps v'' where
  exists_ := h'.exists_
  metadataHash := h'.metadataHash.trans h.metadataHash
  proposer := h'.proposer.trans h.proposer
  publishedAt := h'.publishedAt.trans h.publishedAt
  effectiveFrom := h'.effectiveFrom.trans h.effectiveFrom
  invalidated hi := by
    have hsame := h.invalidated hi
    rw [← hsame]
    exact h'.invalidated (by rw [hsame]; exact hi)

/-- Every published version is still there and has changed by an invalidation at most. -/
def State.Keeps (s s' : State A B) : Prop :=
  ∀ policyKind policyHash, (s.versions policyKind policyHash).exists_ = true →
    (s.versions policyKind policyHash).Keeps (s'.versions policyKind policyHash)

theorem State.Keeps.refl (s : State A B) : s.Keeps s := fun _ _ h => .refl h

theorem State.Keeps.trans {s s' s'' : State A B} (h : s.Keeps s') (h' : s'.Keeps s'') :
    s.Keeps s'' :=
  fun k p he => (h k p he).trans (h' k p (h k p he).exists_)

/-- The history lists the published versions, and a scheduled one has no invalidation data. -/
structure State.Listed [Zero B] (s : State A B) : Prop where
  listed : ∀ policyKind policyHash, policyHash ∈ s.versionHistory policyKind ↔
    (s.versions policyKind policyHash).exists_ = true
  unset : ∀ policyKind policyHash, (s.versions policyKind policyHash).exists_ = true →
    (s.versions policyKind policyHash).status = .scheduled →
      (s.versions policyKind policyHash).invalidationReasonHash = 0 ∧
      (s.versions policyKind policyHash).invalidatedAt = 0 ∧
      (s.versions policyKind policyHash).exposureStart = 0 ∧
      (s.versions policyKind policyHash).exposureEnd = 0

def State.OncePublished (s : State A B) : Prop := ∀ policyKind, (s.versionHistory policyKind).Nodup

/-- A proposed action carries its proposer's approval. -/
def State.Counted (s : State A B) : Prop :=
  ∀ actionId, (s.actions actionId).exists_ = true → 1 ≤ (s.actions actionId).approvalCount

/-- The call approves the publication of a hash that is published already. -/
def Republishes (s : State A B) (tx : Tx A B) : Prop :=
  match tx.call with
  | .approveVersion actionId =>
    (s.versions (s.actions actionId).policyKind (s.actions actionId).policyHash).exists_ = true
  | _ => False

section Steps

variable [DecidableEq A] [DecidableEq B] [Zero B] {evm : Evm A B} {this : A}
  {s s' : State A B} {tx : Tx A B} {logs : List (Event A B)}

/-- What an accepted call does to the versions: nothing, an invalidation, or a publication. -/
theorem call_versions (hcall : call evm this s tx = .ok (s', logs)) :
    (s'.versions = s.versions ∧ s'.versionHistory = s.versionHistory) ∨
    (∃ k p v, (s.versions k p).status ≠ .invalidated ∧ v.exists_ = (s.versions k p).exists_ ∧
      v.status = .invalidated ∧ ((s.versions k p).exists_ = true → (s.versions k p).Keeps v) ∧
      s'.versions = (setVersion s k p v).versions ∧ s'.versionHistory = s.versionHistory) ∨
    (∃ actionId v, tx.call = .approveVersion actionId ∧ v.exists_ = true ∧
      (v.invalidationReasonHash = 0 ∧ v.invalidatedAt = 0 ∧ v.exposureStart = 0 ∧
        v.exposureEnd = 0) ∧
      s'.versions = (setVersion s (s.actions actionId).policyKind (s.actions actionId).policyHash
        v).versions ∧
      s'.versionHistory = Function.update s.versionHistory (s.actions actionId).policyKind
        (s.versionHistory (s.actions actionId).policyKind ++ [(s.actions actionId).policyHash])) := by
  cases hc : tx.call with
  | proposeVersion policyKind policyHash metadataHash =>
    simp only [call, hc] at hcall
    obtain ⟨-, -, rfl⟩ := proposeVersion_ok hcall
    exact .inl ⟨rfl, rfl⟩
  | approveVersion actionId =>
    simp only [call, hc] at hcall
    obtain ⟨-, -, -, -, -, ⟨-, rfl⟩ | ⟨-, rfl⟩⟩ := approveVersion_ok hcall
    · exact .inl ⟨rfl, rfl⟩
    · exact .inr (.inr ⟨actionId, _, rfl, rfl, ⟨rfl, rfl, rfl, rfl⟩, rfl, rfl⟩)
  | proposeInvalidation policyKind policyHash reasonHash exposureStart exposureEnd =>
    simp only [call, hc] at hcall
    obtain ⟨-, -, -, rfl⟩ := proposeInvalidation_ok hcall
    exact .inl ⟨rfl, rfl⟩
  | approveInvalidation actionId =>
    simp only [call, hc] at hcall
    obtain ⟨-, -, -, -, -, ⟨-, rfl⟩ | ⟨-, hstatus, rfl⟩⟩ := approveInvalidation_ok hcall
    · exact .inl ⟨rfl, rfl⟩
    · refine .inr (.inl ⟨_, _, _, hstatus, ?_, ?_, fun he => ?_, rfl, rfl⟩)
      · rfl
      · rfl
      · exact ⟨he, rfl, rfl, rfl, rfl, fun hi => absurd hi hstatus⟩

omit [Zero B] in
theorem withApproval_counted (h : s.Counted) (sender : A) (actionId : B)
    (action : GovernanceAction A B) (hone : 1 ≤ action.approvalCount) :
    (withApproval s sender actionId action).Counted := by
  intro id
  simp only [withApproval, Function.update_apply]
  split_ifs
  · exact fun _ => hone
  · exact h id

theorem call_counted (h : s.Counted) (hcall : call evm this s tx = .ok (s', logs)) : s'.Counted := by
  cases hc : tx.call with
  | proposeVersion policyKind policyHash metadataHash =>
    simp only [call, hc] at hcall
    obtain ⟨-, -, rfl⟩ := proposeVersion_ok hcall
    exact withApproval_counted h tx.sender _ _ (Nat.le_refl 1)
  | approveVersion actionId =>
    simp only [call, hc] at hcall
    obtain ⟨-, -, -, -, -, ⟨-, rfl⟩ | ⟨-, rfl⟩⟩ := approveVersion_ok hcall
    · exact withApproval_counted h tx.sender _ _ (Nat.le_add_left _ _)
    · exact withApproval_counted h tx.sender _ _ (Nat.le_add_left _ _)
  | proposeInvalidation policyKind policyHash reasonHash exposureStart exposureEnd =>
    simp only [call, hc] at hcall
    obtain ⟨-, -, -, rfl⟩ := proposeInvalidation_ok hcall
    exact withApproval_counted h tx.sender _ _ (Nat.le_refl 1)
  | approveInvalidation actionId =>
    simp only [call, hc] at hcall
    obtain ⟨-, -, -, -, -, ⟨-, rfl⟩ | ⟨-, -, rfl⟩⟩ := approveInvalidation_ok hcall
    · exact withApproval_counted h tx.sender _ _ (Nat.le_add_left _ _)
    · exact withApproval_counted h tx.sender _ _ (Nat.le_add_left _ _)

theorem call_listed (h : s.Listed) (hcall : call evm this s tx = .ok (s', logs)) : s'.Listed := by
  rcases call_versions hcall with ⟨hv, hh⟩ | ⟨k, p, v, -, hve, hvs, -, hv, hh⟩ |
    ⟨actionId, v, -, hve, hvu, hv, hh⟩
  · exact ⟨by rw [hv, hh]; exact h.listed, by rw [hv]; exact h.unset⟩
  · constructor
    · intro k' p'
      rw [hv, hh, setVersion_versions, h.listed]
      split_ifs with he
      · rw [he.1, he.2, hve]
      · rfl
    · intro k' p'
      rw [hv, setVersion_versions]
      split_ifs with he
      · intro _ hs
        rw [hvs] at hs
        cases hs
      · exact h.unset k' p'
  · constructor
    · intro k' p'
      rw [hv, hh, setVersion_versions, Function.update_apply]
      by_cases hk : k' = (s.actions actionId).policyKind
      · subst hk
        simp only [ite_true, true_and, List.mem_append, List.mem_singleton, h.listed]
        split_ifs with hp
        · simp [hp, hve]
        · simp [hp]
      · simp [hk, h.listed]
    · intro k' p'
      rw [hv, setVersion_versions]
      split_ifs with he
      · exact fun _ _ => hvu
      · exact h.unset k' p'

/-- A call that does not republish keeps every published version and lists no hash twice. -/
theorem call_keeps (h : s.Listed) (ho : s.OncePublished) (hgood : ¬ Republishes s tx)
    (hcall : call evm this s tx = .ok (s', logs)) : s.Keeps s' ∧ s'.OncePublished := by
  rcases call_versions hcall with ⟨hv, hh⟩ | ⟨k, p, v, -, -, -, hkeep, hv, hh⟩ |
    ⟨actionId, v, htx, hve, -, hv, hh⟩
  · refine ⟨fun k p he => ?_, by rw [State.OncePublished, hh]; exact ho⟩
    rw [hv]
    exact .refl he
  · refine ⟨fun k' p' he => ?_, by rw [State.OncePublished, hh]; exact ho⟩
    rw [hv, setVersion_versions]
    split_ifs with hkp
    · rw [hkp.1, hkp.2] at he ⊢
      exact hkeep he
    · exact .refl he
  · -- the published version is new, so no older one was touched
    have hnew : ¬ (s.versions (s.actions actionId).policyKind
        (s.actions actionId).policyHash).exists_ = true := by
      simpa [Republishes, htx] using hgood
    refine ⟨fun k' p' he => ?_, fun k' => ?_⟩
    · rw [hv, setVersion_versions]
      split_ifs with hkp
      · rw [hkp.1, hkp.2] at he
        exact absurd he hnew
      · exact .refl he
    · rw [hh, Function.update_apply]
      split_ifs with hk
      · refine List.nodup_append.2 ⟨ho _, by simp, ?_⟩
        intro p hp q hq hpq
        rw [List.mem_singleton.1 hq] at hpq
        exact hnew ((h.listed _ _).1 (hpq ▸ hp))
      · exact ho k'

/-- A history only ever grows. -/
theorem call_history (hcall : call evm this s tx = .ok (s', logs)) (policyKind : B) :
    s.versionHistory policyKind <+: s'.versionHistory policyKind := by
  rcases call_versions hcall with ⟨-, hh⟩ | ⟨k, p, v, -, -, -, -, -, hh⟩ | ⟨actionId, v, -, -, -, -, hh⟩
  · exact hh ▸ List.prefix_refl _
  · exact hh ▸ List.prefix_refl _
  · rw [hh, Function.update_apply]
    split_ifs with hk
    · rw [hk]; exact List.prefix_append _ _
    · exact List.prefix_refl _

/-- A call that republishes lists the hash a second time. -/
theorem call_republishes (h : s.Listed) (hc : s.Counted) (hbad : Republishes s tx)
    (hcall : call evm this s tx = .ok (s', logs)) : ¬ s'.OncePublished := by
  cases htx : tx.call with
  | approveVersion actionId =>
    simp only [Republishes, htx] at hbad
    simp only [call, htx] at hcall
    obtain ⟨-, hexists, -, -, -, ⟨hfew, -⟩ | ⟨-, rfl⟩⟩ := approveVersion_ok hcall
    · have := hc actionId hexists
      simp only [REQUIRED_APPROVALS] at hfew
      omega
    · intro hnodup
      have := hnodup (s.actions actionId).policyKind
      simp only [Function.update_self] at this
      exact (List.nodup_append.1 this).2.2 _ ((h.listed _ _).2 hbad) _ (by simp) rfl
  | proposeVersion => simp [Republishes, htx] at hbad
  | proposeInvalidation => simp [Republishes, htx] at hbad
  | approveInvalidation => simp [Republishes, htx] at hbad

end Steps

section Runs

variable [DecidableEq A] [DecidableEq B] [Zero B] {evm : Evm A B} {this : A}

variable (evm this) in
/-- Along the run published versions are kept, and at every point the history lists each of them
once. -/
def Immutable (s₀ : State A B) (txs : List (Tx A B)) : Prop :=
  ∀ as bs, as <+: bs → bs <+: txs →
    (run (call evm this) s₀ as).Keeps (run (call evm this) s₀ bs) ∧
    (run (call evm this) s₀ bs).Listed ∧ (run (call evm this) s₀ bs).OncePublished

omit [DecidableEq B] in
theorem deployed [Zero A] {g₁ g₂ g₃ : A} {s₀ : State A B} (h : constructor_ g₁ g₂ g₃ = .ok s₀) :
    s₀.Listed ∧ s₀.Counted ∧ s₀.OncePublished := by
  obtain ⟨_, _, rfl⟩ := constructor_ok h
  refine ⟨⟨fun k p => ?_, fun k p he => ?_⟩, fun id he => ?_, fun k => List.nodup_nil⟩
  · simp [State.init, noVersion]
  · simp [State.init, noVersion] at he
  · simp [State.init, noAction] at he

theorem run_listed {s : State A B} (h : s.Listed) (txs : List (Tx A B)) :
    (run (call evm this) s txs).Listed :=
  run_invariant_all (fun _ _ _ _ h hcall => call_listed h hcall) txs h

theorem run_counted {s : State A B} (h : s.Counted) (txs : List (Tx A B)) :
    (run (call evm this) s txs).Counted :=
  run_invariant_all (fun _ _ _ _ h hcall => call_counted h hcall) txs h

theorem run_keeps {s : State A B} (hl : s.Listed) (ho : s.OncePublished) {txs : List (Tx A B)}
    (hgood : ∀ a ∈ accepted (call evm this) s txs, ¬ Republishes a.pre a.input) :
    s.Keeps (run (call evm this) s txs) ∧ (run (call evm this) s txs).OncePublished := by
  have := @run_invariant _ _ _ _ (call evm this)
    (fun s' => s'.Listed ∧ s.Keeps s' ∧ s'.OncePublished)
    (fun s' tx => ¬ Republishes s' tx) ?_ _ _ ⟨hl, .refl s, ho⟩ hgood
  · exact this.2
  · rintro s₁ tx s₂ logs ⟨hl₁, hk₁, ho₁⟩ hgood₁ hcall
    obtain ⟨hk, ho₂⟩ := call_keeps hl₁ ho₁ hgood₁ hcall
    exact ⟨call_listed hl₁ hcall, hk₁.trans hk, ho₂⟩

theorem run_history (s : State A B) (txs : List (Tx A B)) (policyKind : B) :
    s.versionHistory policyKind <+: (run (call evm this) s txs).versionHistory policyKind :=
  @run_invariant_all _ _ _ _ (call evm this)
    (fun s' => s.versionHistory policyKind <+: s'.versionHistory policyKind)
    (fun _ _ _ _ h hcall => h.trans (call_history hcall policyKind)) _ txs (List.prefix_refl _)

/-- A run of the deployed registry leaves published versions immutable if and only if no accepted
approval in it published a hash that was published already. -/
theorem immutable_iff [Zero A] {g₁ g₂ g₃ : A} {s₀ : State A B}
    (h : constructor_ g₁ g₂ g₃ = .ok s₀) (txs : List (Tx A B)) :
    Immutable evm this s₀ txs ↔
      ∀ a ∈ accepted (call evm this) s₀ txs, ¬ Republishes a.pre a.input := by
  obtain ⟨hl, hc, ho⟩ := deployed h
  constructor
  · intro himm a ha hbad
    obtain ⟨as, bs, s', rfl, hrun, hcall⟩ := mem_accepted ha
    have honce := (himm _ _ List.prefix_rfl List.prefix_rfl).2.2
    rw [run_append, run_cons, hrun, commit_ok hcall] at honce
    have hpre : a.pre.Listed ∧ a.pre.Counted := by
      rw [← hrun]
      exact ⟨run_listed hl as, run_counted hc as⟩
    refine call_republishes hpre.1 hpre.2 hbad hcall fun k => ?_
    exact (honce k).sublist (run_history s' bs k).sublist
  · rintro hgood as bs ⟨cs, rfl⟩ ⟨ds, rfl⟩
    simp only [accepted_append, List.mem_append] at hgood
    have has := run_keeps hl ho fun a ha => hgood a (.inl (.inl ha))
    have hbs := run_keeps (run_listed hl as) has.2 fun a ha => hgood a (.inl (.inr ha))
    rw [run_append]
    exact ⟨hbs.1, run_listed (run_listed hl as) cs, hbs.2⟩

end Runs

section SecondPublication

/-- The registry deployed with the governors 1, 2 and 3. -/
def exampleRegistry : State ℕ Symbol :=
  { State.init with
    governors := [1, 2, 3]
    isGovernor := Function.update (Function.update (Function.update (fun _ => false) 1 true) 2 true)
      3 true }

def proposedId (counter : ℕ) : Symbol :=
  Symbol.evm.keccak256 (.encodePacked [.uint 1, .address 9, .bytes32 (.nat 4), .bytes32 (.nat 5),
    .uint counter])

def invalidationId (counter : ℕ) : Symbol :=
  Symbol.evm.keccak256 (.encodePacked [.uint 1, .address 9, .text "invalidate", .bytes32 (.nat 4),
    .bytes32 (.nat 5), .uint counter])

/-- Hash 5 is proposed twice while it does not exist, published and invalidated. -/
def publishedAndInvalidated : List (Tx ℕ Symbol) :=
  [{ timestamp := 10, sender := 1, call := .proposeVersion (.nat 4) (.nat 5) (.nat 100) },
   { timestamp := 11, sender := 2, call := .proposeVersion (.nat 4) (.nat 5) (.nat 101) },
   { timestamp := 12, sender := 2, call := .approveVersion (proposedId 0) },
   { timestamp := 13, sender := 1,
     call := .proposeInvalidation (.nat 4) (.nat 5) (.nat 6) 0 0 },
   { timestamp := 14, sender := 2, call := .approveInvalidation (invalidationId 2) }]

/-- Then the second proposal is approved as well. -/
def publishedTwice : List (Tx ℕ Symbol) :=
  publishedAndInvalidated ++
    [{ timestamp := 15, sender := 3, call := .approveVersion (proposedId 1) }]

theorem immutable_iff_publishedTwice :
    Immutable Symbol.evm 9 exampleRegistry publishedTwice ↔
      ∀ a ∈ accepted (call Symbol.evm 9) exampleRegistry publishedTwice,
        ¬ Republishes a.pre a.input :=
  @immutable_iff _ _ _ _ _ _ _ _ 1 2 3 _ rfl publishedTwice

theorem publishedTwice_not_immutable :
    let before := run (call Symbol.evm 9) exampleRegistry publishedAndInvalidated
    let after := run (call Symbol.evm 9) exampleRegistry publishedTwice
    (before.versions (.nat 4) (.nat 5)).status = .invalidated ∧
    (before.versions (.nat 4) (.nat 5)).metadataHash = .nat 100 ∧
    (after.versions (.nat 4) (.nat 5)).status = .scheduled ∧
    (after.versions (.nat 4) (.nat 5)).metadataHash = .nat 101 ∧
    after.versionHistory (.nat 4) = [.nat 5, .nat 5] ∧
    ¬ Immutable Symbol.evm 9 exampleRegistry publishedTwice := by
  have hhistory : (run (call Symbol.evm 9) exampleRegistry publishedTwice).versionHistory (.nat 4) =
      [.nat 5, .nat 5] := by decide
  refine ⟨by decide, by decide, by decide, by decide, hhistory, ?_⟩
  intro himm
  have := (himm publishedTwice publishedTwice List.prefix_rfl List.prefix_rfl).2.2 (.nat 4)
  rw [hhistory] at this
  simp at this

end SecondPublication

end Linvesther.PolicyRegistry
