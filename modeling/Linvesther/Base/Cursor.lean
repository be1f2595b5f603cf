import Linvesther.Base.Transaction

/-! Machines whose accepted calls work their way along a line of positions, and quantities that each of
them moves by a bounded amount. -/

namespace Transaction

variable {σ ι ω ε : Type*} {call : σ → ι → Except ε (σ × ω)} {Inv : σ → Prop}

/-- A run that accepts nothing stays where it is. -/
theorem run_of_accepted_nil {s : σ} {is : List ι} (h : accepted call s is = []) :
    run call s is = s := by
  induction is with
  | nil => rfl
  | cons i is ih =>
    simp only [accepted] at h
    cases hc : call s i with
    | error e =>
      rw [hc] at h
      rw [run_cons, commit_error hc]
      exact ih h
    | ok r =>
      rw [hc] at h
      cases h

/-- The first accepted call found the state that the run began in. -/
theorem accepted_cons {s : σ} {is : List ι} {a : Accepted σ ι ω} {as : List (Accepted σ ι ω)}
    (h : accepted call s is = a :: as) :
    ∃ js s', a.pre = s ∧ call s a.input = .ok (s', a.out) ∧ accepted call s' js = as ∧
      run call s is = run call s' js := by
  have hsplit : accepted call s is = [] ++ a :: as := h
  obtain ⟨ks, js, s', rfl, hks, hrun, hcall, hjs⟩ := accepted_split hsplit
  rw [run_of_accepted_nil hks] at hrun
  subst hrun
  refine ⟨js, s', rfl, hcall, hjs, ?_⟩
  rw [run_append, run_of_accepted_nil hks, run_cons, commit_ok hcall]

/-- A relation between each accepted call and the next one. -/
theorem accepted_isChain {R : Accepted σ ι ω → Accepted σ ι ω → Prop}
    (hstep : ∀ s i s' o j s'' o', call s i = .ok (s', o) → call s' j = .ok (s'', o') →
      R ⟨s, i, o⟩ ⟨s', j, o'⟩)
    (s : σ) (is : List ι) : (accepted call s is).IsChain R := by
  induction is generalizing s with
  | nil => exact .nil
  | cons i is ih =>
    simp only [accepted]
    cases hc : call s i with
    | error e => exact ih s
    | ok r =>
      rw [List.isChain_cons]
      refine ⟨fun b hb => ?_, ih r.1⟩
      obtain ⟨as, hsplit⟩ := List.head?_eq_some_iff.1 hb
      obtain ⟨-, s', hpre, hcall, -⟩ := accepted_cons hsplit
      have hlink := hstep s i r.1 r.2 b.input s' b.out hc hcall
      rwa [← hpre] at hlink

/-- If each accepted call covers the positions between its states, then each position between the ends
of a run is covered once, and no other one is. -/
theorem accepted_covers {at_ : σ → ℕ} {Covers : ℕ → Accepted σ ι ω → Prop}
    [∀ p, DecidablePred (Covers p)]
    (hstep : ∀ s i s' o, Inv s → call s i = .ok (s', o) → Inv s' ∧ at_ s ≤ at_ s' ∧
      ∀ p, Covers p ⟨s, i, o⟩ ↔ at_ s < p ∧ p ≤ at_ s')
    {s : σ} (is : List ι) (h0 : Inv s) :
    at_ s ≤ at_ (run call s is) ∧ ∀ p, (accepted call s is).countP (Covers p) =
      if at_ s < p ∧ p ≤ at_ (run call s is) then 1 else 0 := by
  induction is generalizing s with
  | nil =>
    refine ⟨le_rfl, fun p => ?_⟩
    rw [if_neg fun h => absurd h.1 (not_lt.2 h.2)]
    rfl
  | cons i is ih =>
    simp only [accepted, run_cons]
    cases hc : call s i with
    | error e =>
      simp only [commit_error hc]
      exact ih h0
    | ok r =>
      obtain ⟨hinv, hle, hcovers⟩ := hstep s i r.1 r.2 h0 hc
      obtain ⟨hle', hcount⟩ := ih hinv
      simp only [commit_ok hc]
      refine ⟨hle.trans hle', fun p => ?_⟩
      rw [List.countP_cons, hcount]
      simp only [decide_eq_true_eq, hcovers]
      split_ifs <;> omega

/-- A quantity that each accepted call of a kind moves by no more than its tolerance. -/
theorem run_drift {Good : σ → ι → Prop} {q : σ → ℚ} {tolerance : Accepted σ ι ω → ℚ}
    (hstep : ∀ s i s' o, Inv s → Good s i → call s i = .ok (s', o) →
      Inv s' ∧ |q s' - q s| ≤ tolerance ⟨s, i, o⟩)
    {s : σ} {is : List ι} (h0 : Inv s) (hgood : ∀ a ∈ accepted call s is, Good a.pre a.input) :
    |q (run call s is) - q s| ≤ ((accepted call s is).map tolerance).sum := by
  induction is generalizing s with
  | nil => simp [accepted]
  | cons i is ih =>
    simp only [accepted, run_cons] at hgood ⊢
    cases hc : call s i with
    | error e =>
      rw [hc] at hgood
      rw [commit_error hc]
      exact ih h0 hgood
    | ok r =>
      rw [hc] at hgood
      obtain ⟨hinv, hmove⟩ := hstep s i r.1 r.2 h0 (hgood _ List.mem_cons_self) hc
      have hrest := ih hinv fun a ha => hgood a (List.mem_cons_of_mem _ ha)
      rw [commit_ok hc, List.map_cons, List.sum_cons]
      calc |q (run call r.1 is) - q s|
          ≤ |q (run call r.1 is) - q r.1| + |q r.1 - q s| := abs_sub_le _ _ _
        _ ≤ ((accepted call r.1 is).map tolerance).sum + tolerance ⟨s, i, r.2⟩ :=
            add_le_add hrest hmove
        _ = tolerance ⟨s, i, r.2⟩ + ((accepted call r.1 is).map tolerance).sum := add_comm _ _

end Transaction
