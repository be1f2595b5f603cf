import Mathlib

/-! Machines whose calls either commit a new state or revert. A reverted call leaves the state as
it was, so what a run did is told by its accepted calls, each with the state it was accepted in. -/

namespace Transaction

universe u

section Guards

variable {ε : Type*} {α β : Type u}

/-- `if (c) revert e`. -/
def revertIf (c : Prop) [Decidable c] (e : ε) : Except ε Unit :=
  if c then .error e else .ok ()

theorem revertIf_ok (c : Prop) [Decidable c] (e : ε) (u : Unit) :
    revertIf c e = .ok u ↔ ¬ c := by
  unfold revertIf
  by_cases h : c <;> simp [h]

/-- Checked unsigned addition of the given width. -/
def checkedAdd (bits : ℕ) (e : ε) (a b : ℕ) : Except ε ℕ :=
  if a + b < 2 ^ bits then .ok (a + b) else .error e

theorem checkedAdd_of_lt {bits : ℕ} {e : ε} {a b : ℕ} (h : a + b < 2 ^ bits) :
    checkedAdd bits e a b = .ok (a + b) :=
  if_pos h

theorem checkedAdd_ok (bits : ℕ) (e : ε) (a b c : ℕ) :
    checkedAdd bits e a b = .ok c ↔ a + b < 2 ^ bits ∧ c = a + b := by
  unfold checkedAdd
  split_ifs with h
  · simp [h, eq_comm]
  · simp [h]

theorem bind_ok (x : Except ε α) (f : α → Except ε β) (b : β) :
    x >>= f = .ok b ↔ ∃ a, x = .ok a ∧ f a = .ok b := by
  cases x with
  | error e => simp [bind, Except.bind]
  | ok a => simp [bind, Except.bind]

/-- One check and then another. -/
theorem check_ok {γ : Type} (x : Except ε Unit) (f : Unit → Except ε γ) (b : γ) :
    x >>= f = .ok b ↔ x = .ok () ∧ f () = .ok b := by
  rw [bind_ok]
  constructor
  · rintro ⟨⟨⟩, hfirst, hrest⟩
    exact ⟨hfirst, hrest⟩
  · rintro ⟨hfirst, hrest⟩
    exact ⟨(), hfirst, hrest⟩

theorem pure_ok (a b : α) : (pure a : Except ε α) = .ok b ↔ a = b := by
  simp [pure, Except.pure]

/-- `map_err(f)?`. -/
theorem mapError_ok {δ : Type*} (x : Except ε α) (f : ε → δ) (a : α) :
    x.mapError f = .ok a ↔ x = .ok a := by
  unfold Except.mapError
  split
  · exact ⟨fun h => (by cases h), fun h => (by cases h)⟩
  · exact ⟨fun h => by rw [Except.ok.inj h], fun h => by rw [Except.ok.inj h]⟩

theorem map_ok (x : Except ε α) (f : α → β) (b : β) :
    x.map f = .ok b ↔ ∃ a, x = .ok a ∧ f a = b := by
  cases x with
  | error e => simp [Except.map]
  | ok a => simp [Except.map]

end Guards

section Runs

variable {σ ι ω ε : Type*}

/-- An accepted call of a run: the state it found, the call, and what it returned. -/
structure Accepted (σ ι ω : Type*) where
  pre : σ
  input : ι
  out : ω

variable (call : σ → ι → Except ε (σ × ω))

def commit (s : σ) (i : ι) : σ :=
  match call s i with
  | .ok r => r.1
  | .error _ => s

def run (s : σ) (is : List ι) : σ := is.foldl (commit call) s

def accepted : σ → List ι → List (Accepted σ ι ω)
  | _, [] => []
  | s, i :: is =>
    match call s i with
    | .ok r => ⟨s, i, r.2⟩ :: accepted r.1 is
    | .error _ => accepted s is

@[simp] theorem run_nil (s : σ) : run call s [] = s := rfl

@[simp] theorem run_cons (s : σ) (i : ι) (is : List ι) :
    run call s (i :: is) = run call (commit call s i) is := rfl

theorem run_append (s : σ) (is js : List ι) :
    run call s (is ++ js) = run call (run call s is) js := List.foldl_append

variable {call}

theorem commit_ok {s : σ} {i : ι} {r : σ × ω} (h : call s i = .ok r) : commit call s i = r.1 := by
  simp [commit, h]

theorem commit_error {s : σ} {i : ι} {e : ε} (h : call s i = .error e) :
    commit call s i = s := by
  simp [commit, h]

theorem accepted_append (s : σ) (is js : List ι) :
    accepted call s (is ++ js) = accepted call s is ++ accepted call (run call s is) js := by
  induction is generalizing s with
  | nil => rfl
  | cons i is ih =>
    simp only [List.cons_append, accepted, run_cons]
    cases h : call s i with
    | error e => simpa [commit_error h] using ih s
    | ok r => simpa [commit_ok h] using ih r.1

/-- An accepted call sits somewhere in the run, and found the state reached there. -/
theorem mem_accepted {s : σ} {is : List ι} {a : Accepted σ ι ω} (ha : a ∈ accepted call s is) :
    ∃ as bs s', is = as ++ a.input :: bs ∧ run call s as = a.pre ∧
      call a.pre a.input = .ok (s', a.out) := by
  induction is generalizing s with
  | nil => simp [accepted] at ha
  | cons i is ih =>
    simp only [accepted] at ha
    cases h : call s i with
    | error e =>
      rw [h] at ha
      obtain ⟨as, bs, s', rfl, hrun, hcall⟩ := ih ha
      exact ⟨i :: as, bs, s', rfl, by simpa [commit_error h] using hrun, hcall⟩
    | ok r =>
      rw [h] at ha
      rcases List.mem_cons.1 ha with rfl | ha
      · exact ⟨[], is, r.1, rfl, rfl, h⟩
      · obtain ⟨as, bs, s', rfl, hrun, hcall⟩ := ih ha
        exact ⟨i :: as, bs, s', rfl, by simpa [commit_ok h] using hrun, hcall⟩

/-- The induction every reachable-state result rests on: an invariant that the accepted calls of
a kind preserve holds after every run that accepts only calls of that kind. -/
theorem run_invariant {Inv : σ → Prop} {Good : σ → ι → Prop}
    (hstep : ∀ s i s' o, Inv s → Good s i → call s i = .ok (s', o) → Inv s')
    {s : σ} {is : List ι} (h0 : Inv s) (hgood : ∀ a ∈ accepted call s is, Good a.pre a.input) :
    Inv (run call s is) := by
  induction is generalizing s with
  | nil => exact h0
  | cons i is ih =>
    simp only [accepted] at hgood
    cases h : call s i with
    | error e =>
      rw [h] at hgood
      simpa [commit_error h] using ih h0 hgood
    | ok r =>
      rw [h] at hgood
      have hfirst : Good s i := hgood ⟨s, i, r.2⟩ (by simp)
      have hrest := ih (hstep s i r.1 r.2 h0 hfirst h) fun a ha => hgood a (by simp [ha])
      simpa [commit_ok h] using hrest

/-- The same with no restriction on the calls. -/
theorem run_invariant_all {Inv : σ → Prop}
    (hstep : ∀ s i s' o, Inv s → call s i = .ok (s', o) → Inv s')
    {s : σ} (is : List ι) (h0 : Inv s) : Inv (run call s is) :=
  @run_invariant _ _ _ _ call Inv (fun _ _ => True)
    (fun s i s' o hi _ hc => hstep s i s' o hi hc) _ _ h0 fun _ _ => trivial

/-- Calls that number themselves by a counter, and alone advance it, carry consecutive numbers. -/
theorem accepted_numbers {Inv : σ → Prop} {count : σ → ℕ} {number : Accepted σ ι ω → Option ℕ}
    (hstep : ∀ s i s' o, Inv s → call s i = .ok (s', o) → Inv s' ∧
      (number ⟨s, i, o⟩ = none ∧ count s' = count s ∨
        number ⟨s, i, o⟩ = some (count s) ∧ count s' = count s + 1))
    {s : σ} (is : List ι) (h0 : Inv s) :
    (accepted call s is).filterMap number =
      List.range' (count s) ((accepted call s is).filterMap number).length := by
  induction is generalizing s with
  | nil => rfl
  | cons i is ih =>
    simp only [accepted]
    cases hc : call s i with
    | error e => exact ih h0
    | ok r =>
      obtain ⟨hinv, ⟨hnone, hcount⟩ | ⟨hsome, hcount⟩⟩ := hstep s i r.1 r.2 h0 hc
      · rw [List.filterMap_cons_none hnone, ← hcount]
        exact ih hinv
      · rw [List.filterMap_cons_some hsome, List.length_cons, List.range'_succ, ← hcount,
          ← ih hinv]

/-- A relation from each accepted call to all that are accepted after it. -/
theorem accepted_pairwise {Inv : σ → Prop} {R : Accepted σ ι ω → Accepted σ ι ω → Prop}
    (hstep : ∀ s i s' o, Inv s → call s i = .ok (s', o) →
      Inv s' ∧ ∀ is, ∀ a ∈ accepted call s' is, R ⟨s, i, o⟩ a)
    {s : σ} (is : List ι) (h0 : Inv s) : (accepted call s is).Pairwise R := by
  induction is generalizing s with
  | nil => exact .nil
  | cons i is ih =>
    simp only [accepted]
    cases hc : call s i with
    | error e => exact ih h0
    | ok r =>
      obtain ⟨hinv, hlater⟩ := hstep s i r.1 r.2 h0 hc
      exact .cons (hlater is) (ih hinv)

/-- A property of what has been accepted so far and of the state it led to. -/
theorem accepted_history {Hist : List (Accepted σ ι ω) → σ → Prop}
    (hstep : ∀ as s i s' o, Hist as s → call s i = .ok (s', o) → Hist (as ++ [⟨s, i, o⟩]) s')
    {s : σ} {past : List (Accepted σ ι ω)} (is : List ι) (h0 : Hist past s) :
    Hist (past ++ accepted call s is) (run call s is) := by
  induction is generalizing s past with
  | nil => simpa [accepted] using h0
  | cons i is ih =>
    simp only [accepted, run_cons]
    cases h : call s i with
    | error e => simpa [commit_error h] using ih h0
    | ok r => simpa [commit_ok h] using ih (hstep past s i r.1 r.2 h0 h)

/-- Forward simulation: a second machine that takes what the accepted calls return, and keeps a relation
to the first. -/
theorem accepted_simulates {τ : Type u} {δ : Type*} {Inv : σ → Prop} {Rel : τ → σ → Prop}
    {apply : τ → ω → Except δ τ}
    (hstep : ∀ s i s' o t, Inv s → Rel t s → call s i = .ok (s', o) →
      Inv s' ∧ ∃ t', apply t o = .ok t' ∧ Rel t' s')
    {s : σ} {t : τ} (is : List ι) (h0 : Inv s) (hrel : Rel t s) :
    Inv (run call s is) ∧
      ∃ t', ((accepted call s is).map (·.out)).foldlM apply t = .ok t' ∧ Rel t' (run call s is) := by
  induction is generalizing s t with
  | nil => exact ⟨h0, t, rfl, hrel⟩
  | cons i is ih =>
    simp only [accepted]
    cases hc : call s i with
    | error e =>
      rw [run_cons, commit_error hc]
      exact ih h0 hrel
    | ok r =>
      obtain ⟨hinv, t₁, happly, hrel₁⟩ := hstep s i r.1 r.2 t h0 hrel hc
      obtain ⟨hlast, t', hrest, hrel'⟩ := ih hinv hrel₁
      rw [run_cons, commit_ok hc]
      refine ⟨hlast, t', ?_, hrel'⟩
      rw [List.map_cons, List.foldlM_cons, happly]
      exact hrest

/-- A run up to one of its accepted calls, and from there on. -/
theorem accepted_split {s : σ} {is : List ι} {as bs : List (Accepted σ ι ω)} {a : Accepted σ ι ω}
    (h : accepted call s is = as ++ a :: bs) :
    ∃ js ks s', is = js ++ a.input :: ks ∧ accepted call s js = as ∧ run call s js = a.pre ∧
      call a.pre a.input = .ok (s', a.out) ∧ accepted call s' ks = bs := by
  induction is generalizing s as with
  | nil => simp [accepted] at h
  | cons i is ih =>
    simp only [accepted] at h
    cases hc : call s i with
    | error e =>
      rw [hc] at h
      obtain ⟨js, ks, s', rfl, hjs, hrun, hcall, hks⟩ := ih h
      refine ⟨i :: js, ks, s', rfl, ?_, by simpa [commit_error hc] using hrun, hcall, hks⟩
      simpa only [accepted, hc] using hjs
    | ok r =>
      rw [hc] at h
      rcases as with - | ⟨a', as⟩
      · obtain ⟨rfl, hbs⟩ := List.cons.inj h
        exact ⟨[], is, r.1, rfl, rfl, rfl, hc, hbs⟩
      · obtain ⟨rfl, hrest⟩ := List.cons.inj h
        obtain ⟨js, ks, s', rfl, hjs, hrun, hcall, hks⟩ := ih hrest
        refine ⟨i :: js, ks, s', rfl, ?_, by simpa [commit_ok hc] using hrun, hcall, hks⟩
        simp only [accepted, hc, hjs]

end Runs

end Transaction
