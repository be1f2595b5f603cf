import Linvesther.Base.Interleaving

/-! What a process brings about while others go on: it asks what it may ask, whatever state the others have
brought the shared one to, and ends with what was asked of it. -/

namespace Interleaving

section Meets

variable {Q : Type} {R : Q → Type} {A B E σ ι : Type} (serve : (q : Q) → ι → σ → R q × σ)
  (Later : σ → σ → Prop) (Asks : Q → σ → Prop) (Answers : Q → ι → Prop)

/-- From `s` on: `Later` is all that the others do before the next question, `Asks` what each question keeps
to, and `Answers` what is assumed of the inputs that serve it. -/
def Process.Meets (post : A → σ → Prop) : Process Q R A → σ → Prop
  | .done a, s => ∀ s', Later s s' → post a s'
  | .ask q next, s => ∀ s', Later s s' → Asks q s' ∧ ∀ input, Answers q input →
      (next (serve q input s').1).Meets post (serve q input s').2

/-- What the questions, asked as they may be, do to the shared state is again what others rely on. -/
structure Lawful : Prop where
  trans : ∀ s₁ s₂ s₃, Later s₁ s₂ → Later s₂ s₃ → Later s₁ s₃
  refl_right : ∀ s₁ s₂, Later s₁ s₂ → Later s₂ s₂
  serve : ∀ q input s, Later s s → Asks q s → Later s (serve q input s).2

variable {serve Later Asks Answers} {post : A → σ → Prop} {p : Process Q R A} {s s' : σ}

theorem Process.Meets.later (hlaw : Lawful serve Later Asks)
    (h : p.Meets serve Later Asks Answers post s) (hlater : Later s s') :
    p.Meets serve Later Asks Answers post s' := by
  cases p with
  | done a => exact fun t ht => h t (hlaw.trans _ _ _ hlater ht)
  | ask q next => exact fun t ht => h t (hlaw.trans _ _ _ hlater ht)

/-- Only what holds in the later states counts. -/
theorem Process.Meets.of_later (hlaw : Lawful serve Later Asks)
    (h : ∀ s', Later s s' → p.Meets serve Later Asks Answers post s') :
    p.Meets serve Later Asks Answers post s := by
  cases p with
  | done a => exact fun t ht => h t ht t (hlaw.refl_right _ _ ht)
  | ask q next => exact fun t ht => h t ht t (hlaw.refl_right _ _ ht)

theorem Process.Meets.conseq {post' : A → σ → Prop} (h : p.Meets serve Later Asks Answers post s)
    (hpost : ∀ a s, post a s → post' a s) : p.Meets serve Later Asks Answers post' s := by
  induction p generalizing s with
  | done a => exact fun t ht => hpost a t (h t ht)
  | ask q next ih =>
    exact fun t ht => ⟨(h t ht).1, fun input hinput => ih _ ((h t ht).2 input hinput)⟩

/-- One process after the other. The second starts later than the first did. -/
theorem Process.Meets.bind {f : A → Process Q R B} {post' : B → σ → Prop}
    (hlaw : Lawful serve Later Asks) (h : p.Meets serve Later Asks Answers post s)
    (hf : ∀ a t, Later s t → post a t → (f a).Meets serve Later Asks Answers post' t) :
    (p >>= f).Meets serve Later Asks Answers post' s := by
  induction p generalizing s with
  | done a => exact .of_later hlaw fun t ht => hf a t ht (h t ht)
  | ask q next ih =>
    intro t ht
    obtain ⟨hasks, hnext⟩ := h t ht
    have hserved : ∀ input, Later s (serve q input t).2 := fun input =>
      hlaw.trans _ _ _ ht (hlaw.serve q input t (hlaw.refl_right _ _ ht) hasks)
    exact ⟨hasks, fun input hinput => ih _ (hnext input hinput) fun a u hu ha =>
      hf a u (hlaw.trans _ _ _ (hserved input) hu) ha⟩

/-- Nothing is asked of a process that ends with an error. -/
def Succeeds (post : A → σ → Prop) : Except E A → σ → Prop
  | .ok a, s => post a s
  | .error _, _ => True

/-- A process that has ended meets what stays true. -/
theorem meets_pure {a : A} (hpost : ∀ s', Later s s' → post a s') :
    (pure a : ExceptT E (Process Q R) A).run.Meets serve Later Asks Answers (Succeeds post) s :=
  fun s' hs' => hpost s' hs'

theorem meets_lift (h : p.Meets serve Later Asks Answers post s) :
    (ExceptT.lift p : ExceptT E (Process Q R) A).run.Meets serve Later Asks Answers (Succeeds post) s := by
  induction p generalizing s with
  | done a => exact h
  | ask q next ih =>
    exact fun t ht => ⟨(h t ht).1, fun input hinput => ih _ ((h t ht).2 input hinput)⟩

theorem meets_bind {p : ExceptT E (Process Q R) A} {f : A → ExceptT E (Process Q R) B} {post' : B → σ → Prop}
    (hlaw : Lawful serve Later Asks)
    (h : p.run.Meets serve Later Asks Answers (Succeeds post) s)
    (hf : ∀ a t, Later s t → post a t → (f a).run.Meets serve Later Asks Answers (Succeeds post') t) :
    (p >>= f).run.Meets serve Later Asks Answers (Succeeds post') s := by
  refine Process.Meets.bind hlaw h fun r t ht hr => ?_
  cases r with
  | ok a => exact hf a t ht hr
  | error e => exact fun _ _ => trivial

/-- Whatever is asked, if nothing is asked of the process. -/
theorem meets_trivial (p : Process Q R A) (s : σ) :
    p.Meets serve Later (fun _ _ => True) Answers (fun _ _ => True) s := by
  induction p generalizing s with
  | done a => exact fun _ _ => trivial
  | ask q next ih => exact fun t _ => ⟨trivial, fun input _ => ih _ _⟩

/-- One element after the other. -/
def inTurn {X Y : Type} (f : X → ExceptT E (Process Q R) Y) : List X → ExceptT E (Process Q R) (List Y)
  | [] => pure []
  | x :: rest => do
    let y ← f x
    let ys ← inTurn f rest
    pure (y :: ys)

theorem meets_inTurn {X Y : Type} {f : X → ExceptT E (Process Q R) Y} {post : Y → σ → Prop}
    (hlaw : Lawful serve Later Asks) (hlater : ∀ y s t, post y s → Later s t → post y t) (xs : List X) (s : σ)
    (hstep : ∀ x ∈ xs, ∀ t, Later s t →
      (f x).run.Meets serve Later Asks Answers (Succeeds post) t) :
    (inTurn f xs).run.Meets serve Later Asks Answers (Succeeds fun ys t => ∀ y ∈ ys, post y t) s := by
  induction xs generalizing s with
  | nil => exact meets_pure fun t _ y hy => by cases hy
  | cons x rest ih =>
    refine .of_later hlaw fun s₁ h₁ => ?_
    refine meets_bind hlaw (hstep x (List.mem_cons_self ..) s₁ h₁) fun y s₂ h₂ hy => ?_
    refine meets_bind hlaw (ih s₂ fun x' hx' t ht => hstep x' (List.mem_cons_of_mem x hx') t
      (hlaw.trans _ _ _ (hlaw.trans _ _ _ h₁ h₂) ht)) fun ys s₃ h₃ hys => ?_
    refine meets_pure fun t ht y' hy' => ?_
    rcases List.mem_cons.1 hy' with rfl | hy'
    · exact hlater _ _ _ hy (hlaw.trans _ _ _ h₃ ht)
    · exact hlater _ _ _ (hys y' hy') ht

/-- A loop, with an invariant of what is left to do. -/
theorem meets_foldlM {X : Type} {f : A → X → ExceptT E (Process Q R) A} {inv : List X → A → σ → Prop}
    (hlaw : Lawful serve Later Asks) (hlater : ∀ a s t, inv [] a s → Later s t → inv [] a t)
    (hstep : ∀ x rest a s, inv (x :: rest) a s →
      (f a x).run.Meets serve Later Asks Answers (Succeeds (inv rest)) s)
    (xs : List X) (a : A) (s : σ) (h : inv xs a s) :
    (xs.foldlM f a).run.Meets serve Later Asks Answers (Succeeds (inv [])) s := by
  induction xs generalizing a s with
  | nil => exact meets_pure fun t ht => hlater a s t h ht
  | cons x rest ih =>
    rw [List.foldlM_cons]
    exact meets_bind hlaw (hstep x rest a s h) fun a' t _ ha' => ih a' t ha'

end Meets

section Runs

variable {Q : Type} {R : Q → Type} {A C σ ι : Type} {program : C → Process Q R A}
  {serve : (q : Q) → ι → σ → R q × σ} {Later : σ → σ → Prop} {Asks : C → Q → σ → Prop}
  {Answers : C → Q → ι → Prop} {post : ℕ → C → A → σ → Prop} {w : World Q R A C σ}

/-- The shared state is sound, and every process meets what is asked of it under its number. -/
structure Undertakes (serve : (q : Q) → ι → σ → R q × σ) (Later : σ → σ → Prop) (Asks : C → Q → σ → Prop)
    (Answers : C → Q → ι → Prop) (post : ℕ → C → A → σ → Prop) (w : World Q R A C σ) : Prop where
  shared : Later w.shared w.shared
  processes : ∀ i c p, w.processes i = some (c, p) →
    p.Meets serve Later (Asks c) (Answers c) (post i c) w.shared

theorem Undertakes.asks (h : Undertakes serve Later Asks Answers post w) {i : ℕ} {c : C} {q : Q}
    {next : R q → Process Q R A} (hi : w.processes i = some (c, .ask q next)) : Asks c q w.shared :=
  (h.processes i c _ hi w.shared h.shared).1

theorem Undertakes.done (h : Undertakes serve Later Asks Answers post w) {i : ℕ} {c : C} {a : A}
    (hi : w.processes i = some (c, .done a)) : post i c a w.shared :=
  h.processes i c _ hi w.shared h.shared

/-- A process that was started stays what it was started as. -/
theorem step_processes {i : ℕ} {c : C} {p : Process Q R A} (hi : w.processes i = some (c, p))
    (m : Move C ι) : ∃ p', (w.step program serve m).processes i = some (c, p') := by
  cases m with
  | start j d =>
    unfold World.step
    dsimp only
    split
    next hnone =>
      have hij : i ≠ j := by
        intro hij
        rw [hij, hnone] at hi
        cases hi
      refine ⟨p, ?_⟩
      dsimp only
      rw [Function.update_of_ne hij]
      exact hi
    next => exact ⟨p, hi⟩
  | serve j input =>
    unfold World.step
    dsimp only
    split
    next d q next hj =>
      by_cases hij : i = j
      · subst hij
        rw [hi] at hj
        cases hj
        exact ⟨_, Function.update_self ..⟩
      · refine ⟨p, ?_⟩
        dsimp only
        rw [Function.update_of_ne hij]
        exact hi
    next => exact ⟨p, hi⟩

/-- The inputs of a move are as assumed. -/
def Assumed (Answers : C → Q → ι → Prop) (w : World Q R A C σ) (m : Move C ι) : Prop :=
  ∀ i input c q next, m = .serve i input → w.processes i = some (c, .ask q next) → Answers c q input

theorem Undertakes.step (hlaw : ∀ c, Lawful serve Later (Asks c)) (h : Undertakes serve Later Asks Answers post w)
    (m : Move C ι) (hassumed : Assumed Answers w m)
    (hstart : ∀ i c, m = .start i c → w.processes i = none →
      (program c).Meets serve Later (Asks c) (Answers c) (post i c) w.shared) :
    Undertakes serve Later Asks Answers post (w.step program serve m) ∧
      ∀ s₀, Later s₀ w.shared → Later s₀ (w.step program serve m).shared := by
  cases m with
  | start i c =>
    unfold World.step
    dsimp only
    split
    next hnone =>
      refine ⟨⟨h.shared, fun j c' p hj => ?_⟩, fun _ h₀ => h₀⟩
      by_cases hij : j = i
      · subst hij
        dsimp only at hj
        rw [Function.update_self] at hj
        cases hj
        exact hstart j c rfl hnone
      · dsimp only at hj
        rw [Function.update_of_ne hij] at hj
        exact h.processes j c' p hj
    next => exact ⟨h, fun _ h₀ => h₀⟩
  | serve i input =>
    unfold World.step
    dsimp only
    split
    next c q next hi =>
      obtain ⟨hasks, hnext⟩ := h.processes i c _ hi w.shared h.shared
      have hlater := (hlaw c).serve q input w.shared h.shared hasks
      refine ⟨⟨(hlaw c).refl_right _ _ hlater, fun j c' p hj => ?_⟩,
        fun _ h₀ => (hlaw c).trans _ _ _ h₀ hlater⟩
      by_cases hij : j = i
      · subst hij
        dsimp only at hj
        rw [Function.update_self] at hj
        cases hj
        exact hnext input (hassumed j input c q next rfl hi)
      · dsimp only at hj
        rw [Function.update_of_ne hij] at hj
        exact (h.processes j c' p hj).later (hlaw c') hlater
    next => exact ⟨h, fun _ h₀ => h₀⟩

/-- What is undertaken at the beginning, and by each process as it starts, holds over the whole run. -/
theorem Undertakes.run (hlaw : ∀ c, Lawful serve Later (Asks c)) (h : Undertakes serve Later Asks Answers post w)
    (moves : List (Move C ι))
    (hassumed : ∀ n m, moves[n]? = some m → Assumed Answers (w.run program serve (moves.take n)) m)
    (hstart : ∀ i c s, w.processes i = none → Later w.shared s →
      (program c).Meets serve Later (Asks c) (Answers c) (post i c) s) (n : ℕ) :
    Undertakes serve Later Asks Answers post (w.run program serve (moves.take n)) ∧
      Later w.shared (w.run program serve (moves.take n)).shared ∧
      ∀ i c p, w.processes i = some (c, p) →
        ∃ p', (w.run program serve (moves.take n)).processes i = some (c, p') := by
  induction n with
  | zero => exact ⟨h, h.shared, fun i c p hi => ⟨p, hi⟩⟩
  | succ n ih =>
    obtain ⟨hnow, hlater, hkept⟩ := ih
    rw [run_take_succ]
    cases hm : moves[n]? with
    | none => exact ⟨hnow, hlater, hkept⟩
    | some m =>
      have hnew : ∀ i c, m = .start i c → (w.run program serve (moves.take n)).processes i = none →
          (program c).Meets serve Later (Asks c) (Answers c) (post i c)
            (w.run program serve (moves.take n)).shared := by
        intro i c _ hnone
        refine hstart i c _ ?_ hlater
        cases hi : w.processes i with
        | none => rfl
        | some cp =>
          obtain ⟨p', hp'⟩ := hkept i cp.1 cp.2 hi
          rw [hnone] at hp'
          cases hp'
      obtain ⟨hafter, hstep⟩ := hnow.step hlaw m (hassumed n m hm) hnew
      refine ⟨hafter, hstep _ hlater, fun i c p hi => ?_⟩
      obtain ⟨p', hp'⟩ := hkept i c p hi
      exact step_processes hp' m

theorem run_take_add (w : World Q R A C σ) (moves : List (Move C ι)) (n k : ℕ) :
    w.run program serve (moves.take (n + k)) =
      (w.run program serve (moves.take n)).run program serve ((moves.drop n).take k) := by
  unfold World.run
  rw [List.take_add, List.foldl_append]

end Runs

end Interleaving
