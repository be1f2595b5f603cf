import Mathlib

/-! Processes over a shared state. A process asks one question at a time and goes on with the reply; the
questions of all processes are served one after another, in any order. -/

namespace Interleaving

inductive Process (Q : Type) (R : Q → Type) (A : Type) where
  | done (a : A)
  | ask (q : Q) (next : R q → Process Q R A)

section Programs

variable {Q : Type} {R : Q → Type} {A B : Type}

def Process.bind : Process Q R A → (A → Process Q R B) → Process Q R B
  | .done a, f => f a
  | .ask q next, f => .ask q fun r => (next r).bind f

instance : Monad (Process Q R) where
  pure := .done
  bind := .bind

@[simp]
theorem pure_eq (a : A) : (pure a : Process Q R A) = .done a := rfl

@[simp]
theorem done_bind (a : A) (f : A → Process Q R B) : Process.done a >>= f = f a := rfl

@[simp]
theorem ask_bind (q : Q) (next : R q → Process Q R A) (f : A → Process Q R B) :
    Process.ask q next >>= f = .ask q fun r => next r >>= f := rfl

variable {σ ι : Type} (serve : (q : Q) → ι → σ → R q × σ)

/-- A process that no other comes between. -/
def Process.alone (input : ι) : Process Q R A → σ → A × σ
  | .done a, s => (a, s)
  | .ask q next, s => (next (serve q input s).1).alone input (serve q input s).2

theorem alone_bind (input : ι) (p : Process Q R A) (f : A → Process Q R B) (s : σ) :
    (p >>= f).alone serve input s =
      (f (p.alone serve input s).1).alone serve input (p.alone serve input s).2 := by
  induction p generalizing s with
  | done a => rfl
  | ask q next ih => exact ih _ _

end Programs

section Worlds

variable {Q : Type} {R : Q → Type} {A C σ ι : Type}

/-- The shared state, and the processes by a number of their own, each with what it was started as. -/
structure World (Q : Type) (R : Q → Type) (A C σ : Type) where
  shared : σ
  processes : ℕ → Option (C × Process Q R A)

inductive Move (C ι : Type) where
  | start (i : ℕ) (c : C)
  | serve (i : ℕ) (input : ι)

variable (program : C → Process Q R A) (serve : (q : Q) → ι → σ → R q × σ)

def World.step (w : World Q R A C σ) : Move C ι → World Q R A C σ
  | .start i c =>
    match w.processes i with
    | none => { w with processes := Function.update w.processes i (some (c, program c)) }
    | some _ => w
  | .serve i input =>
    match w.processes i with
    | some (c, .ask q next) =>
      ⟨(serve q input w.shared).2,
        Function.update w.processes i (some (c, next (serve q input w.shared).1))⟩
    | _ => w

def World.run (w : World Q R A C σ) (moves : List (Move C ι)) : World Q R A C σ :=
  moves.foldl (World.step program serve) w

theorem run_take_succ (w : World Q R A C σ) (moves : List (Move C ι)) (n : ℕ) :
    w.run program serve (moves.take (n + 1)) =
      moves[n]?.elim (w.run program serve (moves.take n))
        ((w.run program serve (moves.take n)).step program serve) := by
  unfold World.run
  rw [List.take_add_one, List.foldl_append]
  cases moves[n]? <;> rfl

/-- The shared state is as it should, and so is every process in view of it. -/
structure Safe (Inv : σ → Prop) (Good : σ → C → Process Q R A → Prop) (w : World Q R A C σ) : Prop where
  shared : Inv w.shared
  processes : ∀ i c p, w.processes i = some (c, p) → Good w.shared c p

variable {program serve} {Inv : σ → Prop} {Good : σ → C → Process Q R A → Prop} {w : World Q R A C σ}

theorem of_update {α : Type} {f : ℕ → Option α} {i j : ℕ} {x y : α}
    (h : Function.update f i (some y) j = some x) : x = y ∨ f j = some x := by
  by_cases hij : j = i
  · subst hij
    rw [Function.update_self, Option.some.injEq] at h
    exact .inl h.symm
  · rw [Function.update_of_ne hij] at h
    exact .inr h

/-- One question: what it leaves of the shared state, of who asked, and of what the others rely on. -/
theorem Safe.step (h : Safe Inv Good w) (m : Move C ι)
    (hstart : ∀ i c, m = .start i c → Good w.shared c (program c))
    (hserve : ∀ i input c q next, m = .serve i input → w.processes i = some (c, .ask q next) →
      Good w.shared c (.ask q next) → Inv (serve q input w.shared).2 ∧
        Good (serve q input w.shared).2 c (next (serve q input w.shared).1) ∧
        ∀ c' p, Good w.shared c' p → Good (serve q input w.shared).2 c' p) :
    Safe Inv Good (w.step program serve m) := by
  cases m with
  | start i c =>
    unfold World.step
    dsimp only
    split
    · refine ⟨h.shared, fun j c' p hj => ?_⟩
      rcases of_update hj with hnew | hold
      · cases hnew
        exact hstart i c rfl
      · exact h.processes j c' p hold
    · exact h
  | serve i input =>
    unfold World.step
    dsimp only
    split
    next c q next hi =>
      obtain ⟨hinv, hnext, hothers⟩ := hserve i input c q next rfl hi (h.processes i c _ hi)
      refine ⟨hinv, fun j c' p hj => ?_⟩
      rcases of_update hj with hnew | hold
      · cases hnew
        exact hnext
      · exact hothers c' p (h.processes j c' p hold)
    next => exact h

end Worlds

end Interleaving
