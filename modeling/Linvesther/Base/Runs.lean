import Mathlib

/-! Runs of a total step function, with a condition on each step in the state that it is taken in. -/

namespace Runs

section Along

variable {σ μ : Type*} (step : σ → μ → σ) (ok : σ → μ → Prop)

def Along : σ → List μ → Prop
  | _, [] => True
  | s, m :: moves => ok s m ∧ Along (step s m) moves

instance decidableAlong [∀ s m, Decidable (ok s m)] : (s : σ) → (moves : List μ) → Decidable (Along step ok s moves)
  | _, [] => .isTrue trivial
  | s, m :: moves =>
    have := decidableAlong (step s m) moves
    inferInstanceAs (Decidable (ok s m ∧ Along step ok (step s m) moves))

variable {step ok} {s : σ} {moves more : List μ}

theorem along_append : Along step ok s (moves ++ more) ↔
    Along step ok s moves ∧ Along step ok (moves.foldl step s) more := by
  induction moves generalizing s with
  | nil => exact ⟨fun h => ⟨trivial, h⟩, And.right⟩
  | cons m moves ih =>
    rw [List.cons_append, Along, Along, ih, List.foldl_cons, and_assoc]

theorem Along.and {ok' : σ → μ → Prop} (h : Along step ok s moves) (h' : Along step ok' s moves) :
    Along step (fun s m => ok s m ∧ ok' s m) s moves := by
  induction moves generalizing s with
  | nil => trivial
  | cons m moves ih => exact ⟨⟨h.1, h'.1⟩, ih h.2 h'.2⟩

/-- What a step keeps, if it is as it should be, a run of such steps keeps. -/
theorem Along.invariant {Inv : σ → Prop} (h : Along step ok s moves)
    (hstep : ∀ s m, Inv s → ok s m → Inv (step s m)) (hs : Inv s) : Inv (moves.foldl step s) := by
  induction moves generalizing s with
  | nil => exact hs
  | cons m moves ih => exact ih h.2 (hstep s m hs h.1)

end Along

end Runs
