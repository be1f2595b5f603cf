import Linvesther.Base.Traverse

/-! Which errors a computation can end with, and computations that are the same up to some errors. -/

namespace Transaction

variable {ε : Type} {α β : Type} {bad : ε → Prop}

/-- None of the bad errors comes out. -/
def Avoids (bad : ε → Prop) (x : Except ε α) : Prop := ∀ e, x = .error e → ¬ bad e

/-- The first is the second, or fails with a bad error. -/
def UpTo (bad : ε → Prop) (x y : Except ε α) : Prop := x = y ∨ ∃ e, bad e ∧ x = .error e

section Avoids

theorem avoids_ok (a : α) : Avoids bad (.ok a : Except ε α) := by
  intro e h
  cases h

theorem avoids_pure (a : α) : Avoids bad (pure a : Except ε α) := avoids_ok a

theorem Avoids.bind {x : Except ε α} {f : α → Except ε β} (hx : Avoids bad x)
    (hf : ∀ a, x = .ok a → Avoids bad (f a)) : Avoids bad (x >>= f) := by
  cases x with
  | error e => exact fun e' h => hx e' (by cases h; rfl)
  | ok a => exact hf a rfl

theorem avoids_mapM {f : α → Except ε β} {l : List α} (h : ∀ a ∈ l, Avoids bad (f a)) : Avoids bad (l.mapM f) := by
  induction l with
  | nil => exact avoids_pure _
  | cons a l ih =>
    obtain ⟨ha, hl⟩ := List.forall_mem_cons.1 h
    rw [List.mapM_cons]
    exact ha.bind fun _ _ => (ih hl).bind fun _ _ => avoids_pure _

theorem avoids_foldlM {f : β → α → Except ε β} {l : List α} (h : ∀ b, ∀ a ∈ l, Avoids bad (f b a)) (b : β) :
    Avoids bad (l.foldlM f b) := by
  induction l generalizing b with
  | nil => exact avoids_pure _
  | cons a l ih =>
    rw [List.foldlM_cons]
    exact (h b a List.mem_cons_self).bind fun b' _ => ih (fun b a ha => h b a (List.mem_cons_of_mem _ ha)) b'

theorem avoids_mapError {δ : Type} {x : Except δ α} {f : δ → ε} (h : ∀ e, ¬ bad (f e)) : Avoids bad (x.mapError f) := by
  intro e he
  cases x with
  | error e' =>
    cases he
    exact h e'
  | ok a => cases he

end Avoids

section UpTo

theorem UpTo.refl (x : Except ε α) : UpTo bad x x := .inl rfl

theorem UpTo.eq {x y : Except ε α} (h : UpTo bad x y) (hx : Avoids bad x) : x = y := by
  rcases h with h | ⟨e, he, h⟩
  · exact h
  · exact absurd he (hx e h)

theorem UpTo.bind {x y : Except ε α} {f g : α → Except ε β} (hx : UpTo bad x y) (hf : ∀ a, UpTo bad (f a) (g a)) :
    UpTo bad (x >>= f) (y >>= g) := by
  rcases hx with rfl | ⟨e, he, rfl⟩
  · cases x with
    | error e => exact .inl rfl
    | ok a => exact hf a
  · exact .inr ⟨e, he, rfl⟩

theorem upTo_mapM {f g : α → Except ε β} {l : List α} (h : ∀ a ∈ l, UpTo bad (f a) (g a)) :
    UpTo bad (l.mapM f) (l.mapM g) := by
  induction l with
  | nil => exact .refl _
  | cons a l ih =>
    obtain ⟨ha, hl⟩ := List.forall_mem_cons.1 h
    rw [List.mapM_cons, List.mapM_cons]
    exact ha.bind fun _ => (ih hl).bind fun _ => .refl _

end UpTo

end Transaction
