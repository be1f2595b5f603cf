import Mathlib

/-! Programs that may throw, on a state that survives the exception: what they did before the throw
stays done. A triple has one postcondition for the return and one for the throw. -/

namespace Program

variable {ε σ α β : Type}

def Triple (P : σ → Prop) (x : EStateM ε σ α) (Q : α → σ → Prop) (E : ε → σ → Prop) : Prop :=
  ∀ s, P s →
    match x s with
    | .ok a s' => Q a s'
    | .error e s' => E e s'

variable {P P' I : σ → Prop} {Q Q' : α → σ → Prop} {R : β → σ → Prop} {E E' : ε → σ → Prop}

theorem Triple.of_ok {x : EStateM ε σ α} (h : Triple P x Q E) {s s' : σ} {a : α} (hs : P s)
    (hx : x s = .ok a s') : Q a s' := by
  have := h s hs
  rw [hx] at this
  exact this

theorem Triple.pure {a : α} (h : ∀ s, P s → Q a s) : Triple P (pure a : EStateM ε σ α) Q E :=
  fun s hs => h s hs

theorem Triple.throw {e : ε} (h : ∀ s, P s → E e s) : Triple P (throw e : EStateM ε σ α) Q E :=
  fun s hs => h s hs

theorem Triple.get {Q : σ → σ → Prop} (h : ∀ s, P s → Q s s) :
    Triple P (get : EStateM ε σ σ) Q E :=
  fun s hs => h s hs

theorem Triple.modify {Q : PUnit → σ → Prop} {f : σ → σ} (h : ∀ s, P s → Q ⟨⟩ (f s)) :
    Triple P (modify f : EStateM ε σ PUnit) Q E :=
  fun s hs => h s hs

theorem Triple.bind {x : EStateM ε σ α} {f : α → EStateM ε σ β} (hx : Triple P x Q E)
    (hf : ∀ a, Triple (Q a) (f a) R E) : Triple P (x >>= f) R E := by
  intro s hs
  have hxs := hx s hs
  simp only [Bind.bind, EStateM.bind]
  cases hr : x s with
  | ok a s' =>
    rw [hr] at hxs
    exact hf a s' hxs
  | error e s' =>
    rw [hr] at hxs
    exact hxs

theorem Triple.conseq {x : EStateM ε σ α} (h : Triple P' x Q' E') (hP : ∀ s, P s → P' s)
    (hQ : ∀ a s, Q' a s → Q a s) (hE : ∀ e s, E' e s → E e s) : Triple P x Q E := by
  intro s hs
  have := h s (hP s hs)
  cases hr : x s with
  | ok a s' =>
    rw [hr] at this
    exact hQ a s' this
  | error e s' =>
    rw [hr] at this
    exact hE e s' this

/-- A fact that the precondition implies in every state may be assumed. -/
theorem Triple.assume {p : Prop} {x : EStateM ε σ α} (hp : ∀ s, P s → p)
    (h : p → Triple P x Q E) : Triple P x Q E :=
  fun s hs => h (hp s hs) s hs

theorem Triple.ofExists {γ : Sort*} {P : γ → σ → Prop} {x : EStateM ε σ α} (h : ∀ c, Triple (P c) x Q E) :
    Triple (fun s => ∃ c, P c s) x Q E := by
  intro s hs
  obtain ⟨c, hc⟩ := hs
  exact h c s hc

theorem Triple.ite {c : Prop} [Decidable c] {x y : EStateM ε σ α}
    (hx : c → Triple P x Q E) (hy : ¬ c → Triple P y Q E) :
    Triple P (if c then x else y) Q E := by
  split_ifs with h
  · exact hx h
  · exact hy h

/-- What is caught goes on from the state that the throw left. -/
theorem Triple.tryCatch {x : EStateM ε σ α} {handle : ε → EStateM ε σ α} (hx : Triple P x Q E')
    (hhandle : ∀ e, Triple (E' e) (handle e) Q E) : Triple P (tryCatch x handle) Q E := by
  intro s hs
  have hxs := hx s hs
  simp only [tryCatchThe, MonadExcept.tryCatch, MonadExceptOf.tryCatch, EStateM.tryCatch]
  cases hr : x s with
  | ok a s' =>
    rw [hr] at hxs
    exact hxs
  | error e s' =>
    rw [hr] at hxs
    exact hhandle e s' hxs

/-- Whether a program returned. -/
def returned : EStateM.Result ε σ α → Bool
  | .ok _ _ => true
  | .error _ _ => false

theorem exists_of_returned {r : EStateM.Result ε σ α} (h : returned r = true) :
    ∃ a s, r = .ok a s := by
  cases r with
  | ok a s => exact ⟨a, s, rfl⟩
  | error e s => cases h

/-- What a program threw. -/
def thrown : EStateM.Result ε σ α → Option ε
  | .ok _ _ => none
  | .error e _ => some e

/-- The state a program ends in, returned or thrown. -/
def final : EStateM.Result ε σ α → σ
  | .ok _ s => s
  | .error _ s => s

theorem Triple.final {x : EStateM ε σ α} (h : Triple P x (fun _ => I) fun _ => I) {s : σ} (hs : P s) :
    I (final (x s)) := by
  have := h s hs
  cases hr : x s with
  | ok a s' =>
    rw [hr] at this
    exact this
  | error e s' =>
    rw [hr] at this
    exact this

theorem bind_of_ok {x : EStateM ε σ α} {f : α → EStateM ε σ β} {s s' : σ} {a : α}
    (h : x s = .ok a s') : (x >>= f) s = f a s' := by
  simp only [Bind.bind, EStateM.bind, h]

theorem bind_of_error {x : EStateM ε σ α} {f : α → EStateM ε σ β} {s s' : σ} {e : ε}
    (h : x s = .error e s') : (x >>= f) s = .error e s' := by
  simp only [Bind.bind, EStateM.bind, h]

/-- What is read off the final state is settled by the first program, if the second never
changes it. -/
theorem final_bind {γ : Type} {g : σ → γ} {x : EStateM ε σ α} {f : α → EStateM ε σ β}
    (hf : ∀ a s, g (final (f a s)) = g s) (s : σ) : g (final ((x >>= f) s)) = g (final (x s)) := by
  simp only [Bind.bind, EStateM.bind]
  cases x s with
  | ok a s' => exact hf a s'
  | error e s' => rfl

theorem final_adaptExcept {ε' : Type} (f : ε → ε') (x : EStateM ε σ α) (s : σ) :
    final (x.adaptExcept f s) = final (x s) := by
  rw [EStateM.adaptExcept]
  cases x s <;> rfl

/-- A throw at the end keeps what was done before it. -/
theorem final_bind_throw (x : EStateM ε σ α) (e : ε) (s : σ) :
    final ((x >>= fun _ => (throw e : EStateM ε σ β)) s) = final (x s) := by
  simp only [Bind.bind, EStateM.bind]
  cases x s <;> rfl

theorem bind_throw_ne_ok (x : EStateM ε σ α) (e : ε) (s s' : σ) (b : β) :
    (x >>= fun _ => (throw e : EStateM ε σ β)) s ≠ .ok b s' := by
  simp only [Bind.bind, EStateM.bind]
  cases x s <;> exact nofun

end Program
