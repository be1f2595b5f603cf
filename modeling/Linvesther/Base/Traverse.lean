import Linvesther.Base.Transaction

/-! Loops that stop at the first error: what is known of them when they end without one. -/

namespace Transaction

variable {ε : Type*} {α β : Type}

theorem mapM_ok {f : α → Except ε β} {l : List α} {l' : List β} :
    l.mapM f = .ok l' ↔ List.Forall₂ (fun a b => f a = .ok b) l l' := by
  induction l generalizing l' with
  | nil =>
    rw [List.mapM_nil, pure_ok, List.forall₂_nil_left_iff, eq_comm]
  | cons a l ih =>
    rw [List.mapM_cons, bind_ok, List.forall₂_cons_left_iff]
    simp only [bind_ok, pure_ok, ih]
    constructor
    · rintro ⟨b, hb, bs, hbs, rfl⟩
      exact ⟨b, bs, hb, hbs, rfl⟩
    · rintro ⟨b, bs, hb, hbs, rfl⟩
      exact ⟨b, hb, bs, hbs, rfl⟩

/-- A loop whose steps succeed as `g` says ends as the loop of `g` does. -/
theorem foldlM_ok {f : β → α → Except ε β} {g : β → α → β} {l : List α} {b b' : β}
    (hstep : ∀ b, ∀ a ∈ l, ∀ b', f b a = .ok b' → b' = g b a) (h : l.foldlM f b = .ok b') :
    b' = l.foldl g b := by
  induction l generalizing b with
  | nil =>
    rw [List.foldlM_nil, pure_ok] at h
    exact h.symm
  | cons a l ih =>
    rw [List.foldlM_cons, bind_ok] at h
    obtain ⟨b₁, hfirst, hrest⟩ := h
    rw [List.foldl_cons, ← hstep b a List.mem_cons_self b₁ hfirst]
    exact ih (fun b a' ha' => hstep b a' (List.mem_cons_of_mem _ ha')) hrest

/-- A loop whose steps all succeed succeeds. -/
theorem foldlM_exists {f : β → α → Except ε β} {l : List α} (h : ∀ b, ∀ a ∈ l, ∃ b', f b a = .ok b') (b : β) :
    ∃ b', l.foldlM f b = .ok b' := by
  induction l generalizing b with
  | nil => exact ⟨b, rfl⟩
  | cons a l ih =>
    obtain ⟨b₁, hfirst⟩ := h b a List.mem_cons_self
    obtain ⟨b', hrest⟩ := ih (fun b a' ha' => h b a' (List.mem_cons_of_mem _ ha')) b₁
    refine ⟨b', ?_⟩
    rw [List.foldlM_cons, bind_ok]
    exact ⟨b₁, hfirst, hrest⟩

theorem foldlM_exists_iff {f : β → α → Except ε β} {P : α → Prop} {l : List α}
    (h : ∀ b, ∀ a ∈ l, (∃ b', f b a = .ok b') ↔ P a) (b : β) : (∃ b', l.foldlM f b = .ok b') ↔ ∀ a ∈ l, P a := by
  induction l generalizing b with
  | nil => exact ⟨fun _ a ha => absurd ha List.not_mem_nil, fun _ => ⟨b, rfl⟩⟩
  | cons a l ih =>
    have hrest := ih fun b a' ha' => h b a' (List.mem_cons_of_mem _ ha')
    rw [List.forall_mem_cons, ← h b a List.mem_cons_self]
    simp only [List.foldlM_cons, bind_ok]
    constructor
    · rintro ⟨b', b₁, hfirst, hb'⟩
      exact ⟨⟨b₁, hfirst⟩, (hrest b₁).1 ⟨b', hb'⟩⟩
    · rintro ⟨⟨b₁, hfirst⟩, hl⟩
      obtain ⟨b', hb'⟩ := (hrest b₁).2 hl
      exact ⟨b', b₁, hfirst, hb'⟩

theorem mapM_exists {f : α → Except ε β} {P : β → Prop} {l : List α} (h : ∀ a ∈ l, ∃ b, f a = .ok b ∧ P b) :
    ∃ l', l.mapM f = .ok l' ∧ ∀ b ∈ l', P b := by
  induction l with
  | nil => exact ⟨[], rfl, by simp⟩
  | cons a l ih =>
    obtain ⟨⟨b, hb, hP⟩, hrest⟩ := List.forall_mem_cons.1 h
    obtain ⟨l', hl', hall⟩ := ih hrest
    refine ⟨b :: l', ?_, List.forall_mem_cons.2 ⟨hP, hall⟩⟩
    rw [mapM_ok] at hl' ⊢
    exact .cons hb hl'

theorem exists_of_forall₂ {R : α → β → Prop} {l : List α} {l' : List β} (h : List.Forall₂ R l l') :
    (∀ a ∈ l, ∃ b ∈ l', R a b) ∧ ∀ b ∈ l', ∃ a ∈ l, R a b := by
  induction h with
  | nil => simp
  | cons hfirst _ ih =>
    rename_i a b l l' _
    constructor
    · intro a' ha'
      rcases List.mem_cons.1 ha' with rfl | hin
      · exact ⟨b, List.mem_cons_self, hfirst⟩
      · obtain ⟨b', hb', hR⟩ := ih.1 a' hin
        exact ⟨b', List.mem_cons_of_mem _ hb', hR⟩
    · intro b' hb'
      rcases List.mem_cons.1 hb' with rfl | hin
      · exact ⟨a, List.mem_cons_self, hfirst⟩
      · obtain ⟨a', ha', hR⟩ := ih.2 b' hin
        exact ⟨a', List.mem_cons_of_mem _ ha', hR⟩

theorem mapM_map {f : α → Except ε β} {g : α → β} {l : List α} {l' : List β}
    (hstep : ∀ a ∈ l, ∀ b, f a = .ok b → b = g a) (h : l.mapM f = .ok l') : l' = l.map g := by
  rw [mapM_ok] at h
  induction h with
  | nil => rfl
  | cons hfirst _ ih =>
    obtain ⟨ha, hrest⟩ := List.forall_mem_cons.1 hstep
    rw [List.map_cons, ← ih hrest, ha _ hfirst]

theorem forall₂_getElem? {R : α → β → Prop} {l : List α} {l' : List β} (h : List.Forall₂ R l l') {i : ℕ} {a : α}
    (ha : l[i]? = some a) : ∃ b, l'[i]? = some b ∧ R a b := by
  induction h generalizing i with
  | nil => simp at ha
  | cons hfirst _ ih =>
    cases i with
    | zero =>
      rw [List.getElem?_cons_zero, Option.some.injEq] at ha
      subst ha
      exact ⟨_, List.getElem?_cons_zero, hfirst⟩
    | succ i =>
      rw [List.getElem?_cons_succ] at ha ⊢
      exact ih ha

/-- A loop that pairs what it is given with what it finds has an entry for all of it. -/
theorem lookup_mapM [BEq α] [LawfulBEq α] {f : α → Except ε β} {l : List α} {l' : List (α × β)}
    (h : (l.mapM fun a => do
      let b ← f a
      pure (a, b)) = .ok l') {a : α} (ha : a ∈ l) : ∃ b, l'.lookup a = some b ∧ f a = .ok b := by
  rw [mapM_ok] at h
  induction h with
  | nil => cases ha
  | cons hfirst _ ih =>
    rename_i a' e l l' _
    simp only [bind_ok, pure_ok] at hfirst
    obtain ⟨b, hb, rfl⟩ := hfirst
    by_cases hsame : a = a'
    · subst hsame
      exact ⟨b, List.lookup_cons_self, hb⟩
    · rw [List.lookup_cons, beq_eq_false_iff_ne.2 hsame]
      exact ih ((List.mem_cons.1 ha).resolve_left hsame)

end Transaction
