import Mathlib

/-! Statements at the READ COMMITTED level. A statement sees the table as it was when it started; the rows
it changes are looked at once more as they are when it commits, and those added in between stay unseen. -/

namespace ReadCommitted

variable {ρ κ : Type*}

/-- The table has grown out of an earlier one: its rows were changed, and others added after them. -/
def Since (Later : ρ → ρ → Prop) (before now : List ρ) : Prop :=
  ∃ kept added, now = kept ++ added ∧ List.Forall₂ Later before kept

section Statements

variable [DecidableEq κ] (key : ρ → κ) (selects : ρ → Bool) (sets : ρ → ρ)

/-- The `WHERE` of an update: it held of the row in the snapshot, and holds of the row as it is. -/
def finds (snapshot : List ρ) (r : ρ) : Bool :=
  (snapshot.any fun r₀ => decide (key r₀ = key r) && selects r₀) && selects r

def update (snapshot table : List ρ) : List ρ :=
  table.map fun r => if finds key selects snapshot r then sets r else r

/-- `RETURNING`: the rows that an update has changed. -/
def returning (snapshot table : List ρ) : List ρ := (table.filter (finds key selects snapshot)).map sets

end Statements

section Growth

variable {Later : ρ → ρ → Prop} {before now : List ρ}

theorem Since.refl (hrefl : ∀ r, Later r r) (table : List ρ) : Since Later table table :=
  ⟨table, [], (List.append_nil table).symm, List.forall₂_same.2 fun r _ => hrefl r⟩

theorem Since.insert (h : Since Later before now) (r : ρ) : Since Later before (now ++ [r]) := by
  obtain ⟨kept, added, rfl, hkept⟩ := h
  exact ⟨kept, added ++ [r], List.append_assoc .., hkept⟩

theorem forall₂_map_right {l l' : List ρ} {f : ρ → ρ}
    (htrans : ∀ a b c, Later a b → Later b c → Later a c) (h : List.Forall₂ Later l l')
    (hf : ∀ r ∈ l', Later r (f r)) : List.Forall₂ Later l (l'.map f) := by
  induction h with
  | nil => exact .nil
  | cons hlater _ ih =>
    exact .cons (htrans _ _ _ hlater (hf _ List.mem_cons_self)) (ih fun r hr => hf r (List.mem_cons_of_mem _ hr))

theorem Since.map (htrans : ∀ a b c, Later a b → Later b c → Later a c) (h : Since Later before now)
    {f : ρ → ρ} (hf : ∀ r ∈ now, Later r (f r)) : Since Later before (now.map f) := by
  obtain ⟨kept, added, rfl, hkept⟩ := h
  refine ⟨kept.map f, added.map f, List.map_append, ?_⟩
  exact forall₂_map_right htrans hkept fun r hr => hf r (List.mem_append_left _ hr)

/-- The row that a row of the earlier table has become. -/
theorem Since.exists_later (h : Since Later before now) {r : ρ} (hr : r ∈ before) :
    ∃ r' ∈ now, Later r r' := by
  obtain ⟨kept, added, rfl, hkept⟩ := h
  induction hkept with
  | nil => cases hr
  | cons hlater _ ih =>
    rcases List.mem_cons.1 hr with rfl | hr
    · exact ⟨_, List.mem_cons_self, hlater⟩
    · obtain ⟨r', hr', hlater'⟩ := ih hr
      exact ⟨r', List.mem_cons_of_mem _ hr', hlater'⟩

end Growth

section Keys

variable [DecidableEq κ] {key : ρ → κ} {Later : ρ → ρ → Prop} {before now : List ρ}
  {selects : ρ → Bool} {sets : ρ → ρ}

theorem keys_update (selects : ρ → Bool) (hsets : ∀ r, key (sets r) = key r) (snapshot table : List ρ) :
    (update key selects sets snapshot table).map key = table.map key := by
  rw [update, List.map_map]
  refine List.map_congr_left fun r _ => ?_
  rw [Function.comp_apply]
  split_ifs
  · exact hsets r
  · rfl

theorem mem_update {snapshot table : List ρ} {r' : ρ} :
    r' ∈ update key selects sets snapshot table ↔
      ∃ r ∈ table, r' = if finds key selects snapshot r then sets r else r := by
  simp only [update, List.mem_map, eq_comm]

/-- A row that a statement could have found all along is found, if its snapshot has it. -/
theorem finds_iff (hkey : ∀ r r', Later r r' → key r = key r')
    (hback : ∀ r r', Later r r' → selects r' = true → selects r = true)
    (h : Since Later before now) (hnodup : (now.map key).Nodup) {r : ρ} (hr : r ∈ now) :
    finds key selects before r = true ↔ selects r = true ∧ key r ∈ before.map key := by
  unfold finds
  rw [Bool.and_eq_true, List.any_eq_true]
  constructor
  · intro ⟨⟨r₀, hr₀, hmatch⟩, hselects⟩
    rw [Bool.and_eq_true, decide_eq_true_eq] at hmatch
    exact ⟨hselects, hmatch.1 ▸ List.mem_map_of_mem hr₀⟩
  · intro ⟨hselects, hin⟩
    obtain ⟨r₀, hr₀, hkey₀⟩ := List.mem_map.1 hin
    obtain ⟨r', hr', hlater⟩ := h.exists_later hr₀
    have hsame : r' = r := List.inj_on_of_nodup_map hnodup hr' hr ((hkey _ _ hlater).symm.trans hkey₀)
    subst hsame
    refine ⟨⟨r₀, hr₀, ?_⟩, hselects⟩
    rw [Bool.and_eq_true, decide_eq_true_eq]
    exact ⟨hkey₀, hback _ _ hlater hselects⟩

theorem countP_le_of_forall₂ {p q : ρ → Bool} {l l' : List ρ} (h : List.Forall₂ Later l l')
    (hback : ∀ r r', Later r r' → q r' = true → p r = true) : l'.countP q ≤ l.countP p := by
  induction h with
  | nil => exact le_rfl
  | @cons r r' l l' hlater _ ih =>
    rw [List.countP_cons, List.countP_cons]
    by_cases hq : q r' = true
    · rw [if_pos hq, if_pos (hback _ _ hlater hq)]
      exact Nat.add_le_add_right ih 1
    · rw [if_neg hq]
      omega

omit [DecidableEq κ] in
/-- As many rows as the snapshot counts, if it has the rows that count now. -/
theorem Since.countP_le {p q : ρ → Bool} (h : Since Later before now)
    (hkey : ∀ r r', Later r r' → key r = key r')
    (hback : ∀ r r', Later r r' → q r' = true → p r = true) (hnodup : (now.map key).Nodup)
    (hseen : ∀ r ∈ now, q r = true → key r ∈ before.map key) : now.countP q ≤ before.countP p := by
  obtain ⟨kept, added, rfl, hkept⟩ := h
  have hkeys : before.map key = kept.map key := by
    rw [← List.forall₂_eq_eq_eq, List.forall₂_map_left_iff, List.forall₂_map_right_iff]
    exact hkept.imp hkey
  have hadded : added.countP q = 0 := by
    rw [List.countP_eq_zero]
    intro r hr hq
    have hin := hseen r (List.mem_append_right _ hr) hq
    rw [hkeys] at hin
    rw [List.map_append] at hnodup
    exact List.disjoint_of_nodup_append hnodup hin (List.mem_map_of_mem hr)
  rw [List.countP_append, hadded, Nat.add_zero]
  exact countP_le_of_forall₂ hkept hback

end Keys

end ReadCommitted
