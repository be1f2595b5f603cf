import Mathlib

/-! A table in which the first row of a key stays: what `ON CONFLICT … DO NOTHING` makes of the rows that are
inserted. -/

namespace FirstWins

section Insert

variable {α κ : Type} [DecidableEq κ] (key : α → κ)

def insertNew (rows : List α) (x : α) : List α :=
  if rows.any fun row => key row = key x then rows else rows ++ [x]

def insertAll (rows : List α) (xs : List α) : List α := xs.foldl (insertNew key) rows

theorem exists_find? {xs : List α} {x : α} (hx : x ∈ xs) :
    ∃ found, xs.find? (fun row => key row = key x) = some found ∧ key found = key x := by
  have hsome : (xs.find? fun row => key row = key x).isSome = true := by
    rw [List.find?_isSome]
    exact ⟨x, hx, decide_eq_true rfl⟩
  obtain ⟨found, hfound⟩ := Option.isSome_iff_exists.1 hsome
  have hkey := List.find?_some hfound
  rw [decide_eq_true_eq] at hkey
  exact ⟨found, hfound, hkey⟩

variable {key} {rows xs : List α} {x : α} {k : κ}

/-- Where keys are unique a row is found under its own. -/
theorem find?_eq_some_iff_of_nodup (hnodup : (rows.map key).Nodup) :
    rows.find? (fun row => key row = k) = some x ↔ x ∈ rows ∧ key x = k := by
  constructor
  · intro hfind
    have hkey := List.find?_some hfind
    rw [decide_eq_true_eq] at hkey
    exact ⟨List.mem_of_find?_eq_some hfind, hkey⟩
  · intro ⟨hx, hkey⟩
    subst hkey
    obtain ⟨found, hfound, hsame⟩ := exists_find? key hx
    rw [hfound, List.inj_on_of_nodup_map hnodup (List.mem_of_find?_eq_some hfound) hx hsame]

@[simp]
theorem insertAll_nil : insertAll key rows [] = rows := rfl

theorem insertAll_append (ys : List α) :
    insertAll key rows (xs ++ ys) = insertAll key (insertAll key rows xs) ys := by
  rw [insertAll, List.foldl_append]
  rfl

/-- The row of a key is the first that was ever inserted under it. -/
theorem find?_insertNew (x : α) :
    (insertNew key rows x).find? (fun row => key row = k) =
      (rows ++ [x]).find? (fun row => key row = k) := by
  unfold insertNew
  split_ifs with hany
  · rw [List.find?_append]
    by_cases hx : key x = k
    · obtain ⟨row, hrow, hkey⟩ := List.any_eq_true.1 hany
      rw [decide_eq_true_eq] at hkey
      obtain ⟨found, hfound, -⟩ := exists_find? key hrow
      rw [hkey, hx] at hfound
      rw [hfound]
      rfl
    · rw [List.find?_singleton, if_neg (by rwa [decide_eq_true_eq]), Option.or_none]
  · rfl

theorem find?_insertAll (xs : List α) :
    (insertAll key rows xs).find? (fun row => key row = k) =
      (rows ++ xs).find? (fun row => key row = k) := by
  induction xs generalizing rows with
  | nil => rw [insertAll_nil, List.append_nil]
  | cons x xs ih =>
    change (insertAll key (insertNew key rows x) xs).find? _ = _
    rw [ih, List.find?_append, find?_insertNew, ← List.find?_append, List.append_assoc]
    rfl

theorem mem_of_mem_insertAll (h : x ∈ insertAll key rows xs) : x ∈ rows ∨ x ∈ xs := by
  induction xs generalizing rows with
  | nil => exact .inl h
  | cons y ys ih =>
    rcases ih h with hrows | hys
    · unfold insertNew at hrows
      split_ifs at hrows
      · exact .inl hrows
      · rcases List.mem_append.1 hrows with hold | hnew
        · exact .inl hold
        · rw [List.mem_singleton.1 hnew]
          exact .inr List.mem_cons_self
    · exact .inr (List.mem_cons_of_mem _ hys)

theorem mem_insertAll_of_mem (h : x ∈ rows) : x ∈ insertAll key rows xs := by
  induction xs generalizing rows with
  | nil => exact h
  | cons y ys ih =>
    refine ih ?_
    unfold insertNew
    split_ifs
    · exact h
    · exact List.mem_append_left _ h

theorem nodup_insertAll (h : (rows.map key).Nodup) : ((insertAll key rows xs).map key).Nodup := by
  induction xs generalizing rows with
  | nil => exact h
  | cons x xs ih =>
    refine ih ?_
    unfold insertNew
    split_ifs with hany
    · exact h
    · rw [List.map_append, List.nodup_append_comm]
      refine List.nodup_cons.2 ⟨fun hin => hany ?_, h⟩
      obtain ⟨row, hrow, hkey⟩ := List.mem_map.1 hin
      exact List.any_eq_true.2 ⟨row, hrow, decide_eq_true hkey⟩

theorem insertNew_of_fresh (h : ∀ row ∈ rows, key row ≠ key x) : insertNew key rows x = rows ++ [x] := by
  unfold insertNew
  rw [if_neg]
  simpa using h

/-- Rows whose keys are new, and their own, are put behind those that are there. -/
theorem insertAll_of_fresh (h : ∀ row ∈ rows, ∀ x ∈ xs, key row ≠ key x) (hnodup : (xs.map key).Nodup) :
    insertAll key rows xs = rows ++ xs := by
  induction xs generalizing rows with
  | nil => simp
  | cons x xs ih =>
    rw [List.map_cons, List.nodup_cons] at hnodup
    change insertAll key (insertNew key rows x) xs = _
    rw [insertNew_of_fresh fun row hrow => h row hrow x List.mem_cons_self]
    rw [ih _ hnodup.2, List.append_assoc, List.singleton_append]
    intro row hrow y hy
    rcases List.mem_append.1 hrow with hold | hnew
    · exact h row hold y (List.mem_cons_of_mem _ hy)
    · rw [List.mem_singleton.1 hnew]
      exact fun heq => hnodup.1 (List.mem_map.2 ⟨y, hy, heq.symm⟩)

/-- Where no two rows share a key nothing is left out. -/
theorem mem_insertAll_of_inj (hinj : ∀ y ∈ rows ++ xs, key y = key x → y = x) (hx : x ∈ rows ++ xs) :
    x ∈ insertAll key rows xs := by
  obtain ⟨found, hfound, hkey⟩ := exists_find? key hx
  have hsame := hinj found (List.mem_of_find?_eq_some hfound) hkey
  rw [← find?_insertAll xs, hsame] at hfound
  exact List.mem_of_find?_eq_some hfound

/-- The keys that are stored are those that were inserted. -/
theorem mem_keys_insertAll : k ∈ (insertAll key rows xs).map key ↔ k ∈ rows.map key ∨ k ∈ xs.map key := by
  constructor
  · intro h
    obtain ⟨row, hrow, rfl⟩ := List.mem_map.1 h
    exact (mem_of_mem_insertAll hrow).imp List.mem_map_of_mem List.mem_map_of_mem
  · rw [← List.mem_append, ← List.map_append]
    intro h
    obtain ⟨row, hrow, rfl⟩ := List.mem_map.1 h
    obtain ⟨found, hfound, hkey⟩ := exists_find? key hrow
    rw [← find?_insertAll xs] at hfound
    exact List.mem_map.2 ⟨found, List.mem_of_find?_eq_some hfound, hkey⟩

/-- Where rows of one key are the same row, each is stored once. -/
theorem perm_insertAll [DecidableEq α] (hinj : ∀ x ∈ xs, ∀ y ∈ xs, key x = key y → x = y) :
    (insertAll key [] xs).Perm xs.dedup := by
  have hnodup : ((insertAll key [] xs).map key).Nodup := nodup_insertAll (by simp)
  rw [List.perm_ext_iff_of_nodup (List.Nodup.of_map key hnodup) (List.nodup_dedup _)]
  intro x
  rw [List.mem_dedup]
  refine ⟨fun hx => (mem_of_mem_insertAll hx).resolve_left List.not_mem_nil, fun hx => ?_⟩
  exact mem_insertAll_of_inj (fun y hy hkey => hinj y hy x hx hkey) hx

/-- Entries that may be left out, one after the other. -/
theorem foldl_insertNew {β : Type} {offer : β → Option α} {step : List α → β → List α}
    (hstep : ∀ rows y, step rows y = (offer y).elim rows (insertNew key rows)) (ys : List β) :
    ys.foldl step rows = insertAll key rows (ys.filterMap offer) := by
  induction ys generalizing rows with
  | nil => rfl
  | cons y ys ih =>
    rw [List.foldl_cons, ih, hstep]
    cases hy : offer y with
    | none => rw [List.filterMap_cons_none hy, Option.elim_none]
    | some x =>
      rw [List.filterMap_cons_some hy]
      rfl

end Insert

end FirstWins
