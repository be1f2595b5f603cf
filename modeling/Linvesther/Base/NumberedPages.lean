import Mathlib

/-! A listing read page by page, each filtered as it comes: reading ends at a page of which nothing is left, or when
as much is left as the listing has in all. -/

namespace NumberedPages

variable {α β : Type*}

/-- The pages are numbered from zero. -/
def pageAt (size : ℕ) (l : List α) (k : ℕ) : List α := (l.drop (k * size)).take size

/-- What is collected from a page on; `none` if reading has not ended after that many turns. -/
def collect (keep : α → Option β) (size : ℕ) (l : List α) : ℕ → ℕ → List β → Option (List β)
  | 0, _, _ => none
  | turns + 1, k, found =>
    let page := (pageAt size l k).filterMap keep
    if page = [] ∨ l.length ≤ (found ++ page).length then some (found ++ page)
    else collect keep size l turns (k + 1) (found ++ page)

variable {keep : α → Option β} {size : ℕ} {l : List α}

theorem take_succ_mul (size : ℕ) (l : List α) (k : ℕ) :
    l.take ((k + 1) * size) = l.take (k * size) ++ pageAt size l k := by
  unfold pageAt
  rw [Nat.succ_mul, List.take_add]

theorem pageAt_eq_nil {k : ℕ} (h : l.length ≤ k * size) : pageAt size l k = [] := by
  unfold pageAt
  rw [List.drop_of_length_le h, List.take_nil]

/-- Of some page nothing is left, at the latest of the one after the end. -/
theorem exists_empty (keep : α → Option β) (hsize : 0 < size) (l : List α) :
    ∃ k, (pageAt size l k).filterMap keep = [] :=
  ⟨l.length, by rw [pageAt_eq_nil (Nat.le_mul_of_pos_right _ hsize), List.filterMap_nil]⟩

/-- The first such page. -/
def firstEmpty (keep : α → Option β) (hsize : 0 < size) (l : List α) [DecidableEq β] : ℕ :=
  Nat.find (exists_empty keep hsize l)

variable [DecidableEq β] (hsize : 0 < size)

theorem firstEmpty_le_length : firstEmpty keep hsize l ≤ l.length :=
  Nat.find_min' _ (by rw [pageAt_eq_nil (Nat.le_mul_of_pos_right _ hsize), List.filterMap_nil])

theorem collect_from {turns k : ℕ} (hk : k ≤ firstEmpty keep hsize l)
    (hturns : firstEmpty keep hsize l < k + turns) :
    collect keep size l turns k ((l.take (k * size)).filterMap keep) =
      some ((l.take (firstEmpty keep hsize l * size)).filterMap keep) := by
  induction turns generalizing k with
  | zero => omega
  | succ turns ih =>
    have hfound : (l.take (k * size)).filterMap keep ++ (pageAt size l k).filterMap keep =
        (l.take ((k + 1) * size)).filterMap keep := by
      rw [take_succ_mul, List.filterMap_append]
    rw [collect, hfound]
    rcases hk.lt_or_eq with hlt | heq
    · have hnonempty : (pageAt size l k).filterMap keep ≠ [] := Nat.find_min _ hlt
      by_cases hall : l.length ≤ ((l.take ((k + 1) * size)).filterMap keep).length
      · -- nothing was left out so far, and the listing is at its end
        rw [if_pos (.inr hall)]
        have htaken := (List.length_filterMap_le keep (l.take ((k + 1) * size))).trans' hall
        rw [List.length_take] at htaken
        have hend : l.length ≤ (k + 1) * size := le_trans htaken (min_le_left _ _)
        have hend' : l.length ≤ firstEmpty keep hsize l * size :=
          hend.trans (Nat.mul_le_mul_right _ hlt)
        rw [List.take_of_length_le hend, List.take_of_length_le hend']
      · rw [if_neg (not_or.2 ⟨hnonempty, hall⟩)]
        exact ih hlt (by omega)
    · have hempty : (pageAt size l k).filterMap keep = [] := by
        have hfind := Nat.find_spec (exists_empty keep hsize l)
        rwa [heq]
      rw [if_pos (.inl hempty), take_succ_mul, List.filterMap_append, hempty, List.append_nil, heq]

/-- Reading ends, and has collected what is left of the pages before the first of which nothing is. -/
theorem collect_eq {turns : ℕ} (hturns : l.length < turns) : collect keep size l turns 0 [] =
    some ((l.take (firstEmpty keep hsize l * size)).filterMap keep) := by
  have hfirst := @firstEmpty_le_length _ _ keep size l _ hsize
  have hcollect := @collect_from _ _ keep size l _ hsize turns 0 (Nat.zero_le _) (by omega)
  simpa using hcollect

/-- All is collected exactly if nothing is left behind a page of which nothing is left. -/
theorem take_firstEmpty_iff : (l.take (firstEmpty keep hsize l * size)).filterMap keep = l.filterMap keep ↔
    ∀ k, (pageAt size l k).filterMap keep = [] → (l.drop (k * size)).filterMap keep = [] := by
  have hsplit : l.filterMap keep = (l.take (firstEmpty keep hsize l * size)).filterMap keep ++
      (l.drop (firstEmpty keep hsize l * size)).filterMap keep := by
    rw [← List.filterMap_append, List.take_append_drop]
  rw [hsplit, List.self_eq_append_right]
  constructor
  · intro h k hempty
    have hle : firstEmpty keep hsize l ≤ k := Nat.find_min' _ hempty
    obtain ⟨more, rfl⟩ := Nat.exists_eq_add_of_le hle
    rw [List.filterMap_eq_nil_iff] at h ⊢
    intro a ha
    rw [Nat.add_mul, ← List.drop_drop] at ha
    exact h a (List.mem_of_mem_drop ha)
  · intro h
    exact h _ (Nat.find_spec (exists_empty keep hsize l))

end NumberedPages
