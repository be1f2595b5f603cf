import Mathlib

/-! Reading a list in pages, each going on after the last element of the one before: nothing is lost or
repeated if the keys are distinct. -/

namespace Paging

variable {α κ : Type*} [LinearOrder κ] {key : α → κ}

/-- The elements after a position; before the first page there is none. -/
def Beyond (key : α → κ) (after : Option κ) (a : α) : Prop := ∀ k ∈ after, k < key a

instance (after : Option κ) : DecidablePred (Beyond key after) := fun a =>
  inferInstanceAs (Decidable (∀ k ∈ after, k < key a))

/-- The first elements of a list, and the position to go on from if there are more. -/
def pageOf (key : α → κ) (size : ℕ) (l : List α) : List α × Option κ :=
  (l.take size, if size < l.length then (l.take size).getLast?.map key else none)

/-- The pages in turn; `none` if one is refused or they have not ended after that many. -/
def follow {γ : Type*} (page : Option γ → Option (List α × Option γ)) :
    ℕ → Option γ → Option (List (List α))
  | 0, _ => none
  | turns + 1, after =>
    match page after with
    | none => none
    | some (front, none) => some [front]
    | some (front, some k) => (follow page turns (some k)).map (front :: ·)

/-- Pages that have ended stay as they are with more turns. -/
theorem follow_mono {γ : Type*} {page : Option γ → Option (List α × Option γ)} {turns more : ℕ}
    (hle : turns ≤ more) {after : Option γ} {pages : List (List α)}
    (h : follow page turns after = some pages) : follow page more after = some pages := by
  induction turns generalizing more after pages with
  | zero => cases h
  | succ turns ih =>
    obtain ⟨more, rfl⟩ := Nat.exists_eq_add_of_le' (Nat.pos_of_ne_zero (by omega : more ≠ 0))
    rw [follow] at h ⊢
    rcases hp : page after with _ | ⟨front, _ | k⟩
    · rw [hp] at h
      cases h
    · rw [hp] at h
      exact h
    · rw [hp] at h
      obtain ⟨rest, hrest, rfl⟩ := Option.map_eq_some_iff.1 h
      dsimp only
      rw [ih (by omega) hrest]
      rfl

theorem beyond_none (a : α) : Beyond key none a := nofun

theorem beyond_some {k : κ} {a : α} : Beyond key (some k) a ↔ k < key a := by
  simp [Beyond]

/-- After the last element of a page comes what the page left out. -/
theorem filter_beyond_page {l front rest : List α} {last : α}
    (hsorted : l.Pairwise fun a b => key a < key b) (hsplit : l = front ++ [last] ++ rest) :
    l.filter (fun a => Beyond key (some (key last)) a) = rest := by
  subst hsplit
  rw [List.pairwise_append, List.pairwise_append] at hsorted
  obtain ⟨⟨-, -, hfront⟩, -, hrest⟩ := hsorted
  rw [List.filter_append, List.filter_append, List.filter_eq_nil_iff.2, List.filter_eq_nil_iff.2,
    List.filter_eq_self.2]
  · rfl
  · intro a ha
    exact decide_eq_true (beyond_some.2 (hrest last (by simp) a ha))
  · intro a ha hbeyond
    rw [List.mem_singleton.1 ha, decide_eq_true_eq, beyond_some] at hbeyond
    exact lt_irrefl _ hbeyond
  · intro a ha hbeyond
    rw [decide_eq_true_eq, beyond_some] at hbeyond
    exact lt_asymm hbeyond (hfront a ha last List.mem_cons_self)

/-- The pages end, and together they are all that lies after the position. -/
theorem follow_pageOf {l : List α} {size : ℕ} (hsize : 0 < size)
    (hsorted : l.Pairwise fun a b => key a < key b) {turns : ℕ} {after : Option κ}
    (hturns : (l.filter fun a => Beyond key after a).length < turns) :
    ∃ pages, follow (fun k => some (pageOf key size (l.filter fun a => Beyond key k a))) turns after =
        some pages ∧
      pages.flatten = l.filter (fun a => Beyond key after a) ∧ ∀ p ∈ pages, p.length ≤ size := by
  induction turns generalizing after with
  | zero => exact absurd hturns (Nat.not_lt_zero _)
  | succ turns ih =>
    rw [follow]
    generalize hrest : l.filter (fun a => Beyond key after a) = rest at hturns
    have htake : (rest.take size).length ≤ size := by
      rw [List.length_take]
      exact min_le_left _ _
    by_cases hmore : size < rest.length
    · -- the page is full, and the next one goes on after its last element
      have hne : rest.take size ≠ [] := by
        rw [← List.length_pos_iff_ne_nil, List.length_take]
        omega
      have hlast : (rest.take size).getLast? = some ((rest.take size).getLast hne) :=
        List.getLast?_eq_some_getLast hne
      have hsplit : rest =
          (rest.take size).dropLast ++ [(rest.take size).getLast hne] ++ rest.drop size := by
        rw [List.dropLast_append_getLast, List.take_append_drop]
      have hsortedRest : rest.Pairwise fun a b => key a < key b := hrest ▸ hsorted.filter _
      have hdrop := filter_beyond_page hsortedRest hsplit
      generalize (rest.take size).getLast hne = last at hlast hsplit hdrop
      have hafter : Beyond key after last := by
        have hmem : last ∈ rest := by
          rw [hsplit]
          simp
        rw [← hrest, List.mem_filter, decide_eq_true_eq] at hmem
        exact hmem.2
      have hbeyond : l.filter (fun a => Beyond key (some (key last)) a) = rest.drop size := by
        rw [← hdrop, ← hrest, List.filter_filter]
        refine List.filter_congr fun a _ => ?_
        rw [← Bool.decide_and, decide_eq_decide]
        refine ⟨fun h => ⟨h, fun k hk => ?_⟩, And.left⟩
        exact (hafter k hk).trans (beyond_some.1 h)
      have hfewer : (rest.drop size).length < turns := by
        rw [List.length_drop]
        omega
      rw [← hbeyond] at hfewer
      obtain ⟨pages, hpages, hflatten, hlengths⟩ := ih hfewer
      rw [pageOf, if_pos hmore, hlast]
      dsimp only [Option.map_some]
      rw [hpages]
      refine ⟨_, rfl, ?_, ?_⟩
      · rw [List.flatten_cons, hflatten, hbeyond, List.take_append_drop]
      · exact List.forall_mem_cons.2 ⟨htake, hlengths⟩
    · rw [pageOf, if_neg hmore]
      refine ⟨_, rfl, ?_, ?_⟩
      · rw [List.flatten_cons, List.flatten_nil, List.append_nil, List.take_of_length_le (by omega)]
      · exact List.forall_mem_cons.2 ⟨htake, by simp⟩

/-- The pages of a reader to whom positions are given as texts. -/
def throughText {τ : Type*} (encode : κ → τ) (decode : τ → Option κ)
    (page : Option κ → Option (List α × Option κ)) :
    Option τ → Option (List α × Option τ)
  | none => (page none).map fun p => (p.1, p.2.map encode)
  | some text => (decode text).bind fun k => (page (some k)).map fun p => (p.1, p.2.map encode)

omit [LinearOrder κ] in
/-- Texts that read back as the positions they stand for do not change what is read. -/
theorem follow_throughText {τ : Type*} {encode : κ → τ} {decode : τ → Option κ}
    {page : Option κ → Option (List α × Option κ)} {Good : κ → Prop}
    (hround : ∀ k, Good k → decode (encode k) = some k)
    (hgood : ∀ after front k, page after = some (front, some k) → Good k)
    {turns : ℕ} {after : Option κ} (hafter : ∀ k ∈ after, Good k) :
    follow (throughText encode decode page) turns (after.map encode) = follow page turns after := by
  induction turns generalizing after with
  | zero => rfl
  | succ turns ih =>
    have hpage : throughText encode decode page (after.map encode) =
        (page after).map fun p => (p.1, p.2.map encode) := by
      cases after with
      | none => rfl
      | some k => rw [Option.map_some, throughText, hround k (hafter k rfl), Option.bind_some]
    rw [follow, follow, hpage]
    rcases hp : page after with _ | ⟨front, _ | k⟩
    · rfl
    · rfl
    · have hk := hgood after front k hp
      have hrest : follow (throughText encode decode page) turns (some (encode k)) =
          follow page turns (some k) :=
        ih fun k' hk' => Option.mem_some_iff.1 hk' ▸ hk
      dsimp only [Option.map_some]
      rw [hrest]

end Paging
