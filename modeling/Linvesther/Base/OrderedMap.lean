import Mathlib

/-! The entries of an ordered map as a list: which list it is depends on the lookups alone, and a new
key adds one entry. -/

namespace OrderedMap

variable {α β : Type*} {cmp : α → α → Ordering} [Std.TransCmp cmp] [Std.LawfulEqCmp cmp]

omit [Std.LawfulEqCmp cmp] in
theorem nodup_toList (t : Std.TreeMap α β cmp) : t.toList.Nodup := by
  have hdistinct := t.distinct_keys_toList
  refine hdistinct.imp fun {p q} hne heq => ?_
  rw [heq] at hne
  exact hne Std.ReflCmp.compare_self

theorem mem_toList {t : Std.TreeMap α β cmp} {p : α × β} : p ∈ t.toList ↔ t[p.1]? = some p.2 :=
  Std.TreeMap.mem_toList_iff_getElem?_eq_some

/-- Maps with the same lookups have the same entries. -/
theorem perm_toList {t t' : Std.TreeMap α β cmp} (h : ∀ k : α, t[k]? = t'[k]?) :
    t.toList.Perm t'.toList := by
  rw [List.perm_ext_iff_of_nodup (nodup_toList t) (nodup_toList t')]
  intro p
  rw [mem_toList, mem_toList, h]

/-- A key that was not there adds its entry and changes no other. -/
theorem perm_toList_insert {t : Std.TreeMap α β cmp} {k : α} (hk : t[k]? = none) (v : β) :
    (t.insert k v).toList.Perm ((k, v) :: t.toList) := by
  have hnew : (k, v) ∉ t.toList := by
    rw [mem_toList, hk]
    simp
  rw [List.perm_ext_iff_of_nodup (nodup_toList _) (List.nodup_cons.2 ⟨hnew, nodup_toList t⟩)]
  intro p
  obtain ⟨k', v'⟩ := p
  rw [List.mem_cons, mem_toList, mem_toList, Std.TreeMap.getElem?_insert, Prod.mk.injEq]
  dsimp only
  by_cases h : k = k'
  · subst h
    rw [if_pos Std.ReflCmp.compare_self, hk]
    simp [eq_comm]
  · rw [if_neg fun hc => h (Std.LawfulEqCmp.eq_of_compare hc)]
    simp [Ne.symm h]

/-- Adding an element to the list of its key adds it to all the lists together. -/
theorem perm_flatMap_push {γ : Type*} [BEq α] [Std.LawfulBEqCmp cmp] (t : Std.TreeMap α (List γ) cmp)
    (k : α) (x : γ) :
    ((t.alter k fun l => some (l.getD [] ++ [x])).toList.flatMap Prod.snd).Perm
      (t.toList.flatMap Prod.snd ++ [x]) := by
  have halter : (t.alter k fun l => some (l.getD [] ++ [x])).toList.Perm
      (t.insert k (t.getD k [] ++ [x])).toList := by
    refine perm_toList fun k' => ?_
    rw [Std.TreeMap.getElem?_alter, Std.TreeMap.getElem?_insert, Std.TreeMap.getD_eq_getD_getElem?]
  refine (halter.flatMap_right _).trans ?_
  rcases hk : t[k]? with _ | l
  · have hnew := perm_toList_insert hk (t.getD k [] ++ [x])
    rw [Std.TreeMap.getD_eq_getD_getElem?, hk, Option.getD_none, List.nil_append] at hnew ⊢
    refine (hnew.flatMap_right _).trans ?_
    rw [List.flatMap_cons]
    exact List.perm_append_comm
  · -- the other entries are the same before and after
    have hsame : t.toList.Perm (t.insert k l).toList := by
      refine perm_toList fun k' => ?_
      rw [Std.TreeMap.getElem?_insert]
      split_ifs with heq
      · rw [← hk, Std.LawfulEqCmp.eq_of_compare heq]
      · rfl
    rw [Std.TreeMap.getD_eq_getD_getElem?, hk, Option.getD_some]
    have hbefore := (hsame.trans Std.TreeMap.toList_insert_perm).flatMap_right (Prod.snd : α × List γ → List γ)
    have hafter := (Std.TreeMap.toList_insert_perm (t := t) (k := k) (v := l ++ [x])).flatMap_right
      (Prod.snd : α × List γ → List γ)
    refine hafter.trans (List.Perm.trans ?_ (List.Perm.append_right [x] hbefore.symm))
    rw [List.flatMap_cons, List.flatMap_cons, List.append_assoc, List.append_assoc]
    exact List.perm_append_comm.append_left _

/-- The first entry of a key is its only one. -/
theorem lookup_map_toList {γ : Type*} [BEq α] [LawfulBEq α] (t : Std.TreeMap α β cmp) (f : α × β → γ)
    (k : α) : (t.toList.map fun p => (p.1, f p)).lookup k = t[k]?.map fun v => f (k, v) := by
  rcases hk : t[k]? with _ | v
  · rw [Option.map_none, List.lookup_eq_none_iff]
    intro p hp
    obtain ⟨q, hq, rfl⟩ := List.mem_map.1 hp
    rw [mem_toList] at hq
    rw [bne_iff_ne]
    rintro rfl
    rw [hk] at hq
    cases hq
  · have hmem : (k, v) ∈ t.toList := mem_toList.2 hk
    obtain ⟨l₁, l₂, hsplit⟩ := List.append_of_mem hmem
    rw [Option.map_some, List.lookup_eq_some_iff]
    refine ⟨l₁.map fun p => (p.1, f p), l₂.map fun p => (p.1, f p), by rw [hsplit]; simp, ?_⟩
    intro p hp
    obtain ⟨q, hq, rfl⟩ := List.mem_map.1 hp
    have hdistinct := t.distinct_keys_toList
    rw [hsplit, List.pairwise_append] at hdistinct
    have hne := hdistinct.2.2 q hq (k, v) List.mem_cons_self
    rw [bne_iff_ne]
    rintro rfl
    exact hne Std.ReflCmp.compare_self

theorem nodup_keys (t : Std.TreeMap α β cmp) : (t.toList.map Prod.fst).Nodup := by
  rw [List.Nodup, List.pairwise_map]
  refine t.distinct_keys_toList.imp fun {p q} hne heq => ?_
  rw [heq] at hne
  exact hne Std.ReflCmp.compare_self

/-- Among the entries a key has its own, if it has one. -/
theorem filterMap_toList [DecidableEq α] (t : Std.TreeMap α β cmp) (k : α) :
    (t.toList.filterMap fun p => if p.1 = k then some p.2 else none) = t[k]?.toList := by
  have hmem : ∀ v, (k, v) ∈ t.toList ↔ t[k]? = some v := fun v => mem_toList
  have hnodup := nodup_keys t
  generalize t.toList = entries at hmem hnodup
  generalize t[k]? = found at hmem
  have hother : ∀ rest : List (α × β), k ∉ rest.map Prod.fst →
      (rest.filterMap fun p => if p.1 = k then some p.2 else none) = [] := by
    intro rest hrest
    rw [List.filterMap_eq_nil_iff]
    intro p hp
    rw [if_neg]
    rintro rfl
    exact hrest (List.mem_map.2 ⟨p, hp, rfl⟩)
  induction entries generalizing found with
  | nil =>
    cases found with
    | none => rfl
    | some v => exact absurd ((hmem v).2 rfl) List.not_mem_nil
  | cons p entries ih =>
    rw [List.map_cons, List.nodup_cons] at hnodup
    obtain ⟨k', v'⟩ := p
    by_cases h : k' = k
    · subst h
      have hfound := (hmem v').1 List.mem_cons_self
      simp [hfound, hother entries hnodup.1]
    · simp only [List.filterMap_cons, if_neg h]
      refine ih hnodup.2 found fun v => ?_
      rw [← hmem v, List.mem_cons, Prod.mk.injEq]
      simp [Ne.symm h]

/-- Entries that depend on their keys alone, put in one after the other. -/
theorem getElem?_foldl_insert [DecidableEq α] (p : α → Prop) [DecidablePred p] (f : α → β) (keys : List α)
    (t : Std.TreeMap α β cmp) (k : α) :
    (keys.foldl (fun m a => if p a then m.insert a (f a) else m) t)[k]? =
      if k ∈ keys ∧ p k then some (f k) else t[k]? := by
  induction keys generalizing t with
  | nil => simp
  | cons a keys ih =>
    rw [List.foldl_cons, ih]
    by_cases ha : a = k
    · subst ha
      by_cases hp : p a
      · simp [hp]
      · simp [hp]
    · have hcmp : cmp a k ≠ .eq := fun hc => ha (Std.LawfulEqCmp.eq_of_compare hc)
      have hne : k ≠ a := Ne.symm ha
      by_cases hp : p a
      · simp [hp, hne, hcmp, Std.TreeMap.getElem?_insert]
      · simp [hp, hne]

section Groups

variable {γ : Type*} (key : γ → α)

/-- An element is put behind the others of its key. -/
def push (t : Std.TreeMap α (List γ) cmp) (x : γ) : Std.TreeMap α (List γ) cmp :=
  t.alter (key x) fun l => some (l.getD [] ++ [x])

variable [DecidableEq α] {key}

/-- Values put behind the others of their key, one after the other: those of a key stand in their order. -/
theorem getElem?_foldl_alter {δ : Type*} (val : γ → δ) (l : List γ) (t : Std.TreeMap α (List δ) cmp) (k : α) :
    (l.foldl (fun t x => t.alter (key x) fun l => some (l.getD [] ++ [val x])) t)[k]? =
      if k ∈ l.map key then some (t[k]?.getD [] ++ (l.filter fun x => key x = k).map val) else t[k]? := by
  induction l generalizing t with
  | nil => simp
  | cons x l ih =>
    rw [List.foldl_cons, ih, Std.TreeMap.getElem?_alter]
    by_cases hx : key x = k
    · subst hx
      rw [if_pos Std.ReflCmp.compare_self]
      by_cases hrest : key x ∈ l.map key
      · simp [hrest]
      · have hnone : l.filter (fun y => key y = key x) = [] := by
          rw [List.filter_eq_nil_iff]
          intro y hy heq
          exact hrest (List.mem_map.2 ⟨y, hy, by simpa using heq⟩)
        rw [if_neg hrest, if_pos (by simp), List.filter_cons_of_pos (by simp), hnone]
        rfl
    · rw [if_neg fun hc => hx (Std.LawfulEqCmp.eq_of_compare hc)]
      simp [hx, Ne.symm hx]

/-- The groups are those of the keys there are. -/
theorem perm_toList_alter {δ : Type*} (val : γ → δ) (l : List γ) :
    (l.foldl (fun t x => t.alter (key x) fun l => some (l.getD [] ++ [val x]))
      (∅ : Std.TreeMap α (List δ) cmp)).toList.Perm
        ((l.map key).dedup.map fun k => (k, (l.filter fun x => key x = k).map val)) := by
  have hkeys : ((l.map key).dedup.map fun k => (k, (l.filter fun x => key x = k).map val)).Nodup :=
    List.Nodup.map (fun _ _ h => (Prod.mk.inj h).1) (List.nodup_dedup _)
  rw [List.perm_ext_iff_of_nodup (nodup_toList _) hkeys]
  rintro ⟨k, group⟩
  rw [mem_toList, List.mem_map]
  dsimp only
  rw [getElem?_foldl_alter]
  by_cases hk : k ∈ l.map key
  · rw [if_pos hk, Std.TreeMap.getElem?_emptyc, Option.getD_none, List.nil_append, Option.some.injEq]
    constructor
    · rintro rfl
      exact ⟨k, List.mem_dedup.2 hk, rfl⟩
    · rintro ⟨k', -, heq⟩
      obtain ⟨rfl, rfl⟩ := Prod.mk.inj heq
      rfl
  · rw [if_neg hk, Std.TreeMap.getElem?_emptyc]
    constructor
    · intro h
      cases h
    · rintro ⟨k', hk', heq⟩
      obtain ⟨rfl, -⟩ := Prod.mk.inj heq
      exact absurd (List.mem_dedup.1 hk') hk

theorem perm_toList_groups (l : List γ) :
    (l.foldl (push key) (∅ : Std.TreeMap α (List γ) cmp)).toList.Perm
      ((l.map key).dedup.map fun k => (k, l.filter fun x => key x = k)) := by
  have hgroups : (l.foldl (push key) (∅ : Std.TreeMap α (List γ) cmp)).toList.Perm
      ((l.map key).dedup.map fun k => (k, (l.filter fun x => key x = k).map id)) := perm_toList_alter id l
  simpa only [List.map_id] using hgroups

/-- The groups of distinct keys are together the elements that have one of them. -/
theorem perm_flatMap_filter (key : γ → α) (l : List γ) {keys : List α} (h : keys.Nodup) :
    (keys.flatMap fun k => l.filter fun x => key x = k).Perm (l.filter fun x => key x ∈ keys) := by
  induction keys with
  | nil => simp
  | cons k keys ih =>
    obtain ⟨hk, hkeys⟩ := List.nodup_cons.1 h
    rw [List.flatMap_cons]
    refine ((ih hkeys).append_left _).trans ?_
    have hsplit := List.filter_append_perm (fun x => decide (key x = k)) (l.filter fun x => key x ∈ k :: keys)
    rw [List.filter_filter, List.filter_filter] at hsplit
    refine List.Perm.trans (List.Perm.of_eq ?_) hsplit
    congr 1
    · refine List.filter_congr fun x _ => ?_
      by_cases hx : key x = k
      · simp [hx]
      · simp [hx]
    · refine List.filter_congr fun x _ => ?_
      by_cases hx : key x = k
      · simp [hx, hk]
      · simp [hx]

theorem perm_groups (key : γ → α) (l : List γ) :
    ((l.map key).dedup.flatMap fun k => l.filter fun x => key x = k).Perm l := by
  refine (perm_flatMap_filter key l (List.nodup_dedup _)).trans (List.Perm.of_eq ?_)
  rw [List.filter_eq_self]
  intro x hx
  rw [decide_eq_true_eq, List.mem_dedup]
  exact List.mem_map_of_mem hx

end Groups

section Totals

variable {β : Type*} [AddMonoid β] {cmp : α → α → Ordering} [Std.TransCmp cmp] [Std.LawfulEqCmp cmp] [DecidableEq α]

/-- An amount is added to that of its key. -/
def credit (t : Std.TreeMap α β cmp) (entry : α × β) : Std.TreeMap α β cmp :=
  t.insert entry.1 (t.getD entry.1 0 + entry.2)

/-- What the entries of a key come to. -/
def totalOf (entries : List (α × β)) (k : α) : β := ((entries.filter fun entry => entry.1 = k).map Prod.snd).sum

theorem getElem?_foldl_credit (entries : List (α × β)) (t : Std.TreeMap α β cmp) (k : α) :
    (entries.foldl credit t)[k]? =
      if k ∈ entries.map Prod.fst then some (t.getD k 0 + totalOf entries k) else t[k]? := by
  induction entries generalizing t with
  | nil => simp
  | cons entry entries ih =>
    rw [List.foldl_cons, ih]
    unfold credit totalOf
    rw [Std.TreeMap.getD_insert, Std.TreeMap.getElem?_insert]
    by_cases hk : entry.1 = k
    · subst hk
      rw [if_pos Std.ReflCmp.compare_self, if_pos Std.ReflCmp.compare_self, List.filter_cons_of_pos (by simp),
        List.map_cons, List.map_cons, List.sum_cons]
      by_cases hrest : entry.1 ∈ entries.map Prod.fst
      · simp [hrest, add_assoc]
      · have hnone : (entries.filter fun entry' => entry'.1 = entry.1) = [] := by
          refine List.filter_eq_nil_iff.2 fun e he heq => hrest ?_
          rw [← of_decide_eq_true heq]
          exact List.mem_map_of_mem he
        rw [if_neg hrest, if_pos List.mem_cons_self, hnone]
        simp
    · have hne : ¬ cmp entry.1 k = .eq := fun hc => hk (Std.LawfulEqCmp.eq_of_compare hc)
      rw [if_neg hne, if_neg hne, List.filter_cons_of_neg (by simpa using hk), List.map_cons]
      simp only [List.mem_cons, Ne.symm hk, false_or]

end Totals

section Extend

variable {α β : Type} {cmp : α → α → Ordering} [Std.TransCmp cmp] [Std.LawfulEqCmp cmp] [BEq α]
  [LawfulBEq α] [Std.LawfulBEqCmp cmp]

/-- A map extended by another has the entries of the second before its own. -/
theorem getElem?_insertMany (t t' : Std.TreeMap α β cmp) (k : α) :
    (t.insertMany t'.toList)[k]? = t'[k]?.or t[k]? := by
  cases hfound : t'[k]? with
  | some v =>
    have hmem : (k, v) ∈ t'.toList := mem_toList.2 hfound
    exact Std.TreeMap.getElem?_insertMany_list_of_mem Std.ReflCmp.compare_self t'.distinct_keys_toList hmem
  | none =>
    rw [Option.none_or]
    apply Std.TreeMap.getElem?_insertMany_list_of_contains_eq_false
    rw [Std.TreeMap.map_fst_toList_eq_keys, ← Bool.not_eq_true, List.contains_iff_mem, Std.TreeMap.mem_keys,
      Std.TreeMap.mem_iff_isSome_getElem?, hfound]
    simp

end Extend

section Entries

variable [BEq α] [LawfulBEq α] {l : List (α × β)}

omit [Std.TransCmp cmp] [Std.LawfulEqCmp cmp] in
/-- Where keys do not repeat, a key is looked up as its only entry. -/
theorem lookup_eq_some (hnodup : (l.map Prod.fst).Nodup) {k : α} {v : β} : l.lookup k = some v ↔ (k, v) ∈ l := by
  induction l with
  | nil => simp
  | cons e l ih =>
    obtain ⟨k', v'⟩ := e
    rw [List.map_cons, List.nodup_cons] at hnodup
    rw [List.lookup_cons, List.mem_cons, Prod.mk.injEq]
    by_cases h : k = k'
    · subst h
      have hout : (k, v) ∉ l := fun hin => hnodup.1 (List.mem_map.2 ⟨_, hin, rfl⟩)
      simp [hout, eq_comm]
    · have hne : (k == k') = false := beq_eq_false_iff_ne.2 h
      rw [hne]
      simp [h, ih hnodup.2]

omit [Std.TransCmp cmp] [Std.LawfulEqCmp cmp] in
/-- The entries of one key are the one that is looked up. -/
theorem filter_key [DecidableEq α] (hnodup : (l.map Prod.fst).Nodup) (k : α) :
    l.filter (fun e => e.1 = k) = (l.lookup k).toList.map fun v => (k, v) := by
  induction l with
  | nil => rfl
  | cons e l ih =>
    obtain ⟨k', v'⟩ := e
    rw [List.map_cons, List.nodup_cons] at hnodup
    have hrest := ih hnodup.2
    by_cases h : k' = k
    · subst h
      have hnone : l.lookup k' = none := List.lookup_eq_none_iff.2 fun e he =>
        bne_iff_ne.2 fun heq => hnodup.1 (List.mem_map.2 ⟨e, he, heq.symm⟩)
      rw [hnone] at hrest
      rw [List.filter_cons_of_pos (by simp), hrest, List.lookup_cons_self]
      rfl
    · have hne : (k == k') = false := beq_eq_false_iff_ne.2 (Ne.symm h)
      rw [List.filter_cons_of_neg (by simpa using h), hrest, List.lookup_cons, hne]

theorem getElem?_ofList [Std.LawfulBEqCmp cmp] (hnodup : (l.map Prod.fst).Nodup) (k : α) :
    (Std.TreeMap.ofList l cmp)[k]? = l.lookup k := by
  have hdistinct : l.Pairwise fun a b => ¬ cmp a.1 b.1 = .eq := by
    rw [List.Nodup, List.pairwise_map] at hnodup
    exact hnodup.imp fun {a b} hne heq => hne (Std.LawfulEqCmp.eq_of_compare heq)
  cases hk : l.lookup k with
  | some v =>
    exact Std.TreeMap.getElem?_ofList_of_mem Std.ReflCmp.compare_self hdistinct ((lookup_eq_some hnodup).1 hk)
  | none =>
    refine Std.TreeMap.getElem?_ofList_of_contains_eq_false (Bool.eq_false_iff.2 fun hin => ?_)
    rw [List.contains_iff_mem] at hin
    obtain ⟨e, he, rfl⟩ := List.mem_map.1 hin
    have hsome := (lookup_eq_some hnodup (k := e.1) (v := e.2)).2 he
    rw [hk] at hsome
    cases hsome

end Entries

end OrderedMap
