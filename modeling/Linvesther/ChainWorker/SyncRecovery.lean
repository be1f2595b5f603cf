import Linvesther.ChainWorker.CanonicalView

/-! `memoryProjectionStore.ts` behind the indexer: what the store holds is what the indexer's view holds
after every tick, however it ended, as long as no revert fails after another one of its loop went
through. -/

namespace Linvesther.ChainWorker

open Program

section Store

variable {H : Type} [DecidableEq H]

def IndexedBlock.key (block : IndexedBlock H) : ℕ × H := (block.header.number, block.header.hash)

/-- `applied` holds the blocks in the order in which they were added. -/
structure MemoryProjectionStore (H : Type) where
  applyLog : List (IndexedBlock H)
  revertLog : List (IndexedBlock H)
  applied : List (IndexedBlock H)
deriving DecidableEq

namespace MemoryProjectionStore

def empty : MemoryProjectionStore H := ⟨[], [], []⟩

def has (s : MemoryProjectionStore H) (block : IndexedBlock H) : Prop :=
  block.key ∈ s.applied.map IndexedBlock.key

instance (s : MemoryProjectionStore H) (block : IndexedBlock H) : Decidable (s.has block) :=
  inferInstanceAs (Decidable (block.key ∈ s.applied.map IndexedBlock.key))

def apply (block : IndexedBlock H) : EStateM Error (MemoryProjectionStore H) Unit := do
  let s ← get
  if s.has block then throw .store
  else set { s with applied := s.applied ++ [block], applyLog := s.applyLog ++ [block] }

def revert (block : IndexedBlock H) : EStateM Error (MemoryProjectionStore H) Unit := do
  let s ← get
  if s.has block then
    set { s with
      applied := s.applied.filter (·.key ≠ block.key), revertLog := s.revertLog ++ [block] }
  else throw .store

end MemoryProjectionStore

def memoryStore : ProjectionStore H (MemoryProjectionStore H) :=
  ⟨fun _ => MemoryProjectionStore.apply, MemoryProjectionStore.revert⟩

variable {s s' : MemoryProjectionStore H} {block : IndexedBlock H} {m : Moment H}

theorem memoryStore_apply_ok :
    memoryStore.run m (.apply block) s = .ok () s' ↔ ¬ s.has block ∧
      s' = { s with applied := s.applied ++ [block], applyLog := s.applyLog ++ [block] } := by
  by_cases h : s.has block
  · simp [ProjectionStore.run, memoryStore, MemoryProjectionStore.apply, bind, EStateM.bind, get, getThe,
      MonadStateOf.get, EStateM.get, h, throw, throwThe, MonadExceptOf.throw, EStateM.throw]
  · simp [ProjectionStore.run, memoryStore, MemoryProjectionStore.apply, bind, EStateM.bind, get, getThe,
      MonadStateOf.get, EStateM.get, h, set, MonadStateOf.set, EStateM.set, eq_comm]

theorem memoryStore_revert_ok :
    memoryStore.run m (.revert block) s = .ok () s' ↔ s.has block ∧
      s' = { s with applied := s.applied.filter (·.key ≠ block.key), revertLog := s.revertLog ++ [block] } := by
  by_cases h : s.has block
  · simp [ProjectionStore.run, memoryStore, MemoryProjectionStore.revert, bind, EStateM.bind, get, getThe,
      MonadStateOf.get, EStateM.get, h, set, MonadStateOf.set, EStateM.set, eq_comm]
  · simp [ProjectionStore.run, memoryStore, MemoryProjectionStore.revert, bind, EStateM.bind, get, getThe,
      MonadStateOf.get, EStateM.get, h, throw, throwThe, MonadExceptOf.throw, EStateM.throw]

end Store

section Calls

variable {H : Type} [DecidableEq H]

/-- What is applied is not applied already, and what is reverted is applied. -/
def StoreCall.Fits (c : StoreCall H (MemoryProjectionStore H)) : Prop :=
  match c.op with
  | .apply block => ¬ c.store.has block
  | .revert block => c.store.has block

/-- A revert that fails is the first of its loop, which starts at the end of the view. -/
def StoreCall.FailsFirst (c : StoreCall H (MemoryProjectionStore H)) : Prop :=
  match c.op with
  | .apply _ => True
  | .revert block => c.moment.storeUp = false → c.view.getLast? = some block

instance (c : StoreCall H (MemoryProjectionStore H)) : Decidable c.Fits :=
  match c with
  | ⟨store, _, _, .apply block, _⟩ => inferInstanceAs (Decidable (¬ store.has block))
  | ⟨store, _, _, .revert block, _⟩ => inferInstanceAs (Decidable (store.has block))

instance (c : StoreCall H (MemoryProjectionStore H)) : Decidable c.FailsFirst :=
  match c with
  | ⟨_, _, _, .apply _, _⟩ => inferInstanceAs (Decidable True)
  | ⟨_, view, m, .revert block, _⟩ =>
    inferInstanceAs (Decidable (m.storeUp = false → view.getLast? = some block))

/-- The numbers of the view are consecutive up to the one before `n`. -/
def EndsBefore (n : ℕ) (chain : List (IndexedBlock H)) : Prop :=
  ∃ first, first + chain.length = n ∧
    chain.map (·.header.number) = List.range' first chain.length

/-- The store holds the blocks of the view and every call it has had fitted. -/
structure InStep (n : ℕ) (i : Indexer H (MemoryProjectionStore H)) : Prop where
  held : i.store.applied.map (·.header) = i.chain.map (·.header)
  consecutive : EndsBefore n i.chain
  fits : ∀ c ∈ i.calls, c.Fits

/-- An assertion that holds unless a revert failed after another one. -/
def Given (P : Indexer H (MemoryProjectionStore H) → Prop) (i : Indexer H (MemoryProjectionStore H)) :
    Prop :=
  (∀ c ∈ i.calls, c.FailsFirst) → P i

/-- What a tick that throws leaves behind: with the node and the store up, it was the node that had no
block. -/
def Failed (moments : ℕ → Moment H) (e : Error) : Indexer H (MemoryProjectionStore H) → Prop :=
  Given fun i => (∃ n, InStep n i) ∧
    ((∀ t, (moments t).rpcUp = true ∧ (moments t).storeUp = true) → e = .blockNotFound)

end Calls

section Numbers

variable {H : Type} {n : ℕ} {chain pre post : List (IndexedBlock H)} {block : IndexedBlock H}

theorem EndsBefore.number_lt (h : EndsBefore n chain) (hmem : block ∈ chain) :
    block.header.number < n := by
  obtain ⟨first, rfl, hnumbers⟩ := h
  have hin : block.header.number ∈ chain.map (·.header.number) := List.mem_map_of_mem hmem
  rw [hnumbers, List.mem_range'_1] at hin
  exact hin.2

theorem EndsBefore.nodup (h : EndsBefore n chain) : (chain.map IndexedBlock.key).Nodup := by
  obtain ⟨first, -, hnumbers⟩ := h
  have hnodup : ((chain.map IndexedBlock.key).map Prod.fst).Nodup := by
    rw [List.map_map]
    exact hnumbers ▸ List.nodup_range'
  exact hnodup.of_map

theorem EndsBefore.concat (h : EndsBefore n chain) (hblock : block.header.number = n) :
    EndsBefore (n + 1) (chain ++ [block]) := by
  obtain ⟨first, rfl, hnumbers⟩ := h
  refine ⟨first, by simp [Nat.add_assoc], ?_⟩
  rw [List.map_append, hnumbers, List.length_append, List.length_singleton, List.range'_concat]
  simp [hblock]

theorem EndsBefore.of_append (h : EndsBefore n (pre ++ post)) : EndsBefore (n - post.length) pre := by
  obtain ⟨first, rfl, hnumbers⟩ := h
  refine ⟨first, by rw [List.length_append]; omega, ?_⟩
  rw [List.map_append, List.length_append, ← List.range'_append_1] at hnumbers
  exact (List.append_inj hnumbers (by simp)).1

theorem EndsBefore.last (h : EndsBefore n chain) (hlast : chain.getLast? = some block) :
    block.header.number + 1 = n := by
  obtain ⟨pre, rfl⟩ := List.getLast?_eq_some_iff.1 hlast
  obtain ⟨first, rfl, hnumbers⟩ := h
  rw [List.map_append, List.length_append, List.length_singleton, List.range'_concat] at hnumbers
  have hnumber := (List.append_inj' hnumbers (by simp)).2
  simp only [List.map_cons, List.map_nil, List.cons.injEq, and_true] at hnumber
  rw [hnumber, List.length_append, List.length_singleton]
  omega

/-- Cutting the view at a block it holds leaves the blocks before that one. -/
theorem EndsBefore.take_findIdx (h : EndsBefore n chain) (hmem : block ∈ chain) :
    EndsBefore block.header.number
      (chain.take (chain.findIdx (·.header.number = block.header.number))) := by
  obtain ⟨first, -, hnumbers⟩ := h
  have hat : ∀ (j : ℕ) (hj : j < chain.length), chain[j].header.number = first + j := by
    intro j hj
    have := List.getElem_of_eq hnumbers (i := j) (by simpa using hj)
    simpa using this
  have hfound : chain.findIdx (·.header.number = block.header.number) < chain.length :=
    List.findIdx_lt_length_of_exists ⟨block, hmem, by simp⟩
  have hnumber := List.findIdx_getElem (w := hfound)
  rw [decide_eq_true_eq, hat _ hfound] at hnumber
  have hlength : (chain.take (chain.findIdx (·.header.number = block.header.number))).length =
      chain.findIdx (·.header.number = block.header.number) :=
    List.length_take_of_le (Nat.le_of_lt hfound)
  refine ⟨first, by rw [hlength]; exact hnumber, ?_⟩
  obtain ⟨d, hd⟩ := Nat.exists_eq_add_of_le hfound.le
  rw [hlength, List.map_take, hnumbers, hd, ← List.range'_append_1, List.take_left' (by simp)]

end Numbers

section Held

variable {H : Type} [DecidableEq H] {s : MemoryProjectionStore H} {view : List (IndexedBlock H)}
  {block : IndexedBlock H}

omit [DecidableEq H] in
/-- What the store has is read off the headers. -/
theorem has_iff (h : s.applied.map (·.header) = view.map (·.header)) :
    s.has block ↔ block.key ∈ view.map IndexedBlock.key := by
  have hkeys : ∀ l : List (IndexedBlock H), l.map IndexedBlock.key =
      (l.map (·.header)).map fun header => (header.number, header.hash) := fun l => by
    rw [List.map_map]
    rfl
  rw [MemoryProjectionStore.has, hkeys, h, ← hkeys]

/-- Reverting the last block held leaves the others. -/
theorem applied_revert {pre : List (IndexedBlock H)}
    (h : s.applied.map (·.header) = (pre ++ [block]).map (·.header))
    (hnodup : ((pre ++ [block]).map IndexedBlock.key).Nodup) :
    (s.applied.filter (·.key ≠ block.key)).map (·.header) = pre.map (·.header) := by
  have hfilter : ∀ l : List (IndexedBlock H), (l.filter (·.key ≠ block.key)).map (·.header) =
      (l.map (·.header)).filter fun header => (header.number, header.hash) ≠ block.key := fun l => by
    rw [List.filter_map]
    rfl
  rw [hfilter, h, ← hfilter, List.filter_append]
  rw [List.map_append, List.nodup_append] at hnodup
  have hkept : pre.filter (·.key ≠ block.key) = pre := by
    rw [List.filter_eq_self]
    intro b hb
    have hne := hnodup.2.2 _ (List.mem_map_of_mem hb) block.key (by simp)
    simpa using hne
  rw [hkept]
  simp

end Held

section Loops

variable {H : Type} [DecidableEq H] {tree : BlockTree H} {moments : ℕ → Moment H}

omit [DecidableEq H] in
theorem Given.of_call {P : Indexer H (MemoryProjectionStore H) → Prop}
    {i : Indexer H (MemoryProjectionStore H)} (h : Given P i) {c : StoreCall H (MemoryProjectionStore H)}
    (hgiven : ∀ c' ∈ i.calls ++ [c], c'.FailsFirst) : P i ∧ c.FailsFirst :=
  ⟨h fun c' hc' => hgiven c' (List.mem_append_left _ hc'),
    hgiven c (List.mem_append_right _ (List.mem_singleton_self c))⟩

omit [DecidableEq H] in
theorem fits_append {calls : List (StoreCall H (MemoryProjectionStore H))}
    {c : StoreCall H (MemoryProjectionStore H)} (h : ∀ c' ∈ calls, c'.Fits) (hc : c.Fits) :
    ∀ c' ∈ calls ++ [c], c'.Fits := by
  intro c' hc'
  rcases List.mem_append.1 hc' with hold | hnew
  · exact h c' hold
  · rwa [List.mem_singleton.1 hnew]

omit [DecidableEq H] in
/-- The node is what fails when it has no block to answer with. -/
theorem failed_of_node {i : Indexer H (MemoryProjectionStore H)} {e : Error}
    (h : Given (fun i => ∃ n, InStep n i) i) (he : NodeFails moments e) : Failed moments e i := by
  intro hgiven
  refine ⟨h hgiven, fun hup => ?_⟩
  rcases he with ⟨-, t, hdown⟩ | he
  · rw [(hup t).1] at hdown
    cases hdown
  · exact he

omit [DecidableEq H] in
/-- A call of a store that is down leaves everything as it is. -/
theorem failed_of_store {i : Indexer H (MemoryProjectionStore H)} {e : Error} {t : ℕ} {op : StoreOp H}
    {n : ℕ} (h : InStep n i) (hdown : (moments t).storeUp = false)
    (hfits : (⟨i.store, i.chain, moments t, op, false⟩ :
      StoreCall H (MemoryProjectionStore H)).Fits) :
    Failed moments e
      { i with calls := i.calls ++ [⟨i.store, i.chain, moments t, op, false⟩] } := by
  refine fun _ => ⟨⟨n, h.held, h.consecutive, fits_append h.fits hfits⟩, fun hup => ?_⟩
  rw [(hup t).2] at hdown
  cases hdown

omit [DecidableEq H] in
theorem settled_timeless (n : ℕ) :
    Timeless (Given (InStep n) : Indexer H (MemoryProjectionStore H) → Prop) := by
  intro i clock h hgiven
  obtain ⟨hheld, hconsecutive, hfits⟩ := h hgiven
  exact ⟨hheld, hconsecutive, hfits⟩

theorem applyBlocks_settles (snapshot : ChainSnapshot H) (n k : ℕ) :
    Triple (Given (InStep n)) (applyBlocks tree memoryStore moments snapshot (List.range' n k))
      (fun _ => Given fun i => ∃ n, InStep n i) (Failed moments) := by
  induction k generalizing n with
  | zero => exact .pure fun i hi hgiven => ⟨n, hi hgiven⟩
  | succ k ih =>
    have hread := @getBlockByNumber_outcome _ (MemoryProjectionStore H) tree moments (Given (InStep n))
      (settled_timeless n) n
    refine (hread.conseq (fun _ hi => hi) (fun _ _ hi => hi) fun e i hi =>
      failed_of_node (fun hgiven => ⟨n, hi.1 hgiven⟩) hi.2).bind fun header => ?_
    -- after the call the block is in the store and not yet in the view
    refine (callStore_outcome (Q := fun i => Given (fun i => InStep (n + 1)
      { i with chain := i.chain ++ [⟨header, tagFor n snapshot⟩] }) i)
      (fun i clock hi => ⟨settled_timeless n i clock hi.1, hi.2⟩) ?_ ?_).bind fun _ => ?_
    · rintro i t store ⟨hi, t', hn, rfl⟩ - hrun hgiven
      have hsettled := (hi.of_call hgiven).1
      obtain ⟨hnew, rfl⟩ := memoryStore_apply_ok.1 hrun
      refine ⟨?_, hsettled.consecutive.concat (BlockTree.number_canonical hn), fits_append hsettled.fits hnew⟩
      simp [hsettled.held]
    · rintro i t e store ⟨hi, t', hn, rfl⟩ hfail hgiven
      have hsettled := (hi.of_call hgiven).1
      -- the blocks that are held have lower numbers
      have hnew : ¬ i.store.has ⟨tree.header (tree.canonical (moments t').tip n), tagFor n snapshot⟩ := by
        rw [has_iff hsettled.held]
        intro hmem
        obtain ⟨b, hb, hkey⟩ := List.mem_map.1 hmem
        have hlt := hsettled.consecutive.number_lt hb
        have hnumber : b.header.number = n :=
          (congrArg Prod.fst hkey).trans (BlockTree.number_canonical hn)
        omega
      rcases hfail with ⟨hdown, rfl⟩ | ⟨-, hrun⟩
      · exact failed_of_store hsettled hdown hnew hgiven
      · rw [memoryStore_apply_ok.2 ⟨hnew, rfl⟩] at hrun
        cases hrun
    · refine Triple.bind (Q := fun _ => Given (InStep (n + 1))) (.modify fun i hi => hi) fun _ => ?_
      exact (ih (n + 1)).bind fun _ => .pure fun _ hi => hi

/-- While a loop of reverts runs the store holds the part of the view that is left. -/
def Undoing (view left : List (IndexedBlock H)) (i : Indexer H (MemoryProjectionStore H)) : Prop :=
  i.chain = view ∧ Given (fun i => (∃ n, EndsBefore n view) ∧
    i.store.applied.map (·.header) = left.map (·.header) ∧ ∀ c ∈ i.calls, c.Fits) i

theorem revertBlocks_undoes (view left post tail : List (IndexedBlock H))
    (hview : view = left ++ post ++ tail) :
    Triple (Undoing view (left ++ post)) (revertBlocks memoryStore moments post.reverse)
      (fun _ => Undoing view left) (Failed moments) := by
  induction post using List.reverseRecOn generalizing tail with
  | nil => exact .pure fun i hi => by rwa [List.append_nil] at hi
  | append_singleton post block ih =>
    rw [List.reverse_append, List.reverse_singleton, List.singleton_append, revertBlocks]
    refine (callStore_outcome (Q := Undoing view (left ++ post)) (fun i clock hi => hi) ?_ ?_).bind
      fun _ => ih (block :: tail) (by simp [hview])
    · rintro i t store ⟨hchain, hi⟩ - hrun
      refine ⟨hchain, fun hgiven => ?_⟩
      obtain ⟨⟨n, hnumbers⟩, hheld, hfits⟩ := (hi.of_call hgiven).1
      obtain ⟨hhas, rfl⟩ := memoryStore_revert_ok.1 hrun
      refine ⟨⟨n, hnumbers⟩, applied_revert (by rw [hheld, List.append_assoc]) ?_, fits_append hfits hhas⟩
      have hnodup := hnumbers.nodup
      rw [hview, List.map_append, List.nodup_append] at hnodup
      rw [List.append_assoc]
      exact hnodup.1
    · rintro i t e store ⟨hchain, hi⟩ hfail hgiven
      obtain ⟨⟨⟨n, hnumbers⟩, hheld, hfits⟩, hfirst⟩ := hi.of_call hgiven
      have hhas : i.store.has block := by
        rw [has_iff hheld]
        simp
      rcases hfail with ⟨hdown, rfl⟩ | ⟨-, hrun⟩
      · -- the block is the last of the view, so nothing has been reverted yet
        have hlast : view.getLast? = some block := hchain ▸ hfirst hdown
        rcases List.eq_nil_or_concat tail with rfl | ⟨rest, b, rfl⟩
        · rw [List.append_nil] at hview
          subst hchain
          exact failed_of_store ⟨by rw [hheld, hview], hnumbers, hfits⟩ hdown hhas hgiven
        · have hnodup := hnumbers.nodup
          rw [hview, List.concat_eq_append, ← List.append_assoc, List.getLast?_concat,
            Option.some.injEq] at hlast
          subst hlast
          rw [hview, List.map_append, List.nodup_append] at hnodup
          exact absurd rfl (hnodup.2.2 b.key (by simp) b.key (by simp))
      · rw [memoryStore_revert_ok.2 ⟨hhas, rfl⟩] at hrun
        cases hrun

omit [DecidableEq H] in
theorem Undoing.of_settled {view : List (IndexedBlock H)} {i : Indexer H (MemoryProjectionStore H)}
    (hchain : i.chain = view) (h : Given (fun i => ∃ n, InStep n i) i) : Undoing view view i := by
  subst hchain
  refine ⟨rfl, fun hgiven => ?_⟩
  obtain ⟨n, hheld, hnumbers, hfits⟩ := h hgiven
  exact ⟨⟨n, hnumbers⟩, hheld, hfits⟩

theorem reconcile_settles (snapshot : ChainSnapshot H) {tip : IndexedBlock H}
    {chain : List (IndexedBlock H)} (htip : chain.getLast? = some tip) {divergedAt : Option ℕ}
    (hdiverged : divergedAt = none ∨ ∃ block ∈ chain, divergedAt = some block.header.number) :
    Triple (fun s => s.chain = chain ∧ Given (fun i => ∃ n, InStep n i) s)
      (reconcile tree memoryStore moments snapshot tip divergedAt)
      (fun _ => Given fun i => ∃ n, InStep n i) (Failed moments) := by
  cases divergedAt with
  | none =>
    refine Triple.bind ((applyBlocks_settles snapshot (tip.header.number + 1) _).conseq ?_
      (fun _ _ hi => hi) fun _ _ hi => hi) fun _ => .pure fun _ hi => hi
    rintro s ⟨rfl, hs⟩ hgiven
    obtain ⟨n, hsettled⟩ := hs hgiven
    rwa [hsettled.consecutive.last htip]
  | some divergedAt =>
    obtain ⟨block, hmem, hnumber⟩ : ∃ block ∈ chain, divergedAt = block.header.number := by
      simpa using hdiverged
    subst hnumber
    refine Triple.bind (Q := fun i s => i.chain = chain ∧ Undoing chain chain s)
      (.get fun s hs => ⟨hs.1, .of_settled hs.1 hs.2⟩) fun i => ?_
    refine Triple.assume (fun s hs => hs.1) fun hchain => ?_
    subst hchain
    have hundo := @revertBlocks_undoes _ _ moments i.chain
      (i.chain.take (i.chain.findIdx (·.header.number = block.header.number)))
      (i.chain.drop (i.chain.findIdx (·.header.number = block.header.number))) [] (by simp)
    rw [List.take_append_drop] at hundo
    refine Triple.bind (hundo.conseq (fun _ hs => hs.2) (fun _ _ hs => hs) fun _ _ hs => hs) fun _ => ?_
    refine Triple.bind (Q := fun _ => Given (InStep block.header.number)) (.modify ?_) fun _ =>
      (applyBlocks_settles snapshot _ _).bind fun _ => .pure fun _ hi => hi
    rintro s ⟨hchain, hs⟩ hgiven
    obtain ⟨⟨n, hnumbers⟩, hheld, hfits⟩ := hs hgiven
    exact ⟨by rw [hheld, hchain], by rw [hchain]; exact hnumbers.take_findIdx hmem, hfits⟩

omit [DecidableEq H] in
theorem retag_settles (snapshot : ChainSnapshot H) :
    Triple (Given fun i => ∃ n, InStep n i)
      (retag snapshot : EStateM Error (Indexer H (MemoryProjectionStore H)) Unit)
      (fun _ => Given fun i => ∃ n, InStep n i) (Failed moments) := by
  refine .modify fun i hi hgiven => ?_
  obtain ⟨n, hheld, ⟨first, hn, hnumbers⟩, hfits⟩ := hi hgiven
  refine ⟨n, ?_, ⟨first, by simpa using hn, ?_⟩, hfits⟩
  · rw [hheld, List.map_map]
    rfl
  · rw [List.map_map, List.length_map, ← hnumbers]
    rfl

/-- A tick keeps the store and the view together, wherever it stops. -/
theorem syncOnce_settles (fromNumber : ℕ) :
    Triple (Given fun i => ∃ n, InStep n i) (syncOnce tree memoryStore moments fromNumber)
      (fun _ => Given fun i => ∃ n, InStep n i) (Failed moments) := by
  have htimeless : Timeless (Given (fun i => ∃ n, InStep n i) :
      Indexer H (MemoryProjectionStore H) → Prop) := by
    intro i clock h hgiven
    obtain ⟨n, hheld, hconsecutive, hfits⟩ := h hgiven
    exact ⟨n, hheld, hconsecutive, hfits⟩
  refine Triple.bind ((getSnapshot_outcome htimeless).conseq (fun _ hi => hi) (fun _ _ hi => hi.1)
    fun _ _ hi => failed_of_node hi.1 hi.2) fun snapshot => ?_
  refine Triple.bind (Q := fun i s => s.chain = i.chain ∧ Given (fun i => ∃ n, InStep n i) s)
    (.get fun s hs => ⟨rfl, hs⟩) fun i => ?_
  cases hlast : i.chain.getLast? with
  | none =>
    have hempty : i.chain = [] := List.getLast?_eq_none_iff.1 hlast
    refine Triple.bind ((applyBlocks_settles snapshot fromNumber _).conseq ?_ (fun _ _ hi => hi)
      fun _ _ hi => hi) fun _ => (retag_settles snapshot).bind fun _ => .pure fun _ hi => hi
    rintro s ⟨hchain, hs⟩ hgiven
    obtain ⟨n, hheld, -, hfits⟩ := hs hgiven
    exact ⟨hheld, ⟨fromNumber, by simp [hchain, hempty], by simp [hchain, hempty]⟩, hfits⟩
  | some tip =>
    refine Triple.bind ((findDivergence_outcome (P := fun s => s.chain = i.chain ∧
      Given (fun i => ∃ n, InStep n i) s) (fun s clock hs => ⟨hs.1, htimeless s clock hs.2⟩)
      i.chain.reverse none).conseq (fun _ hi => hi) (fun _ _ hi => hi) fun _ _ hi =>
        failed_of_node hi.1.2 hi.2) fun divergedAt => ?_
    refine Triple.bind (Q := fun _ => Given fun i => ∃ n, InStep n i) ?_ fun report =>
      (retag_settles snapshot).bind fun _ => .pure fun _ hi => hi
    rintro s ⟨hs, hdiverged⟩
    exact reconcile_settles snapshot hlast (by simpa using hdiverged) s hs

end Loops

section Runs

variable {H : Type} [DecidableEq H] (tree : BlockTree H)

/-- The indexer after some ticks, with nothing indexed at first. -/
def indexed (ticks : List (Tick H)) : Indexer H (MemoryProjectionStore H) :=
  (Indexer.init .empty).run tree memoryStore ticks

variable {tree}

theorem indexed_concat (ticks : List (Tick H)) (tick : Tick H) :
    indexed tree (ticks ++ [tick]) = final ((indexed tree ticks).sync tree memoryStore tick) := by
  rw [indexed, Indexer.run, List.foldl_append]
  rfl

theorem indexed_inStep (ticks : List (Tick H)) : Given (fun i => ∃ n, InStep n i) (indexed tree ticks) := by
  induction ticks using List.reverseRecOn with
  | nil => exact fun _ => ⟨0, rfl, ⟨0, rfl, rfl⟩, nofun⟩
  | append_singleton ticks tick ih =>
    rw [indexed_concat]
    have htick := (@syncOnce_settles _ _ tree tick.moments tick.fromNumber).conseq (fun _ hi => hi)
      (fun _ _ hi => hi) fun _ _ (hi : Failed tick.moments _ _) hgiven => (hi hgiven).1
    refine htick.final fun hgiven => ?_
    obtain ⟨n, hheld, hconsecutive, hfits⟩ := ih hgiven
    exact ⟨n, hheld, hconsecutive, hfits⟩

/-- The calls of the first ticks are the first calls. -/
theorem calls_prefix (ticks later : List (Tick H)) :
    (indexed tree ticks).calls <+: (indexed tree (ticks ++ later)).calls := by
  have hkept : StoreInvariant memoryStore fun i : Indexer H (MemoryProjectionStore H) =>
      (indexed tree ticks).calls <+: i.calls :=
    ⟨fun _ _ hi => hi, fun _ _ hi => hi, fun _ _ _ _ _ hi _ => hi.trans (List.prefix_append _ _)⟩
  induction later using List.reverseRecOn with
  | nil => rw [List.append_nil]
  | append_singleton later tick ih =>
    rw [← List.append_assoc, indexed_concat]
    exact (syncOnce_keeps hkept tick.fromNumber).final ih

/-- In a run in which no revert fails after another one of its loop every call of the store fits, the
store and the view agree after every tick, and a tick in which no call fails returns. -/
theorem sync_recovers (tree : BlockTree H) (ticks : List (Tick H))
    (hfirst : ∀ c ∈ (indexed tree ticks).calls, c.FailsFirst) :
    (∀ c ∈ (indexed tree ticks).calls, c.Fits) ∧
    (∀ n, (indexed tree (ticks.take n)).store.applied.map (·.header) =
      (indexed tree (ticks.take n)).blocks.map (·.header)) ∧
    ∀ n tick, ticks[n]? = some tick →
      (∀ t, (tick.moments t).rpcUp = true ∧ (tick.moments t).storeUp = true) →
      thrown ((indexed tree (ticks.take n)).sync tree memoryStore tick) ≠ some .blockNotFound →
      returned ((indexed tree (ticks.take n)).sync tree memoryStore tick) = true := by
  have hgiven : ∀ n, ∀ c ∈ (indexed tree (ticks.take n)).calls, c.FailsFirst := fun n c hc =>
    hfirst c ((List.take_append_drop n ticks ▸ calls_prefix (ticks.take n) (ticks.drop n)).subset hc)
  refine ⟨?_, fun n => ?_, fun n tick htick hup hfound => ?_⟩
  · obtain ⟨n, hsettled⟩ := indexed_inStep ticks hfirst
    exact hsettled.fits
  · obtain ⟨m, hsettled⟩ := indexed_inStep (ticks.take n) (hgiven n)
    exact hsettled.held
  · have hnext := hgiven (n + 1)
    rw [List.take_add_one, htick, Option.toList_some, indexed_concat] at hnext
    have hstart : Given (fun i => ∃ n, InStep n i)
        { indexed tree (ticks.take n) with clock := 0 } := by
      intro h
      obtain ⟨m, hheld, hconsecutive, hfits⟩ := indexed_inStep (ticks.take n) h
      exact ⟨m, hheld, hconsecutive, hfits⟩
    have hsync := @syncOnce_settles _ _ tree tick.moments tick.fromNumber _ hstart
    rw [Indexer.sync] at hnext hfound ⊢
    cases hresult : syncOnce tree memoryStore tick.moments tick.fromNumber
        { indexed tree (ticks.take n) with clock := 0 } with
    | ok report i => rfl
    | error e i =>
      rw [hresult] at hsync hnext hfound
      exact absurd (congrArg some ((hsync hnext).2 hup)) hfound

end Runs

section Example

/-- The chain has moved to the branch of `tip`, and the store is down for the call numbered `down`. -/
def reorgWhileDown (tip down : ℕ) : Tick ℕ :=
  ⟨1, fun t => ⟨tip, none, none, true, decide (t ≠ down), none⟩⟩

/-- The first revert fails, and the tick after it makes up for it. -/
theorem sync_recovers_first_revert :
    let ticks := [quietTick 2, reorgWhileDown 3 2, quietTick 3]
    (∀ c ∈ (indexed exampleTree ticks).calls, c.Fits) ∧
    returned ((indexed exampleTree [quietTick 2, reorgWhileDown 3 2]).sync exampleTree memoryStore
      (quietTick 3)) = true ∧
    (indexed exampleTree ticks).store.applied.map (·.header) =
      (indexed exampleTree ticks).blocks.map (·.header) := by
  have h := sync_recovers exampleTree [quietTick 2, reorgWhileDown 3 2, quietTick 3] (by decide)
  exact ⟨h.1, h.2.2 2 (quietTick 3) rfl (fun _ => ⟨rfl, rfl⟩) (by decide), h.2.1 3⟩

/-- The second revert fails: the next ticks revert the first block again, and throw for ever. -/
theorem second_revert_fails :
    let before := indexed exampleTree [quietTick 4, reorgWhileDown 7 4]
    let after := indexed exampleTree [quietTick 4, reorgWhileDown 7 4, quietTick 7]
    (∀ t, ((quietTick 7).moments t).rpcUp = true ∧ ((quietTick 7).moments t).storeUp = true) ∧
    thrown (before.sync exampleTree memoryStore (quietTick 7)) = some .store ∧
    (∃ c ∈ after.calls, ¬ c.Fits) ∧
    after.blocks = before.blocks ∧ after.store = before.store ∧
    after.store.applied.map (·.header) ≠ after.blocks.map (·.header) := by
  refine ⟨fun _ => ⟨rfl, rfl⟩, by decide, by decide, by decide, by decide, by decide⟩

end Example

end Linvesther.ChainWorker
