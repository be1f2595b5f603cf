import Linvesther.ChainWorker.Indexer

/-! When the indexer's view is the canonical chain: after every quiet tick, as long as no earlier
tick put a block on top of one that is not its parent. -/

namespace Linvesther.ChainWorker

open Program

variable {H σ : Type}

/-- A completed extension goes on top of the block's own parent. -/
def StoreCall.Linked (c : StoreCall H σ) : Prop :=
  match c.op with
  | .apply block => c.completed = true →
    ∀ last ∈ c.view.getLast?, block.header.parentHash = last.header.hash
  | .revert _ => True

instance [DecidableEq H] (c : StoreCall H σ) : Decidable c.Linked :=
  match c with
  | ⟨_, view, _, .apply block, completed⟩ =>
    inferInstanceAs (Decidable (completed = true →
      ∀ last ∈ view.getLast?, block.header.parentHash = last.header.hash))
  | ⟨_, _, _, .revert _, _⟩ => inferInstanceAs (Decidable True)

variable (tree : BlockTree H)

/-- The view is the branch of some block, from some number on. -/
def OnBranch (chain : List (IndexedBlock H)) : Prop :=
  ∃ tip first, first + chain.length ≤ tree.number tip + 1 ∧
    chain.map (·.header) = tree.segment tip first chain.length

/-- The next block the view is extended with is numbered `n`. -/
def Continues (n : ℕ) (chain : List (IndexedBlock H)) : Prop :=
  ∀ last ∈ chain.getLast?, last.header.number + 1 = n

variable {tree} {chain : List (IndexedBlock H)}

theorem OnBranch.of_headers {chain' : List (IndexedBlock H)} (h : OnBranch tree chain)
    (hmap : chain'.map (·.header) = chain.map (·.header)) : OnBranch tree chain' := by
  obtain ⟨tip, first, hlen, hheaders⟩ := h
  have hlength : chain'.length = chain.length := by simpa using congrArg List.length hmap
  exact ⟨tip, first, by omega, by rw [hmap, hlength, hheaders]⟩

theorem OnBranch.of_append {pre post : List (IndexedBlock H)} (h : OnBranch tree (pre ++ post)) :
    OnBranch tree pre := by
  obtain ⟨tip, first, hlen, hmap⟩ := h
  rw [List.length_append] at hlen hmap
  rw [List.map_append, BlockTree.segment_append] at hmap
  exact ⟨tip, first, by omega, (List.append_inj hmap (by simp)).1⟩

theorem OnBranch.take (h : OnBranch tree chain) (k : ℕ) : OnBranch tree (chain.take k) :=
  @OnBranch.of_append _ _ _ (chain.drop k) (by rwa [List.take_append_drop])

theorem OnBranch.nil (tip : H) : OnBranch tree ([] : List (IndexedBlock H)) :=
  ⟨tip, 0, Nat.zero_le _, rfl⟩

/-- The block right after the view is its child. -/
theorem OnBranch.concat {block : IndexedBlock H} {h : H} (hchain : OnBranch tree chain)
    (hblock : block.header = tree.header h)
    (hlast : ∀ last ∈ chain.getLast?, last.header.number + 1 = block.header.number ∧
      block.header.parentHash = last.header.hash) : OnBranch tree (chain ++ [block]) := by
  rcases List.eq_nil_or_concat chain with rfl | ⟨pre, last, rfl⟩
  · refine ⟨h, tree.number h, by simp, ?_⟩
    simp [hblock, BlockTree.segment]
  · obtain ⟨tip, first, hlen, hmap⟩ := hchain
    simp only [List.concat_eq_append, List.length_append, List.length_singleton, List.map_append,
      List.map_cons, List.map_nil] at hlen hmap hlast
    have hheader : last.header = tree.header (tree.canonical tip (first + pre.length)) := by
      rw [BlockTree.segment_append] at hmap
      have := (List.append_inj hmap (by simp)).2
      simpa [BlockTree.segment] using this
    obtain ⟨hnumber, hparent⟩ := hlast last (by simp)
    rw [hblock, hheader] at hnumber hparent
    simp only [BlockTree.header] at hnumber hparent
    rw [BlockTree.number_canonical (by omega)] at hnumber
    refine ⟨h, first, by simp; omega, ?_⟩
    simp only [List.concat_eq_append, List.map_append, List.map_cons, List.map_nil,
      List.length_append, List.length_singleton]
    rw [BlockTree.segment_append, hmap, hblock]
    congr 1
    · refine BlockTree.segment_congr fun n hn hlt => ?_
      rw [← @BlockTree.canonical_parentHash _ tree h _ (by omega), hparent,
        BlockTree.canonical_canonical (by omega) (by omega)]
    · have : first + (pre.length + 1) = tree.number h := by omega
      simp [BlockTree.segment, this]

/-- The blocks of a view on a branch are numbered one after the other. -/
theorem OnBranch.number_getElem (h : OnBranch tree chain) :
    ∃ first, ∀ (i : ℕ) (hi : i < chain.length), chain[i].header.number = first + i := by
  obtain ⟨tip, first, hlen, hmap⟩ := h
  refine ⟨first, fun i hi => ?_⟩
  have := List.getElem_of_eq hmap (i := i) (by simpa using hi)
  simp only [BlockTree.segment, List.getElem_map, List.getElem_range'] at this
  rw [this]
  simp only [BlockTree.header, Nat.one_mul]
  exact BlockTree.number_canonical (by omega)

/-- Cutting the view at a block it holds leaves the blocks before that one. -/
theorem OnBranch.continues_take (h : OnBranch tree chain) {block : IndexedBlock H}
    (hmem : block ∈ chain) :
    Continues block.header.number
      (chain.take (chain.findIdx (·.header.number = block.header.number))) := by
  obtain ⟨first, hnumber⟩ := h.number_getElem
  have hfound : chain.findIdx (·.header.number = block.header.number) < chain.length :=
    List.findIdx_lt_length_of_exists ⟨block, hmem, by simp⟩
  have hat := List.findIdx_getElem (w := hfound)
  rw [decide_eq_true_eq, hnumber _ hfound] at hat
  intro last hlast
  rw [List.getLast?_take] at hlast
  split_ifs at hlast with hzero
  · simp at hlast
  · rw [List.getElem?_eq_getElem (by omega), Option.some_or, Option.mem_some_iff] at hlast
    rw [← hlast, hnumber _ (by omega)]
    omega

/-- The number of a block finds its place in the view. -/
theorem OnBranch.findIdx_append {pre rest : List (IndexedBlock H)} {block : IndexedBlock H}
    (h : OnBranch tree (pre ++ block :: rest)) :
    (pre ++ block :: rest).findIdx (·.header.number = block.header.number) = pre.length := by
  obtain ⟨first, hnumber⟩ := h.number_getElem
  have hat := hnumber pre.length (by simp)
  rw [List.getElem_append_right (Nat.le_refl _)] at hat
  simp only [Nat.sub_self, List.getElem_cons_zero] at hat
  refine (List.findIdx_eq (by simp)).2 ⟨by simp, fun j hj => ?_⟩
  have hlt : j < (pre ++ block :: rest).length := by simp; omega
  rw [decide_eq_false_iff_not, hnumber j hlt, hat]
  omega

section Sound

variable {projections : ProjectionStore H σ} {moments : ℕ → Moment H}

/-- With every extension linked, the view is on one branch. -/
def Sound (tree : BlockTree H) (i : Indexer H σ) : Prop :=
  (∀ c ∈ i.calls, c.Linked) → OnBranch tree i.chain

def SoundAt (tree : BlockTree H) (n : ℕ) (i : Indexer H σ) : Prop :=
  (∀ c ∈ i.calls, c.Linked) → OnBranch tree i.chain ∧ Continues n i.chain

theorem SoundAt.sound {n : ℕ} {i : Indexer H σ} (h : SoundAt tree n i) : Sound tree i :=
  fun hlinks => (h hlinks).1

theorem Sound.of_call {i : Indexer H σ} (h : Sound tree i) (store : σ) (c : StoreCall H σ) :
    Sound tree { i with store, calls := i.calls ++ [c] } :=
  fun hlinks => h fun c hc => hlinks c (List.mem_append_left _ hc)

theorem applyBlocks_sound (snapshot : ChainSnapshot H) (n k : ℕ) :
    Triple (SoundAt tree n) (applyBlocks tree projections moments snapshot (List.range' n k))
      (fun _ => Sound tree) (fun _ => Sound tree) := by
  induction k generalizing n with
  | zero => exact .pure fun _ hi => hi.sound
  | succ k ih =>
    have hread := @getBlockByNumber_triple _ σ tree moments (SoundAt tree n)
      (fun _ _ hi => hi) n
    refine (hread.conseq (fun _ hi => hi) (fun _ _ hi => hi) fun _ _ hi => hi.sound).bind
      fun header => ?_
    -- after the call the block is in the store and not yet in the view
    refine (callStore_triple (Q := fun i => (∀ c ∈ i.calls, c.Linked) →
      OnBranch tree (i.chain ++ [⟨header, tagFor n snapshot⟩]) ∧
        Continues (n + 1) (i.chain ++ [⟨header, tagFor n snapshot⟩])) (fun _ _ hi => hi)
      ?_ fun i m _ store hi _ => hi.1.sound.of_call store _).bind fun _ => ?_
    · rintro i m store ⟨hi, t, hn, rfl⟩ - - hlinks
      have hold := hi fun c hc => hlinks c (List.mem_append_left _ hc)
      have hlinked := hlinks _ (List.mem_append_right _ (List.mem_singleton_self _))
      have hnumber : tree.number (tree.canonical (moments t).tip n) = n :=
        BlockTree.number_canonical hn
      refine ⟨hold.1.concat rfl fun last hlast => ⟨?_, hlinked rfl last hlast⟩, ?_⟩
      · rw [hold.2 last hlast]
        exact hnumber.symm
      · intro last hlast
        simp only [List.getLast?_concat, Option.mem_some_iff] at hlast
        subst hlast
        exact congrArg (· + 1) hnumber
    · refine Triple.bind (Q := fun _ => SoundAt tree (n + 1)) (.modify fun i hi => hi) fun _ => ?_
      exact (ih (n + 1)).bind fun _ => .pure fun _ hi => hi

variable [DecidableEq H]

omit [DecidableEq H] in
theorem retag_headers {E : Error → Indexer H σ → Prop} (snapshot : ChainSnapshot H)
    (headers : List (BlockHeader H)) :
    Triple (fun i => i.chain.map (·.header) = headers)
      (retag snapshot : EStateM Error (Indexer H σ) Unit)
      (fun _ i => i.chain.map (·.header) = headers) E :=
  .modify fun i hi => by simpa [Function.comp_def] using hi

omit [DecidableEq H] in
theorem retag_sound (snapshot : ChainSnapshot H) :
    Triple (Sound tree) (retag snapshot : EStateM Error (Indexer H σ) Unit)
      (fun _ => Sound tree) (fun _ => Sound tree) :=
  .modify fun i hi hlinks => (hi hlinks).of_headers (by simp [Function.comp_def])

omit [DecidableEq H] in
theorem reconcile_sound (snapshot : ChainSnapshot H) {tip : IndexedBlock H}
    {chain : List (IndexedBlock H)} (htip : chain.getLast? = some tip) {divergedAt : Option ℕ}
    (hdiverged : divergedAt = none ∨ ∃ block ∈ chain, divergedAt = some block.header.number) :
    Triple (fun s => s.chain = chain ∧ Sound tree s)
      (reconcile tree projections moments snapshot tip divergedAt) (fun _ => Sound tree)
      (fun _ => Sound tree) := by
  cases divergedAt with
  | none =>
    have hextend : Triple (fun s => s.chain = chain ∧ Sound tree s)
        (extendTo tree projections moments (tip.header.number + 1) snapshot.included.number
          snapshot) (fun _ => Sound tree) (fun _ => Sound tree) := by
      refine (applyBlocks_sound snapshot _ _).conseq (fun s hs hlinks => ⟨hs.2 hlinks, ?_⟩)
        (fun _ _ hi => hi) fun _ _ hi => hi
      rw [Continues, hs.1, htip]
      rintro last ⟨⟩
      rfl
    exact hextend.bind fun _ => .pure fun _ hi => hi
  | some divergedAt =>
    obtain ⟨block, hmem, hnumber⟩ : ∃ block ∈ chain, divergedAt = block.header.number := by
      simpa using hdiverged
    subst hnumber
    refine Triple.bind (Q := fun i s => i.chain = chain ∧ s.chain = chain ∧ Sound tree s)
      (.get fun s hs => ⟨hs.1, hs⟩) fun i => ?_
    refine Triple.bind ((revertBlocks_triple (fun _ _ hi => hi) (fun s m store block completed hs =>
      ⟨hs.1, hs.2.1, hs.2.2.of_call store _⟩) _).conseq (fun _ hs => hs) (fun _ _ hs => hs)
      fun _ _ hs => hs.2.2) fun _ => ?_
    refine Triple.bind (Q := fun _ => SoundAt tree block.header.number) (.modify ?_) fun _ => ?_
    · rintro s ⟨hi, hchain, hs⟩ hlinks
      have hbranch := hs hlinks
      simp only [hi, hchain] at hbranch ⊢
      exact ⟨hbranch.take _, hbranch.continues_take hmem⟩
    · exact (applyBlocks_sound snapshot _ _).bind fun _ => .pure fun _ hi => hi

theorem syncOnce_sound (fromNumber : ℕ) :
    Triple (Sound tree) (syncOnce tree projections moments fromNumber) (fun _ => Sound tree)
      (fun _ => Sound tree) := by
  refine (getSnapshot_triple (fun _ _ hi => hi)).bind fun snapshot => ?_
  refine (Triple.get (Q := fun i s => i = s ∧ Sound tree s) fun s hs => ⟨rfl, hs.1⟩).bind fun i => ?_
  cases hlast : i.chain.getLast? with
  | none =>
    have hempty : i.chain = [] := List.getLast?_eq_none_iff.1 hlast
    have hextend : Triple (fun s => i = s ∧ Sound tree s)
        (extendTo tree projections moments fromNumber snapshot.included.number snapshot)
        (fun _ => Sound tree) (fun _ => Sound tree) :=
      (applyBlocks_sound snapshot _ _).conseq
        (fun s hs hlinks => ⟨hs.2 hlinks, by simp [Continues, ← hs.1, hempty]⟩)
        (fun _ _ hi => hi) fun _ _ hi => hi
    exact hextend.bind fun _ => (retag_sound snapshot).bind fun _ => .pure fun _ hi => hi
  | some tip =>
    have hwalk := @findDivergence_triple _ _ tree moments
      (fun s : Indexer H σ => s.chain = i.chain ∧ Sound tree s) _ (fun _ _ hi => hi)
      i.chain.reverse none
    refine (hwalk.conseq (fun s hs => ⟨by rw [hs.1], hs.2⟩) (fun _ _ hi => hi)
      fun _ _ hi => hi.2).bind fun divergedAt => ?_
    refine Triple.bind (Q := fun _ => Sound tree) ?_ fun report =>
      (retag_sound snapshot).bind fun _ => .pure fun _ hi => hi
    rintro s ⟨hs, hdiverged⟩
    exact reconcile_sound snapshot hlast (by simpa using hdiverged) s hs

variable (tree projections) in
/-- Ticks of any kind, completed or not, keep the view on one branch. -/
theorem run_sound (i : Indexer H σ) (hi : Sound tree i) (ticks : List (Tick H)) :
    Sound tree (i.run tree projections ticks) := by
  induction ticks generalizing i with
  | nil => exact hi
  | cons tick ticks ih => exact ih _ ((syncOnce_sound tick.fromNumber).final hi)

end Sound

section Quiet

/-- The number a view starts at, or would start at. -/
def firstNumber (chain : List (IndexedBlock H)) (fromNumber : ℕ) : ℕ :=
  match chain.head? with
  | some block => block.header.number
  | none => fromNumber

variable {tip : H}

/-- A view whose last block is canonical is canonical from its first block on. -/
theorem OnBranch.map_header_eq (h : OnBranch tree chain) {last : IndexedBlock H}
    (hlast : chain.getLast? = some last) (hle : last.header.number ≤ tree.number tip)
    (hcanonical : tree.canonical tip last.header.number = last.header.hash) (fromNumber : ℕ) :
    chain.map (·.header) = tree.segment tip (firstNumber chain fromNumber) chain.length ∧
      last.header.number + 1 = firstNumber chain fromNumber + chain.length := by
  obtain ⟨tip', first, hlen, hmap⟩ := h
  have hat : ∀ (i : ℕ) (hi : i < chain.length),
      chain[i].header = tree.header (tree.canonical tip' (first + i)) := by
    intro i hi
    have := List.getElem_of_eq hmap (i := i) (by simpa using hi)
    simpa [BlockTree.segment] using this
  have hpos : 0 < chain.length := by
    rw [List.length_pos_iff]
    rintro rfl
    simp at hlast
  have hfirst : firstNumber chain fromNumber = first := by
    rw [firstNumber, List.head?_eq_getElem?, List.getElem?_eq_getElem hpos]
    simp only [hat 0 hpos]
    exact BlockTree.number_canonical (by omega)
  have hlastAt := hat (chain.length - 1) (by omega)
  rw [List.getLast?_eq_getElem?, List.getElem?_eq_getElem (by omega), Option.some_inj] at hlast
  rw [hlast] at hlastAt
  have hnumber : last.header.number = first + (chain.length - 1) := by
    rw [hlastAt]
    exact BlockTree.number_canonical (by omega)
  rw [hlastAt] at hcanonical
  simp only [BlockTree.header] at hcanonical
  rw [BlockTree.number_canonical (by omega)] at hcanonical
  refine ⟨?_, by omega⟩
  rw [hmap, hfirst]
  refine BlockTree.segment_congr fun n hn hlt => ?_
  rw [← @BlockTree.canonical_canonical _ tree tip' _ (first + (chain.length - 1)) (by omega)
    (by omega), ← hcanonical, BlockTree.canonical_canonical (by omega) (by omega)]

/-- What is canonical so far and the canonical blocks after it are the canonical chain. -/
theorem OnBranch.extended (h : OnBranch tree chain) {n : ℕ} (hn : Continues n chain)
    (hcanonical : ∀ last ∈ chain.getLast?, last.header.number ≤ tree.number tip ∧
      tree.canonical tip last.header.number = last.header.hash) :
    chain.map (·.header) ++ (List.range' n (tree.number tip + 1 - n)).map
        (fun n => tree.header (tree.canonical tip n)) =
      tree.segment tip (firstNumber chain n) (tree.number tip + 1 - firstNumber chain n) := by
  cases hlast : chain.getLast? with
  | none =>
    obtain rfl := List.getLast?_eq_none_iff.1 hlast
    simp [firstNumber, BlockTree.segment]
  | some last =>
    obtain ⟨hle, hsame⟩ := hcanonical last hlast
    obtain ⟨hmap, hnext⟩ := h.map_header_eq hlast hle hsame n
    have hn' := hn last hlast
    have hlength : tree.number tip + 1 - firstNumber chain n =
        chain.length + (tree.number tip + 1 - n) := by omega
    rw [hlength, BlockTree.segment_append, ← hnext, hn', hmap]
    rfl

variable {projections : ProjectionStore H σ} {moments : ℕ → Moment H}
  (hquiet : ∀ t, (moments t).tip = tip)

include hquiet

theorem applyBlocks_quiet (snapshot : ChainSnapshot H) (ns : List ℕ)
    (chain : List (IndexedBlock H)) :
    Triple (fun i => i.chain = chain) (applyBlocks tree projections moments snapshot ns)
      (fun _ i => i.chain.map (·.header) =
        chain.map (·.header) ++ ns.map fun n => tree.header (tree.canonical tip n))
      (fun _ _ => True) := by
  induction ns generalizing chain with
  | nil => exact .pure fun i hi => by simp [hi]
  | cons n ns ih =>
    have hread := @getBlockByNumber_triple _ _ tree moments
      (fun i : Indexer H σ => i.chain = chain) (fun _ _ hi => hi) n
    refine (hread.conseq (E := fun _ _ => True) (fun _ hi => hi) (fun _ _ hi => hi)
      fun _ _ _ => trivial).bind fun header => ?_
    refine (callStore_triple (Q := fun i => i.chain = chain ∧
      header = tree.header (tree.canonical tip n)) (fun _ _ hi => hi) ?_
      fun _ _ _ _ _ _ => trivial).bind fun _ => ?_
    · rintro i m store ⟨hi, t, -, rfl⟩ - -
      exact ⟨hi, by rw [hquiet]⟩
    · refine Triple.bind (Q := fun _ i => header = tree.header (tree.canonical tip n) ∧
        i.chain = chain ++ [⟨header, tagFor n snapshot⟩]) (.modify fun i hi => ⟨hi.2, by rw [hi.1]⟩)
        fun _ => ?_
      rintro i ⟨rfl, hi⟩
      exact (Triple.bind (ih _) fun _ => .pure fun s hs => by simpa using hs) i hi

variable [DecidableEq H]

/-- The walk stops at the first block from the tip down that is canonical. -/
theorem findDivergence_quiet (blocks chain : List (IndexedBlock H)) (divergedAt : Option ℕ) :
    Triple (fun i : Indexer H σ => i.chain = chain) (findDivergence tree moments blocks divergedAt)
      (fun r i => i.chain = chain ∧ ∃ newer older, blocks = newer ++ older ∧
        r = (newer.getLast?.map (·.header.number)).or divergedAt ∧
        ∀ block ∈ older.head?, block.header.number ≤ tree.number tip ∧
          tree.canonical tip block.header.number = block.header.hash)
      (fun _ _ => True) := by
  induction blocks generalizing divergedAt with
  | nil => exact .pure fun i hi => ⟨hi, [], [], rfl, by simp, by simp⟩
  | cons block rest ih =>
    have hread := @getBlockByNumber_triple _ _ tree moments
      (fun i : Indexer H σ => i.chain = chain) (fun _ _ hi => hi) block.header.number
    refine (hread.conseq (E := fun _ _ => True) (fun _ hi => hi) (fun _ _ hi => hi)
      fun _ _ _ => trivial).bind fun remote => .ite (fun hsame => .pure ?_) fun hother => ?_
    · rintro i ⟨hi, t, hle, rfl⟩
      rw [hquiet] at hle hsame
      refine ⟨hi, [], block :: rest, rfl, by simp, ?_⟩
      rintro b ⟨⟩
      exact ⟨hle, hsame⟩
    · refine (ih (some block.header.number)).conseq (fun i hi => hi.1) (fun r i hi => ?_)
        fun _ _ hi => hi
      obtain ⟨hi, newer, older, rfl, rfl, hhead⟩ := hi
      refine ⟨hi, block :: newer, older, rfl, ?_, hhead⟩
      cases hn : newer.getLast? with
      | none => simp [List.getLast?_eq_none_iff.1 hn]
      | some b => simp [List.getLast?_cons, hn]

omit [DecidableEq H] in
theorem reconcile_quiet {snapshot : ChainSnapshot H} (hsnapshot : snapshot.included = tree.header tip)
    {pre post : List (IndexedBlock H)} (hbranch : OnBranch tree (pre ++ post))
    {tipBlock : IndexedBlock H} (htip : (pre ++ post).getLast? = some tipBlock)
    (hcanonical : ∀ last ∈ pre.getLast?, last.header.number ≤ tree.number tip ∧
      tree.canonical tip last.header.number = last.header.hash) (fromNumber : ℕ) :
    Triple (fun i => i.chain = pre ++ post)
      (reconcile tree projections moments snapshot tipBlock (post.head?.map (·.header.number)))
      (fun _ i => i.chain.map (·.header) = tree.segment tip (firstNumber (pre ++ post) fromNumber)
        (tree.number tip + 1 - firstNumber (pre ++ post) fromNumber))
      (fun _ _ => True) := by
  cases post with
  | nil =>
    rw [List.append_nil] at hbranch htip ⊢
    have hnext : Continues (tipBlock.header.number + 1) pre := by
      rw [Continues, htip]
      rintro last ⟨⟩
      rfl
    have hfirst : firstNumber pre (tipBlock.header.number + 1) = firstNumber pre fromNumber := by
      cases pre with
      | nil => simp at htip
      | cons => rfl
    refine Triple.bind (applyBlocks_quiet hquiet snapshot _ pre) fun _ => .pure fun i hi => ?_
    rw [hi, hsnapshot, ← hfirst]
    exact hbranch.extended hnext hcanonical
  | cons block rest =>
    have hmem : block ∈ pre ++ block :: rest := by simp
    have htake : (pre ++ block :: rest).take
        ((pre ++ block :: rest).findIdx (·.header.number = block.header.number)) = pre := by
      rw [hbranch.findIdx_append, List.take_left' rfl]
    have hnext : Continues block.header.number pre := by
      rw [← htake]
      exact hbranch.continues_take hmem
    have hfirst : firstNumber pre block.header.number =
        firstNumber (pre ++ block :: rest) fromNumber := by
      cases pre with
      | nil => rfl
      | cons => rfl
    refine Triple.bind (Q := fun i s => i.chain = pre ++ block :: rest ∧
      s.chain = pre ++ block :: rest) (.get fun s hs => ⟨hs, hs⟩) fun i => ?_
    refine Triple.bind ((revertBlocks_triple (fun _ _ hi => hi)
      (fun s m store block completed hs => hs) _).conseq (fun _ hs => hs) (fun _ _ hs => hs)
      fun _ _ _ => trivial) fun _ => ?_
    refine Triple.bind (Q := fun _ s => s.chain = pre) (.modify ?_) fun _ => ?_
    · rintro s ⟨hi, hs⟩
      simp only [hi, hs, htake]
    · refine Triple.bind (applyBlocks_quiet hquiet snapshot _ pre) fun _ => .pure fun i hi => ?_
      rw [hi, hsnapshot, ← hfirst]
      exact hbranch.of_append.extended hnext hcanonical

theorem syncOnce_quiet (hbranch : OnBranch tree chain) (fromNumber : ℕ) :
    Triple (fun i => i.chain = chain) (syncOnce tree projections moments fromNumber)
      (fun _ i => i.chain.map (·.header) = tree.segment tip (firstNumber chain fromNumber)
        (tree.number tip + 1 - firstNumber chain fromNumber))
      (fun _ _ => True) := by
  have hsnapshot := @getSnapshot_triple _ _ tree moments
    (fun i : Indexer H σ => i.chain = chain) (fun _ _ hi => hi)
  refine (hsnapshot.conseq (E := fun _ _ => True) (fun _ hi => hi) (fun _ _ hi => hi)
    fun _ _ _ => trivial).bind fun snapshot => ?_
  refine Triple.bind (Q := fun i s => i.chain = chain ∧ s.chain = chain ∧
    snapshot.included = tree.header tip) (.get ?_) fun i => ?_
  · rintro s ⟨hs, t, ht⟩
    exact ⟨hs, hs, by rw [ht, hquiet]⟩
  rintro s ⟨hi, hs, hincluded⟩
  rw [hi]
  cases hlast : chain.getLast? with
  | none =>
    obtain rfl := List.getLast?_eq_none_iff.1 hlast
    have hextend := @applyBlocks_quiet _ _ tree _ projections _ hquiet snapshot
      (List.range' fromNumber (snapshot.included.number + 1 - fromNumber)) []
    refine (hextend.bind fun _ => (retag_headers snapshot _).bind fun _ => .pure fun i hi => ?_) s hs
    rw [hi, hincluded]
    exact hbranch.extended (by simp [Continues]) (by simp)
  | some tipBlock =>
    refine Triple.bind (findDivergence_quiet hquiet chain.reverse chain none) (fun divergedAt => ?_)
      s hs
    rintro s ⟨hs, newer, older, hsplit, rfl, hcanonical⟩
    have hchain : chain = older.reverse ++ newer.reverse := by
      rw [← List.reverse_append, ← hsplit, List.reverse_reverse]
    rw [Option.or_none, ← List.head?_reverse]
    rw [hchain] at hbranch hlast hs ⊢
    refine Triple.bind (reconcile_quiet hquiet hincluded hbranch hlast
      (by rwa [List.getLast?_reverse]) fromNumber) (fun report =>
        (retag_headers snapshot _).bind fun _ => .pure fun i hi => hi) s hs

end Quiet

section Runs

variable [DecidableEq H] {projections : ProjectionStore H σ}

/-- After a tick that returned and during which the chain did not change, the view is the canonical
chain from its first number on, as long as the ticks before put every block on its own parent. -/
theorem blocks_canonical {store : σ} {ticks : List (Tick H)} {tick : Tick H} {tip : H}
    {report : Option (ReorgReport H)} {i : Indexer H σ}
    (hlinks : ∀ c ∈ ((Indexer.init store).run tree projections ticks).calls, c.Linked)
    (hquiet : ∀ t, (tick.moments t).tip = tip)
    (hsync : ((Indexer.init store).run tree projections ticks).sync tree projections tick =
      .ok report i) :
    let first := firstNumber ((Indexer.init store).run tree projections ticks).blocks tick.fromNumber
    i.blocks.map (·.header) = tree.segment tip first (tree.number tip + 1 - first) ∧
      (i.blocks.map (·.header)).IsChain fun a b =>
        b.number = a.number + 1 ∧ b.parentHash = a.hash := by
  intro first
  have hinit : Sound tree (Indexer.init store : Indexer H σ) := fun _ => .nil tip
  have hbranch := run_sound tree projections _ hinit ticks hlinks
  have hmap : i.blocks.map (·.header) = tree.segment tip first (tree.number tip + 1 - first) :=
    (syncOnce_quiet hquiet hbranch tick.fromNumber).of_ok
      (s := { (Indexer.init store).run tree projections ticks with clock := 0 }) rfl hsync
  refine ⟨hmap, ?_⟩
  rw [hmap]
  rcases Nat.le_total first (tree.number tip + 1) with hle | hle
  · exact BlockTree.isChain_segment (by omega)
  · rw [Nat.sub_eq_zero_of_le hle]
    exact .nil

end Runs

section ReorgInsideATick

/-- Two branches over the genesis block 0: 2, 4, 6, … and 3, 5, 7, …. -/
def exampleTree : BlockTree ℕ where
  number h := h / 2
  parentHash h := if h < 4 then 0 else h - 2
  number_parentHash h hne := by split_ifs <;> omega

/-- A store that keeps nothing. -/
def noStore : ProjectionStore ℕ Unit := ⟨fun _ _ => pure (), fun _ => pure ()⟩

def quietTick (tip : ℕ) : Tick ℕ := ⟨1, fun _ => ⟨tip, none, none, true, true, none⟩⟩

/-- The chain moves from branch 4 to branch 7 after block 1 was read and before block 2 is. -/
def reorgInside : Tick ℕ := ⟨1, fun t => ⟨if t < 3 then 4 else 7, none, none, true, true, none⟩⟩

theorem blocks_canonical_after_reorg :
    ∃ report i, ((Indexer.init ()).run exampleTree noStore [quietTick 4]).sync exampleTree noStore
        (quietTick 7) = .ok report i ∧
      i.blocks.map (·.header) = exampleTree.segment 7 1 3 := by
  obtain ⟨report, i, hsync⟩ := exists_of_returned (r := ((Indexer.init ()).run exampleTree noStore
    [quietTick 4]).sync exampleTree noStore (quietTick 7)) (by decide)
  have hfirst : firstNumber ((Indexer.init ()).run exampleTree noStore [quietTick 4]).blocks 1 = 1 := by
    decide
  have hblocks := (blocks_canonical (by decide) (fun _ => rfl) hsync).1
  rw [show (quietTick 7).fromNumber = 1 from rfl, hfirst] at hblocks
  exact ⟨report, i, hsync, hblocks⟩

theorem abandoned_block_stays :
    let before := (Indexer.init ()).run exampleTree noStore [reorgInside]
    let after := (Indexer.init ()).run exampleTree noStore [reorgInside, quietTick 7]
    before.sync exampleTree noStore (quietTick 7) = .ok none after ∧
    (∀ block ∈ before.blocks, block.header.number ≤ exampleTree.number 7) ∧
    after.blocks.map (·.header) = [⟨1, 2, 0⟩, ⟨2, 5, 3⟩, ⟨3, 7, 5⟩] ∧
    exampleTree.segment 7 1 3 = [⟨1, 3, 0⟩, ⟨2, 5, 3⟩, ⟨3, 7, 5⟩] := by
  refine ⟨rfl, by decide, by decide, by decide⟩

end ReorgInsideATick

end Linvesther.ChainWorker
