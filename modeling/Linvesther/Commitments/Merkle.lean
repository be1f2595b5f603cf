import Linvesther.Base.PairTree
import Linvesther.Commitments.Framing

/-! `merkle.rs`: a tree over hashed leaves, its inclusion proofs and their verification. Unless the
hash collides on what was hashed, the proofs a root accepts are exactly those the tree makes. -/

namespace Linvesther.Commitments

open Transaction

def NODE_TAG : String := "LZK/node/v1"
def TREE_TAG : String := "LZK/tree/v1"
def EMPTY_TAG : String := "LZK/empty/v1"

inductive MerkleError where
  | framing (e : FramingError)
  | indexOutOfRange (index count : ℕ)
  | invalidSiblingCount (expected actual : ℕ)
  | rootMismatch
  | emptyTree
  | panic
deriving DecidableEq

structure InclusionProof where
  index : UInt64
  count : UInt64
  siblings : List Digest
deriving DecidableEq

/-- A `Vec`: its length is a `usize`. -/
abbrev Vec (α : Type) := {items : List α // items.length < 2 ^ 64}

structure MerkleTree where
  root : Digest
  count : UInt64
  levels : List (List Digest)
deriving DecidableEq

section Functions

variable (sha256 : Bytes → Digest)

def nodeHash (left right : Digest) : Except MerkleError Digest :=
  (frameHash sha256 NODE_TAG [left.1, right.1]).mapError .framing

def emptyTop : Except MerkleError Digest := (frameHash sha256 EMPTY_TAG []).mapError .framing

def externalRoot (count : UInt64) (top : Digest) : Except MerkleError Digest :=
  (frameHash sha256 TREE_TAG [toBeBytes 8 count.toNat, top.1]).mapError .framing

/-- The loop of `reduce_level`, two nodes at a time. -/
def reduceLevel : List Digest → Except MerkleError (List Digest)
  | [] => pure []
  -- duplicate last on odd count
  | [left] => do
    let node ← nodeHash sha256 left left
    pure [node]
  | left :: right :: rest => do
    let node ← nodeHash sha256 left right
    let next ← reduceLevel rest
    pure (node :: next)

/-- What the nodes and the root are the hashes of. -/
def nodeFrame (p : Digest × Digest) : Bytes := framed NODE_TAG [p.1.1, p.2.1]

def treeFrame (count : UInt64) (top : Digest) : Bytes :=
  framed TREE_TAG [toBeBytes 8 count.toNat, top.1]

def node (left right : Digest) : Digest := sha256 (nodeFrame (left, right))

theorem frame_nodeFrame (p : Digest × Digest) :
    frame NODE_TAG [p.1.1, p.2.1] = .ok (nodeFrame p) := by
  refine frame_eq (by decide) (forall_mem_pair ?_ ?_)
  · rw [p.1.2]; decide
  · rw [p.2.2]; decide

theorem frame_treeFrame (count : UInt64) (top : Digest) :
    frame TREE_TAG [toBeBytes 8 count.toNat, top.1] = .ok (treeFrame count top) := by
  refine frame_eq (by decide) (forall_mem_pair ?_ ?_)
  · rw [length_toBeBytes]; decide
  · rw [top.2]; decide

theorem nodeFrame_injective : Function.Injective nodeFrame := by
  intro p q h
  have := (frame_unambiguous (frame_nodeFrame p) (h ▸ frame_nodeFrame q)).2
  simp only [List.cons.injEq, and_true] at this
  exact Prod.ext (Subtype.ext this.1) (Subtype.ext this.2)

theorem treeFrame_injective {count count' : UInt64} {top top' : Digest}
    (h : treeFrame count top = treeFrame count' top') : count = count' ∧ top = top' := by
  have := (frame_unambiguous (frame_treeFrame count top) (h ▸ frame_treeFrame count' top')).2
  simp only [List.cons.injEq, and_true] at this
  exact ⟨UInt64.toNat_inj.1 (toBeBytes_injective count.toNat_lt count'.toNat_lt this.1),
    Subtype.ext this.2⟩

theorem nodeHash_eq (left right : Digest) : nodeHash sha256 left right = .ok (node sha256 left right) := by
  rw [nodeHash, frameHash, frame_nodeFrame (left, right)]
  rfl

theorem externalRoot_eq (count : UInt64) (top : Digest) :
    externalRoot sha256 count top = .ok (sha256 (treeFrame count top)) := by
  rw [externalRoot, frameHash, frame_treeFrame]
  rfl

/-- Reducing a level never fails, the fields being 32 bytes each. -/
theorem reduceLevel_eq (level : List Digest) :
    reduceLevel sha256 level = .ok (PairTree.pairUp (node sha256) level) := by
  induction level using PairTree.pairs.induct with
  | case1 => rfl
  | case2 left =>
    rw [reduceLevel, nodeHash_eq]
    rfl
  | case3 left right rest ih =>
    rw [reduceLevel, nodeHash_eq, ih]
    rfl

/-- The loop of `MerkleTree::build`: every level from the leaves to the top. -/
def growLevels (level : List Digest) : Except MerkleError (List (List Digest)) :=
  if 1 < level.length then
    match _h : reduceLevel sha256 level with
    | .error e => .error e
    | .ok next => do
      let levels ← growLevels next
      pure (level :: levels)
  else pure [level]
termination_by level.length
decreasing_by
  rw [reduceLevel_eq] at _h
  cases _h
  rw [PairTree.length_pairUp]
  omega

def MerkleTree.build (leaves : Vec Digest) : Except MerkleError MerkleTree :=
  if leaves.1 = [] then do
    let top ← emptyTop sha256
    let root ← externalRoot sha256 0 top
    pure { root, count := 0, levels := [] }
  else do
    let count := UInt64.ofNat leaves.1.length
    let levels ← growLevels sha256 leaves.1
    let top ← match levels.getLast? with
      | some (top :: _) => pure top
      | _ => throw .panic
    let root ← externalRoot sha256 count top
    pure { root, count, levels }

/-- The loop of `prove`, over every level but the last. -/
def proveLevels : List (List Digest) → ℕ → Except MerkleError (List Digest)
  | [], _ => throw .panic
  | [_], _ => pure []
  | level :: levels, i => do
    let siblingIndex :=
      if i % 2 = 0 then
        -- odd-sized level: last node was duplicated to pair with itself
        if i + 1 < level.length then i + 1 else i
      else i - 1
    let sibling ← match level[siblingIndex]? with
      | some sibling => pure sibling
      | none => throw .panic
    let siblings ← proveLevels levels (i / 2)
    pure (sibling :: siblings)

def MerkleTree.prove (tree : MerkleTree) (index : UInt64) : Except MerkleError InclusionProof := do
  revertIf (tree.count = 0) .emptyTree
  revertIf (index ≥ tree.count) (.indexOutOfRange index.toNat tree.count.toNat)
  let siblings ← proveLevels tree.levels index.toNat
  pure { index, count := tree.count, siblings }

/-- The loop of `expected_height`. -/
def heightLoop (n height : ℕ) : ℕ :=
  if 1 < n then heightLoop ((n + 1) / 2) (height + 1) else height
termination_by n

def expectedHeight (count : ℕ) : ℕ := if count ≤ 1 then 0 else heightLoop count 0

/-- The loop of `verify_inclusion`. -/
def climb (hash : Digest) (index : ℕ) : List Digest → Except MerkleError Digest
  | [] => pure hash
  | sibling :: siblings => do
    let hash ← if index % 2 = 0 then nodeHash sha256 hash sibling else nodeHash sha256 sibling hash
    climb hash (index / 2) siblings

def verifyInclusion (leaf : Digest) (proof : InclusionProof) (expectedRoot : Digest) :
    Except MerkleError Unit := do
  revertIf (proof.count = 0) .emptyTree
  revertIf (proof.index ≥ proof.count) (.indexOutOfRange proof.index.toNat proof.count.toNat)
  let height := expectedHeight proof.count.toNat
  revertIf (proof.siblings.length ≠ height) (.invalidSiblingCount height proof.siblings.length)
  let hash ← climb sha256 leaf proof.index.toNat proof.siblings
  let recomputed ← externalRoot sha256 proof.count hash
  revertIf (recomputed ≠ expectedRoot) .rootMismatch

end Functions

section Specifications

variable {sha256 : Bytes → Digest}

theorem growLevels_eq (level : List Digest) :
    growLevels sha256 level = .ok (PairTree.levels (node sha256) level) := by
  induction level using PairTree.levels.induct (node sha256) with
  | case1 level hlong ih =>
    rw [growLevels, if_pos hlong, PairTree.levels, if_pos hlong]
    split
    next e he => rw [reduceLevel_eq] at he; cases he
    next next hnext =>
      rw [reduceLevel_eq] at hnext
      cases hnext
      rw [ih]
      rfl
  | case2 level hshort =>
    rw [growLevels, if_neg hshort, PairTree.levels, if_neg hshort]
    rfl

theorem proveLevels_eq {level : List Digest} {i : ℕ} (h : i < level.length) :
    proveLevels (PairTree.levels (node sha256) level) i =
      .ok (PairTree.path (node sha256) level i) := by
  induction level using PairTree.levels.induct (node sha256) generalizing i with
  | case1 level hlong ih =>
    have hsibling := PairTree.siblingIndex_lt h
    rw [PairTree.levels, if_pos hlong, PairTree.path, dif_pos ⟨hlong, h⟩]
    obtain ⟨next, levels, hlevels⟩ : ∃ next levels,
        PairTree.levels (node sha256) (PairTree.pairUp (node sha256) level) = next :: levels := by
      rw [PairTree.levels]
      split_ifs <;> exact ⟨_, _, rfl⟩
    rw [hlevels, proveLevels, ← hlevels, ih (by rw [PairTree.length_pairUp]; omega)]
    · unfold PairTree.siblingIndex at hsibling ⊢
      simp only [List.getElem?_eq_getElem hsibling]
      rfl
    · intro hnil; cases hnil
  | case2 level hshort =>
    rw [PairTree.levels, if_neg hshort, PairTree.path, dif_neg fun hc => hshort hc.1]
    rfl

theorem heightLoop_eq (n height : ℕ) : heightLoop n height = PairTree.height n + height := by
  induction n, height using heightLoop.induct with
  | case1 n height hlong ih =>
    rw [heightLoop, if_pos hlong, PairTree.height, if_pos hlong, ih]
    omega
  | case2 n height hshort =>
    rw [heightLoop, if_neg hshort, PairTree.height, if_neg hshort, Nat.zero_add]

theorem expectedHeight_eq (count : ℕ) : expectedHeight count = PairTree.height count := by
  unfold expectedHeight
  split_ifs with h
  · rw [PairTree.height, if_neg (Nat.not_lt.2 h)]
  · rw [heightLoop_eq, Nat.add_zero]

theorem climb_eq (hash : Digest) (index : ℕ) (siblings : List Digest) :
    climb sha256 hash index siblings = .ok (PairTree.walk (node sha256) hash index siblings) := by
  induction siblings generalizing hash index with
  | nil => rfl
  | cons sibling siblings ih =>
    rw [climb, PairTree.walk, PairTree.ordered]
    split_ifs
    · rw [nodeHash_eq]; exact ih _ _
    · rw [nodeHash_eq]; exact ih _ _

/-- The tree over some leaves. -/
def treeOf (sha256 : Bytes → Digest) (leaves : Vec Digest) (first : Digest) : MerkleTree :=
  let count := UInt64.ofNat leaves.1.length
  { root := sha256 (treeFrame count (PairTree.top (node sha256) first leaves.1))
    count
    levels := PairTree.levels (node sha256) leaves.1 }

theorem build_eq {leaves : Vec Digest} (hne : leaves.1 ≠ []) (first : Digest) :
    MerkleTree.build sha256 leaves = .ok (treeOf sha256 leaves first) := by
  rw [MerkleTree.build, if_neg hne, growLevels_eq]
  simp only [bind, Except.bind, PairTree.getLast_levels (node sha256) first hne, pure, Except.pure,
    externalRoot_eq]
  rfl

/-- Over any leaves, none included, building gives a tree and its root is a hash. -/
theorem build_root (leaves : Vec Digest) :
    ∃ tree bytes, MerkleTree.build sha256 leaves = .ok tree ∧ tree.root = sha256 bytes := by
  cases hleaves : leaves.1 with
  | nil =>
    have htop : emptyTop sha256 = .ok (sha256 (framed EMPTY_TAG [])) := by
      rw [emptyTop, frameHash, frame_eq (by decide) fun _ h => absurd h List.not_mem_nil]
      rfl
    refine ⟨⟨sha256 (treeFrame 0 (sha256 (framed EMPTY_TAG []))), 0, []⟩, _, ?_, rfl⟩
    rw [MerkleTree.build, if_pos hleaves, htop]
    simp only [bind, Except.bind, externalRoot_eq, pure, Except.pure]
  | cons first rest =>
    have hne : leaves.1 ≠ [] := by rw [hleaves]; exact List.cons_ne_nil _ _
    exact ⟨treeOf sha256 leaves first, _, build_eq hne first, rfl⟩

theorem verifyInclusion_ok {leaf : Digest} {proof : InclusionProof} {expectedRoot : Digest} :
    verifyInclusion sha256 leaf proof expectedRoot = .ok () ↔
      proof.index < proof.count ∧
      proof.siblings.length = PairTree.height proof.count.toNat ∧
      sha256 (treeFrame proof.count
        (PairTree.walk (node sha256) leaf proof.index.toNat proof.siblings)) = expectedRoot := by
  simp only [verifyInclusion, bind_ok, revertIf_ok, climb_eq, externalRoot_eq, expectedHeight_eq,
    Except.ok.injEq, exists_eq_left', not_not, exists_const, ge_iff_le, UInt64.not_le]
  constructor
  · rintro ⟨-, hindex, hlength, hroot⟩
    exact ⟨hindex, hlength, hroot⟩
  · rintro ⟨hindex, hlength, hroot⟩
    refine ⟨?_, hindex, hlength, hroot⟩
    rintro hzero
    rw [hzero] at hindex
    exact absurd hindex (Nat.not_lt_zero _)

theorem prove_eq {leaves : Vec Digest} {first : Digest} {index : UInt64}
    (h : index.toNat < leaves.1.length) :
    (treeOf sha256 leaves first).prove index = .ok
      { index, count := (treeOf sha256 leaves first).count,
        siblings := PairTree.path (node sha256) leaves.1 index.toNat } := by
  have hcount : (treeOf sha256 leaves first).count.toNat = leaves.1.length :=
    UInt64.toNat_ofNat_of_lt' leaves.2
  have hlt : index < (treeOf sha256 leaves first).count := by
    rw [UInt64.lt_iff_toNat_lt, hcount]; exact h
  have hzero : (treeOf sha256 leaves first).count ≠ 0 := by
    rintro hzero
    rw [hzero] at hlt
    exact absurd hlt (Nat.not_lt_zero _)
  rw [MerkleTree.prove, revertIf, if_neg hzero, revertIf, if_neg (UInt64.not_le.2 hlt)]
  simp only [treeOf, proveLevels_eq h]
  rfl

/-- What building a tree over some leaves and verifying a proof feed the hasher. -/
def hashed (sha256 : Bytes → Digest) (leaves : Vec Digest) (leaf : Digest)
    (proof : InclusionProof) : List Bytes :=
  [treeFrame (UInt64.ofNat leaves.1.length) (PairTree.top (node sha256) leaf leaves.1),
    treeFrame proof.count (PairTree.walk (node sha256) leaf proof.index.toNat proof.siblings)] ++
  ((PairTree.allPairs (node sha256) leaves.1).map nodeFrame ++
    (PairTree.walkPairs (node sha256) leaf proof.index.toNat proof.siblings).map nodeFrame)

/-- No two different inputs among these have the same hash. -/
def CollisionFree (sha256 : Bytes → Digest) (inputs : List Bytes) : Prop :=
  ∀ x ∈ inputs, ∀ y ∈ inputs, sha256 x = sha256 y → x = y

/-- What the root of a tree accepts is one of the tree's own proofs, of its own leaf. -/
theorem verifyInclusion_sound {leaves : Vec Digest} {leaf : Digest}
    {proof : InclusionProof} (hfree : CollisionFree sha256 (hashed sha256 leaves leaf proof))
    (h : verifyInclusion sha256 leaf proof (treeOf sha256 leaves leaf).root = .ok ()) :
    proof.count.toNat = leaves.1.length ∧ proof.index.toNat < leaves.1.length ∧
    leaves.1[proof.index.toNat]? = some leaf ∧
    (treeOf sha256 leaves leaf).prove proof.index = .ok proof := by
  obtain ⟨hindex, hlength, hroot⟩ := verifyInclusion_ok.1 h
  -- The count is hashed into the root, and the climb ends at the top under it.
  have hframe := hfree _ (by simp [hashed]) _ (by simp [hashed]) hroot
  obtain ⟨hcount, htop⟩ := treeFrame_injective hframe
  have hcount' : proof.count.toNat = leaves.1.length := by
    rw [hcount]
    exact UInt64.toNat_ofNat_of_lt' leaves.2
  have hlt : proof.index.toNat < leaves.1.length := by
    rw [← hcount']
    exact UInt64.lt_iff_toNat_lt.1 hindex
  have hpairs : ∀ p ∈ PairTree.walkPairs (node sha256) leaf proof.index.toNat proof.siblings,
      ∀ q ∈ PairTree.allPairs (node sha256) leaves.1,
      Function.uncurry (node sha256) p = Function.uncurry (node sha256) q → p = q := by
    intro p hp q hq hpq
    refine nodeFrame_injective (hfree _ ?_ _ ?_ hpq)
    · simp only [hashed, List.mem_append]
      exact .inr (.inr (List.mem_map_of_mem hp))
    · simp only [hashed, List.mem_append]
      exact .inr (.inl (List.mem_map_of_mem hq))
  obtain ⟨hleaf, hsiblings⟩ := PairTree.eq_of_walk_eq_top (node sha256) leaf hlt
    (by rw [hlength, hcount']) hpairs htop
  refine ⟨hcount', hlt, ?_, ?_⟩
  · rw [List.getElem?_eq_getElem hlt, hleaf]
  · rw [prove_eq hlt, ← hsiblings]
    show Except.ok ({ index := _, count := UInt64.ofNat _, siblings := _ } : InclusionProof) = _
    rw [← hcount]

/-- Every proof a tree makes is accepted by its root. -/
theorem verifyInclusion_complete {leaves : Vec Digest} {first : Digest} {index : UInt64}
    (h : index.toNat < leaves.1.length) :
    ∃ proof, (treeOf sha256 leaves first).prove index = .ok proof ∧
      verifyInclusion sha256 leaves.1[index.toNat] proof (treeOf sha256 leaves first).root =
        .ok () := by
  have hcount : (treeOf sha256 leaves first).count.toNat = leaves.1.length :=
    UInt64.toNat_ofNat_of_lt' leaves.2
  refine ⟨_, prove_eq h, verifyInclusion_ok.2 ⟨?_, ?_, ?_⟩⟩
  · rw [UInt64.lt_iff_toNat_lt, hcount]
    exact h
  · rw [hcount]
    exact PairTree.length_path (node sha256) h
  · rw [PairTree.walk_path (node sha256) first h]
    rfl

theorem inclusion_sound_and_complete (sha256 : Bytes → Digest) (leaves : Vec Digest)
    (hne : leaves.1 ≠ []) :
    ∃ tree, MerkleTree.build sha256 leaves = .ok tree ∧
      (∀ (index : UInt64) (h : index.toNat < leaves.1.length), ∃ proof,
        tree.prove index = .ok proof ∧
        verifyInclusion sha256 leaves.1[index.toNat] proof tree.root = .ok ()) ∧
      ∀ leaf proof, CollisionFree sha256 (hashed sha256 leaves leaf proof) →
        verifyInclusion sha256 leaf proof tree.root = .ok () →
        proof.count.toNat = leaves.1.length ∧ proof.index.toNat < leaves.1.length ∧
        leaves.1[proof.index.toNat]? = some leaf ∧ tree.prove proof.index = .ok proof := by
  obtain ⟨first, rest, hfirst⟩ := List.exists_cons_of_ne_nil hne
  refine ⟨treeOf sha256 leaves first, build_eq hne first, fun index h => ?_, ?_⟩
  · exact verifyInclusion_complete h
  · intro leaf proof hfree hok
    -- The tree does not depend on the default its top is taken with.
    have hsame : treeOf sha256 leaves first = treeOf sha256 leaves leaf :=
      Except.ok.inj ((build_eq hne first).symm.trans (build_eq hne leaf))
    rw [hsame] at hok ⊢
    exact verifyInclusion_sound hfree hok

end Specifications

section Example

/-- The leaves 1, 2 and 3. -/
def exampleLeaves : Vec Digest := ⟨[1, 2, 3].map Digest.ofNat, by decide⟩

/-- SHA-256 on what the tree over the example leaves hashes. -/
def exampleSha256 (bytes : Bytes) : Digest :=
  let leftNode := Digest.ofNat 0x97531d824415086df2c672b49b58eeb1532061d9b418c4ee2ca500f5d7fc4f91
  let rightNode := Digest.ofNat 0x22c14810308467a47eb8586238cf695668ad6df6b007703ddd53a844cf97171e
  let top := Digest.ofNat 0xd0445891bcc817b37c2bbce1fe9e62c62bb2a6aac7193f348e161c884e4aa776
  if bytes = nodeFrame (.ofNat 1, .ofNat 2) then leftNode
  else if bytes = nodeFrame (.ofNat 3, .ofNat 3) then rightNode
  else if bytes = nodeFrame (leftNode, rightNode) then top
  else if bytes = treeFrame 3 top then
    .ofNat 0x960005ac0667c1ad9b8018b07fd520a86fed12645d905d815e9c31d414becb60
  else .ofNat 0

/-- The third leaf, paired with itself and then with the node over the other two. -/
def exampleProof : InclusionProof where
  index := 2
  count := 3
  siblings := [.ofNat 3,
    .ofNat 0x97531d824415086df2c672b49b58eeb1532061d9b418c4ee2ca500f5d7fc4f91]

instance (sha256 : Bytes → Digest) (inputs : List Bytes) : Decidable (CollisionFree sha256 inputs) :=
  inferInstanceAs (Decidable (∀ x ∈ inputs, ∀ y ∈ inputs, sha256 x = sha256 y → x = y))

theorem inclusion_sound_and_complete_three :
    ∃ tree, MerkleTree.build exampleSha256 exampleLeaves = .ok tree ∧
      tree.prove 2 = .ok exampleProof ∧
      verifyInclusion exampleSha256 (.ofNat 3) exampleProof tree.root = .ok () := by
  obtain ⟨tree, hbuild, -, hsound⟩ := inclusion_sound_and_complete exampleSha256 exampleLeaves
    (by decide)
  obtain rfl : tree = treeOf exampleSha256 exampleLeaves (.ofNat 1) :=
    Except.ok.inj (hbuild.symm.trans (build_eq (by decide) _))
  have hok : verifyInclusion exampleSha256 (.ofNat 3) exampleProof
      (treeOf exampleSha256 exampleLeaves (.ofNat 1)).root = .ok () := by decide +kernel
  exact ⟨_, hbuild, (hsound _ _ (by decide +kernel) hok).2.2.2, hok⟩

end Example

end Linvesther.Commitments
