import Linvesther.Commitments.Merkle
import Linvesther.Protocol.Number

/-! `merkle.ts`: the verifier of inclusion proofs over JavaScript numbers. It takes every proof the
one over `u64` takes, and also positions that are no positions and counts that are no counts. -/

namespace Linvesther.Protocol

open Transaction Commitments

abbrev Bytes := Commitments.Bytes

/-- A `Uint8Array`: its length is a safe integer. -/
abbrev Uint8Array := {bytes : Bytes // bytes.length < 2 ^ 53}

structure InclusionProof where
  index : Number
  count : Number
  siblings : List Uint8Array
deriving DecidableEq

/-- How a call ends that does not return: it throws, or it loops forever. -/
inductive Failure where
  | emptyTree
  | indexOutOfRange
  | siblingCount
  | rootMismatch
  | tagTooLong
  | fieldTooLong
  | rangeError
  | hangs
deriving DecidableEq

section Framing

def MAX_U32 : ℕ := 0xffffffff

def MAX_SAFE_FIELD_LEN : ℕ := 2 ^ 53 - 1

def updateFields : List Bytes → Except Failure Bytes
  | [] => pure []
  | field :: fields => do
    revertIf (field.length > MAX_SAFE_FIELD_LEN) .fieldTooLong
    let rest ← updateFields fields
    pure (toBeBytes 8 field.length ++ field ++ rest)

/-- What `frameHash` feeds the hasher. -/
def frame (tag : String) (fields : List Bytes) : Except Failure Bytes := do
  revertIf ((asBytes tag).length > MAX_U32) .tagTooLong
  let rest ← updateFields fields
  pure (toBeBytes 4 (asBytes tag).length ++ asBytes tag ++ rest)

def frameHash (sha256 : Bytes → Digest) (tag : String) (fields : List Bytes) :
    Except Failure Bytes := do
  let bytes ← frame tag fields
  pure (sha256 bytes).1

theorem updateFields_eq {fields : List Bytes} (h : ∀ field ∈ fields, field.length < 2 ^ 53) :
    ∃ bytes, updateFields fields = .ok bytes ∧ encodeFields fields = .ok bytes := by
  induction fields with
  | nil => exact ⟨[], rfl, rfl⟩
  | cons field fields ih =>
    obtain ⟨rest, hupdate, hencode⟩ := ih fun f hf => h f (List.mem_cons_of_mem _ hf)
    have hfield : field.length < 2 ^ 53 := h field List.mem_cons_self
    have hlen : encodeLen 8 .fieldTooLong field.length = .ok (toBeBytes 8 field.length) :=
      encodeLen_ok.2 ⟨by omega, rfl⟩
    refine ⟨toBeBytes 8 field.length ++ field ++ rest, ?_, ?_⟩
    · rw [updateFields, revertIf, if_neg (by unfold MAX_SAFE_FIELD_LEN; omega), hupdate]
      rfl
    · rw [encodeFields, encodeLenU64, hlen, hencode]
      rfl

/-- Both sides frame alike what both can be given. -/
theorem frame_eq_framed {tag : String} {fields : List Bytes} (htag : (asBytes tag).length < 256 ^ 4)
    (hfields : ∀ field ∈ fields, field.length < 2 ^ 53) :
    frame tag fields = .ok (framed tag fields) := by
  obtain ⟨rest, hupdate, hencode⟩ := updateFields_eq hfields
  have hrust := frame_eq htag fun field hfield => (hfields field hfield).trans (by decide)
  have hlen : encodeLen 4 .tagTooLong (asBytes tag).length =
      .ok (toBeBytes 4 (asBytes tag).length) := encodeLen_ok.2 ⟨htag, rfl⟩
  rw [Commitments.frame, encodeLenU32, hlen, hencode] at hrust
  rw [frame, revertIf, if_neg (by unfold MAX_U32; omega), hupdate]
  exact congrArg Except.ok (Except.ok.inj hrust)

end Framing

section Functions

variable (sha256 : Bytes → Digest)

def nodeHash (left right : Bytes) : Except Failure Bytes := frameHash sha256 NODE_TAG [left, right]

/-- `BigInt` throws on what is no integer, and `setBigUint64` keeps the low 64 bits. -/
def externalRoot (count : Number) (top : Bytes) : Except Failure Bytes := do
  let count ← match count.toBigInt with
    | some count => pure count
    | none => throw .rangeError
  frameHash sha256 TREE_TAG [toBeBytes 8 (count % 2 ^ 64).toNat, top]

/-- The loop of `expectedHeight`. -/
def heightLoop (n : ℤ) (height : ℕ) : ℕ :=
  if h : one < n then heightLoop (Number.ceilUnits (Number.halfUnits n)) (height + 1)
  else height
termination_by n.toNat
decreasing_by
  have := Number.ceil_half_lt h
  have := Number.one_pos
  omega

/-- Halving infinity gets nowhere; what cannot be compared is not above 1. -/
def expectedHeight : Number → Except Failure ℕ
  | .nan | .infinity true => pure 0
  | .infinity false => throw .hangs
  | .finite n => pure (if n ≤ one then 0 else heightLoop n 0)

/-- The loop of `verifyInclusion`. -/
def climb (hash : Bytes) (index : Number) : List Uint8Array → Except Failure Bytes
  | [] => pure hash
  | sibling :: siblings => do
    let hash ← if index.isEven then nodeHash sha256 hash sibling.1 else nodeHash sha256 sibling.1 hash
    climb hash index.floorHalf siblings

def verifyInclusion (leaf : Uint8Array) (proof : InclusionProof) (expectedRoot : Uint8Array) :
    Except Failure Unit := do
  revertIf (proof.count = .finite 0) .emptyTree
  revertIf (proof.index.ge proof.count = true) .indexOutOfRange
  let height ← expectedHeight proof.count
  revertIf (proof.siblings.length ≠ height) .siblingCount
  let hash ← climb sha256 leaf.1 proof.index proof.siblings
  let recomputed ← externalRoot sha256 proof.count hash
  revertIf (recomputed ≠ expectedRoot.1) .rootMismatch

end Functions

section Specifications

variable {sha256 : Bytes → Digest}

theorem heightLoop_ofInt (k : ℤ) (height : ℕ) :
    heightLoop (k * one) height = PairTree.height k.toNat + height := by
  induction hn : k.toNat using Nat.strong_induction_on generalizing k height with
  | h n ih =>
    have hlt : one < k * one ↔ 1 < k := by
      rw [lt_mul_iff_one_lt_left Number.one_pos]
    rw [heightLoop, PairTree.height]
    by_cases hk : 1 < k
    · have hhalf : ((k + 1) / 2).toNat = (n + 1) / 2 := by omega
      rw [dif_pos (hlt.2 hk), if_pos (by omega), Number.ceilUnits_halfUnits,
        ih ((n + 1) / 2) (by omega) _ _ hhalf]
      omega
    · rw [dif_neg (mt hlt.1 hk), if_neg (by omega), Nat.zero_add]

theorem expectedHeight_ofInt (k : ℤ) :
    expectedHeight (.ofInt k) = .ok (PairTree.height k.toNat) := by
  rw [Number.ofInt, expectedHeight]
  split_ifs with h
  · have hk : k ≤ 1 := (mul_le_iff_le_one_left Number.one_pos).1 h
    rw [PairTree.height, if_neg (by omega)]
    rfl
  · rw [heightLoop_ofInt]
    rfl

/-- The hash of a pair of byte strings, hash values or not. -/
def pairHash (sha256 : Bytes → Digest) (p : Bytes × Bytes) : Bytes :=
  (sha256 (framed NODE_TAG [p.1, p.2])).1

/-- The climb that goes by the binary digits of an integer. -/
def climbed (sha256 : Bytes → Digest) (hash : Bytes) (digits : ℤ) : List Uint8Array → Bytes
  | [] => hash
  | sibling :: siblings =>
    climbed sha256
      (pairHash sha256 (if digits % 2 = 0 then (hash, sibling.1) else (sibling.1, hash)))
      (digits / 2) siblings

theorem nodeHash_eq {left right : Bytes} (hleft : left.length < 2 ^ 53)
    (hright : right.length < 2 ^ 53) :
    nodeHash sha256 left right = .ok (pairHash sha256 (left, right)) := by
  rw [nodeHash, frameHash, frame_eq_framed (by decide) (forall_mem_pair hleft hright)]
  rfl

theorem length_pairHash (p : Bytes × Bytes) : (pairHash sha256 p).length < 2 ^ 53 := by
  rw [pairHash, (sha256 _).2]
  decide

theorem climb_eq {hash : Bytes} (hhash : hash.length < 2 ^ 53) (index : Number)
    (siblings : List Uint8Array) :
    climb sha256 hash index siblings = .ok (climbed sha256 hash index.digits siblings) := by
  induction siblings generalizing hash index with
  | nil => rfl
  | cons sibling siblings ih =>
    rw [climb, climbed, ← Number.digits_floorHalf]
    by_cases heven : index.isEven = true
    · rw [if_pos heven, if_pos ((Number.isEven_iff index).1 heven), nodeHash_eq hhash sibling.2]
      exact ih (length_pairHash _) _
    · rw [if_neg heven, if_neg (mt (Number.isEven_iff index).2 heven), nodeHash_eq sibling.2 hhash]
      exact ih (length_pairHash _) _

theorem length_climbed {hash : Bytes} (hhash : hash.length < 2 ^ 53) (digits : ℤ)
    (siblings : List Uint8Array) : (climbed sha256 hash digits siblings).length < 2 ^ 53 := by
  induction siblings generalizing hash digits with
  | nil => exact hhash
  | cons sibling siblings ih => exact ih (length_pairHash _) _

/-- The root a proof amounts to: its count modulo `2 ^ 64` over the climb by the digits of its
index. -/
def rootOf (sha256 : Bytes → Digest) (leaf : Uint8Array) (proof : InclusionProof) (count : ℤ) :
    Digest :=
  sha256 (framed TREE_TAG [toBeBytes 8 (count % 2 ^ 64).toNat,
    climbed sha256 leaf.1 proof.index.digits proof.siblings])

theorem verifyInclusion_ok {leaf expectedRoot : Uint8Array} {proof : InclusionProof} :
    verifyInclusion sha256 leaf proof expectedRoot = .ok () ↔
      ∃ count : ℤ, proof.count = .ofInt count ∧ count ≠ 0 ∧ proof.index.ge proof.count = false ∧
        proof.siblings.length = PairTree.height count.toNat ∧
        (rootOf sha256 leaf proof count).1 = expectedRoot.1 := by
  have hroot : ∀ count : ℤ, externalRoot sha256 (.ofInt count)
      (climbed sha256 leaf.1 proof.index.digits proof.siblings) =
        .ok (rootOf sha256 leaf proof count).1 := by
    intro count
    rw [externalRoot, Number.toBigInt_eq_some.2 rfl]
    simp only [bind, Except.bind, pure, Except.pure, frameHash]
    have hlen : (toBeBytes 8 (count % 2 ^ 64).toNat).length < 2 ^ 53 := by
      rw [length_toBeBytes]; decide
    rw [frame_eq_framed (by decide) (forall_mem_pair hlen (length_climbed leaf.2 _ _))]
    rfl
  simp only [verifyInclusion, bind_ok, revertIf_ok, climb_eq leaf.2]
  constructor
  · rintro ⟨-, hzero, -, hindex, height, hheight, -, hlength, hash, hhash, root, hexternal, heq⟩
    cases hhash
    cases hbig : proof.count.toBigInt with
    | none =>
      rw [externalRoot, hbig] at hexternal
      cases hexternal
    | some count =>
      have hcount := Number.toBigInt_eq_some.1 hbig
      rw [hcount] at hzero hheight hexternal
      rw [expectedHeight_ofInt] at hheight
      rw [hroot] at hexternal
      cases hheight
      cases hexternal
      refine ⟨count, hcount, ?_, by simpa using hindex, not_not.1 hlength, not_not.1 heq⟩
      rintro rfl
      exact hzero (by simp [Number.ofInt])
  · rintro ⟨count, hcount, hzero, hindex, hlength, heq⟩
    refine ⟨(), ?_, (), by simp [hindex], _, by rw [hcount, expectedHeight_ofInt], (), by simp [hlength],
      _, rfl, _, by rw [hcount, hroot], by simp [heq]⟩
    rw [hcount]
    intro hfinite
    have : Number.ofInt count = .ofInt 0 := by simpa [Number.ofInt] using hfinite
    exact hzero (Number.ofInt_injective this)

end Specifications

section Agreement

variable {sha256 : Bytes → Digest}

/-- A proof of this side and one of the other that hold the same values. -/
structure Same (proof : InclusionProof) (proof' : Commitments.InclusionProof) : Prop where
  index : proof.index = .ofInt proof'.index.toNat
  count : proof.count = .ofInt proof'.count.toNat
  siblings : proof.siblings.map (·.1) = proof'.siblings.map (·.1)

/-- Both verifiers accept, or there is nothing that the other one could be given and accept. -/
def Agree (sha256 : Bytes → Digest) (leaf : Uint8Array) (proof : InclusionProof)
    (expectedRoot : Uint8Array) : Prop :=
  verifyInclusion sha256 leaf proof expectedRoot = .ok () ↔
    ∃ (leaf' : Digest) (proof' : Commitments.InclusionProof) (expectedRoot' : Digest),
      leaf.1 = leaf'.1 ∧ Same proof proof' ∧ expectedRoot.1 = expectedRoot'.1 ∧
      Commitments.verifyInclusion sha256 leaf' proof' expectedRoot' = .ok ()

/-- The other verifier can be given this: two `u64` and 32 bytes each of the rest. -/
def Proper (leaf : Uint8Array) (proof : InclusionProof) : Prop :=
  ∃ (leaf' : Digest) (proof' : Commitments.InclusionProof), leaf.1 = leaf'.1 ∧ Same proof proof'

theorem climbed_eq_walk (hash : Digest) (index : ℕ) {siblings : List Uint8Array}
    {siblings' : List Digest} (h : siblings.map (·.1) = siblings'.map (·.1)) :
    climbed sha256 hash.1 index siblings =
      (PairTree.walk (node sha256) hash index siblings').1 := by
  induction siblings generalizing hash index siblings' with
  | nil =>
    obtain rfl := List.map_eq_nil_iff.1 h.symm
    rfl
  | cons sibling siblings ih =>
    obtain ⟨sibling', rest, rfl, hsibling, hrest⟩ := List.map_eq_cons_iff.1 h.symm
    have hhalf : ((index : ℤ) / 2) = ((index / 2 : ℕ) : ℤ) := by omega
    have heven : (index : ℤ) % 2 = 0 ↔ index % 2 = 0 := by omega
    change sibling'.1 = sibling.1 at hsibling
    rw [climbed, PairTree.walk, PairTree.ordered, hhalf, ← ih _ _ hrest.symm]
    simp only [heven]
    split_ifs
    · rw [← hsibling]; rfl
    · rw [← hsibling]; rfl

theorem ge_ofInt (i k : ℤ) : (Number.ofInt i).ge (.ofInt k) = false ↔ i < k := by
  simp only [Number.ofInt, Number.ge, decide_eq_false_iff_not]
  rw [mul_le_mul_iff_left₀ Number.one_pos, Int.not_le]

/-- On what both can be given they agree. -/
theorem verifyInclusion_iff {leaf expectedRoot : Uint8Array} {proof : InclusionProof}
    {leaf' expectedRoot' : Digest} {proof' : Commitments.InclusionProof} (hleaf : leaf.1 = leaf'.1)
    (hproof : Same proof proof') (hroot : expectedRoot.1 = expectedRoot'.1) :
    verifyInclusion sha256 leaf proof expectedRoot = .ok () ↔
      Commitments.verifyInclusion sha256 leaf' proof' expectedRoot' = .ok () := by
  have hlength : proof.siblings.length = proof'.siblings.length := by
    simpa using congrArg List.length hproof.siblings
  have hsame : rootOf sha256 leaf proof proof'.count.toNat = sha256 (treeFrame proof'.count
      (PairTree.walk (node sha256) leaf' proof'.index.toNat proof'.siblings)) := by
    have hmod : ((proof'.count.toNat : ℤ) % 2 ^ 64).toNat = proof'.count.toNat := by
      have := proof'.count.toNat_lt
      omega
    rw [rootOf, hmod, hproof.index, Number.digits_ofInt, hleaf,
      climbed_eq_walk leaf' proof'.index.toNat hproof.siblings]
    rfl
  rw [verifyInclusion_ok, Commitments.verifyInclusion_ok]
  constructor
  · rintro ⟨count, hcount, -, hindex, hheight, heq⟩
    obtain rfl := Number.ofInt_injective (hproof.count.symm.trans hcount)
    rw [hproof.index, hcount, ge_ofInt] at hindex
    refine ⟨UInt64.lt_iff_toNat_lt.2 (by omega), by simpa [← hlength] using hheight, ?_⟩
    rw [← hsame]
    exact Subtype.ext (heq.trans hroot)
  · rintro ⟨hindex, hheight, heq⟩
    have hindex' := UInt64.lt_iff_toNat_lt.1 hindex
    refine ⟨proof'.count.toNat, hproof.count, by omega, ?_, by simpa [hlength] using hheight, ?_⟩
    · rw [hproof.index, hproof.count, ge_ofInt]
      omega
    · rw [hsame, heq, hroot]

/-- The two verifiers agree on what both can be given, and otherwise exactly where this one finds
no root that the proof amounts to, or another one than expected. -/
theorem agree_iff (leaf : Uint8Array) (proof : InclusionProof) (expectedRoot : Uint8Array) :
    Agree sha256 leaf proof expectedRoot ↔
      Proper leaf proof ∨
      ∀ count : ℤ, proof.count = .ofInt count → count = 0 ∨ proof.index.ge proof.count = true ∨
        proof.siblings.length ≠ PairTree.height count.toNat ∨
        (rootOf sha256 leaf proof count).1 ≠ expectedRoot.1 := by
  by_cases hproper : Proper leaf proof
  · refine iff_of_true ?_ (.inl hproper)
    obtain ⟨leaf', proof', hleaf, hproof⟩ := hproper
    constructor
    · intro h
      obtain ⟨count, -, -, -, -, heq⟩ := verifyInclusion_ok.1 h
      exact ⟨leaf', proof', _, hleaf, hproof, heq.symm,
        (verifyInclusion_iff hleaf hproof heq.symm).1 h⟩
    · rintro ⟨leaf'', proof'', root', hleaf', hproof', hroot, h⟩
      exact (verifyInclusion_iff hleaf' hproof' hroot).2 h
  · have hnone : Agree sha256 leaf proof expectedRoot ↔
        ¬ verifyInclusion sha256 leaf proof expectedRoot = .ok () := by
      refine ⟨fun h hok => ?_, fun h => iff_of_false h ?_⟩
      · obtain ⟨leaf', proof', -, hleaf, hproof, -⟩ := h.1 hok
        exact hproper ⟨leaf', proof', hleaf, hproof⟩
      · rintro ⟨leaf', proof', -, hleaf, hproof, -⟩
        exact hproper ⟨leaf', proof', hleaf, hproof⟩
    rw [hnone, verifyInclusion_ok, or_iff_right hproper]
    constructor
    · intro h count hcount
      by_contra hall
      push Not at hall
      exact h ⟨count, hcount, hall.1, by simpa using hall.2.1, hall.2.2⟩
    · rintro h ⟨count, hcount, hzero, hindex, hlength, heq⟩
      rcases h count hcount with h | h | h | h
      · exact hzero h
      · rw [hindex] at h; cases h
      · exact h hlength
      · exact h heq

/-- What a proper proof shows against the root of a tree: a leaf of the tree, at its position. -/
theorem proper_accepted {leaves : Vec Digest} {leaf : Uint8Array} {proof : InclusionProof}
    {leaf' : Digest} {proof' : Commitments.InclusionProof} {expectedRoot : Uint8Array}
    (hleaf : leaf.1 = leaf'.1) (hproof : Same proof proof')
    (hfree : CollisionFree sha256 (hashed sha256 leaves leaf' proof'))
    (hroot : expectedRoot.1 = (treeOf sha256 leaves leaf').root.1)
    (h : verifyInclusion sha256 leaf proof expectedRoot = .ok ()) :
    proof.count = .ofInt leaves.1.length ∧ ∃ i : ℕ, proof.index = .ofInt i ∧
      i < leaves.1.length ∧ leaves.1[i]? = some leaf' := by
  obtain ⟨hcount, hindex, hget, -⟩ :=
    verifyInclusion_sound hfree ((verifyInclusion_iff hleaf hproof hroot).1 h)
  exact ⟨by rw [hproof.count, hcount], proof'.index.toNat, hproof.index, hindex, hget⟩

end Agreement

section NegativeIndex

def ofDigest (digest : Digest) : Uint8Array := ⟨digest.1, by rw [digest.2]; decide⟩

/-- The proof of the third leaf of three, with its position replaced by -1. -/
def negativeProof : InclusionProof where
  index := .ofInt (-1)
  count := .ofInt 3
  siblings := exampleProof.siblings.map ofDigest

/-- All the binary digits of -1 are 1, and so are those of the last position of the tree. -/
theorem negative_index_accepted :
    let expectedRoot := ofDigest (treeOf exampleSha256 exampleLeaves (.ofNat 1)).root
    verifyInclusion exampleSha256 (ofDigest (.ofNat 3)) negativeProof expectedRoot = .ok () ∧
      ¬ Agree exampleSha256 (ofDigest (.ofNat 3)) negativeProof expectedRoot := by
  intro expectedRoot
  have hok : verifyInclusion exampleSha256 (ofDigest (.ofNat 3)) negativeProof expectedRoot =
      .ok () := by
    decide +kernel
  refine ⟨hok, fun hagree => ?_⟩
  obtain ⟨leaf', proof', -, -, hproof, -⟩ := hagree.1 hok
  have := Number.ofInt_injective hproof.index
  omega

end NegativeIndex

end Linvesther.Protocol
