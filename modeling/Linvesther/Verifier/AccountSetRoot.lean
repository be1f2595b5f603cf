import Linvesther.Commitments.Merkle
import Linvesther.Contracts.World

/-! `root.rs`: the verifier's account-set root is the root of a SHA-256 tree over the ids as text.
The registry stores the Keccak-256 hash of the ids as an array. -/

namespace Linvesther.Verifier

open Transaction Commitments

section Functions

variable (sha256 : Commitments.Bytes → Digest)

def memberLeaf (accountId : String) : Digest := sha256 (asBytes accountId)

def verifyAccountSetRoot (claimedRoot : Digest) (memberIds : Vec String) :
    Except MerkleError Unit := do
  let leaves : Vec Digest := ⟨memberIds.1.map (memberLeaf sha256), by simpa using memberIds.2⟩
  let tree ← MerkleTree.build sha256 leaves
  revertIf (tree.root ≠ claimedRoot) .rootMismatch

end Functions

end Linvesther.Verifier

namespace Linvesther.AccountRegistry

open Transaction

variable {A B : Type} [DecidableEq B] [Zero B] {evm : Evm A B} {this : A}
  {identityRegistry : IdentityRegistry.State A B} {s s' : State B} {b : Block A B}

/-- The root of every epoch is the hash of its account ids. -/
def State.Rooted (evm : Evm A B) (s : State B) : Prop :=
  ∀ trackId, ∀ epoch ∈ s.membershipEpochs trackId,
    epoch.accountSetRoot = evm.keccak256 (.encodeArray epoch.accountIds)

theorem openMembershipEpoch_rooted {trackId : B} {newAccountIds : List B} {reasonHash : B}
    (h : s.Rooted evm) : (openMembershipEpoch evm s b trackId newAccountIds reasonHash).1.Rooted evm := by
  intro trackId' epoch hepoch
  simp only [openMembershipEpoch, Function.update_apply] at hepoch
  split_ifs at hepoch with htrack
  · rcases List.mem_append.1 hepoch with hold | hnew
    · exact h trackId epoch hold
    · obtain rfl := List.mem_singleton.1 hnew
      rfl
  · exact h trackId' epoch hepoch

/-- Only opening an epoch touches the epochs of a track. -/
theorem call_rooted {c : Call B} {logs : List (Event B)} (h : s.Rooted evm)
    (hcall : call evm this identityRegistry s b c = .ok (s', logs)) : s'.Rooted evm := by
  cases c with
  | registerAccount =>
    simp only [call, registerAccount, bind_ok, checkedAdd_ok, pure_ok, Prod.mk.injEq] at hcall
    obtain ⟨owner, -, s₁, hconsumed, counter, ⟨-, rfl⟩, rfl, -⟩ := hcall
    obtain ⟨-, -, -, -, rfl⟩ := consumeCommand_ok hconsumed
    exact h
  | activateAccount =>
    simp only [call, activateAccount, bind_ok, revertIf_ok, pure_ok, Prod.mk.injEq] at hcall
    obtain ⟨_, -, -, -, -, -, owner, -, s₁, hconsumed, rfl, -⟩ := hcall
    obtain ⟨-, -, -, -, rfl⟩ := consumeCommand_ok hconsumed
    exact openMembershipEpoch_rooted h
  | removeAccount =>
    simp only [call, removeAccount, bind_ok, revertIf_ok] at hcall
    obtain ⟨_, -, -, -, owner, -, s₁, hconsumed, hcall⟩ := hcall
    obtain ⟨-, -, -, -, rfl⟩ := consumeCommand_ok hconsumed
    split_ifs at hcall
    · simp only [bind_ok, pure_ok, Prod.mk.injEq] at hcall
      obtain ⟨members, -, rfl, -⟩ := hcall
      exact openMembershipEpoch_rooted h
    · simp only [pure_ok, Prod.mk.injEq] at hcall
      obtain ⟨rfl, -⟩ := hcall
      exact h
  | rotateBindingCredential =>
    simp only [call, rotateBindingCredential, bind_ok, revertIf_ok, checkedAdd_ok, pure_ok,
      Prod.mk.injEq] at hcall
    obtain ⟨_, -, -, -, owner, -, s₁, hconsumed, epoch, ⟨-, rfl⟩, rfl, -⟩ := hcall
    obtain ⟨-, -, -, -, rfl⟩ := consumeCommand_ok hconsumed
    exact h

end Linvesther.AccountRegistry

namespace Linvesther

open Transaction

variable {A B : Type} [DecidableEq A] [DecidableEq B] [Zero A] [Zero B]

theorem World.run_rooted (evm : Evm A B) (at_ : Deployment A) (txs : List (Tx A B)) :
    (World.run evm at_ .init txs).account.Rooted evm := by
  refine @run_invariant_all _ _ _ _ (World.call evm at_) (fun w => w.account.Rooted evm)
    (fun w tx w' logs hw hcall => ?_) .init txs fun _ epoch hepoch => (by cases hepoch)
  rcases World.call_ok hcall with ⟨c, s, l, -, -, rfl, -⟩ | ⟨c, s, l, -, hc, rfl, -⟩ |
    ⟨c, s, l, -, -, rfl, -⟩
  · exact hw
  · exact AccountRegistry.call_rooted hw hc
  · exact hw

end Linvesther

namespace Linvesther.Verifier

open Transaction Commitments

variable {A : Type} [DecidableEq A] [Zero A]

instance : Zero Digest := ⟨.ofNat 0⟩

/-- No account-set root of a run passes the verifier, with its own ids or any others, as long as no
SHA-256 value is the Keccak-256 hash of an array of ids. -/
theorem verifyAccountSetRoot_rejects {sha256 : Commitments.Bytes → Digest} {evm : Evm A Digest}
    (hfree : ∀ bytes ids, sha256 bytes ≠ evm.keccak256 (.encodeArray ids)) (at_ : Deployment A)
    (txs : List (Tx A Digest)) {trackId : Digest} {epoch : AccountRegistry.MembershipEpoch Digest}
    (hepoch : epoch ∈ (World.run evm at_ .init txs).account.membershipEpochs trackId)
    (memberIds : Vec String) :
    verifyAccountSetRoot sha256 epoch.accountSetRoot memberIds = .error .rootMismatch := by
  have hroot := World.run_rooted evm at_ txs trackId epoch hepoch
  obtain ⟨tree, bytes, hbuild, htree⟩ := @build_root sha256
    ⟨memberIds.1.map (memberLeaf sha256), by simpa using memberIds.2⟩
  have hne : tree.root ≠ epoch.accountSetRoot := by
    rw [htree, hroot]
    exact hfree _ _
  simp only [verifyAccountSetRoot, hbuild, bind, Except.bind, revertIf, if_pos hne]

section Example

/-- The identity of the owner 7, its track and the account on it. -/
def storedIdentity : Digest :=
  .ofNat 0xb948a4746b4c29bcb09d829d895eb8f0bb6a292764d76ce4cf7bd726e1ef65a6

def storedTrack : Digest :=
  .ofNat 0x8e00dabc4987d5abafa14b9e4b55aa0f482359656418bc1214159fb642efeb68

def storedAccount : Digest :=
  .ofNat 0x3273a4a1ff383eae19bf8a0dfdf165f8908a8789147bed32be300699086f3a38

/-- The signing domains of the identity registry at 1 and of the account registry at 2. -/
def identityDomain : Digest :=
  .ofNat 0x26728945e7bbfc88b2506ee8b7d88df71996796253374f539a03bd0939a354a2

def accountDomain : Digest :=
  .ofNat 0x08c1fb3bffd8dfc2f5d46755fdf92fe113d6a2902db052091a72de915050aee7

/-- The commands that create the track and register and activate the account, by their type hash,
their struct hash and their digest. -/
def createTrackHashes : Digest × Digest × Digest :=
  (.ofNat 0x0a32313bbbd7a6cd7621896b63a026093a1ddedc709a6773efa858ea4c0479d8,
    .ofNat 0x8bbca9609c952b28bcbe93052517d7d0c38a60ff0b9cdf50f3ccc8796e18d5db,
    .ofNat 0x36c2bae6ac3e95a5768b8c15ac3d5fa8524ba17461ccfc510b329af826122f8f)

def registerAccountHashes : Digest × Digest × Digest :=
  (.ofNat 0x3a1678f6f32e51b2647efbf87a14cfdde53be7f2170202a4fec6bdaab671e79b,
    .ofNat 0x53a6742e3669b071afd102efe90dd05f0c538326ca5d45a63da7bb84241f954d,
    .ofNat 0x198b81b4f5504ec6fe1a04a8b2b7b5f680138628a54381935fd0fab6501f6054)

def activateAccountHashes : Digest × Digest × Digest :=
  (.ofNat 0xefc8735c7ff8ce2e63a299dfbfa638e191c49be5f30f22044fbe30b733abfc53,
    .ofNat 0xafc15423f7f1fb8bea71954fd350266fdbf4d25deaea938987012357d5ad8bd3,
    .ofNat 0x54fa3278769949d6cf497b2d1f32d78a43b18d8aba675737076c028e30f6d09d)

/-- Keccak-256 on what a run up to its first membership epoch hashes. -/
def exampleHashes : List (Preimage ℕ Digest × Digest) :=
  let domainType : Digest :=
    .ofNat 0x8b73c3c69bb8fe3d512ecc4cf759cc79239f7b179b0ffacaa9a75d522b39400f
  let identityName : Digest :=
    .ofNat 0x258466a0a3fed84d73729e55f89f7fb4b78a11916635c9de9e9b4e3e3605dafa
  let accountName : Digest :=
    .ofNat 0xca05dc78fb9ca91497798947a5614c9029de3e35503bcf34718e83c31bec4343
  let version : Digest :=
    .ofNat 0xc89efdaa54c0f20c7adf612882df0950f5a951637e0307cdcb4c672f298b8bc6
  [(.encodeArray [storedAccount],
      .ofNat 0x0ac8da86a311167a197c7f456cfd20b13c4cf5b4bb590dd2ff2d04d2c8da996e),
    (.text "EIP712Domain(string name,string version,uint256 chainId,address verifyingContract)",
      domainType),
    (.text "LinvestherZK-IdentityRegistry", identityName),
    (.text "LinvestherZK-AccountRegistry", accountName),
    (.text "1", version),
    (.text "CreateTrack(bytes32 identityId,bytes32 financialProfileId,bytes32 denominationCommitment,uint64 ownerEpoch,uint64 nonce,uint256 deadline)",
      createTrackHashes.1),
    (.text "RegisterAccount(bytes32 trackId,bytes32 venueId,bytes32 authenticatedIdCommitment,uint8 environment,uint64 ownerEpoch,uint64 nonce,uint256 deadline)",
      registerAccountHashes.1),
    (.text "ActivateAccount(bytes32 accountId,uint64 eligibleFrom,bytes32 reasonHash,uint64 ownerEpoch,uint64 nonce,uint256 deadline)",
      activateAccountHashes.1),
    (.encode [.bytes32 domainType, .bytes32 identityName, .bytes32 version, .uint 1, .address 1],
      identityDomain),
    (.encode [.bytes32 domainType, .bytes32 accountName, .bytes32 version, .uint 1, .address 2],
      accountDomain),
    (.encode [.bytes32 createTrackHashes.1, .bytes32 storedIdentity, .bytes32 0, .bytes32 0,
      .uint 0, .uint 0, .uint 20], createTrackHashes.2.1),
    (.encode [.bytes32 registerAccountHashes.1, .bytes32 storedTrack, .bytes32 0, .bytes32 0,
      .uint 0, .uint 0, .uint 0, .uint 20], registerAccountHashes.2.1),
    (.encode [.bytes32 activateAccountHashes.1, .bytes32 storedAccount, .uint 10, .bytes32 0,
      .uint 0, .uint 1, .uint 20], activateAccountHashes.2.1),
    (.typedData identityDomain createTrackHashes.2.1, createTrackHashes.2.2),
    (.typedData accountDomain registerAccountHashes.2.1, registerAccountHashes.2.2),
    (.typedData accountDomain activateAccountHashes.2.1, activateAccountHashes.2.2),
    (.encodePacked [.uint 1, .address 1, .address 7, .uint 0], storedIdentity),
    (.encodePacked [.uint 1, .address 1, .bytes32 storedIdentity, .uint 0], storedTrack),
    (.encodePacked [.uint 1, .address 2, .bytes32 storedTrack, .uint 0], storedAccount)]

def exampleEvm : Evm ℕ Digest := ⟨fun p => (exampleHashes.lookup p).getD (.ofNat 1), 1⟩

/-- The id of the account as text. -/
def storedAccountId : String :=
  "0x3273a4a1ff383eae19bf8a0dfdf165f8908a8789147bed32be300699086f3a38"

/-- SHA-256 on the leaf of that id and on the tree over it alone. -/
def accountSetSha256 (bytes : Commitments.Bytes) : Digest :=
  let leaf : Digest :=
    .ofNat 0x422bef6a58fdd7916d48037497e8a58eaf589d8d385fca51c4fb0f54acb42842
  if bytes = asBytes storedAccountId then leaf
  else if bytes = treeFrame 1 leaf then
    .ofNat 0xbe5ebc5373f844047e68f9b8bf9bf534f30e7183c75ce4aa1f416ce32c261278
  else .ofNat 2

/-- The owner creates a track, registers an account on it and activates the account. -/
def exampleActivation : List (Tx ℕ Digest) :=
  [⟨.signed 10 0 0 [], 7, .identity (.createIdentity .person)⟩,
   ⟨.signed 10 7 createTrackHashes.2.2 [1], 9,
     .identity (.createTrack storedIdentity 0 0 0 0 20 [1])⟩,
   ⟨.signed 10 7 registerAccountHashes.2.2 [2], 9,
     .account (.registerAccount storedTrack 0 0 .production 0 0 20 [2])⟩,
   ⟨.signed 10 7 activateAccountHashes.2.2 [3], 9,
     .account (.activateAccount storedAccount 10 0 0 1 20 [3])⟩]

theorem accountSetSha256_ne (bytes : Commitments.Bytes) (ids : List Digest) :
    accountSetSha256 bytes ≠ exampleEvm.keccak256 (.encodeArray ids) := by
  have hroot : exampleEvm.keccak256 (.encodeArray ids) = .ofNat 1 ∨
      exampleEvm.keccak256 (.encodeArray ids) =
        exampleEvm.keccak256 (.encodeArray [storedAccount]) := by
    by_cases hids : ids = [storedAccount]
    · exact .inr (by rw [hids])
    · have hnone : exampleHashes.lookup (.encodeArray ids) = none := by
        rw [List.lookup_eq_none_iff]
        simp [exampleHashes, hids]
      exact .inl (by simp [exampleEvm, hnone])
  unfold accountSetSha256
  rcases hroot with hroot | hroot
  · rw [hroot]
    dsimp only
    split_ifs <;> decide
  · rw [hroot]
    dsimp only
    split_ifs <;> decide

theorem verifyAccountSetRoot_rejects_activation :
    ∃ epoch ∈ (World.run exampleEvm exampleDeployment .init
        exampleActivation).account.membershipEpochs storedTrack,
      verifyAccountSetRoot accountSetSha256 epoch.accountSetRoot ⟨[storedAccountId], by decide⟩ =
        .error .rootMismatch := by
  have hepochs : ((World.run exampleEvm exampleDeployment .init
      exampleActivation).account.membershipEpochs storedTrack).length = 1 := by
    decide +kernel
  obtain ⟨epoch, hepoch⟩ := List.length_eq_one_iff.1 hepochs
  have hmem : epoch ∈ (World.run exampleEvm exampleDeployment .init
      exampleActivation).account.membershipEpochs storedTrack := by
    rw [hepoch]
    exact List.mem_singleton_self epoch
  exact ⟨epoch, hmem, verifyAccountSetRoot_rejects accountSetSha256_ne exampleDeployment
    exampleActivation hmem _⟩

/-- The epoch of the one account is rejected with that account's id. -/
theorem activated_root_mismatch :
    ((World.run exampleEvm exampleDeployment .init exampleActivation).account.membershipEpochs
      storedTrack).map (fun epoch => (epoch.accountIds,
        verifyAccountSetRoot accountSetSha256 epoch.accountSetRoot ⟨[storedAccountId], by decide⟩)) =
      [([storedAccount], .error .rootMismatch)] := by
  decide +kernel

end Example

end Linvesther.Verifier
