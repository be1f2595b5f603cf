import Linvesther.Base.Transaction

/-! What the registries take from the EVM: hashing of ABI-encoded arguments, EIP-712 digests, the
block a call runs in and the signature check. Addresses and 32-byte words are types of their own,
so that the hash can be taken as collision-free without a contradiction. -/

namespace Linvesther

/-- Mappings from one key type to another. -/
abbrev Mapping (K V : Type) := K → V

/-- `bytes calldata`. -/
abbrev Bytes := List UInt8

/-- One argument of `abi.encode` or `abi.encodePacked`. -/
inductive Word (A B : Type) where
  | bytes32 (b : B)
  | uint (n : ℕ)
  | address (a : A)
  | text (s : String)
deriving DecidableEq

/-- What the registries hash. The encoders are injective on the argument lists of one call site,
and two call sites never produce the same bytes, so the encodings are kept symbolic. -/
inductive Preimage (A B : Type) where
  | text (s : String)
  | encode (args : List (Word A B))
  | encodePacked (args : List (Word A B))
  | encodeArray (ids : List B)
  | typedData (domainSeparator structHash : B)
deriving DecidableEq

/-- The chain the contracts are deployed on. -/
structure Evm (A B : Type) where
  keccak256 : Preimage A B → B
  chainid : ℕ

/-- The block a call is executed in. `isValidSignatureNow` accepts ECDSA signatures and asks
contract wallets (ERC-1271), so its answers may differ from block to block. -/
structure Block (A B : Type) where
  timestamp : ℕ
  isValidSignatureNow : A → B → Bytes → Bool

/-- `uint64(block.timestamp)`. -/
def Block.timestamp64 {A B : Type} (b : Block A B) : ℕ := b.timestamp % 2 ^ 64

/-- Signatures of this block cannot be forged: a byte string is a signature over one digest. -/
def Block.Unforgeable {A B : Type} (b : Block A B) : Prop :=
  ∀ signer signer' digest digest' signature,
    b.isValidSignatureNow signer digest signature = true →
    b.isValidSignatureNow signer' digest' signature = true → digest = digest'

variable {A B : Type}

/-- A block in which a single signature is known. -/
def Block.signed [DecidableEq A] [DecidableEq B] (timestamp : ℕ) (signer : A) (digest : B)
    (signature : Bytes) : Block A B where
  timestamp
  isValidSignatureNow := fun a d sig => a = signer ∧ d = digest ∧ sig = signature

theorem Block.signed_self [DecidableEq A] [DecidableEq B] (timestamp : ℕ) (signer : A) (digest : B)
    (signature : Bytes) :
    (signed timestamp signer digest signature).isValidSignatureNow signer digest signature = true := by
  simp [signed]

theorem Block.signed_unforgeable [DecidableEq A] [DecidableEq B] (timestamp : ℕ) (signer : A)
    (digest : B) (signature : Bytes) : (signed timestamp signer digest signature).Unforgeable := by
  intro a a' d d' sig h h'
  simp only [signed, decide_eq_true_eq] at h h'
  rw [h.2.1, h'.2.1]

def Evm.domainSeparator (evm : Evm A B) (name version : String) (this : A) : B :=
  evm.keccak256 (.encode [
    .bytes32 (evm.keccak256 (.text
      "EIP712Domain(string name,string version,uint256 chainId,address verifyingContract)")),
    .bytes32 (evm.keccak256 (.text name)), .bytes32 (evm.keccak256 (.text version)),
    .uint evm.chainid, .address this])

/-- OpenZeppelin's `_hashTypedDataV4` for a contract of this name, version and address. -/
def Evm.hashTypedDataV4 (evm : Evm A B) (name version : String) (this : A) (structHash : B) : B :=
  evm.keccak256 (.typedData (evm.domainSeparator name version this) structHash)

theorem Evm.hashTypedDataV4_injective {evm : Evm A B} (hk : Function.Injective evm.keccak256)
    {name version : String} {this : A} {h h' : B}
    (heq : evm.hashTypedDataV4 name version this h = evm.hashTypedDataV4 name version this h') :
    h = h' := by
  have := hk heq
  simpa using this

/-- Terms that stand for 32-byte words: numbers, and hashes named by what was hashed. -/
inductive Symbol where
  | nat (n : ℕ)
  | text (s : String)
  | pair (a b : Symbol)
deriving DecidableEq

namespace Symbol

instance : Zero Symbol := ⟨.nat 0⟩

def ofWord : Word ℕ Symbol → Symbol
  | .bytes32 b => .pair (.nat 0) b
  | .uint n => .pair (.nat 1) (.nat n)
  | .address a => .pair (.nat 2) (.nat a)
  | .text s => .pair (.nat 3) (.text s)

def ofList : List Symbol → Symbol
  | [] => .nat 0
  | s :: ss => .pair s (ofList ss)

/-- The hash that names its own preimage. -/
def keccak256 : Preimage ℕ Symbol → Symbol
  | .text s => .pair (.nat 0) (.text s)
  | .encode args => .pair (.nat 1) (ofList (args.map ofWord))
  | .encodePacked args => .pair (.nat 2) (ofList (args.map ofWord))
  | .encodeArray ids => .pair (.nat 3) (ofList ids)
  | .typedData d h => .pair (.nat 4) (.pair d h)

theorem ofWord_injective : Function.Injective ofWord := by
  intro w w' h
  cases w <;> cases w' <;> simp_all [ofWord]

theorem ofList_injective : Function.Injective ofList := by
  intro l
  induction l with
  | nil =>
    intro l' h
    cases l' with
    | nil => rfl
    | cons => simp [ofList] at h
  | cons s ss ih =>
    intro l' h
    cases l' with
    | nil => simp [ofList] at h
    | cons s' ss' =>
      simp only [ofList, Symbol.pair.injEq] at h
      rw [h.1, ih h.2]

/-- The symbolic hash never collides, so collision-freedom can be assumed. -/
theorem keccak256_injective : Function.Injective keccak256 := by
  have hargs : Function.Injective fun args : List (Word ℕ Symbol) => ofList (args.map ofWord) :=
    ofList_injective.comp (List.map_injective_iff.2 ofWord_injective)
  intro p p' h
  cases p <;> cases p' <;> simp only [keccak256, Symbol.pair.injEq, Symbol.nat.injEq] at h
  all_goals first
    | (obtain ⟨hn, -⟩ := h; omega)
    | skip
  · simpa using h
  · rw [hargs h.2]
  · rw [hargs h.2]
  · rw [ofList_injective h.2]
  · rw [h.2.1, h.2.2]

/-- No hash is the zero word. -/
theorem keccak256_ne_zero (p : Preimage ℕ Symbol) : keccak256 p ≠ 0 := by
  intro h
  have : keccak256 p = .nat 0 := h
  cases p <;> simp [keccak256] at this

/-- A chain with the symbolic hash. -/
def evm : Evm ℕ Symbol := ⟨keccak256, 1⟩

end Symbol

end Linvesther
