import Linvesther.Collector.Vault

/-! `crypto.rs` of the worker: a secret is sealed under the current master key, for the account and the field
it belongs to; what was written before under a previous key, or for no account, is still read. -/

namespace Linvesther.Worker

open Collector (Key Nonce)

section Text

def asBytes (text : String) : Collector.Bytes := text.toUTF8.data.toList

/-- `String::from_utf8`. -/
def fromUtf8 (bytes : Collector.Bytes) : Option String := String.fromUTF8? ⟨bytes.toArray⟩

theorem fromUtf8_asBytes (text : String) : fromUtf8 (asBytes text) = some text := by
  have hbytes : (⟨text.toUTF8.data.toList.toArray⟩ : ByteArray) = text.toByteArray := by
    rw [Array.toArray_toList]
    rfl
  unfold fromUtf8 asBytes String.fromUTF8?
  rw [hbytes, dif_pos text.isValidUTF8]
  rfl

end Text

section Keys

def FORMAT_V2 : UInt8 := 2

/-- What is used of `aes_gcm`, encryption under a key and a nonce for a context, and of `sha2`: the first byte
of a key's digest. -/
structure Aead where
  sealed : Key → Nonce → Collector.Bytes → Collector.Bytes → Option Collector.Bytes
  opened : Key → Nonce → Collector.Bytes → Collector.Bytes → Option Collector.Bytes
  keyId : Key → UInt8

/-- What is sealed, under any key, opens under that key for the same context. -/
def Aead.Ideal (aead : Aead) : Prop :=
  ∀ key nonce msg aad, ∃ ciphertext, aead.sealed key nonce msg aad = some ciphertext ∧ ciphertext ≠ [] ∧
    aead.opened key nonce ciphertext aad = some msg

structure MasterKey where
  current : Key
  previous : List Key

def MasterKey.all (key : MasterKey) : List Key := key.current :: key.previous

/-- The two columns of a field. A nonce column may be of any length. -/
structure EncryptedField where
  ciphertext : Collector.Bytes
  nonce : Collector.Bytes
deriving DecidableEq

def credentialContext (broker accountId field : String) : String :=
  "lzk-credential/v2|" ++ broker ++ "|" ++ accountId ++ "|" ++ field

/-- The key's label and what follows it, in a ciphertext that has the marker of the current format. -/
def marked : Collector.Bytes → Option (UInt8 × Collector.Bytes)
  | marker :: label :: byte :: rest => if marker = FORMAT_V2 then some (label, byte :: rest) else none
  | _ => none

variable (aead : Aead)

def encrypt (key : MasterKey) (nonce : Nonce) (plaintext context : String) : Option EncryptedField :=
  (aead.sealed key.current nonce (asBytes plaintext) (asBytes context)).map fun ciphertext =>
    ⟨FORMAT_V2 :: aead.keyId key.current :: ciphertext, nonce.val⟩

/-- The first key that opens decides. -/
def openWith (keys : List Key) (nonce : Nonce) (msg aad : Collector.Bytes) : Option Collector.Bytes :=
  keys.findSome? fun key => aead.opened key nonce msg aad

def labelledFirst (key : MasterKey) (label : UInt8) : List Key :=
  key.all.filter (aead.keyId · = label) ++ key.all.filter (aead.keyId · ≠ label)

def decrypt (key : MasterKey) (ciphertext : Collector.Bytes) (nonce : Nonce) (context : String) : Option String :=
  let current := (marked ciphertext).bind fun (label, msg) =>
    openWith aead (labelledFirst aead key label) nonce msg (asBytes context)
  match current with
  | some plain => fromUtf8 plain
  | none => (openWith aead key.all nonce ciphertext []).bind fromUtf8

def isCurrent (key : MasterKey) (ciphertext : Collector.Bytes) (nonce : Nonce) (context : String) : Bool :=
  match marked ciphertext with
  | some (_, msg) => (aead.opened key.current nonce msg (asBytes context)).isSome
  | none => false

/-- `nonce_of`, and the field under it. -/
def nonceOf (bytes : Collector.Bytes) : Option Nonce := if h : bytes.length = 12 then some ⟨bytes, h⟩ else none

theorem nonceOf_val (nonce : Nonce) : nonceOf nonce.val = some nonce := dif_pos nonce.property

variable {aead} {key : MasterKey} {nonce : Nonce} {plaintext context : String} {e : EncryptedField}

theorem labelledFirst_current (aead : Aead) (key : MasterKey) :
    ∃ rest, labelledFirst aead key (aead.keyId key.current) = key.current :: rest := by
  unfold labelledFirst MasterKey.all
  rw [List.filter_cons_of_pos (by simp), List.cons_append]
  exact ⟨_, rfl⟩

/-- What is encrypted is current, and decrypts to what it was, whatever else the label stands for. -/
theorem decrypt_encrypt (haead : aead.Ideal) (h : encrypt aead key nonce plaintext context = some e) :
    e.nonce = nonce.val ∧ decrypt aead key e.ciphertext nonce context = some plaintext ∧
      isCurrent aead key e.ciphertext nonce context = true := by
  obtain ⟨ciphertext, hsealed, hnonempty, hopened⟩ :=
    haead key.current nonce (asBytes plaintext) (asBytes context)
  unfold encrypt at h
  rw [hsealed] at h
  cases h
  obtain ⟨byte, rest, rfl⟩ := List.exists_cons_of_ne_nil hnonempty
  have hmarked : marked (FORMAT_V2 :: aead.keyId key.current :: byte :: rest) =
      some (aead.keyId key.current, byte :: rest) := by
    unfold marked
    exact if_pos rfl
  obtain ⟨others, hfirst⟩ := labelledFirst_current aead key
  refine ⟨rfl, ?_, ?_⟩
  · unfold decrypt
    rw [hmarked]
    dsimp only [Option.bind]
    rw [hfirst, openWith, List.findSome?_cons, hopened]
    exact fromUtf8_asBytes plaintext
  · unfold isCurrent
    rw [hmarked]
    dsimp only
    rw [hopened]
    rfl

theorem encrypt_isSome (haead : aead.Ideal) (nonce : Nonce) (plaintext context : String) :
    (encrypt aead key nonce plaintext context).isSome = true := by
  obtain ⟨ciphertext, hsealed, -, -⟩ := haead key.current nonce (asBytes plaintext) (asBytes context)
  rw [encrypt, hsealed]
  rfl

end Keys

end Linvesther.Worker
