import Linvesther.Zkvm.TlsOrigin

/-! The wallet that a TLS session is bound to, as the guest and the collector verify it: the receipt names an
address, and the signature is checked under a key that is handed over beside it. -/

namespace Linvesther.TlsOrigin

open Transaction Commitments

namespace Tlsn

inductive SessionError where
  | hostnameMismatch (expected actual : String)
  | redactionHidesRequiredField (category : String)
  | walletBindingInvalid
  | rawNotBoundToInput
deriving DecidableEq

def verifySessionShape (receipt : TlsSessionReceipt) (expectedHostname : String) : Except SessionError Unit := do
  revertIf (receipt.serverName ≠ expectedHostname) (.hostnameMismatch expectedHostname receipt.serverName)
  REQUIRED_DISCLOSED_CATEGORIES.forM fun category =>
    revertIf (category ∉ receipt.disclosedFields) (.redactionHidesRequiredField category)

variable {VerifyingKey Signature : Type} (crypto : Performance.Crypto VerifyingKey Signature)

def verifyWalletBinding (receipt : TlsSessionReceipt) (verifyingKeySec1 : Bytes) : Except SessionError Unit :=
  match crypto.fromSec1Bytes verifyingKeySec1 with
  | none => .error .walletBindingInvalid
  | some verifyingKey =>
    match crypto.fromSlice receipt.walletBindingSignature with
    | none => .error .walletBindingInvalid
    | some signature =>
      revertIf (crypto.verify verifyingKey (receipt.bindingDigest crypto).1 signature = false)
        .walletBindingInvalid

def verifyRawBoundToInput (receipt : TlsSessionReceipt) (actualInputBytes : Bytes) : Except SessionError Unit :=
  revertIf (crypto.sha256 actualInputBytes ≠ receipt.responseBodyHash) .rawNotBoundToInput

end Tlsn

section Checks

variable {VerifyingKey Signature : Type} {crypto : Performance.Crypto VerifyingKey Signature}
  {receipt : TlsSessionReceipt} {verifyingKeySec1 : Bytes}

theorem forM_revertIf_ok {A E : Type} {p : A → Prop} [DecidablePred p] {e : A → E} (xs : List A) :
    (xs.forM fun x => revertIf (p x) (e x) : Except E Unit) = .ok () ↔ ∀ x ∈ xs, ¬ p x := by
  induction xs with
  | nil => exact ⟨fun _ x hx => (by cases hx), fun _ => rfl⟩
  | cons x xs ih =>
    have hcons : ((x :: xs).forM fun x => revertIf (p x) (e x) : Except E Unit) =
        (revertIf (p x) (e x) >>= fun _ => xs.forM fun x => revertIf (p x) (e x)) := rfl
    rw [hcons, bind_ok, List.forall_mem_cons, ← ih]
    constructor
    · rintro ⟨u, hx, hrest⟩
      exact ⟨(revertIf_ok _ _ u).1 hx, hrest⟩
    · rintro ⟨hx, hrest⟩
      exact ⟨(), (revertIf_ok _ _ ()).2 hx, hrest⟩

/-- The receipt's signature is one of its digest under the key. -/
def SignatureVerifies (crypto : Performance.Crypto VerifyingKey Signature) (receipt : TlsSessionReceipt)
    (verifyingKeySec1 : Bytes) : Prop :=
  ∃ verifyingKey signature, crypto.fromSec1Bytes verifyingKeySec1 = some verifyingKey ∧
    crypto.fromSlice receipt.walletBindingSignature = some signature ∧
    crypto.verify verifyingKey (receipt.bindingDigest crypto).1 signature = true

theorem verifyWalletBinding_ok :
    verifyWalletBinding crypto receipt verifyingKeySec1 = .ok () ↔
      SignatureVerifies crypto receipt verifyingKeySec1 := by
  unfold verifyWalletBinding SignatureVerifies
  cases crypto.fromSec1Bytes verifyingKeySec1 with
  | none => exact ⟨nofun, nofun⟩
  | some verifyingKey =>
    cases crypto.fromSlice receipt.walletBindingSignature with
    | none => exact ⟨nofun, nofun⟩
    | some signature =>
      rw [revertIf_ok, Bool.not_eq_false]
      constructor
      · exact fun h => ⟨verifyingKey, signature, rfl, rfl, h⟩
      · rintro ⟨_, _, ⟨⟩, ⟨⟩, h⟩
        exact h

/-- Both implementations accept the same bindings. -/
theorem tlsn_verifyWalletBinding_ok :
    Tlsn.verifyWalletBinding crypto receipt verifyingKeySec1 = .ok () ↔
      SignatureVerifies crypto receipt verifyingKeySec1 := by
  rw [← verifyWalletBinding_ok]
  unfold Tlsn.verifyWalletBinding verifyWalletBinding
  cases crypto.fromSec1Bytes verifyingKeySec1 with
  | none => exact ⟨nofun, nofun⟩
  | some verifyingKey =>
    cases crypto.fromSlice receipt.walletBindingSignature with
    | none => exact ⟨nofun, nofun⟩
    | some signature => rw [revertIf_ok, revertIf_ok]

theorem verifySessionShape_ok {expectedHostname : String} :
    verifySessionShape receipt expectedHostname = .ok () ↔
      receipt.serverName = expectedHostname ∧
        ∀ category ∈ REQUIRED_DISCLOSED_CATEGORIES, category ∈ receipt.disclosedFields := by
  have hcategories := forM_revertIf_ok (p := fun category => category ∉ receipt.disclosedFields)
    (e := fun _ => SessionError.redactionHidesRequiredField) REQUIRED_DISCLOSED_CATEGORIES
  simp only [not_not] at hcategories
  rw [← hcategories, verifySessionShape, bind_ok]
  constructor
  · rintro ⟨u, hserver, hrest⟩
    exact ⟨not_not.1 ((revertIf_ok _ _ u).1 hserver), hrest⟩
  · rintro ⟨hserver, hrest⟩
    exact ⟨(), (revertIf_ok _ _ ()).2 (not_not.2 hserver), hrest⟩

/-- What an input passes on the way to `A1`. -/
structure Checked (crypto : Performance.Crypto VerifyingKey Signature) (input : GuestInput) : Prop where
  inGuest : input.originVerifiedInGuest = true
  hostname : input.receipt.serverName = input.expectedHostname
  categories : ∀ category ∈ REQUIRED_DISCLOSED_CATEGORIES, category ∈ input.receipt.disclosedFields
  signature : SignatureVerifies crypto input.receipt input.verifyingKeySec1
  body : crypto.sha256 input.normalizedInputBytes = input.receipt.responseBodyHash

theorem run_a1_iff {input : GuestInput} {output : GuestOutput} :
    run crypto input = .ok output ∧ output.badge = .a1 ↔
      Checked crypto input ∧ output = ⟨.a1, crypto.sha256 input.normalizedInputBytes⟩ := by
  unfold run
  by_cases hguest : input.originVerifiedInGuest = true
  · rw [hguest, Bool.not_true, if_neg Bool.false_ne_true]
    constructor
    · rintro ⟨hrun, -⟩
      simp only [bind_ok, pure_ok] at hrun
      obtain ⟨_, hshape, _, hbinding, _, hraw, rfl⟩ := hrun
      obtain ⟨hhostname, hcategories⟩ := verifySessionShape_ok.1 hshape
      exact ⟨⟨hguest, hhostname, hcategories, verifyWalletBinding_ok.1 hbinding,
        not_not.1 ((revertIf_ok _ _ _).1 hraw)⟩, rfl⟩
    · rintro ⟨h, rfl⟩
      have hraw : verifyRawBoundToInput crypto input.receipt input.normalizedInputBytes = .ok () :=
        (revertIf_ok _ _ ()).2 (not_not.2 h.body)
      rw [verifySessionShape_ok.2 ⟨h.hostname, h.categories⟩, verifyWalletBinding_ok.2 h.signature, hraw]
      exact ⟨rfl, rfl⟩
  · rw [Bool.not_eq_true] at hguest
    rw [hguest, Bool.not_false, if_pos rfl]
    constructor
    · rintro ⟨hrun, hbadge⟩
      cases hrun
      cases hbadge
    · rintro ⟨h, -⟩
      exact absurd h.inGuest (by rw [hguest]; exact Bool.false_ne_true)

end Checks

section Binding

variable {VerifyingKey Signature : Type}

/-- The wallet address is that of the key that the receipt's signature verifies under. -/
def BoundToSigner (crypto : Performance.Crypto VerifyingKey Signature) (ethereumAddress : VerifyingKey → Address)
    (receipt : TlsSessionReceipt) (verifyingKeySec1 : Bytes) : Prop :=
  ∃ verifyingKey signature, crypto.fromSec1Bytes verifyingKeySec1 = some verifyingKey ∧
    crypto.fromSlice receipt.walletBindingSignature = some signature ∧
    crypto.verify verifyingKey (receipt.bindingDigest crypto).1 signature = true ∧
    ethereumAddress verifyingKey = receipt.walletAddress

/-- The key that is handed over beside the receipt is the wallet's. -/
def HandsWalletKey (crypto : Performance.Crypto VerifyingKey Signature) (ethereumAddress : VerifyingKey → Address)
    (receipt : TlsSessionReceipt) (verifyingKeySec1 : Bytes) : Prop :=
  ∀ verifyingKey ∈ crypto.fromSec1Bytes verifyingKeySec1, ethereumAddress verifyingKey = receipt.walletAddress

variable {crypto : Performance.Crypto VerifyingKey Signature} {ethereumAddress : VerifyingKey → Address}
  {receipt : TlsSessionReceipt} {verifyingKeySec1 : Bytes}

theorem boundToSigner_iff (h : SignatureVerifies crypto receipt verifyingKeySec1) :
    BoundToSigner crypto ethereumAddress receipt verifyingKeySec1 ↔
      HandsWalletKey crypto ethereumAddress receipt verifyingKeySec1 := by
  obtain ⟨verifyingKey, signature, hkey, hsignature, hverify⟩ := h
  constructor
  · rintro ⟨other, _, hother, -, -, haddress⟩ key hhanded
    rw [hother] at hhanded
    rw [← Option.some.inj hhanded]
    exact haddress
  · exact fun hhanded => ⟨verifyingKey, signature, hkey, hsignature, hverify, hhanded verifyingKey hkey⟩

/-- What `A1` says of the wallet, and what the collector's check says of it, is true exactly of the inputs that a
check refuses and of those whose caller hands over the key of the wallet. -/
theorem wallet_bound_iff (crypto : Performance.Crypto VerifyingKey Signature)
    (ethereumAddress : VerifyingKey → Address) :
    (∀ input : GuestInput,
      (∀ output, run crypto input = .ok output → output.badge = .a1 →
        BoundToSigner crypto ethereumAddress input.receipt input.verifyingKeySec1) ↔
      ¬ Checked crypto input ∨ HandsWalletKey crypto ethereumAddress input.receipt input.verifyingKeySec1) ∧
    ∀ receipt verifyingKeySec1,
      (Tlsn.verifyWalletBinding crypto receipt verifyingKeySec1 = .ok () →
        BoundToSigner crypto ethereumAddress receipt verifyingKeySec1) ↔
      ¬ SignatureVerifies crypto receipt verifyingKeySec1 ∨
        HandsWalletKey crypto ethereumAddress receipt verifyingKeySec1 := by
  constructor
  · intro input
    by_cases hchecked : Checked crypto input
    · rw [← boundToSigner_iff hchecked.signature, or_iff_right (not_not.2 hchecked)]
      constructor
      · intro h
        obtain ⟨hrun, hbadge⟩ := run_a1_iff.2 ⟨hchecked, rfl⟩
        exact h _ hrun hbadge
      · exact fun h _ _ _ => h
    · refine iff_of_true (fun output hrun hbadge => ?_) (.inl hchecked)
      exact absurd (run_a1_iff.1 ⟨hrun, hbadge⟩).1 hchecked
  · intro receipt verifyingKeySec1
    rw [tlsn_verifyWalletBinding_ok]
    by_cases hverifies : SignatureVerifies crypto receipt verifyingKeySec1
    · rw [← boundToSigner_iff hverifies, or_iff_right (not_not.2 hverifies)]
      exact ⟨fun h => h hverifies, fun h _ => h⟩
    · exact iff_of_true (fun h => absurd h hverifies) (.inl hverifies)

/-- Whoever can sign under a key, whichever it is, has `A1` for any wallet address. -/
theorem a1_of_any_address {verifyingKey : VerifyingKey} (hkey : crypto.fromSec1Bytes verifyingKeySec1 = some verifyingKey)
    (sign : Bytes → Bytes) (hsign : ∀ message, ∃ signature, crypto.fromSlice (sign message) = some signature ∧
      crypto.verify verifyingKey message signature = true)
    (hcategories : ∀ category ∈ REQUIRED_DISCLOSED_CATEGORIES, category ∈ receipt.disclosedFields)
    (body : Bytes) (hbody : crypto.sha256 body = receipt.responseBodyHash) (wallet : Address) :
    ∃ signature output, run crypto ⟨{ receipt with walletAddress := wallet, walletBindingSignature := signature },
      verifyingKeySec1, body, receipt.serverName, true⟩ = .ok output ∧ output.badge = .a1 := by
  refine ⟨sign ({ receipt with walletAddress := wallet }.bindingDigest crypto).1,
    ⟨.a1, crypto.sha256 body⟩, run_a1_iff.2 ⟨⟨rfl, rfl, hcategories, ?_, hbody⟩, rfl⟩⟩
  obtain ⟨signature, hslice, hverify⟩ := hsign ({ receipt with walletAddress := wallet }.bindingDigest crypto).1
  exact ⟨verifyingKey, signature, hkey, hslice, hverify⟩

/-- The receipt of the guest's own tests, whose wallet address is made up. -/
def ownReceipt : TlsSessionReceipt where
  serverName := "api.binance.com"
  requestMethod := "GET"
  requestPath := "/api/v3/myTrades"
  requestQuery := "symbol=BTCUSDT"
  responseStatus := 200
  responseBodyHash := .ofNat 0x41d24adbe212d610120077b07a9490991116d1bea3caba127e3f6193c71adf28
  disclosedFields := REQUIRED_DISCLOSED_CATEGORIES
  walletBindingSignature :=
    toBeBytes 32 0x7adf27ba846c52d03b73199dc0f9fed43e12ea15087cb8a609039ee37dbf8f6a ++
    toBeBytes 32 0x449ccf7024e318ec8862c34d12f6b5a72a483f8cd1ff2f921f70eeaab96942df
  walletAddress := ⟨List.replicate 20 1, List.length_replicate⟩

def ownDigest : Digest := .ofNat 0x112894758ab0efd9cc5bafe9d22ab0929f9c7c8c32cca90a03b31747af0f0b77

/-- The key of those tests, its signature of the receipt, and SHA-256 where the guest uses it. -/
def ownCrypto : Performance.Crypto Bytes Bytes where
  fromSec1Bytes key := if key = Performance.exampleKey then some key else none
  toEncodedPoint key := key
  fromSlice signature := if signature.length = 64 then some signature else none
  verify key message signature :=
    key = Performance.exampleKey ∧ message = ownDigest.1 ∧ signature = ownReceipt.walletBindingSignature
  sha256 bytes :=
    if bytes = ownReceipt.bindingPreimage then ownDigest
    else if bytes = asBytes "trade-data" then ownReceipt.responseBodyHash
    else .ofNat 0

/-- The Ethereum address of that key. -/
def ownAddress (_ : Bytes) : Address :=
  ⟨toBeBytes 20 0x4a62316623ad457f02cdc5d997ded67a383ec569, length_toBeBytes 20 _⟩

/-- The guest gives the receipt `A1`, and the collector accepts it; the wallet is not the signer's. -/
theorem foreign_wallet_bound :
    run ownCrypto ⟨ownReceipt, Performance.exampleKey, asBytes "trade-data", "api.binance.com", true⟩ =
        .ok ⟨.a1, ownReceipt.responseBodyHash⟩ ∧
      Tlsn.verifyWalletBinding ownCrypto ownReceipt Performance.exampleKey = .ok () ∧
      ¬ BoundToSigner ownCrypto ownAddress ownReceipt Performance.exampleKey := by
  refine ⟨by decide +kernel, by decide +kernel, fun ⟨_, _, _, _, _, haddress⟩ => ?_⟩
  have hbytes : toBeBytes 20 0x4a62316623ad457f02cdc5d997ded67a383ec569 = List.replicate 20 1 :=
    congrArg Subtype.val haddress
  exact absurd hbytes (by decide +kernel)

end Binding

end Linvesther.TlsOrigin
