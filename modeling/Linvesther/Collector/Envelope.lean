import Linvesther.Commitments.Merkle
import Linvesther.Zkvm.Performance

/-! The collector signs a source envelope and the performance guest checks the signature. Each side
encodes the envelope for itself. -/

namespace Linvesther.Attestation

open Transaction Commitments

abbrev Bytes := Commitments.Bytes

section Envelope

/-- A `String`: its length is a `usize`. -/
abbrev Text := {s : String // (asBytes s).length < 2 ^ 64}

structure SourceEnvelope where
  mechanism : Text
  issuerKeyId : Text
  trustManifestHash : Digest
  accountBindingCommitment : Digest
  batchCommitment : Digest
  rawEvidenceRoot : Digest
  normalizedRoot : Digest
  coverageManifestHash : Digest
  periodStartMs : Signed 64
  periodEndMs : Signed 64
  observedAtMs : Signed 64
  expiresAtMs : Signed 64
  policyHash : Digest
  environment : Text
  sourceSessionBinding : Digest
deriving DecidableEq

def writeField (buf : Bytes) (domain : String) (bytes : Bytes) : Bytes :=
  buf ++ asBytes domain ++ toBeBytes 8 bytes.length ++ bytes

/-- `to_be_bytes` of an `i64`. -/
def beBytes (x : Signed 64) : Bytes := toBeBytes 8 x.toNat

def SourceEnvelope.canonicalBytes (e : SourceEnvelope) : Bytes :=
  let buf := []
  let buf := writeField buf "mechanism" (asBytes e.mechanism.1)
  let buf := writeField buf "issuerKeyId" (asBytes e.issuerKeyId.1)
  let buf := writeField buf "trustManifestHash" e.trustManifestHash.1
  let buf := writeField buf "accountBindingCommitment" e.accountBindingCommitment.1
  let buf := writeField buf "batchCommitment" e.batchCommitment.1
  let buf := writeField buf "rawEvidenceRoot" e.rawEvidenceRoot.1
  let buf := writeField buf "normalizedRoot" e.normalizedRoot.1
  let buf := writeField buf "coverageManifestHash" e.coverageManifestHash.1
  let buf := writeField buf "periodStart" (beBytes e.periodStartMs)
  let buf := writeField buf "periodEnd" (beBytes e.periodEndMs)
  let buf := writeField buf "observedAt" (beBytes e.observedAtMs)
  let buf := writeField buf "expiresAt" (beBytes e.expiresAtMs)
  let buf := writeField buf "policyHash" e.policyHash.1
  let buf := writeField buf "environment" (asBytes e.environment.1)
  writeField buf "sourceSessionBinding" e.sourceSessionBinding.1

/-- The envelope as the guest reads it: the same fields in its own type. -/
def SourceEnvelope.witnessed (e : SourceEnvelope) : Performance.SourceEnvelope where
  mechanism := e.mechanism.1
  issuerKeyId := e.issuerKeyId.1
  trustManifestHash := e.trustManifestHash
  accountBindingCommitment := e.accountBindingCommitment
  batchCommitment := e.batchCommitment
  rawEvidenceRoot := e.rawEvidenceRoot
  normalizedRoot := e.normalizedRoot
  coverageManifestHash := e.coverageManifestHash
  periodStartMs := e.periodStartMs
  periodEndMs := e.periodEndMs
  observedAtMs := e.observedAtMs
  expiresAtMs := e.expiresAtMs
  policyHash := e.policyHash
  environment := e.environment.1
  sourceSessionBinding := e.sourceSessionBinding

end Envelope

section Encoding

/-- Named fields one after the other. -/
def encodeAll (fields : List (String × Bytes)) : Bytes :=
  fields.foldl (fun buf f => writeField buf f.1 f.2) []

theorem foldl_writeField (fields : List (String × Bytes)) (buf : Bytes) :
    fields.foldl (fun buf f => writeField buf f.1 f.2) buf = buf ++ encodeAll fields := by
  unfold encodeAll
  induction fields generalizing buf with
  | nil => simp
  | cons f fields ih =>
    rw [List.foldl_cons, List.foldl_cons, ih, ih (writeField [] f.1 f.2)]
    simp [writeField]

theorem encodeAll_cons (f : String × Bytes) (fields : List (String × Bytes)) :
    encodeAll (f :: fields) = asBytes f.1 ++ (toBeBytes 8 f.2.length ++ (f.2 ++ encodeAll fields)) := by
  unfold encodeAll
  rw [List.foldl_cons, foldl_writeField]
  simp [writeField, encodeAll]

/-- Under the same names no two lists of fields are written as the same bytes. -/
theorem encodeAll_injective {fields fields' : List (String × Bytes)}
    (hnames : fields.map Prod.fst = fields'.map Prod.fst)
    (hlen : ∀ f ∈ fields, f.2.length < 256 ^ 8) (hlen' : ∀ f ∈ fields', f.2.length < 256 ^ 8)
    (h : encodeAll fields = encodeAll fields') : fields = fields' := by
  induction fields generalizing fields' with
  | nil => exact (List.map_eq_nil_iff.1 hnames.symm).symm
  | cons f fields ih =>
    obtain ⟨name, bytes⟩ := f
    rcases fields' with _ | ⟨⟨name', bytes'⟩, fields'⟩
    · simp at hnames
    · simp only [List.map_cons, List.cons.injEq] at hnames
      obtain ⟨rfl, hnames⟩ := hnames
      rw [encodeAll_cons, encodeAll_cons] at h
      have hafter := List.append_cancel_left h
      -- the length comes first, and so the fields end at the same place
      obtain ⟨hpre, hbody⟩ := List.append_inj hafter (by simp)
      have hlength : bytes.length = bytes'.length :=
        toBeBytes_injective (hlen _ List.mem_cons_self) (hlen' _ List.mem_cons_self) hpre
      obtain ⟨hbytes, hrest⟩ := List.append_inj hbody hlength
      have hfields : fields = fields' := ih hnames
        (fun f hf => hlen f (List.mem_cons_of_mem _ hf))
        (fun f hf => hlen' f (List.mem_cons_of_mem _ hf)) hrest
      rw [show bytes = bytes' from hbytes, hfields]

def SourceEnvelope.fields (e : SourceEnvelope) : List (String × Bytes) :=
  [("mechanism", asBytes e.mechanism.1), ("issuerKeyId", asBytes e.issuerKeyId.1),
    ("trustManifestHash", e.trustManifestHash.1),
    ("accountBindingCommitment", e.accountBindingCommitment.1),
    ("batchCommitment", e.batchCommitment.1), ("rawEvidenceRoot", e.rawEvidenceRoot.1),
    ("normalizedRoot", e.normalizedRoot.1), ("coverageManifestHash", e.coverageManifestHash.1),
    ("periodStart", beBytes e.periodStartMs), ("periodEnd", beBytes e.periodEndMs),
    ("observedAt", beBytes e.observedAtMs), ("expiresAt", beBytes e.expiresAtMs),
    ("policyHash", e.policyHash.1), ("environment", asBytes e.environment.1),
    ("sourceSessionBinding", e.sourceSessionBinding.1)]

theorem SourceEnvelope.canonicalBytes_eq (e : SourceEnvelope) :
    e.canonicalBytes = encodeAll e.fields := rfl

theorem beBytes_injective : Function.Injective beBytes := by
  intro x y h
  unfold beBytes at h
  obtain ⟨hx, hx'⟩ := x.fits
  obtain ⟨hy, hy'⟩ := y.fits
  have hbound (z : Signed 64) : z.toNat < 256 ^ 8 := by
    unfold Signed.toNat
    omega
  have hnat := toBeBytes_injective (hbound x) (hbound y) h
  unfold Signed.toNat at hnat
  have hval : x.val = y.val := by omega
  exact Signed.ext hval

/-- Every field fits its length prefix. -/
theorem SourceEnvelope.fields_length (e : SourceEnvelope) : ∀ f ∈ e.fields, f.2.length < 256 ^ 8 := by
  have htext (s : Text) : (asBytes s.1).length < 256 ^ 8 := s.2
  have hdigest (d : Digest) : d.1.length < 256 ^ 8 := by rw [d.2]; norm_num
  have hnumber (x : Signed 64) : (beBytes x).length < 256 ^ 8 := by
    rw [beBytes, length_toBeBytes]; norm_num
  simp only [fields, List.forall_mem_cons, htext, hdigest, hnumber, List.not_mem_nil,
    false_imp_iff, implies_true, and_self]

theorem SourceEnvelope.fields_injective : Function.Injective SourceEnvelope.fields := by
  intro e e' h
  have htext {s t : Text} (h : asBytes s.1 = asBytes t.1) : s = t :=
    Subtype.ext (asBytes_injective h)
  cases e
  cases e'
  simp only [fields, List.cons.injEq, Prod.mk.injEq, true_and, and_true] at h
  obtain ⟨h₁, h₂, h₃, h₄, h₅, h₆, h₇, h₈, h₉, h₁₀, h₁₁, h₁₂, h₁₃, h₁₄, h₁₅⟩ := h
  rw [htext h₁, htext h₂, Subtype.ext h₃, Subtype.ext h₄, Subtype.ext h₅, Subtype.ext h₆,
    Subtype.ext h₇, Subtype.ext h₈, beBytes_injective h₉, beBytes_injective h₁₀,
    beBytes_injective h₁₁, beBytes_injective h₁₂, Subtype.ext h₁₃, htext h₁₄, Subtype.ext h₁₅]

theorem SourceEnvelope.canonicalBytes_injective : Function.Injective canonicalBytes := by
  intro e e' h
  rw [canonicalBytes_eq, canonicalBytes_eq] at h
  exact fields_injective (encodeAll_injective rfl e.fields_length e'.fields_length h)

/-- The guest encodes an envelope as the collector does. -/
theorem SourceEnvelope.witnessed_canonicalBytes (e : SourceEnvelope) :
    e.witnessed.canonicalBytes = e.canonicalBytes := by
  simp only [Performance.SourceEnvelope.canonicalBytes, Performance.writeField, canonicalBytes,
    writeField, witnessed, List.append_assoc, List.nil_append]
  rfl

end Encoding

section Signer

/-- What the collector and the guest use of their packages. -/
structure Scheme (SigningKey VerifyingKey Signature : Type) extends
    Performance.Crypto VerifyingKey Signature where
  fromBytes : Digest → Option SigningKey
  verifyingKey : SigningKey → VerifyingKey
  sign : SigningKey → Bytes → Signature
  toSec1Bytes : VerifyingKey → Bytes
  toBytes : Signature → Bytes

variable {SigningKey VerifyingKey Signature : Type}
  (scheme : Scheme SigningKey VerifyingKey Signature)

def SourceEnvelope.digest (e : SourceEnvelope) : Digest := scheme.sha256 e.canonicalBytes

def FINGERPRINT_DOMAIN : String := "LZK/collector-key/v1"

def collectorFingerprint (verifyingKey : VerifyingKey) : Digest :=
  scheme.sha256 (asBytes FINGERPRINT_DOMAIN ++ scheme.toEncodedPoint verifyingKey)

inductive SignerError where
  | invalidKey
deriving DecidableEq

structure A0Signer (SigningKey : Type) where
  key : SigningKey

def A0Signer.fromBytes (bytes : Digest) : Except SignerError (A0Signer SigningKey) :=
  match scheme.fromBytes bytes with
  | some key => .ok ⟨key⟩
  | none => .error .invalidKey

def A0Signer.verifyingKey (signer : A0Signer SigningKey) : VerifyingKey :=
  scheme.verifyingKey signer.key

def A0Signer.fingerprint (signer : A0Signer SigningKey) : Digest :=
  collectorFingerprint scheme (signer.verifyingKey scheme)

def A0Signer.sign (signer : A0Signer SigningKey) (envelope : SourceEnvelope) : Signature :=
  scheme.sign signer.key (envelope.digest scheme).1

def verify (verifyingKey : VerifyingKey) (envelope : SourceEnvelope) (signature : Signature) : Bool :=
  scheme.verify verifyingKey (envelope.digest scheme).1 signature

/-- Keys and signatures are read back from their encodings, and a signature is one of the message that
was signed and of no other. -/
structure Scheme.Lawful : Prop where
  fromSec1Bytes_toSec1Bytes : ∀ k, scheme.fromSec1Bytes (scheme.toSec1Bytes k) = some k
  fromSlice_toBytes : ∀ s, scheme.fromSlice (scheme.toBytes s) = some s
  verify_sign : ∀ key m, scheme.verify (scheme.verifyingKey key) m (scheme.sign key m) = true
  verify_only : ∀ key m m',
    scheme.verify (scheme.verifyingKey key) m' (scheme.sign key m) = true → m' = m

variable {scheme}

theorem witnessed_digest (e : SourceEnvelope) :
    e.witnessed.digest scheme.toCrypto = e.digest scheme := by
  unfold Performance.SourceEnvelope.digest SourceEnvelope.digest
  rw [e.witnessed_canonicalBytes]

/-- What the collector signed is what its own check accepts, and nothing else. -/
theorem verify_sign_iff (hlaws : scheme.Lawful) (signer : A0Signer SigningKey)
    {e e' : SourceEnvelope}
    (hfree : CollisionFree scheme.sha256 [e.canonicalBytes, e'.canonicalBytes]) :
    verify scheme (signer.verifyingKey scheme) e' (signer.sign scheme e) = true ↔ e' = e := by
  constructor
  · intro h
    have hdigest : e'.digest scheme = e.digest scheme :=
      Subtype.ext (hlaws.verify_only _ _ _ h)
    exact SourceEnvelope.canonicalBytes_injective (hfree _ (by simp) _ (by simp) hdigest)
  · rintro rfl
    exact hlaws.verify_sign _ _

/-- The guest's check is the collector's check. -/
theorem verifyOrigin_eq (hlaws : scheme.Lawful) (verifyingKey : VerifyingKey)
    (signature : Signature) (e : SourceEnvelope) :
    Performance.verifyOrigin scheme.toCrypto e.witnessed (scheme.toSec1Bytes verifyingKey)
        (scheme.toBytes signature) =
      if verify scheme verifyingKey e signature then
        .ok ⟨e.digest scheme, collectorFingerprint scheme verifyingKey⟩
      else .error .signatureDoesNotVerify := by
  unfold Performance.verifyOrigin verify
  rw [hlaws.fromSec1Bytes_toSec1Bytes, hlaws.fromSlice_toBytes]
  simp only [witnessed_digest]
  rfl

/-- No two envelopes have the same bytes, on either side of the signature; so the guest accepts the
signature of an envelope with that envelope only. -/
theorem source_envelope_binding (hlaws : scheme.Lawful) :
    Function.Injective SourceEnvelope.canonicalBytes ∧
    (∀ e : SourceEnvelope, e.witnessed.canonicalBytes = e.canonicalBytes) ∧
    ∀ (signer : A0Signer SigningKey) (e e' : SourceEnvelope),
      CollisionFree scheme.sha256 [e.canonicalBytes, e'.canonicalBytes] →
      Performance.verifyOrigin scheme.toCrypto e'.witnessed
          (scheme.toSec1Bytes (signer.verifyingKey scheme))
          (scheme.toBytes (signer.sign scheme e)) =
        if e' = e then .ok ⟨e.digest scheme, signer.fingerprint scheme⟩
        else .error .signatureDoesNotVerify := by
  refine ⟨SourceEnvelope.canonicalBytes_injective, SourceEnvelope.witnessed_canonicalBytes,
    fun signer e e' hfree => ?_⟩
  rw [verifyOrigin_eq hlaws]
  have hiff := verify_sign_iff hlaws signer hfree
  by_cases h : e' = e
  · rw [if_pos (hiff.2 h), if_pos h, h]
    rfl
  · rw [if_neg fun hv => h (hiff.1 hv), if_neg h]

end Signer

section Example

/-- The same key and signature as in the guest's example, and the digests of two envelopes. -/
def exampleEnvelope (environment : Text) : SourceEnvelope where
  mechanism := ⟨"A0", by decide⟩
  issuerKeyId := ⟨"collector-1", by decide⟩
  trustManifestHash := .ofNat (0x01 * (256 ^ 32 / 255))
  accountBindingCommitment := .ofNat (0x02 * (256 ^ 32 / 255))
  batchCommitment := .ofNat (0x03 * (256 ^ 32 / 255))
  rawEvidenceRoot := .ofNat (0x04 * (256 ^ 32 / 255))
  normalizedRoot := .ofNat (0x05 * (256 ^ 32 / 255))
  coverageManifestHash := .ofNat (0x06 * (256 ^ 32 / 255))
  periodStartMs := 1000
  periodEndMs := 2000
  observedAtMs := 1500
  expiresAtMs := 100000
  policyHash := .ofNat (0x08 * (256 ^ 32 / 255))
  environment := environment
  sourceSessionBinding := .ofNat (0x09 * (256 ^ 32 / 255))

def production : Text := ⟨"production", by decide⟩

def sandbox : Text := ⟨"sandbox", by decide⟩

def exampleSign (m : Bytes) : Bytes :=
  if m = Performance.exampleDigest.1 then Performance.exampleSignature else 0 :: m

def exampleSha256 (bytes : Bytes) : Digest :=
  if bytes = (exampleEnvelope production).canonicalBytes then Performance.exampleDigest
  else if bytes = (exampleEnvelope sandbox).canonicalBytes then
    .ofNat 0xa88facb1ac34e0324c356af52a3a21724f814ae9d889660fad93514673a94663
  else if bytes = asBytes FINGERPRINT_DOMAIN ++ Performance.exampleKey then
    Performance.exampleFingerprint
  else .ofNat 0

def exampleScheme : Scheme Unit Bytes Bytes where
  fromSec1Bytes key := some key
  toEncodedPoint key := key
  fromSlice signature := some signature
  verify _ message signature := signature = exampleSign message
  sha256 := exampleSha256
  fromBytes _ := some ()
  verifyingKey _ := Performance.exampleKey
  sign _ message := exampleSign message
  toSec1Bytes key := key
  toBytes signature := signature

theorem exampleSign_injective : Function.Injective exampleSign := by
  have hhead : Performance.exampleSignature.head? ≠ some 0 := by decide
  intro m m' h
  unfold exampleSign at h
  split_ifs at h with hm hm' hm'
  · rw [hm, hm']
  · rw [h] at hhead
    exact absurd rfl hhead
  · rw [← h] at hhead
    exact absurd rfl hhead
  · exact List.tail_eq_of_cons_eq h

theorem exampleScheme_lawful : exampleScheme.Lawful where
  fromSec1Bytes_toSec1Bytes _ := rfl
  fromSlice_toBytes _ := rfl
  verify_sign _ _ := decide_eq_true rfl
  verify_only _ _ _ h := (exampleSign_injective (of_decide_eq_true h)).symm

theorem exampleScheme_sha256 : exampleScheme.sha256 = exampleSha256 := rfl

theorem exampleScheme_sign : exampleScheme.sign () = exampleSign := rfl

theorem production_digest :
    (exampleEnvelope production).digest exampleScheme = Performance.exampleDigest := by
  rw [SourceEnvelope.digest, exampleScheme_sha256, exampleSha256, if_pos rfl]

theorem sandbox_digest : (exampleEnvelope sandbox).digest exampleScheme =
    .ofNat 0xa88facb1ac34e0324c356af52a3a21724f814ae9d889660fad93514673a94663 := by
  have hne : (exampleEnvelope sandbox).canonicalBytes ≠ (exampleEnvelope production).canonicalBytes :=
    fun h => absurd (SourceEnvelope.canonicalBytes_injective h) (by decide)
  rw [SourceEnvelope.digest, exampleScheme_sha256, exampleSha256, if_neg hne, if_pos rfl]

theorem example_fingerprint :
    A0Signer.fingerprint exampleScheme ⟨()⟩ = Performance.exampleFingerprint := by
  have hne (e : SourceEnvelope) :
      asBytes FINGERPRINT_DOMAIN ++ Performance.exampleKey ≠ e.canonicalBytes := by
    intro h
    have hhead := congrArg List.head? h
    rw [SourceEnvelope.canonicalBytes_eq, SourceEnvelope.fields, encodeAll_cons] at hhead
    dsimp only at hhead
    rw [List.head?_append_of_ne_nil _ (by decide), List.head?_append_of_ne_nil _ (by decide)] at hhead
    exact absurd hhead (by decide)
  have hkey : A0Signer.fingerprint exampleScheme ⟨()⟩ =
      exampleScheme.sha256 (asBytes FINGERPRINT_DOMAIN ++ Performance.exampleKey) := rfl
  rw [hkey, exampleScheme_sha256, exampleSha256, if_neg (hne _), if_neg (hne _), if_pos rfl]

theorem example_sign :
    A0Signer.sign exampleScheme ⟨()⟩ (exampleEnvelope production) = Performance.exampleSignature := by
  rw [A0Signer.sign, production_digest, exampleScheme_sign, exampleSign, if_pos rfl]

/-- The envelope of the production environment does not pass for one of the sandbox. -/
theorem source_envelope_binding_sandbox :
    Performance.verifyOrigin exampleScheme.toCrypto (exampleEnvelope production).witnessed
        Performance.exampleKey Performance.exampleSignature =
      .ok ⟨Performance.exampleDigest, Performance.exampleFingerprint⟩ ∧
    Performance.verifyOrigin exampleScheme.toCrypto (exampleEnvelope sandbox).witnessed
        Performance.exampleKey Performance.exampleSignature = .error .signatureDoesNotVerify := by
  have hdigests : (exampleEnvelope production).digest exampleScheme ≠
      (exampleEnvelope sandbox).digest exampleScheme := by
    rw [production_digest, sandbox_digest]
    decide
  have hfree : CollisionFree exampleScheme.sha256
      [(exampleEnvelope production).canonicalBytes, (exampleEnvelope sandbox).canonicalBytes] := by
    simp only [CollisionFree, List.mem_cons, List.not_mem_nil, or_false]
    rintro x (rfl | rfl) y (rfl | rfl) h
    · rfl
    · exact absurd h hdigests
    · exact absurd h.symm hdigests
    · rfl
  obtain ⟨-, -, hguest⟩ := source_envelope_binding exampleScheme_lawful
  have hsame := hguest ⟨()⟩ (exampleEnvelope production) (exampleEnvelope production)
    (fun x hx y hy h => by simp_all)
  have hother := hguest ⟨()⟩ (exampleEnvelope production) (exampleEnvelope sandbox) hfree
  rw [if_pos rfl, example_sign, production_digest, example_fingerprint] at hsame
  rw [if_neg (by decide), example_sign] at hother
  exact ⟨hsame, hother⟩

end Example

end Linvesther.Attestation
