import Linvesther.Base.Signed
import Linvesther.Commitments.Framing

/-! The performance guest: it checks who signed the source envelope and computes the returns from a
series that the envelope says nothing about. -/

namespace Linvesther.Performance

open Transaction Commitments

abbrev Bytes := Commitments.Bytes

section Envelope

structure SourceEnvelope where
  mechanism : String
  issuerKeyId : String
  trustManifestHash : Digest
  accountBindingCommitment : Digest
  batchCommitment : Digest
  rawEvidenceRoot : Digest
  normalizedRoot : Digest
  coverageManifestHash : Digest
  periodStartMs : Signed 64
  periodEndMs : Signed 64
  observedAtMs : Signed 64
  expiresAtMs : Signed 64
  policyHash : Digest
  environment : String
  sourceSessionBinding : Digest
deriving DecidableEq

def writeField (domain : String) (bytes : Bytes) : Bytes :=
  asBytes domain ++ toBeBytes 8 bytes.length ++ bytes

/-- A 64-bit number, the most significant byte first. -/
def beBytes (x : Signed 64) : Bytes := toBeBytes 8 x.toNat

def SourceEnvelope.canonicalBytes (e : SourceEnvelope) : Bytes :=
  writeField "mechanism" (asBytes e.mechanism) ++
  writeField "issuerKeyId" (asBytes e.issuerKeyId) ++
  writeField "trustManifestHash" e.trustManifestHash.1 ++
  writeField "accountBindingCommitment" e.accountBindingCommitment.1 ++
  writeField "batchCommitment" e.batchCommitment.1 ++
  writeField "rawEvidenceRoot" e.rawEvidenceRoot.1 ++
  writeField "normalizedRoot" e.normalizedRoot.1 ++
  writeField "coverageManifestHash" e.coverageManifestHash.1 ++
  writeField "periodStart" (beBytes e.periodStartMs) ++
  writeField "periodEnd" (beBytes e.periodEndMs) ++
  writeField "observedAt" (beBytes e.observedAtMs) ++
  writeField "expiresAt" (beBytes e.expiresAtMs) ++
  writeField "policyHash" e.policyHash.1 ++
  writeField "environment" (asBytes e.environment) ++
  writeField "sourceSessionBinding" e.sourceSessionBinding.1

end Envelope

section Origin

/-- What the guest uses of its packages: SEC1 keys, compact ECDSA signatures and SHA-256. The point
of a key is encoded in compressed form. -/
structure Crypto (VerifyingKey Signature : Type) where
  fromSec1Bytes : Bytes → Option VerifyingKey
  toEncodedPoint : VerifyingKey → Bytes
  fromSlice : Bytes → Option Signature
  verify : VerifyingKey → Bytes → Signature → Bool
  sha256 : Bytes → Digest

variable {VerifyingKey Signature : Type} (crypto : Crypto VerifyingKey Signature)

def SourceEnvelope.digest (e : SourceEnvelope) : Digest := crypto.sha256 e.canonicalBytes

def FINGERPRINT_DOMAIN : String := "LZK/collector-key/v1"

def collectorFingerprint (verifyingKey : VerifyingKey) : Digest :=
  crypto.sha256 (asBytes FINGERPRINT_DOMAIN ++ crypto.toEncodedPoint verifyingKey)

structure VerifiedOrigin where
  envelopeDigest : Digest
  signerFingerprint : Digest
deriving DecidableEq

inductive OriginError where
  | invalidVerifyingKey
  | invalidSignatureEncoding
  | signatureDoesNotVerify
deriving DecidableEq

def verifyOrigin (envelope : SourceEnvelope) (verifyingKeySec1 signatureCompact : Bytes) :
    Except OriginError VerifiedOrigin :=
  match crypto.fromSec1Bytes verifyingKeySec1 with
  | none => .error .invalidVerifyingKey
  | some verifyingKey =>
    match crypto.fromSlice signatureCompact with
    | none => .error .invalidSignatureEncoding
    | some signature =>
      let digest := envelope.digest crypto
      if crypto.verify verifyingKey digest.1 signature then
        .ok ⟨digest, collectorFingerprint crypto verifyingKey⟩
      else .error .signatureDoesNotVerify

end Origin

section Compute

def SCALE : Signed 64 := 1000000

inductive ComputeError where
  | emptyNav
  | nonPositiveNav (index : ℕ) (nav : Signed 64)
  | reconciliationMismatch (expected got : Signed 64)
deriving DecidableEq

/-- `first` and `last` of a series. -/
def ends (nav : List (Signed 64)) : Except ComputeError (Signed 64 × Signed 64) :=
  match nav.head?, nav.getLast? with
  | some first, some last => .ok (first, last)
  | _, _ => .error .emptyNav

def reconcile (nav ledgerDeltas : List (Signed 64)) : Except ComputeError Unit := do
  let (first, last) ← ends nav
  let expected := last - first
  let got := Signed.sum ledgerDeltas
  revertIf (expected ≠ got) (.reconciliationMismatch expected got)

/-- The loop of `twr_index` from the window at `i` on. -/
def chainIndex (i : ℕ) (index : Signed 128) :
    List (Signed 64) → Except ComputeError (Signed 128)
  | prev :: cur :: rest => do
    revertIf (prev ≤ 0) (.nonPositiveNav i prev)
    let ratio := cur.cast 128 * SCALE.cast 128 / prev.cast 128
    chainIndex (i + 1) (index * ratio / SCALE.cast 128) (cur :: rest)
  | _ => pure index

def twrIndex (nav : List (Signed 64)) : Except ComputeError (Signed 128) := do
  revertIf (nav = []) .emptyNav
  chainIndex 0 (SCALE.cast 128) nav

/-- The loop of `max_drawdown_bp` from the value at `i` on. -/
def maxDrawdown (i : ℕ) (peak maxDdScaled : Signed 128) :
    List (Signed 64) → Except ComputeError (Signed 128)
  | value :: rest => do
    revertIf (value ≤ 0) (.nonPositiveNav i value)
    let value := value.cast 128
    if value > peak then maxDrawdown (i + 1) value maxDdScaled rest
    else
      let drawdown := (peak - value) * SCALE.cast 128 / peak
      maxDrawdown (i + 1) peak (if drawdown > maxDdScaled then drawdown else maxDdScaled) rest
  | [] => pure maxDdScaled

def maxDrawdownBp (nav : List (Signed 64)) : Except ComputeError (Signed 64) := do
  let (first, _) ← ends nav
  revertIf (first ≤ 0) (.nonPositiveNav 0 first)
  let maxDdScaled ← maxDrawdown 0 (first.cast 128) 0 nav
  pure ((maxDdScaled * 10000 / SCALE.cast 128).cast 64)

end Compute

section Run

structure GuestInput where
  envelope : SourceEnvelope
  verifyingKeySec1 : Bytes
  signatureCompact : Bytes
  nav : List (Signed 64)
  ledgerDeltas : List (Signed 64)
deriving DecidableEq

structure GuestOutput where
  envelopeDigest : Digest
  signerFingerprint : Digest
  periodStartMs : Signed 64
  periodEndMs : Signed 64
  twrIndexScaled : Signed 128
  mddBp : Signed 64
  capital : Signed 64
deriving DecidableEq

inductive GuestError where
  | origin (e : OriginError)
  | compute (e : ComputeError)
deriving DecidableEq

variable {VerifyingKey Signature : Type} (crypto : Crypto VerifyingKey Signature)

def run (input : GuestInput) : Except GuestError GuestOutput := do
  let origin ← (verifyOrigin crypto input.envelope input.verifyingKeySec1
    input.signatureCompact).mapError .origin
  (reconcile input.nav input.ledgerDeltas).mapError .compute
  let twrIndexScaled ← (twrIndex input.nav).mapError .compute
  let mddBp ← (maxDrawdownBp input.nav).mapError .compute
  let (_, capital) ← (ends input.nav).mapError .compute
  pure ⟨origin.envelopeDigest, origin.signerFingerprint, input.envelope.periodStartMs,
    input.envelope.periodEndMs, twrIndexScaled, mddBp, capital⟩

end Run

section Acceptance

theorem ends_ok (nav : List (Signed 64)) (p : Signed 64 × Signed 64) :
    ends nav = .ok p ↔ nav.head? = some p.1 ∧ nav.getLast? = some p.2 := by
  unfold ends
  rcases nav with - | ⟨first, rest⟩
  · simp
  · rw [List.getLast?_eq_some_getLast (List.cons_ne_nil first rest)]
    simp [Prod.ext_iff]

/-- The ledger explains the net change of the series. -/
def Reconciled (nav ledgerDeltas : List (Signed 64)) : Prop :=
  ∃ first last, nav.head? = some first ∧ nav.getLast? = some last ∧
    last - first = Signed.sum ledgerDeltas

theorem reconcile_ok (nav ledgerDeltas : List (Signed 64)) (u : Unit) :
    reconcile nav ledgerDeltas = .ok u ↔ Reconciled nav ledgerDeltas := by
  unfold reconcile Reconciled
  simp only [bind_ok, revertIf_ok, ends_ok, Prod.exists, not_not]
  constructor
  · rintro ⟨first, last, ⟨hfirst, hlast⟩, hsum⟩
    exact ⟨first, last, hfirst, hlast, hsum⟩
  · rintro ⟨first, last, hfirst, hlast, hsum⟩
    exact ⟨first, last, ⟨hfirst, hlast⟩, hsum⟩

/-- The loop of the index runs through if every value but the last is positive. -/
theorem chainIndex_returns {nav : List (Signed 64)} (h : ∀ v ∈ nav, 0 < v) (i : ℕ)
    (index : Signed 128) : ∃ result, chainIndex i index nav = .ok result := by
  induction nav generalizing i index with
  | nil => exact ⟨index, rfl⟩
  | cons prev rest ih =>
    rcases rest with - | ⟨cur, rest⟩
    · exact ⟨index, rfl⟩
    · unfold chainIndex
      have hprev : ¬ prev ≤ 0 := Signed.not_le.2 (h prev List.mem_cons_self)
      rw [revertIf, if_neg hprev]
      exact ih (fun v hv => h v (List.mem_cons_of_mem _ hv)) _ _

theorem maxDrawdown_returns {nav : List (Signed 64)} (i : ℕ) (peak maxDdScaled : Signed 128) :
    (∃ result, maxDrawdown i peak maxDdScaled nav = .ok result) ↔ ∀ v ∈ nav, 0 < v := by
  induction nav generalizing i peak maxDdScaled with
  | nil => exact ⟨fun _ v hv => absurd hv List.not_mem_nil, fun _ => ⟨_, rfl⟩⟩
  | cons value rest ih =>
    unfold maxDrawdown
    simp only [bind_ok, revertIf_ok, List.forall_mem_cons, ← Signed.not_le (a := value)]
    constructor
    · rintro ⟨result, -, hvalue, hrest⟩
      refine ⟨hvalue, ?_⟩
      split_ifs at hrest
      · exact (ih _ _ _).1 ⟨result, hrest⟩
      · exact (ih _ _ _).1 ⟨result, hrest⟩
      · exact (ih _ _ _).1 ⟨result, hrest⟩
    · rintro ⟨hvalue, hrest⟩
      split_ifs
      · obtain ⟨result, hresult⟩ := (ih (i + 1) (value.cast 128) maxDdScaled).2 hrest
        exact ⟨result, (), hvalue, hresult⟩
      · obtain ⟨result, hresult⟩ := (ih (i + 1) peak _).2 hrest
        exact ⟨result, (), hvalue, hresult⟩
      · obtain ⟨result, hresult⟩ := (ih (i + 1) peak _).2 hrest
        exact ⟨result, (), hvalue, hresult⟩

theorem maxDrawdownBp_returns {nav : List (Signed 64)} (hne : nav ≠ []) :
    (∃ mddBp, maxDrawdownBp nav = .ok mddBp) ↔ ∀ v ∈ nav, 0 < v := by
  obtain ⟨first, rest, rfl⟩ := List.exists_cons_of_ne_nil hne
  have hends : ends (first :: rest) = .ok (first, (first :: rest).getLast hne) :=
    (ends_ok _ _).2 ⟨rfl, List.getLast?_eq_some_getLast hne⟩
  unfold maxDrawdownBp
  simp only [bind_ok, pure_ok, revertIf_ok, hends, Except.ok.injEq]
  constructor
  · rintro ⟨mddBp, -, rfl, -, -, result, hresult, -⟩
    exact (maxDrawdown_returns _ _ _).1 ⟨result, hresult⟩
  · intro h
    obtain ⟨result, hresult⟩ := (maxDrawdown_returns 0 (first.cast 128) 0).2 h
    exact ⟨_, _, rfl, (), Signed.not_le.2 (h first List.mem_cons_self), result, hresult, rfl⟩

variable {VerifyingKey Signature : Type} {crypto : Crypto VerifyingKey Signature}

/-- The signature is one of the envelope's digest under the key. -/
def SignedOrigin (crypto : Crypto VerifyingKey Signature) (input : GuestInput) : Prop :=
  ∃ verifyingKey signature, crypto.fromSec1Bytes input.verifyingKeySec1 = some verifyingKey ∧
    crypto.fromSlice input.signatureCompact = some signature ∧
    crypto.verify verifyingKey (input.envelope.digest crypto).1 signature = true

theorem verifyOrigin_returns (input : GuestInput) :
    (∃ origin, verifyOrigin crypto input.envelope input.verifyingKeySec1 input.signatureCompact =
      .ok origin) ↔ SignedOrigin crypto input := by
  unfold verifyOrigin SignedOrigin
  rcases crypto.fromSec1Bytes input.verifyingKeySec1 with - | verifyingKey
  · simp
  · rcases crypto.fromSlice input.signatureCompact with - | signature
    · simp
    · by_cases h : crypto.verify verifyingKey (input.envelope.digest crypto).1 signature = true
      · simp [h]
      · simp [h]

/-- What the guest checks of its input. -/
structure Valid (crypto : Crypto VerifyingKey Signature) (input : GuestInput) : Prop where
  origin : SignedOrigin crypto input
  reconciled : Reconciled input.nav input.ledgerDeltas
  positive : ∀ v ∈ input.nav, 0 < v

theorem Reconciled.ne_nil {nav ledgerDeltas : List (Signed 64)} (h : Reconciled nav ledgerDeltas) :
    nav ≠ [] := by
  rintro rfl
  obtain ⟨first, -, hfirst, -⟩ := h
  simp at hfirst

/-- What an accepted input publishes, and what has been checked of it. -/
theorem run_ok {input : GuestInput} {output : GuestOutput} (h : run crypto input = .ok output) :
    verifyOrigin crypto input.envelope input.verifyingKeySec1 input.signatureCompact =
      .ok ⟨output.envelopeDigest, output.signerFingerprint⟩ ∧
    input.nav.getLast? = some output.capital ∧ Valid crypto input := by
  unfold run at h
  simp only [bind_ok, mapError_ok, pure_ok, reconcile_ok, Prod.exists, ends_ok] at h
  obtain ⟨origin, horigin, -, hreconciled, twrIndexScaled, -, mddBp, hmdd, first, last, hends, rfl⟩
    := h
  exact ⟨horigin, hends.2, ⟨(verifyOrigin_returns input).1 ⟨origin, horigin⟩, hreconciled,
    (maxDrawdownBp_returns hreconciled.ne_nil).1 ⟨mddBp, hmdd⟩⟩⟩

/-- A valid input is accepted. -/
theorem run_returns {input : GuestInput} (h : Valid crypto input) :
    ∃ output, run crypto input = .ok output := by
  obtain ⟨origin, horigin⟩ := (verifyOrigin_returns input).2 h.origin
  obtain ⟨twrIndexScaled, htwr⟩ := chainIndex_returns h.positive 0 (SCALE.cast 128)
  obtain ⟨mddBp, hmdd⟩ := (maxDrawdownBp_returns h.reconciled.ne_nil).2 h.positive
  obtain ⟨first, last, hfirst, hlast, -⟩ := id h.reconciled
  have htwr' : twrIndex input.nav = .ok twrIndexScaled := by
    rw [twrIndex, revertIf, if_neg h.reconciled.ne_nil]
    exact htwr
  have hends : ends input.nav = .ok (first, last) := (ends_ok _ _).2 ⟨hfirst, hlast⟩
  refine ⟨⟨origin.envelopeDigest, origin.signerFingerprint, input.envelope.periodStartMs,
    input.envelope.periodEndMs, twrIndexScaled, mddBp, last⟩, ?_⟩
  unfold run
  rw [horigin, (reconcile_ok _ _ ()).2 h.reconciled, htwr', hmdd, hends]
  rfl

end Acceptance

section Binding

variable {VerifyingKey Signature : Type}

/-- Whatever else is published for the same envelope by the same signer has the same numbers. -/
def Binding (crypto : Crypto VerifyingKey Signature) (input : GuestInput) : Prop :=
  ∀ input' output output', run crypto input = .ok output → run crypto input' = .ok output' →
    output.envelopeDigest = output'.envelopeDigest →
    output.signerFingerprint = output'.signerFingerprint →
    output.twrIndexScaled = output'.twrIndexScaled ∧ output.mddBp = output'.mddBp ∧
      output.capital = output'.capital

/-- The signed envelope with a series of one value. -/
def GuestInput.withCapital (input : GuestInput) (capital : Signed 64) : GuestInput :=
  { input with nav := [capital], ledgerDeltas := [] }

theorem Valid.withCapital {crypto : Crypto VerifyingKey Signature} {input : GuestInput}
    (h : Valid crypto input) {capital : Signed 64} (hpos : 0 < capital) :
    Valid crypto (input.withCapital capital) where
  origin := h.origin
  reconciled := ⟨capital, capital, rfl, rfl, Signed.ext (by
    show (capital.val - capital.val).bmod (2 ^ 64) = (0 : ℤ).bmod (2 ^ 64)
    rw [sub_self])⟩
  positive := by simpa [GuestInput.withCapital] using hpos

/-- The envelope of an accepted input does not determine what is published: the same signed envelope
is accepted with any series that reconciles. -/
theorem binding_iff (crypto : Crypto VerifyingKey Signature) (input : GuestInput) :
    Binding crypto input ↔ ¬ Valid crypto input := by
  constructor
  · intro hbinding hvalid
    obtain ⟨output, hrun⟩ := run_returns hvalid
    have hcapital : ∀ capital : Signed 64, 0 < capital → output.capital = capital := by
      intro capital hpos
      obtain ⟨output', hrun'⟩ := run_returns (hvalid.withCapital hpos)
      obtain ⟨horigin', hlast', -⟩ := run_ok hrun'
      have horigin := (run_ok hrun).1.symm.trans horigin'
      simp only [Except.ok.injEq, VerifiedOrigin.mk.injEq] at horigin
      rw [(hbinding _ _ _ hrun hrun' horigin.1 horigin.2).2.2]
      exact (Option.some.inj hlast').symm
    have hone := (hcapital 1 (by decide)).symm.trans (hcapital 2 (by decide))
    exact absurd hone (by decide)
  · intro hinvalid input' output output' hrun
    exact absurd (run_ok hrun).2.2 hinvalid

end Binding

section Example

def exampleEnvelope : SourceEnvelope where
  mechanism := "A0"
  issuerKeyId := "collector-1"
  trustManifestHash := .ofNat (0x01 * (256 ^ 32 / 255))
  accountBindingCommitment := .ofNat (0x02 * (256 ^ 32 / 255))
  batchCommitment := .ofNat (0x03 * (256 ^ 32 / 255))
  rawEvidenceRoot := .ofNat (0x04 * (256 ^ 32 / 255))
  normalizedRoot := .ofNat (0x05 * (256 ^ 32 / 255))
  coverageManifestHash := .ofNat (0x06 * (256 ^ 32 / 255))
  periodStartMs := 1000
  periodEndMs := 2000
  observedAtMs := 1500
  expiresAtMs := 100000
  policyHash := .ofNat (0x08 * (256 ^ 32 / 255))
  environment := "production"
  sourceSessionBinding := .ofNat (0x09 * (256 ^ 32 / 255))

def exampleKey : Bytes :=
  toBeBytes 33 0x02989c0b76cb563971fdc9bef31ec06c3560f3249d6ee9e5d83c57625596e05f6f

def exampleDigest : Digest :=
  .ofNat 0x769342c2a6692677812df713035b2593fbf2d67b154eb480f283500a1c56a72f

def exampleFingerprint : Digest :=
  .ofNat 0x9c177b47de4c524a7b7754c648e488d3993b12b88930e0d67f9e3bcd01afc134

def exampleSignature : Bytes :=
  toBeBytes 32 0x27f0f6938e92517712a26843ddcf8e92b6654a7817080db685982e004c8afae7 ++
  toBeBytes 32 0x5638be7e7462be8d1c4042cb37ea94754d86b9649cc29d51921b05b42e81606c

/-- The collector key of the envelope, its one signature, and SHA-256 where the guest uses it. -/
def exampleCrypto : Crypto Bytes Bytes where
  fromSec1Bytes key := if key = exampleKey then some key else none
  toEncodedPoint key := key
  fromSlice signature := if signature.length = 64 then some signature else none
  verify key message signature :=
    key = exampleKey ∧ message = exampleDigest.1 ∧ signature = exampleSignature
  sha256 bytes :=
    if bytes = exampleEnvelope.canonicalBytes then exampleDigest
    else if bytes = asBytes FINGERPRINT_DOMAIN ++ exampleKey then exampleFingerprint
    else .ofNat 0

/-- 100 becomes the given number of millionths. -/
def exampleInput (final delta : Signed 64) : GuestInput :=
  ⟨exampleEnvelope, exampleKey, exampleSignature, [100000000, final], [delta]⟩

/-- One signed envelope is published with a gain of 10 per cent and with a loss of 10 per cent. -/
theorem one_envelope_two_records :
    run exampleCrypto (exampleInput 110000000 10000000) =
      .ok ⟨exampleDigest, exampleFingerprint, 1000, 2000, 1100000, 0, 110000000⟩ ∧
    run exampleCrypto (exampleInput 90000000 (Signed.wrap 64 (-10000000))) =
      .ok ⟨exampleDigest, exampleFingerprint, 1000, 2000, 900000, 1000, 90000000⟩ ∧
    ¬ Binding exampleCrypto (exampleInput 110000000 10000000) := by
  have hgain : run exampleCrypto (exampleInput 110000000 10000000) =
      .ok ⟨exampleDigest, exampleFingerprint, 1000, 2000, 1100000, 0, 110000000⟩ := by
    decide +kernel
  have hloss : run exampleCrypto (exampleInput 90000000 (Signed.wrap 64 (-10000000))) =
      .ok ⟨exampleDigest, exampleFingerprint, 1000, 2000, 900000, 1000, 90000000⟩ := by
    decide +kernel
  refine ⟨hgain, hloss, fun hbinding => ?_⟩
  have htwr : (1100000 : Signed 128) = 900000 := (hbinding _ _ _ hgain hloss rfl rfl).1
  exact absurd htwr (by decide)

end Example

end Linvesther.Performance
