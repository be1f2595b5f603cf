import Linvesther.Verifier.AccountSetRoot
import Linvesther.Verifier.Json

/-! The public verifier: five checks of a loaded bundle, each with its own outcome, and who signed
the data. -/

namespace Linvesther.Verifier

open Transaction Commitments

section Bundles

abbrev BTreeMap (α : Type) := Std.TreeMap String α

structure ManifestEntry where
  hash : String
  sizeBytes : UInt64

structure Manifest where
  version : String
  files : BTreeMap ManifestEntry

structure Bundle where
  manifest : Manifest
  files : BTreeMap String

structure HashMismatch where
  path : String
  expected : String
  actual : String
deriving DecidableEq

/-- `hex::encode`. -/
def hexEncode (bytes : Commitments.Bytes) : String :=
  String.ofList (bytes.flatMap fun byte =>
    [Json.hexDigit (byte.toNat / 16), Json.hexDigit (byte.toNat % 16)])

variable (sha256 : Commitments.Bytes → Digest)

def sha256Hex (content : String) : String := hexEncode (sha256 (asBytes content)).1

def Bundle.mismatch (b : Bundle) (path : String) (entry : ManifestEntry) : Option HashMismatch :=
  match b.files[path]? with
  | none => some ⟨path, entry.hash, "<missing file>"⟩
  | some content =>
    let actual := sha256Hex sha256 content
    if actual ≠ entry.hash then some ⟨path, entry.hash, actual⟩ else none

def Bundle.verifyHashes (b : Bundle) : List HashMismatch :=
  b.manifest.files.toList.filterMap fun entry => b.mismatch sha256 entry.1 entry.2

def Bundle.file (b : Bundle) (path : String) : Option String := b.files[path]?

/-- Files under a manifest of their own hashes. -/
def rehashed (files : BTreeMap String) : Bundle where
  manifest := ⟨"1", files.map fun _ content =>
    ⟨sha256Hex sha256 content, UInt64.ofNat content.utf8ByteSize⟩⟩
  files := files

theorem verifyHashes_rehashed (files : BTreeMap String) :
    (rehashed sha256 files).verifyHashes sha256 = [] := by
  unfold Bundle.verifyHashes
  rw [List.filterMap_eq_nil_iff]
  rintro ⟨path, entry⟩ hmem
  have hentry : (rehashed sha256 files).manifest.files[path]? = some entry :=
    Std.TreeMap.mem_toList_iff_getElem?_eq_some.1 hmem
  simp only [rehashed, Std.TreeMap.getElem?_map, Option.map_eq_some_iff] at hentry
  obtain ⟨content, hcontent, rfl⟩ := hentry
  simp [Bundle.mismatch, rehashed, hcontent]

end Bundles

section Coverage

structure CalendarPolicy where
  intervalMs : Signed 64
  graceMs : Signed 64

structure Gap where
  startMs : Signed 64
  endMs : Signed 64
deriving DecidableEq

/-- `derive_gaps` as far as the given number of rounds goes: the loop has no bound of its own. -/
def deriveGaps (policy : CalendarPolicy) (nowMs : Signed 64) :
    ℕ → Signed 64 → Option (List Gap)
  | 0, _ => none
  | rounds + 1, start =>
    let end_ := start + policy.intervalMs
    let deadline := end_ + policy.graceMs
    if deadline > nowMs then some []
    else do
      let gaps ← deriveGaps policy nowMs rounds end_
      pure (⟨start, end_⟩ :: gaps)

structure CoverageMismatch where
  recomputed : List Gap
  claimed : List Gap
deriving DecidableEq

def verifyCoverage (rounds : ℕ) (policy : CalendarPolicy) (lastCommittedEndMs nowMs : Signed 64)
    (claimedGaps : List Gap) : Option (Except CoverageMismatch Unit) := do
  let recomputed ← deriveGaps policy nowMs rounds lastCommittedEndMs
  pure (if recomputed ≠ claimedGaps then .error ⟨recomputed, claimedGaps⟩ else .ok ())

end Coverage

section Anchors

structure TrustedAnchor where
  txHash : String
  blockNumber : UInt64
deriving DecidableEq

inductive AnchorError where
  | notTrusted (txHash : String) (blockNumber : UInt64)
deriving DecidableEq

def verifyAnchor (claimed : TrustedAnchor) (trusted : List TrustedAnchor) :
    Except AnchorError Unit :=
  revertIf (claimed ∉ trusted) (.notTrusted claimed.txHash claimed.blockNumber)

end Anchors

section Receipts

abbrev ImageId := Vector UInt32 8

structure PerformanceJournal where
  envelopeDigest : Digest
  signerFingerprint : Digest
  periodStartMs : Signed 64
  periodEndMs : Signed 64
  twrIndexScaled : Signed 128
  mddBp : Signed 64
  capital : Signed 64
deriving DecidableEq

/-- What the verifier uses of its packages: receipts and their encoding, the layout of a journal, and
the image id of the guest. -/
structure Zkvm (Receipt : Type) where
  deserialize : Commitments.Bytes → Option Receipt
  verify : Receipt → ImageId → Bool
  journal : Receipt → Commitments.Bytes
  decode : Commitments.Bytes → Option PerformanceJournal
  guestId : ImageId

inductive ReceiptError where
  | decode
  | verificationFailed (imageId : ImageId)
  | journalMismatch
  | journalLayout

variable {Receipt : Type} (zkvm : Zkvm Receipt)

def verifyReceipt (receiptBytes : Commitments.Bytes) (imageId : ImageId)
    (expectedJournalBytes : Commitments.Bytes) : Except ReceiptError Unit :=
  match zkvm.deserialize receiptBytes with
  | none => .error .decode
  | some receipt => do
    revertIf (zkvm.verify receipt imageId = false) (.verificationFailed imageId)
    revertIf (zkvm.journal receipt ≠ expectedJournalBytes) .journalMismatch

def decodeJournal (receiptBytes : Commitments.Bytes) : Except ReceiptError PerformanceJournal :=
  match zkvm.deserialize receiptBytes with
  | none => .error .decode
  | some receipt =>
    match zkvm.decode (zkvm.journal receipt) with
    | none => .error .journalLayout
    | some journal => .ok journal

end Receipts

section Trust

structure TrustedCollector where
  name : String
  fingerprint : Digest
  validFromMs : Option (Signed 64)
  validUntilMs : Option (Signed 64)
  revoked : Bool

abbrev TrustList := List TrustedCollector

inductive OriginAssessment where
  | trustedCollector (name : String) (fingerprint : Digest)
  | selfAttested (fingerprint : Digest)
  | revoked (name : String) (fingerprint : Digest)
  | outsideValidity (name : String) (fingerprint : Digest)
  | unavailable (error : Option ReceiptError)

def assessOrigin (fingerprint : Digest) (periodEndMs : Signed 64) (list : TrustList) :
    OriginAssessment :=
  match list.find? fun collector => collector.fingerprint = fingerprint with
  | none => .selfAttested fingerprint
  | some collector =>
    let tooEarly := collector.validFromMs.any fun start => periodEndMs < start
    let tooLate := collector.validUntilMs.any fun stop => periodEndMs > stop
    if collector.revoked then .revoked collector.name fingerprint
    else if tooEarly || tooLate then .outsideValidity collector.name fingerprint
    else .trustedCollector collector.name fingerprint

end Trust

section Report

/-- Why a check failed. -/
inductive Reason where
  | hashes (mismatches : List HashMismatch)
  | root (error : MerkleError)
  | receipt (error : ReceiptError)
  | anchor (error : AnchorError)
  | coverage (mismatch : CoverageMismatch)

inductive CheckOutcome where
  | pass
  | fail (reason : Reason)
  | unavailable

def CheckOutcome.isPass : CheckOutcome → Bool
  | .pass => true
  | _ => false

/-- The outcome of a check that returned. -/
def CheckOutcome.of {ε : Type} (reason : ε → Reason) : Except ε Unit → CheckOutcome
  | .ok () => .pass
  | .error e => .fail (reason e)

inductive Mode where
  | offline (asOfMs : Signed 64)
  | online

structure VerificationReport where
  mode : Mode
  hashes : CheckOutcome
  accountSetRoot : CheckOutcome
  calculation : CheckOutcome
  registry : CheckOutcome
  coverage : CheckOutcome
  origin : OriginAssessment

def VerificationReport.allPass (r : VerificationReport) : Bool :=
  r.hashes.isPass && r.accountSetRoot.isPass && r.calculation.isPass && r.registry.isPass &&
    r.coverage.isPass

structure VerificationInput where
  bundle : Bundle
  accountSetRoot : Digest
  memberIds : Vec String
  receiptBytes : Commitments.Bytes
  expectedJournalBytes : Commitments.Bytes
  imageId : ImageId
  claimedAnchor : TrustedAnchor
  trustedAnchors : List TrustedAnchor
  coveragePolicy : CalendarPolicy
  lastCommittedEndMs : Signed 64
  nowMs : Signed 64
  claimedGaps : List Gap
  mode : Mode
  trustList : TrustList

variable (sha256 : Commitments.Bytes → Digest) {Receipt : Type} (zkvm : Zkvm Receipt)

/-- The report, unless the coverage loop is still running after the given number of rounds. -/
def verify (rounds : ℕ) (input : VerificationInput) : Option VerificationReport := do
  let hashMismatches := input.bundle.verifyHashes sha256
  let hashes := if hashMismatches = [] then .pass else .fail (.hashes hashMismatches)
  let accountSetRoot :=
    if input.memberIds.1 = [] then .unavailable
    else .of .root (verifyAccountSetRoot sha256 input.accountSetRoot input.memberIds)
  let calculation :=
    if input.receiptBytes = [] then .unavailable
    else .of .receipt
      (verifyReceipt zkvm input.receiptBytes input.imageId input.expectedJournalBytes)
  let origin :=
    if calculation.isPass then
      match decodeJournal zkvm input.receiptBytes with
      | .ok journal => assessOrigin journal.signerFingerprint journal.periodEndMs input.trustList
      | .error error => .unavailable (some error)
    else .unavailable none
  let registry :=
    if input.claimedAnchor.txHash = "" then .unavailable
    else .of .anchor (verifyAnchor input.claimedAnchor input.trustedAnchors)
  let coverage ← verifyCoverage rounds input.coveragePolicy input.lastCommittedEndMs input.nowMs
    input.claimedGaps
  pure ⟨input.mode, hashes, accountSetRoot, calculation, registry, .of .coverage coverage, origin⟩

end Report

end Linvesther.Verifier
