import Linvesther.Verifier.Verify

/-! The command line: what it reads of a bundle, and the settings of its operator. A file that is
missing or has another shape reads as if the bundle carried none. -/

namespace Linvesther.Verifier

open Commitments

section Files

structure AccountsFile where
  accountSetRoot : String
  members : Vec String

structure ProofEntry where
  receiptHex : String
  journalHex : String

structure CheckpointsFile where
  lastCommittedEndMs : Signed 64
  gaps : List Gap

/-- A list that fits into memory. -/
def asVec {α : Type} (items : List α) : Option (Vec α) :=
  if h : items.length < 2 ^ 64 then some ⟨items, h⟩ else none

def decodeAccounts (j : Json) : Option AccountsFile := do
  let (root, members) ← j.asPair "accountSetRoot" Json.asStr "members" (Json.asList Json.asStr)
  pure ⟨root, ← asVec members⟩

def decodeProof (j : Json) : Option ProofEntry := do
  let (receiptHex, journalHex) ← j.asPair "receiptHex" Json.asStr "journalHex" Json.asStr
  pure ⟨receiptHex, journalHex⟩

def decodeAnchor (j : Json) : Option TrustedAnchor := do
  let (txHash, blockNumber) ← j.asPair "txHash" Json.asStr "blockNumber" Json.asU64
  pure ⟨txHash, blockNumber⟩

def decodeGap (j : Json) : Option Gap := do
  let (startMs, endMs) ← j.asPair "startMs" Json.asI64 "endMs" Json.asI64
  pure ⟨startMs, endMs⟩

def decodeCheckpoints (j : Json) : Option CheckpointsFile := do
  let (last, gaps) ← j.asPair "lastCommittedEndMs" Json.asI64 "gaps" (Json.asList decodeGap)
  pure ⟨last, gaps⟩

end Files

section Hex

def hexValue (c : Char) : Option ℕ :=
  if '0' ≤ c ∧ c ≤ '9' then some (c.toNat - '0'.toNat)
  else if 'a' ≤ c ∧ c ≤ 'f' then some (c.toNat - 'a'.toNat + 10)
  else if 'A' ≤ c ∧ c ≤ 'F' then some (c.toNat - 'A'.toNat + 10)
  else none

def hexPairs : List Char → Option Commitments.Bytes
  | [] => some []
  | [_] => none
  | high :: low :: rest => do
    let byte := UInt8.ofNat (16 * (← hexValue high) + (← hexValue low))
    pure (byte :: (← hexPairs rest))

/-- `hex::decode`. -/
def hexDecode (s : String) : Option Commitments.Bytes := hexPairs s.toList

theorem hexValue_hexDigit : ∀ n < 16, hexValue (Json.hexDigit n) = some n := by decide

theorem hexDecode_hexEncode (bytes : Commitments.Bytes) : hexDecode (hexEncode bytes) = some bytes := by
  unfold hexDecode hexEncode
  rw [String.toList_ofList]
  induction bytes with
  | nil => rfl
  | cons byte bytes ih =>
    have hhigh : hexValue (Json.hexDigit (byte.toNat / 16)) = some (byte.toNat / 16) :=
      hexValue_hexDigit _ (Nat.div_lt_of_lt_mul byte.toNat_lt)
    have hlow : hexValue (Json.hexDigit (byte.toNat % 16)) = some (byte.toNat % 16) :=
      hexValue_hexDigit _ (Nat.mod_lt _ (by decide))
    have hbyte : UInt8.ofNat (16 * (byte.toNat / 16) + byte.toNat % 16) = byte := by
      rw [Nat.div_add_mod, UInt8.ofNat_toNat]
    rw [List.flatMap_cons, List.cons_append, List.cons_append, List.nil_append]
    simp only [hexPairs, hhigh, hlow, ih, Option.bind_eq_bind, Option.bind_some, hbyte]
    rfl

/-- The program panics at anything but 64 digits. -/
def hexToArray32 (s : String) : Option Digest := do
  let bytes ← hexDecode s
  if h : bytes.length = 32 then some ⟨bytes, h⟩ else none

end Hex

section Load

/-- What the operator supplies, and the two readings of the clock. -/
structure Settings where
  trustedAnchors : List TrustedAnchor
  trustList : TrustList
  intervalMs : Signed 64
  graceMs : Signed 64
  nowMs : Signed 64
  asOfMs : Signed 64

variable (parse : String → Option Json)

/-- A section of the bundle, if its file is there, parses and decodes. -/
def Bundle.readFile {α : Type} (b : Bundle) (path : String) (decode : Json → Option α) :
    Option α := do
  let content ← b.file path
  let j ← parse content
  decode j

def Bundle.accounts (b : Bundle) : Option AccountsFile :=
  b.readFile parse "accounts.json" decodeAccounts

def Bundle.proofs (b : Bundle) : Option (List ProofEntry) :=
  b.readFile parse "proofs/index.json" (Json.asList decodeProof)

def Bundle.anchors (b : Bundle) : Option (List TrustedAnchor) :=
  b.readFile parse "anchors/index.json" (Json.asList decodeAnchor)

def Bundle.checkpoints (b : Bundle) : Option CheckpointsFile :=
  b.readFile parse "checkpoints/index.json" decodeCheckpoints

def NO_ROOT : Digest := .ofNat 0

/-- No members. -/
def NO_MEMBERS : Vec String := ⟨[], by decide⟩

/-- What the program verifies, unless it panics at the root of the accounts. -/
def Bundle.input {Receipt : Type} (zkvm : Zkvm Receipt) (settings : Settings) (b : Bundle) :
    Option VerificationInput := do
  let accounts := b.accounts parse
  let proof := (b.proofs parse).bind List.head?
  let checkpoints := b.checkpoints parse
  let root ← match accounts with
    | none => some NO_ROOT
    | some accounts => hexToArray32 accounts.accountSetRoot
  pure {
    bundle := b
    accountSetRoot := root
    memberIds := (accounts.map AccountsFile.members).getD NO_MEMBERS
    receiptBytes := (proof.bind fun p => hexDecode p.receiptHex).getD []
    expectedJournalBytes := (proof.bind fun p => hexDecode p.journalHex).getD []
    imageId := zkvm.guestId
    claimedAnchor := ((b.anchors parse).bind List.getLast?).getD ⟨"", 0⟩
    trustedAnchors := settings.trustedAnchors
    coveragePolicy := ⟨settings.intervalMs, settings.graceMs⟩
    lastCommittedEndMs := (checkpoints.map CheckpointsFile.lastCommittedEndMs).getD 0
    nowMs := settings.nowMs
    claimedGaps := (checkpoints.map CheckpointsFile.gaps).getD []
    mode := .offline settings.asOfMs
    trustList := settings.trustList }

end Load

section Directory

/-- `BTreeMap<String, T>`: the last of several fields of one name stays. -/
def asMap {α : Type} (decode : Json → Option α) : Json → Option (BTreeMap α)
  | .obj fields => do
    let entries ← fields.mapM fun f => (decode f.2).map fun value => (f.1, value)
    pure (Std.TreeMap.ofList entries)
  | _ => none

def decodeEntry (j : Json) : Option ManifestEntry := do
  let (hash, sizeBytes) ← j.asPair "hash" Json.asStr "sizeBytes" Json.asU64
  pure ⟨hash, sizeBytes⟩

def decodeManifest (j : Json) : Option Manifest := do
  let (version, files) ← j.asPair "version" Json.asStr "files" (asMap decodeEntry)
  pure ⟨version, files⟩

/-- The files of a directory that its manifest names; without a readable manifest the program
panics. -/
def readBundle (parse : String → Option Json) (directory : String → Option String) :
    Option Bundle := do
  let manifestJson ← directory "manifest.json"
  let manifest ← decodeManifest (← parse manifestJson)
  let files := manifest.files.filterMap fun path _ => directory path
  pure ⟨manifest, files⟩

end Directory

end Linvesther.Verifier
