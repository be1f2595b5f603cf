import Linvesther.Verifier.PublicBundle

/-! What a bundle that passes says as a whole. Each check takes its own part of the bundle; nothing
relates the journal of the proof to the checkpoints, the accounts or the anchor beside it. -/

namespace Linvesther.Verifier

open Transaction Commitments

variable {Receipt : Type} {parse : String → Option Json}
  {sha256 : Commitments.Bytes → Digest} {zkvm : Zkvm Receipt}

section Gaps

/-- The loop ends, with these gaps. -/
def DerivesGaps (policy : CalendarPolicy) (nowMs start : Signed 64) (gaps : List Gap) : Prop :=
  ∃ rounds, deriveGaps policy nowMs rounds start = some gaps

/-- No interval that begins at `start` has been missed yet. -/
def NoneDue (policy : CalendarPolicy) (nowMs start : Signed 64) : Prop :=
  start + policy.intervalMs + policy.graceMs > nowMs

theorem derivesGaps_nil (policy : CalendarPolicy) (nowMs start : Signed 64) :
    DerivesGaps policy nowMs start [] ↔ NoneDue policy nowMs start := by
  unfold NoneDue
  constructor
  · rintro ⟨rounds, h⟩
    rcases rounds with - | rounds
    · simp [deriveGaps] at h
    · unfold deriveGaps at h
      by_contra hdue
      simp only [hdue, if_false, Option.bind_eq_bind, Option.bind_eq_some_iff] at h
      obtain ⟨rest, -, hcons⟩ := h
      exact absurd hcons (by simp)
  · intro h
    exact ⟨1, by simp [deriveGaps, h]⟩

/-- The first gap begins where the last period ended. -/
theorem DerivesGaps.start_eq {policy : CalendarPolicy} {nowMs start : Signed 64} {gap : Gap}
    {gaps : List Gap} (h : DerivesGaps policy nowMs start (gap :: gaps)) : gap.startMs = start := by
  obtain ⟨rounds, h⟩ := h
  rcases rounds with - | rounds
  · simp [deriveGaps] at h
  · unfold deriveGaps at h
    by_cases hdue : start + policy.intervalMs + policy.graceMs > nowMs
    · simp [hdue] at h
    · simp only [hdue, if_false, Option.bind_eq_bind, Option.bind_eq_some_iff, Option.pure_def,
        Option.some.injEq, List.cons.injEq] at h
      obtain ⟨rest, -, rfl, -⟩ := h
      rfl

/-- Two ends give the same gaps only if they are the same or no gap is due after either. -/
theorem DerivesGaps.iff_of_end {policy : CalendarPolicy} {nowMs start : Signed 64}
    {gaps : List Gap} (h : DerivesGaps policy nowMs start gaps) (start' : Signed 64) :
    DerivesGaps policy nowMs start' gaps ↔
      start = start' ∨ NoneDue policy nowMs start ∧ NoneDue policy nowMs start' := by
  constructor
  · intro h'
    rcases gaps with - | ⟨gap, gaps⟩
    · exact .inr ⟨(derivesGaps_nil _ _ _).1 h, (derivesGaps_nil _ _ _).1 h'⟩
    · exact .inl (h.start_eq.symm.trans h'.start_eq)
  · rintro (rfl | ⟨hdue, hdue'⟩)
    · exact h
    · rcases gaps with - | ⟨gap, gaps⟩
      · exact (derivesGaps_nil _ _ _).2 hdue'
      · obtain ⟨rounds, h⟩ := h
        rcases rounds with - | rounds
        · simp [deriveGaps] at h
        · unfold NoneDue at hdue
          simp [deriveGaps, hdue] at h

end Gaps

section Checks

/-- What all five checks have in common with a pass. -/
structure Accepts (sha256 : Commitments.Bytes → Digest) (zkvm : Zkvm Receipt)
    (input : VerificationInput) : Prop where
  hashes : input.bundle.verifyHashes sha256 = []
  members : input.memberIds.1 ≠ []
  root : verifyAccountSetRoot sha256 input.accountSetRoot input.memberIds = .ok ()
  receipt : input.receiptBytes ≠ []
  calculation :
    verifyReceipt zkvm input.receiptBytes input.imageId input.expectedJournalBytes = .ok ()
  anchor : input.claimedAnchor.txHash ≠ ""
  trusted : verifyAnchor input.claimedAnchor input.trustedAnchors = .ok ()
  coverage : DerivesGaps input.coveragePolicy input.nowMs input.lastCommittedEndMs input.claimedGaps

theorem isPass_of {ε : Type} (reason : ε → Reason) (x : Except ε Unit) :
    (CheckOutcome.of reason x).isPass = true ↔ x = .ok () := by
  rcases x with e | ⟨⟩
  · simp [CheckOutcome.of, CheckOutcome.isPass]
  · simp [CheckOutcome.of, CheckOutcome.isPass]

theorem isPass_ite (c : Prop) [Decidable c] (x : CheckOutcome) :
    (if c then .unavailable else x : CheckOutcome).isPass = true ↔ ¬ c ∧ x.isPass = true := by
  by_cases h : c
  · simp [h, CheckOutcome.isPass]
  · simp [h]

theorem verifyCoverage_ok {rounds : ℕ} {policy : CalendarPolicy} {last now : Signed 64}
    {claimed : List Gap} :
    verifyCoverage rounds policy last now claimed = some (.ok ()) ↔
      deriveGaps policy now rounds last = some claimed := by
  unfold verifyCoverage
  rcases deriveGaps policy now rounds last with - | recomputed
  · simp
  · by_cases h : recomputed = claimed
    · simp [h]
    · simp [h]

/-- All five checks pass exactly for an accepted input. -/
theorem allPass_iff (input : VerificationInput) :
    (∃ rounds report, verify sha256 zkvm rounds input = some report ∧ report.allPass = true) ↔
      Accepts sha256 zkvm input := by
  unfold verify
  simp only [Option.bind_eq_bind, Option.bind_eq_some_iff, Option.pure_def, Option.some.injEq]
  constructor
  · rintro ⟨rounds, report, ⟨coverage, hcoverage, rfl⟩, hpass⟩
    simp only [VerificationReport.allPass, Bool.and_eq_true, isPass_ite, isPass_of] at hpass
    obtain ⟨⟨⟨⟨hhashes, hmembers, hroot⟩, hreceipt, hcalculation⟩, hanchor, htrusted⟩, rfl⟩ := hpass
    refine ⟨?_, hmembers, hroot, hreceipt, hcalculation, hanchor, htrusted,
      ⟨rounds, verifyCoverage_ok.1 hcoverage⟩⟩
    by_contra hne
    simp [hne, CheckOutcome.isPass] at hhashes
  · intro h
    obtain ⟨rounds, hgaps⟩ := h.coverage
    refine ⟨rounds, _, ⟨.ok (), verifyCoverage_ok.2 hgaps, rfl⟩, ?_⟩
    simp only [VerificationReport.allPass, Bool.and_eq_true, isPass_ite, isPass_of]
    exact ⟨⟨⟨⟨by simp [h.hashes, CheckOutcome.isPass], h.members, h.root⟩, h.receipt,
      h.calculation⟩, h.anchor, h.trusted⟩, trivial⟩

end Checks

section Passing

variable (parse : String → Option Json) (sha256 : Commitments.Bytes → Digest)
  (zkvm : Zkvm Receipt) (settings : Settings)

/-- What the program reports of a bundle, if it does not panic and the coverage loop ends. -/
def Bundle.verdict (rounds : ℕ) (b : Bundle) : Option Bool := do
  let input ← b.input parse zkvm settings
  let report ← verify sha256 zkvm rounds input
  pure report.allPass

def Passes (b : Bundle) : Prop := ∃ rounds, b.verdict parse sha256 zkvm settings rounds = some true

theorem passes_iff (b : Bundle) : Passes parse sha256 zkvm settings b ↔
    ∃ input, b.input parse zkvm settings = some input ∧ Accepts sha256 zkvm input := by
  unfold Passes Bundle.verdict
  simp only [Option.bind_eq_bind, Option.bind_eq_some_iff, Option.pure_def, Option.some.injEq]
  constructor
  · rintro ⟨rounds, input, hinput, report, hreport, hpass⟩
    exact ⟨input, hinput, (allPass_iff input).1 ⟨rounds, report, hreport, hpass⟩⟩
  · rintro ⟨input, hinput, haccepts⟩
    obtain ⟨rounds, report, hreport, hpass⟩ := (allPass_iff input).2 haccepts
    exact ⟨rounds, input, hinput, report, hreport, hpass⟩

end Passing

section Mixtures

/-- The files with the one of a bundle at this path, if it has one. -/
def Bundle.keep (b : Bundle) (path : String) (files : BTreeMap String) : BTreeMap String :=
  match b.file path with
  | none => files
  | some content => files.insert path content

theorem getElem?_keep (b : Bundle) (path path' : String) (files : BTreeMap String) :
    (b.keep path files)[path']? =
      if path = path' then (b.file path).or files[path']? else files[path']? := by
  unfold Bundle.keep
  rcases b.file path with - | content
  · simp
  · simp [Std.TreeMap.getElem?_insert]

/-- The proof of one bundle beside the accounts, the checkpoints and the anchors of another. -/
def mixture (sha256 : Commitments.Bytes → Digest) (proof rest : Bundle) : Bundle :=
  rehashed sha256 <| proof.keep "proofs/index.json" <| rest.keep "anchors/index.json" <|
    rest.keep "checkpoints/index.json" <| rest.keep "accounts.json" ∅

variable (proof rest : Bundle)

theorem mixture_proofs : (mixture sha256 proof rest).proofs parse = proof.proofs parse := by
  simp [Bundle.proofs, Bundle.readFile, Bundle.file, mixture, rehashed, getElem?_keep]

theorem mixture_anchors : (mixture sha256 proof rest).anchors parse = rest.anchors parse := by
  simp [Bundle.anchors, Bundle.readFile, Bundle.file, mixture, rehashed, getElem?_keep]

theorem mixture_checkpoints :
    (mixture sha256 proof rest).checkpoints parse = rest.checkpoints parse := by
  simp [Bundle.checkpoints, Bundle.readFile, Bundle.file, mixture, rehashed, getElem?_keep]

theorem mixture_accounts : (mixture sha256 proof rest).accounts parse = rest.accounts parse := by
  simp [Bundle.accounts, Bundle.readFile, Bundle.file, mixture, rehashed, getElem?_keep]

variable {proof rest} {settings : Settings}

/-- What an input takes from the proof of its bundle. -/
theorem input_proof {b : Bundle} {input : VerificationInput}
    (h : b.input parse zkvm settings = some input) :
    input.receiptBytes = (((b.proofs parse).bind List.head?).bind
        fun p => hexDecode p.receiptHex).getD [] ∧
      input.expectedJournalBytes = (((b.proofs parse).bind List.head?).bind
        fun p => hexDecode p.journalHex).getD [] ∧
      input.imageId = zkvm.guestId := by
  unfold Bundle.input at h
  dsimp only at h
  rcases haccounts : b.accounts parse with - | accounts
  · rw [haccounts] at h
    obtain rfl := Option.some.inj h
    exact ⟨rfl, rfl, rfl⟩
  · rw [haccounts] at h
    simp only [Option.bind_eq_bind, Option.bind_eq_some_iff, Option.pure_def,
      Option.some.injEq] at h
    obtain ⟨_, -, rfl⟩ := h
    exact ⟨rfl, rfl, rfl⟩

/-- Only the receipt and the journal come from the other bundle. -/
theorem mixture_input {p r : VerificationInput} (hp : proof.input parse zkvm settings = some p)
    (hr : rest.input parse zkvm settings = some r) :
    (mixture sha256 proof rest).input parse zkvm settings = some { r with
      bundle := mixture sha256 proof rest
      receiptBytes := p.receiptBytes
      expectedJournalBytes := p.expectedJournalBytes } := by
  obtain ⟨hreceipt, hjournal, -⟩ := input_proof hp
  rw [hreceipt, hjournal]
  unfold Bundle.input at hr ⊢
  rw [mixture_proofs, mixture_anchors, mixture_checkpoints, mixture_accounts]
  dsimp only at hr ⊢
  rcases haccounts : rest.accounts parse with - | accounts
  · rw [haccounts] at hr
    obtain rfl := Option.some.inj hr
    rfl
  · rw [haccounts] at hr
    simp only [Option.bind_eq_bind, Option.bind_eq_some_iff, Option.pure_def,
      Option.some.injEq] at hr ⊢
    obtain ⟨root, hroot, rfl⟩ := hr
    exact ⟨root, hroot, rfl⟩

/-- A mixture of two bundles that pass passes. -/
theorem mixture_passes (hp : Passes parse sha256 zkvm settings proof)
    (hr : Passes parse sha256 zkvm settings rest) :
    Passes parse sha256 zkvm settings (mixture sha256 proof rest) := by
  rw [passes_iff] at hp hr ⊢
  obtain ⟨p, hp, acceptsProof⟩ := hp
  obtain ⟨r, hr, acceptsRest⟩ := hr
  have himage : p.imageId = r.imageId := by
    rw [(input_proof hp).2.2, (input_proof hr).2.2]
  refine ⟨_, mixture_input hp hr, ?_⟩
  exact {
    hashes := verifyHashes_rehashed sha256 _
    members := acceptsRest.members
    root := acceptsRest.root
    receipt := acceptsProof.receipt
    calculation := himage ▸ acceptsProof.calculation
    anchor := acceptsRest.anchor
    trusted := acceptsRest.trusted
    coverage := acceptsRest.coverage }

end Mixtures

section Coherence

variable (parse : String → Option Json) (sha256 : Commitments.Bytes → Digest)
  (zkvm : Zkvm Receipt) (settings : Settings)

/-- The bytes of the journal a bundle carries. -/
def Bundle.journal (b : Bundle) : Option Commitments.Bytes :=
  (b.input parse zkvm settings).map VerificationInput.expectedJournalBytes

/-- The claimed gaps are those after the end of the proven period. -/
def GapsProven (b : Bundle) : Prop :=
  ∃ input journal, b.input parse zkvm settings = some input ∧
    decodeJournal zkvm input.receiptBytes = .ok journal ∧
    DerivesGaps input.coveragePolicy input.nowMs journal.periodEndMs input.claimedGaps

/-- The bundle's word on the last committed end agrees with its journal, as far as gaps go. -/
def EndProven (b : Bundle) : Prop :=
  ∃ input journal, b.input parse zkvm settings = some input ∧
    decodeJournal zkvm input.receiptBytes = .ok journal ∧
    (input.lastCommittedEndMs = journal.periodEndMs ∨
      NoneDue input.coveragePolicy input.nowMs input.lastCommittedEndMs ∧
      NoneDue input.coveragePolicy input.nowMs journal.periodEndMs)

/-- The proof of one bundle is not accepted beside what the other says of another journal. -/
def Unmixable (proof rest : Bundle) : Prop :=
  proof.journal parse zkvm settings ≠ rest.journal parse zkvm settings →
    ¬ Passes parse sha256 zkvm settings (mixture sha256 proof rest)

variable {parse sha256 zkvm settings}

theorem gapsProven_iff {b : Bundle} (h : Passes parse sha256 zkvm settings b) :
    GapsProven parse zkvm settings b ↔ EndProven parse zkvm settings b := by
  obtain ⟨input, hinput, haccepts⟩ := (passes_iff parse sha256 zkvm settings b).1 h
  unfold GapsProven EndProven
  constructor
  · rintro ⟨_, journal, hinput', hjournal, hgaps⟩
    obtain rfl := Option.some.inj (hinput.symm.trans hinput')
    exact ⟨_, journal, hinput, hjournal, (haccepts.coverage.iff_of_end _).1 hgaps⟩
  · rintro ⟨_, journal, hinput', hjournal, hend⟩
    obtain rfl := Option.some.inj (hinput.symm.trans hinput')
    exact ⟨_, journal, hinput, hjournal, (haccepts.coverage.iff_of_end _).2 hend⟩

/-- What holds of bundles that pass: the gaps follow from the journal only if the bundle's own word on
the committed end does, and no two journals keep two bundles apart. -/
theorem coherent_iff {proof rest : Bundle} (hproof : Passes parse sha256 zkvm settings proof)
    (hrest : Passes parse sha256 zkvm settings rest) :
    GapsProven parse zkvm settings proof ∧ Unmixable parse sha256 zkvm settings proof rest ↔
      EndProven parse zkvm settings proof ∧
        proof.journal parse zkvm settings = rest.journal parse zkvm settings := by
  rw [gapsProven_iff hproof]
  apply and_congr_right
  intro
  unfold Unmixable
  constructor
  · intro h
    by_contra hne
    exact h hne (mixture_passes hproof hrest)
  · intro heq hne
    exact absurd heq hne

end Coherence

section Example

/-- Bytes as the guest writes them, each in a word of its own. -/
def byteWords (bytes : Commitments.Bytes) : Commitments.Bytes := bytes.flatMap fun byte => [byte, 0, 0, 0]

def leBytes (width : ℕ) {bits : ℕ} (x : Signed bits) : Commitments.Bytes :=
  (toBeBytes width x.toNat).reverse

def encodeJournal (j : PerformanceJournal) : Commitments.Bytes :=
  byteWords j.envelopeDigest.1 ++ byteWords j.signerFingerprint.1 ++ leBytes 8 j.periodStartMs ++
    leBytes 8 j.periodEndMs ++ leBytes 16 j.twrIndexScaled ++ leBytes 8 j.mddBp ++ leBytes 8 j.capital

def gainJournal : PerformanceJournal where
  envelopeDigest := .ofNat 0x769342c2a6692677812df713035b2593fbf2d67b154eb480f283500a1c56a72f
  signerFingerprint := .ofNat 0x9c177b47de4c524a7b7754c648e488d3993b12b88930e0d67f9e3bcd01afc134
  periodStartMs := 1000
  periodEndMs := 2000
  twrIndexScaled := 1100000
  mddBp := 0
  capital := 110000000

def lossJournal : PerformanceJournal where
  envelopeDigest := .ofNat 0x16367aacb67a4a017c8da8ab95682ccb390863780f7114dda0a0e0c55644c7c4
  signerFingerprint := gainJournal.signerFingerprint
  periodStartMs := 1000
  periodEndMs := 2000
  twrIndexScaled := 900000
  mddBp := 1000
  capital := 90000000

def pairAccounts : Json :=
  .obj [("accountSetRoot", .str "23acd680cc55d1655357fd8504beac546153c512be6fd4f6dcd5c630a2a6dab7"),
    ("members", .arr [.str "acc-1"])]

def pairAnchors : Json := .arr [.obj [("txHash", .str "0xtx"), ("blockNumber", .int 5)]]

/-- The bundle's word: the last period ended just now. -/
def pairCheckpoints : Json := .obj [("lastCommittedEndMs", .int 1000000000), ("gaps", .arr [])]

def pairProofs (receiptHex : String) (j : PerformanceJournal) : Json :=
  .arr [.obj [("receiptHex", .str receiptHex), ("journalHex", .str (hexEncode (encodeJournal j)))]]

def gainProofs : Json := pairProofs "01ab" gainJournal

def lossProofs : Json := pairProofs "01ac" lossJournal

/-- SHA-256 of the account, the tree of one account and the files. -/
def pairHashes : List (Commitments.Bytes × Digest) :=
  [(asBytes "acc-1",
      .ofNat 0xcf9df9b99fc0a24be13747e9ba144c730c889af804bc1abbb1be8918e5cd30e2),
    (treeFrame 1 (.ofNat 0xcf9df9b99fc0a24be13747e9ba144c730c889af804bc1abbb1be8918e5cd30e2),
      .ofNat 0x23acd680cc55d1655357fd8504beac546153c512be6fd4f6dcd5c630a2a6dab7),
    (asBytes pairAccounts.stringify,
      .ofNat 0xed66b7d9c5eb42b1940dadde02529b5aab6f44a44a6ffc0215e3710913e30d96),
    (asBytes pairAnchors.stringify,
      .ofNat 0x6361e64165698d39fddfed8a5bb60a371e06181a8a8fa995109b00e84e7364d8),
    (asBytes pairCheckpoints.stringify,
      .ofNat 0x112f7949aecc11abd9af8cb1dc408dfe7a73b3d99e8cb86be4f3363255aaa8e6),
    (asBytes gainProofs.stringify,
      .ofNat 0xc7e0ad74a95bcdc6a70912e2c5211adfe15f292d013cef41cc4e3e03d9d56521),
    (asBytes lossProofs.stringify,
      .ofNat 0x0eb9356b56848300b252be26598d55e3480dbf59e142f5eeac53660aad07359f)]

def pairSha256 (bytes : Commitments.Bytes) : Digest := (pairHashes.lookup bytes).getD (.ofNat 0)

def pairTexts : List (String × Json) :=
  [pairAccounts, pairAnchors, pairCheckpoints, gainProofs, lossProofs].map fun j => (j.stringify, j)

/-- The parser on the texts of the two bundles. -/
def pairParse (text : String) : Option Json := pairTexts.lookup text

/-- Two receipts of the guest and what they commit to. -/
def pairZkvm : Zkvm PerformanceJournal where
  deserialize bytes := List.lookup bytes [([0x01, 0xab], gainJournal), ([0x01, 0xac], lossJournal)]
  verify _ imageId := imageId = Vector.replicate 8 7
  journal := encodeJournal
  decode bytes := [gainJournal, lossJournal].find? fun j => encodeJournal j = bytes
  guestId := Vector.replicate 8 7

/-- A day and a day's grace, eleven days after the proven period. -/
def pairSettings : Settings where
  trustedAnchors := [⟨"0xtx", 5⟩]
  trustList := []
  intervalMs := 86400000
  graceMs := 86400000
  nowMs := 1000000000
  asOfMs := 1000000000

def pairBundle (proofs : Json) : Bundle :=
  rehashed pairSha256 (Std.TreeMap.ofList
    [("accounts.json", pairAccounts.stringify), ("anchors/index.json", pairAnchors.stringify),
      ("checkpoints/index.json", pairCheckpoints.stringify),
      ("proofs/index.json", proofs.stringify)])

def gainBundle : Bundle := pairBundle gainProofs

def lossBundle : Bundle := pairBundle lossProofs

/-- The texts of two proofs already differ where the receipt is. -/
theorem pairProofs_head {receiptHex : String} {head : List Char} (j : PerformanceJournal)
    (hhead : ("[\x7b\"receiptHex\":" ++ Json.quote receiptHex).toList = head)
    (hlength : head.length = 21) :
    (pairProofs receiptHex j).stringify.toList.take 21 = head := by
  have hname : Json.quote "receiptHex" = "\"receiptHex\"" := by decide
  have htext : (pairProofs receiptHex j).stringify = ("[\x7b\"receiptHex\":" ++
      Json.quote receiptHex) ++ ("," ++ (Json.quote "journalHex" ++ (":" ++
        (Json.quote (hexEncode (encodeJournal j)) ++ ("\x7d" ++ "]"))))) := by
    simp only [pairProofs, Json.stringify, Json.stringifyItems, Json.stringifyFields, hname,
      String.intercalate_cons_cons, String.intercalate_singleton, String.append_assoc]
    rfl
  rw [htext, String.toList_append, hhead]
  exact List.take_left' hlength

theorem pairTexts_nodup : (pairTexts.map Prod.fst).Nodup := by
  have hgain : gainProofs.stringify.toList.take 21 = "[\x7b\"receiptHex\":\"01ab\"".toList :=
    pairProofs_head gainJournal (by decide) (by decide)
  have hloss : lossProofs.stringify.toList.take 21 = "[\x7b\"receiptHex\":\"01ac\"".toList :=
    pairProofs_head lossJournal (by decide) (by decide)
  apply List.Nodup.of_map fun text : String => text.toList.take 21
  simp only [pairTexts, List.map_cons, List.map_nil, hgain, hloss]
  decide +kernel

theorem pairParse_text {j : Json}
    (h : j ∈ [pairAccounts, pairAnchors, pairCheckpoints, gainProofs, lossProofs]) :
    pairParse j.stringify = some j :=
  lookup_of_mem pairTexts_nodup (List.mem_map.2 ⟨j, h, rfl⟩)

/-- What the program reads of either bundle. -/
def pairInput (proofs : Json) (receiptBytes : Commitments.Bytes) (j : PerformanceJournal) :
    VerificationInput where
  bundle := pairBundle proofs
  accountSetRoot :=
    .ofNat 0x23acd680cc55d1655357fd8504beac546153c512be6fd4f6dcd5c630a2a6dab7
  memberIds := ⟨["acc-1"], by decide⟩
  receiptBytes
  expectedJournalBytes := encodeJournal j
  imageId := pairZkvm.guestId
  claimedAnchor := ⟨"0xtx", 5⟩
  trustedAnchors := pairSettings.trustedAnchors
  coveragePolicy := ⟨pairSettings.intervalMs, pairSettings.graceMs⟩
  lastCommittedEndMs := 1000000000
  nowMs := pairSettings.nowMs
  claimedGaps := []
  mode := .offline pairSettings.asOfMs
  trustList := []

theorem pairBundle_file (proofs : Json) :
    (pairBundle proofs).file "accounts.json" = some pairAccounts.stringify ∧
      (pairBundle proofs).file "anchors/index.json" = some pairAnchors.stringify ∧
      (pairBundle proofs).file "checkpoints/index.json" = some pairCheckpoints.stringify ∧
      (pairBundle proofs).file "proofs/index.json" = some proofs.stringify := by
  have hfile (path : String) : (pairBundle proofs).file path = List.lookup path
      [("accounts.json", pairAccounts.stringify), ("anchors/index.json", pairAnchors.stringify),
        ("checkpoints/index.json", pairCheckpoints.stringify),
        ("proofs/index.json", proofs.stringify)] := getElem?_ofList (by simp) path
  simp [hfile, List.lookup_cons]

theorem pairBundle_input {receiptHex : String} {receiptBytes : Commitments.Bytes}
    (j : PerformanceJournal) (hreceipt : hexDecode receiptHex = some receiptBytes)
    (hmem : pairProofs receiptHex j ∈
      [pairAccounts, pairAnchors, pairCheckpoints, gainProofs, lossProofs]) :
    (pairBundle (pairProofs receiptHex j)).input pairParse pairZkvm pairSettings =
      some (pairInput (pairProofs receiptHex j) receiptBytes j) := by
  obtain ⟨haccounts, hanchors, hcheckpoints, hproofs⟩ := pairBundle_file (pairProofs receiptHex j)
  have haccounts' : (pairBundle (pairProofs receiptHex j)).accounts pairParse =
      some ⟨"23acd680cc55d1655357fd8504beac546153c512be6fd4f6dcd5c630a2a6dab7",
        ⟨["acc-1"], by decide⟩⟩ := by
    rw [Bundle.accounts, Bundle.readFile, haccounts, Option.bind_eq_bind, Option.bind_some,
      pairParse_text (by simp)]
    rfl
  have hanchors' : (pairBundle (pairProofs receiptHex j)).anchors pairParse =
      some [⟨"0xtx", 5⟩] := by
    rw [Bundle.anchors, Bundle.readFile, hanchors, Option.bind_eq_bind, Option.bind_some,
      pairParse_text (by simp)]
    decide
  have hcheckpoints' : (pairBundle (pairProofs receiptHex j)).checkpoints pairParse =
      some ⟨1000000000, []⟩ := by
    rw [Bundle.checkpoints, Bundle.readFile, hcheckpoints, Option.bind_eq_bind, Option.bind_some,
      pairParse_text (by simp)]
    rfl
  have hproofs' : (pairBundle (pairProofs receiptHex j)).proofs pairParse =
      some [⟨receiptHex, hexEncode (encodeJournal j)⟩] := by
    rw [Bundle.proofs, Bundle.readFile, hproofs, Option.bind_eq_bind, Option.bind_some,
      pairParse_text hmem]
    rfl
  have hroot : hexToArray32 "23acd680cc55d1655357fd8504beac546153c512be6fd4f6dcd5c630a2a6dab7" =
      some (.ofNat 0x23acd680cc55d1655357fd8504beac546153c512be6fd4f6dcd5c630a2a6dab7) := by
    decide
  simp only [Bundle.input, haccounts', hanchors', hcheckpoints', hproofs', hroot, hreceipt,
    Option.bind_eq_bind, Option.bind_some, Option.map_some, Option.getD_some, List.head?_cons,
    List.getLast?_singleton, hexDecode_hexEncode]
  rfl

theorem pairInput_accepts {proofs : Json} {receiptBytes : Commitments.Bytes} {j : PerformanceJournal}
    (hne : receiptBytes ≠ []) (hreceipt : pairZkvm.deserialize receiptBytes = some j) :
    Accepts pairSha256 pairZkvm (pairInput proofs receiptBytes j) where
  hashes := verifyHashes_rehashed pairSha256 _
  members := by simp [pairInput]
  root := by
    have hroot : verifyAccountSetRoot pairSha256
        (.ofNat 0x23acd680cc55d1655357fd8504beac546153c512be6fd4f6dcd5c630a2a6dab7)
        ⟨["acc-1"], by decide⟩ = .ok () := by decide +kernel
    exact hroot
  receipt := hne
  calculation := by
    have hverify : verifyReceipt pairZkvm receiptBytes pairZkvm.guestId (encodeJournal j) = .ok () := by
      unfold verifyReceipt
      rw [hreceipt]
      simp [revertIf, pairZkvm, bind, Except.bind]
    exact hverify
  anchor := by simp [pairInput]
  trusted := by
    have htrusted : verifyAnchor ⟨"0xtx", 5⟩ pairSettings.trustedAnchors = .ok () := by decide
    exact htrusted
  coverage := by
    have hdue : NoneDue ⟨86400000, 86400000⟩ 1000000000 1000000000 := by
      unfold NoneDue
      decide
    exact (derivesGaps_nil _ _ _).2 hdue

theorem gainBundle_input : gainBundle.input pairParse pairZkvm pairSettings =
    some (pairInput gainProofs [0x01, 0xab] gainJournal) :=
  pairBundle_input gainJournal (by decide) (by simp [gainProofs])

theorem lossBundle_input : lossBundle.input pairParse pairZkvm pairSettings =
    some (pairInput lossProofs [0x01, 0xac] lossJournal) :=
  pairBundle_input lossJournal (by decide) (by simp [lossProofs])

theorem gainBundle_passes : Passes pairParse pairSha256 pairZkvm pairSettings gainBundle :=
  (passes_iff _ _ _ _ _).2 ⟨_, gainBundle_input, pairInput_accepts (by simp) rfl⟩

theorem lossBundle_passes : Passes pairParse pairSha256 pairZkvm pairSettings lossBundle :=
  (passes_iff _ _ _ _ _).2 ⟨_, lossBundle_input, pairInput_accepts (by simp) rfl⟩

theorem coherent_iff_pair :
    GapsProven pairParse pairZkvm pairSettings gainBundle ∧
        Unmixable pairParse pairSha256 pairZkvm pairSettings gainBundle lossBundle ↔
      EndProven pairParse pairZkvm pairSettings gainBundle ∧
        gainBundle.journal pairParse pairZkvm pairSettings =
          lossBundle.journal pairParse pairZkvm pairSettings :=
  coherent_iff gainBundle_passes lossBundle_passes

theorem pair_journals : gainBundle.journal pairParse pairZkvm pairSettings ≠
    lossBundle.journal pairParse pairZkvm pairSettings := by
  rw [Bundle.journal, Bundle.journal, gainBundle_input, lossBundle_input, Option.map_some,
    Option.map_some]
  have hne : encodeJournal gainJournal ≠ encodeJournal lossJournal := by decide
  exact fun h => hne (Option.some.inj h)

/-- Both bundles pass, with journals that differ. By the proven period ten days are missing, and the
gain passes beside the accounts, the checkpoints and the anchors of the loss. -/
theorem gain_passes_with_the_rest_of_loss :
    Passes pairParse pairSha256 pairZkvm pairSettings gainBundle ∧
      Passes pairParse pairSha256 pairZkvm pairSettings lossBundle ∧
      ¬ GapsProven pairParse pairZkvm pairSettings gainBundle ∧
      gainBundle.journal pairParse pairZkvm pairSettings ≠
        lossBundle.journal pairParse pairZkvm pairSettings ∧
      Passes pairParse pairSha256 pairZkvm pairSettings
        (mixture pairSha256 gainBundle lossBundle) := by
  refine ⟨gainBundle_passes, lossBundle_passes, ?_, pair_journals,
    mixture_passes gainBundle_passes lossBundle_passes⟩
  rintro ⟨input, journal, hinput, hjournal, hgaps⟩
  obtain rfl := Option.some.inj (gainBundle_input.symm.trans hinput)
  have hdecode : decodeJournal pairZkvm [0x01, 0xab] = .ok gainJournal := by
    simp [decodeJournal, pairZkvm, List.find?]
  obtain rfl := Except.ok.inj (hdecode.symm.trans hjournal)
  have hdue := (derivesGaps_nil _ _ _).1 hgaps
  have hmissed : ¬ NoneDue ⟨86400000, 86400000⟩ 1000000000 2000 := by
    unfold NoneDue
    decide
  exact hmissed hdue

end Example

end Linvesther.Verifier
