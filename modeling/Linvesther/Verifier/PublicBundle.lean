import Linvesther.Verifier.Cli

/-! `publicBundle.ts`: the bundle the API exports, and what the command line reads of it. The list of
checkpoint records has not the shape of the file that is read. -/

namespace Linvesther.Verifier

open Commitments

section Export

/-- A `Record<string, unknown>`, as far as `JSON.stringify` writes it. -/
abbrev Record := {fields : List (String × Json) // (fields.map Prod.fst).Nodup}

def Record.json (r : Record) : Json := .obj r.1

/-- What the public bundle is built from. -/
structure BundleSourceData where
  identity : Record
  accounts : Record
  checkpoints : List Record
  policies : List Record
  attestations : List Record
  proofs : List Record
  anchors : List Record
  corrections : List Record

def records (rs : List Record) : Json := .arr (rs.map Record.json)

/-- The files by path, each with its value. -/
def BundleSourceData.sections (source : BundleSourceData) : List (String × Json) :=
  [("identity.json", source.identity.json),
    ("accounts.json", source.accounts.json),
    ("checkpoints/index.json", records source.checkpoints),
    ("policies/index.json", records source.policies),
    ("attestations/index.json", records source.attestations),
    ("proofs/index.json", records source.proofs),
    ("anchors/index.json", records source.anchors),
    ("corrections/index.json", records source.corrections)]

def BundleSourceData.files (source : BundleSourceData) : List (String × String) :=
  source.sections.map fun s => (s.1, s.2.stringify)

structure PublicBundle where
  manifest : Json
  files : List (String × String)

variable (sha256 : Commitments.Bytes → Digest)

def entryJson (content : String) : Json :=
  .obj [("hash", .str (sha256Hex sha256 content)), ("sizeBytes", .int content.utf8ByteSize)]

def manifestJson (files : List (String × String)) : Json :=
  .obj [("version", .str "1"),
    ("files", .obj (files.map fun file => (file.1, entryJson sha256 file.2)))]

def buildPublicBundle (source : BundleSourceData) : PublicBundle :=
  let files := source.files
  let manifest := manifestJson sha256 files
  ⟨manifest, files ++ [("manifest.json", manifest.stringify)]⟩

/-- Each file at its path. -/
def PublicBundle.directory (b : PublicBundle) (path : String) : Option String :=
  b.files.lookup path

end Export

section Maps

theorem lookup_map {α β : Type} (f : α → β) (l : List (String × α)) (k : String) :
    (l.map fun p => (p.1, f p.2)).lookup k = (l.lookup k).map f := by
  induction l with
  | nil => rfl
  | cons p l ih =>
    rw [List.map_cons, List.lookup_cons, List.lookup_cons, ih]
    split
    · rfl
    · rfl

theorem lookup_of_mem {α : Type} {l : List (String × α)} (hnodup : (l.map Prod.fst).Nodup)
    {k : String} {v : α} (h : (k, v) ∈ l) : l.lookup k = some v := by
  induction l with
  | nil => exact absurd h List.not_mem_nil
  | cons p l ih =>
    rw [List.map_cons, List.nodup_cons] at hnodup
    rcases List.mem_cons.1 h with rfl | h
    · exact List.lookup_cons_self
    · have hne : k ≠ p.1 := fun heq =>
        hnodup.1 (heq ▸ List.mem_map_of_mem h)
      rw [List.lookup_cons, beq_eq_false_iff_ne.2 hne]
      exact ih hnodup.2 h

/-- A map read from an object without repeated names holds what the object holds. -/
theorem getElem?_ofList {α : Type} {l : List (String × α)} (hnodup : (l.map Prod.fst).Nodup)
    (k : String) : (Std.TreeMap.ofList l)[k]? = l.lookup k := by
  by_cases hmem : k ∈ l.map Prod.fst
  · obtain ⟨⟨k', v⟩, hp, rfl⟩ := List.mem_map.1 hmem
    rw [lookup_of_mem hnodup hp]
    apply Std.TreeMap.getElem?_ofList_of_mem Std.ReflCmp.compare_self _ hp
    rw [List.Nodup, List.pairwise_map] at hnodup
    exact hnodup.imp fun hne heq => hne (Std.LawfulEqCmp.eq_of_compare heq)
  · have hnone : l.lookup k = none := by
      rw [List.lookup_eq_none_iff]
      intro p hp
      exact bne_iff_ne.2 fun heq => hmem (heq ▸ List.mem_map_of_mem hp)
    rw [hnone]
    apply Std.TreeMap.getElem?_ofList_of_contains_eq_false
    simpa using hmem

theorem mapM_eq_map {α β : Type} {f : α → Option β} {g : α → β} {l : List α}
    (h : ∀ a ∈ l, f a = some (g a)) : l.mapM f = some (l.map g) := by
  induction l with
  | nil => rfl
  | cons a l ih =>
    rw [List.mapM_cons, h a List.mem_cons_self, ih fun b hb => h b (List.mem_cons_of_mem _ hb)]
    rfl

end Maps

section Reading

/-- The texts are read as what was written, and fit into memory. -/
structure Written (parse : String → Option Json) (sha256 : Commitments.Bytes → Digest)
    (source : BundleSourceData) : Prop where
  sections : ∀ s ∈ source.sections, parse s.2.stringify = some s.2
  manifest : parse (manifestJson sha256 source.files).stringify =
    some (manifestJson sha256 source.files)
  size : ∀ file ∈ source.files, file.2.utf8ByteSize < 2 ^ 64

variable {parse : String → Option Json} {sha256 : Commitments.Bytes → Digest}
  {source : BundleSourceData}

def manifestEntry (sha256 : Commitments.Bytes → Digest) (content : String) : ManifestEntry :=
  ⟨sha256Hex sha256 content, UInt64.ofNat content.utf8ByteSize⟩

theorem decodeEntry_entryJson {content : String} (h : content.utf8ByteSize < 2 ^ 64) :
    decodeEntry (entryJson sha256 content) = some (manifestEntry sha256 content) := by
  have hsize : Json.asU64 (.int content.utf8ByteSize) =
      some (UInt64.ofNat content.utf8ByteSize) := by
    have hlt : (content.utf8ByteSize : ℤ) < 2 ^ 64 := by exact_mod_cast h
    simp only [Json.asU64]
    rw [if_pos ⟨Int.natCast_nonneg _, hlt⟩, Int.toNat_natCast]
  have hhash : Json.asStr (.str (sha256Hex sha256 content)) = some (sha256Hex sha256 content) := rfl
  unfold decodeEntry entryJson
  rw [Json.asPair_obj (by decide) hhash hsize]
  rfl

theorem asMap_entries {files : List (String × String)}
    (h : ∀ file ∈ files, file.2.utf8ByteSize < 2 ^ 64) :
    asMap decodeEntry (.obj (files.map fun file => (file.1, entryJson sha256 file.2))) =
      some (Std.TreeMap.ofList (files.map fun file => (file.1, manifestEntry sha256 file.2))) := by
  have hentries : (files.map fun file => (file.1, entryJson sha256 file.2)).mapM
      (fun f => (decodeEntry f.2).map fun value => (f.1, value)) =
      some (files.map fun file => (file.1, manifestEntry sha256 file.2)) := by
    rw [List.mapM_map]
    apply mapM_eq_map
    intro file hfile
    rw [Function.comp_apply, decodeEntry_entryJson (h file hfile), Option.map_some]
  unfold asMap
  dsimp only
  rw [hentries]
  rfl

theorem decodeManifest_manifestJson {files : List (String × String)}
    (h : ∀ file ∈ files, file.2.utf8ByteSize < 2 ^ 64) :
    decodeManifest (manifestJson sha256 files) =
      some ⟨"1", Std.TreeMap.ofList
        (files.map fun file => (file.1, manifestEntry sha256 file.2))⟩ := by
  have hversion : Json.asStr (.str "1") = some "1" := rfl
  unfold decodeManifest manifestJson
  rw [Json.asPair_obj (by decide) hversion (asMap_entries h)]
  rfl

theorem files_nodup (source : BundleSourceData) : (source.files.map Prod.fst).Nodup := by
  simp [BundleSourceData.files, BundleSourceData.sections]

/-- The bundle that is read: the files that were written, under the hashes of the manifest. -/
def exportedBundle (sha256 : Commitments.Bytes → Digest) (source : BundleSourceData) : Bundle :=
  let entries : BTreeMap ManifestEntry := Std.TreeMap.ofList
    (source.files.map fun file => (file.1, manifestEntry sha256 file.2))
  ⟨⟨"1", entries⟩, entries.filterMap fun path _ => (buildPublicBundle sha256 source).directory path⟩

theorem exportedBundle_entry (sha256 : Commitments.Bytes → Digest) (source : BundleSourceData)
    (path : String) : (exportedBundle sha256 source).manifest.files[path]? =
      (source.files.lookup path).map (manifestEntry sha256) := by
  have hnodup : ((source.files.map fun file =>
      (file.1, manifestEntry sha256 file.2)).map Prod.fst).Nodup := by
    rw [List.map_map]
    exact files_nodup source
  rw [← lookup_map]
  exact getElem?_ofList hnodup path

theorem directory_file {path content : String} (h : source.files.lookup path = some content) :
    (buildPublicBundle sha256 source).directory path = some content := by
  unfold PublicBundle.directory buildPublicBundle
  rw [List.lookup_append, h, Option.some_or]

theorem directory_manifest : (buildPublicBundle sha256 source).directory "manifest.json" =
    some (manifestJson sha256 source.files).stringify := by
  have hnone : source.files.lookup "manifest.json" = none := by
    rw [List.lookup_eq_none_iff]
    simp [BundleSourceData.files, BundleSourceData.sections]
  unfold PublicBundle.directory buildPublicBundle
  rw [List.lookup_append, hnone, Option.none_or, List.lookup_cons_self]

theorem exportedBundle_file (path : String) :
    (exportedBundle sha256 source).file path = source.files.lookup path := by
  have hentry := exportedBundle_entry sha256 source path
  unfold Bundle.file
  simp only [exportedBundle, Std.TreeMap.getElem?_filterMap'] at hentry ⊢
  rw [hentry]
  rcases hlookup : source.files.lookup path with - | content
  · rfl
  · exact directory_file hlookup

theorem readBundle_export (h : Written parse sha256 source) :
    readBundle parse (buildPublicBundle sha256 source).directory =
      some (exportedBundle sha256 source) := by
  unfold readBundle
  rw [directory_manifest, Option.bind_eq_bind, Option.bind_some, Option.bind_eq_bind, h.manifest,
    Option.bind_some, Option.bind_eq_bind, decodeManifest_manifestJson h.size, Option.bind_some]
  unfold exportedBundle
  rfl

/-- Every file passes the check of its hash. -/
theorem verifyHashes_export : (exportedBundle sha256 source).verifyHashes sha256 = [] := by
  unfold Bundle.verifyHashes
  rw [List.filterMap_eq_nil_iff]
  rintro ⟨path, entry⟩ hmem
  have hget := Std.TreeMap.mem_toList_iff_getElem?_eq_some.1 hmem
  rw [exportedBundle_entry, Option.map_eq_some_iff] at hget
  obtain ⟨content, hlookup, rfl⟩ := hget
  have hfile : (exportedBundle sha256 source).files[path]? = some content := by
    rw [← hlookup]
    exact exportedBundle_file path
  unfold Bundle.mismatch
  rw [hfile]
  simp [manifestEntry]

theorem readFile_export (h : Written parse sha256 source) {α : Type} {decode : Json → Option α}
    {path : String} {j : Json} (hmem : (path, j) ∈ source.sections) :
    (exportedBundle sha256 source).readFile parse path decode = decode j := by
  have hlookup : source.files.lookup path = some j.stringify :=
    lookup_of_mem (files_nodup source) (List.mem_map.2 ⟨_, hmem, rfl⟩)
  unfold Bundle.readFile
  rw [exportedBundle_file, hlookup, Option.bind_eq_bind, Option.bind_some,
    h.sections _ hmem]
  rfl

/-- A list of records is no object, and no array of a number and a list either. -/
theorem decodeCheckpoints_records (rs : List Record) : decodeCheckpoints (records rs) = none := by
  rcases rs with - | ⟨r, - | ⟨r', - | ⟨r'', rs⟩⟩⟩
  · rfl
  · rfl
  · rfl
  · simp [decodeCheckpoints, records, Json.asPair, Json.asStruct]

end Reading

section Export

/-- The accounts have a root and members, and there are a proof, an anchor and a checkpoint. -/
structure Complete (source : BundleSourceData) : Prop where
  root : (Json.field source.accounts.1 "accountSetRoot").isSome
  members : (Json.field source.accounts.1 "members").isSome
  proofs : source.proofs ≠ []
  anchors : source.anchors ≠ []
  checkpoints : source.checkpoints ≠ []

/-- The program panics at the root of the accounts. -/
def BadRoot (source : BundleSourceData) : Prop :=
  ∃ accounts, decodeAccounts source.accounts.json = some accounts ∧
    hexToArray32 accounts.accountSetRoot = none

/-- The input is what the source carries, and no section is read as absent. What the checkpoint
records say of the last committed end and the gaps is told by `reading`. -/
structure ReadsBack (parse : String → Option Json)
    (reading : List Record → Signed 64 × List Gap) (source : BundleSourceData) (b : Bundle)
    (input : VerificationInput) : Prop where
  accounts : (b.accounts parse).isSome
  root : ∃ root, Json.field source.accounts.1 "accountSetRoot" = some (.str root) ∧
    hexToArray32 root = some input.accountSetRoot
  members : Json.field source.accounts.1 "members" = some (.arr (input.memberIds.1.map .str))
  proofs : (b.proofs parse).isSome
  proof : ∃ first receiptHex journalHex, source.proofs.head? = some first ∧
    Json.field first.1 "receiptHex" = some (.str receiptHex) ∧
    Json.field first.1 "journalHex" = some (.str journalHex) ∧
    hexDecode receiptHex = some input.receiptBytes ∧
    hexDecode journalHex = some input.expectedJournalBytes
  anchors : (b.anchors parse).isSome
  anchor : ∃ last, source.anchors.getLast? = some last ∧
    Json.field last.1 "txHash" = some (.str input.claimedAnchor.txHash) ∧
    Json.field last.1 "blockNumber" = some (.int input.claimedAnchor.blockNumber.toNat)
  checkpoints : (b.checkpoints parse).isSome
  committed : (input.lastCommittedEndMs, input.claimedGaps) = reading source.checkpoints

variable {Receipt : Type}

/-- The exported bundle is loaded, its files pass the check of their hashes, and a complete source is
read back. -/
def Exported (parse : String → Option Json) (sha256 : Commitments.Bytes → Digest)
    (zkvm : Zkvm Receipt) (settings : Settings)
    (reading : List Record → Signed 64 × List Gap) (source : BundleSourceData) : Prop :=
  ∃ b input, readBundle parse (buildPublicBundle sha256 source).directory = some b ∧
    b.verifyHashes sha256 = [] ∧ b.input parse zkvm settings = some input ∧
    (Complete source → ReadsBack parse reading source b input)

variable {parse : String → Option Json} {sha256 : Commitments.Bytes → Digest}
  {source : BundleSourceData}

/-- The checkpoints of an exported bundle always read as absent. -/
theorem checkpoints_export (h : Written parse sha256 source) :
    (exportedBundle sha256 source).checkpoints parse = none := by
  unfold Bundle.checkpoints
  rw [readFile_export h (j := records source.checkpoints) (by simp [BundleSourceData.sections])]
  exact decodeCheckpoints_records source.checkpoints

theorem accounts_export (h : Written parse sha256 source) :
    (exportedBundle sha256 source).accounts parse = decodeAccounts source.accounts.json := by
  unfold Bundle.accounts
  exact readFile_export h (by simp [BundleSourceData.sections])

theorem proofs_export (h : Written parse sha256 source) :
    (exportedBundle sha256 source).proofs parse =
      (source.proofs.map Record.json).mapM decodeProof := by
  unfold Bundle.proofs
  exact readFile_export h (j := records source.proofs) (by simp [BundleSourceData.sections])

theorem anchors_export (h : Written parse sha256 source) :
    (exportedBundle sha256 source).anchors parse =
      (source.anchors.map Record.json).mapM decodeAnchor := by
  unfold Bundle.anchors
  exact readFile_export h (j := records source.anchors) (by simp [BundleSourceData.sections])

/-- The root alone decides whether the program panics. -/
theorem input_export (h : Written parse sha256 source) (zkvm : Zkvm Receipt)
    (settings : Settings) :
    (∃ input, (exportedBundle sha256 source).input parse zkvm settings = some input) ↔
      ¬ BadRoot source := by
  unfold BadRoot
  rcases haccounts : decodeAccounts source.accounts.json with - | accounts
  · simp [Bundle.input, accounts_export h, haccounts]
  · rcases hroot : hexToArray32 accounts.accountSetRoot with - | root
    · simp [Bundle.input, accounts_export h, haccounts, hroot]
    · simp [Bundle.input, accounts_export h, haccounts, hroot]

/-- A source is exported as the claim of completeness says only if there is nothing to say. -/
theorem exported_iff (h : Written parse sha256 source) (zkvm : Zkvm Receipt)
    (settings : Settings) (reading : List Record → Signed 64 × List Gap) :
    Exported parse sha256 zkvm settings reading source ↔
      ¬ BadRoot source ∧ ¬ Complete source := by
  unfold Exported
  rw [← input_export h zkvm settings]
  constructor
  · rintro ⟨b, input, hread, -, hinput, hback⟩
    rw [readBundle_export h, Option.some.injEq] at hread
    subst hread
    refine ⟨⟨input, hinput⟩, fun hcomplete => ?_⟩
    have hsome := (hback hcomplete).checkpoints
    rw [checkpoints_export h] at hsome
    exact absurd hsome (by decide)
  · rintro ⟨⟨input, hinput⟩, hincomplete⟩
    exact ⟨_, input, readBundle_export h, verifyHashes_export, hinput,
      fun hcomplete => absurd hcomplete hincomplete⟩

end Export

section Example

def exampleRoot : String := "23acd680cc55d1655357fd8504beac546153c512be6fd4f6dcd5c630a2a6dab7"

/-- One account, proof, anchor and checkpoint, under the names the command line reads. -/
def exampleSource : BundleSourceData where
  identity := ⟨[("identityId", .str "id-1"), ("owner", .str "0xabc")], by decide⟩
  accounts := ⟨[("accountSetRoot", .str exampleRoot), ("members", .arr [.str "acc-1"])], by decide⟩
  checkpoints := [⟨[("lastCommittedEndMs", .int 2000), ("gaps", .arr [])], by decide⟩]
  policies := []
  attestations := []
  proofs := [⟨[("receiptHex", .str "01ab"), ("journalHex", .str "02cd")], by decide⟩]
  anchors := [⟨[("txHash", .str "0xtx"), ("blockNumber", .int 5)], by decide⟩]
  corrections := []

/-- SHA-256 of the exported files. -/
def exportHashes : List (String × Digest) :=
  [(exampleSource.identity.json.stringify,
      .ofNat 0xf9697efd9e2c4a8888f02ef3b5b15d763d04b13c32a0de79d8b55572543651d7),
    (exampleSource.accounts.json.stringify,
      .ofNat 0xed66b7d9c5eb42b1940dadde02529b5aab6f44a44a6ffc0215e3710913e30d96),
    ((records exampleSource.checkpoints).stringify,
      .ofNat 0xf31e7a5a5c8132947330d4be7e44c0c0b910b13622bb8930292ca7833f1518d4),
    ((records []).stringify,
      .ofNat 0x4f53cda18c2baa0c0354bb5f9a3ecbe5ed12ab4d8e11ba873c2f11161202b945),
    ((records exampleSource.proofs).stringify,
      .ofNat 0x6c429165d260849c962d0755c678ba7eadf1ea12f3a2a361a8daaaebf806e80f),
    ((records exampleSource.anchors).stringify,
      .ofNat 0x6361e64165698d39fddfed8a5bb60a371e06181a8a8fa995109b00e84e7364d8)]

def exportSha256 (bytes : Commitments.Bytes) : Digest :=
  ((exportHashes.find? fun p => asBytes p.1 = bytes).map Prod.snd).getD (.ofNat 0)

/-- The parser on the exported texts. -/
def exportTexts : List (String × Json) :=
  [exampleSource.identity.json, exampleSource.accounts.json, records exampleSource.checkpoints,
    records [], records exampleSource.proofs, records exampleSource.anchors,
    manifestJson exportSha256 exampleSource.files].map fun j => (j.stringify, j)

def exportParse (text : String) : Option Json := exportTexts.lookup text

theorem exportTexts_nodup : (exportTexts.map Prod.fst).Nodup := by decide

theorem exampleSource_written : Written exportParse exportSha256 exampleSource where
  sections := by
    intro s hs
    apply lookup_of_mem exportTexts_nodup
    simp only [BundleSourceData.sections, List.mem_cons, List.not_mem_nil, or_false] at hs
    rcases hs with rfl | rfl | rfl | rfl | rfl | rfl | rfl | rfl <;> simp [exportTexts, exampleSource]
  manifest := lookup_of_mem exportTexts_nodup (by simp [exportTexts])
  size := by decide

/-- Receipts that are their journals. -/
def exportZkvm : Zkvm Commitments.Bytes where
  deserialize bytes := some bytes
  verify _ _ := true
  journal receipt := receipt
  decode _ := none
  guestId := Vector.replicate 8 0

def exportSettings : Settings := ⟨[], [], 86400000, 86400000, 3000, 3000⟩

theorem exampleSource_complete : Complete exampleSource where
  root := by decide
  members := by decide
  proofs := by simp [exampleSource]
  anchors := by simp [exampleSource]
  checkpoints := by simp [exampleSource]

/-- The example is complete, so it is not exported as it should be. -/
theorem exported_iff_example :
    Exported exportParse exportSha256 exportZkvm exportSettings (fun _ => (2000, [])) exampleSource ↔
      ¬ BadRoot exampleSource ∧ ¬ Complete exampleSource :=
  exported_iff exampleSource_written exportZkvm exportSettings fun _ => (2000, [])

/-- The members, the receipt and the anchor are read back, the checkpoint record as if there were
none. -/
theorem checkpoints_read_as_absent :
    ((readBundle exportParse (buildPublicBundle exportSha256 exampleSource).directory).bind
      fun b => (b.input exportParse exportZkvm exportSettings).map fun input =>
        (input.memberIds.1, input.receiptBytes, input.claimedAnchor, input.lastCommittedEndMs)) =
      some (["acc-1"], [0x01, 0xab], ⟨"0xtx", 5⟩, 0) ∧
    ¬ Exported exportParse exportSha256 exportZkvm exportSettings (fun _ => (2000, []))
      exampleSource := by
  refine ⟨?_, ?_⟩
  · rw [readBundle_export exampleSource_written, Option.bind_some]
    simp only [Bundle.input, accounts_export exampleSource_written,
      proofs_export exampleSource_written, anchors_export exampleSource_written,
      checkpoints_export exampleSource_written]
    decide
  rintro ⟨b, input, hread, -, -, hback⟩
  rw [readBundle_export exampleSource_written, Option.some.injEq] at hread
  subst hread
  have hsome := (hback exampleSource_complete).checkpoints
  rw [checkpoints_export exampleSource_written] at hsome
  exact absurd hsome (by decide)

end Example

end Linvesther.Verifier
