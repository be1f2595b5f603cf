import Linvesther.Api.AccountOwnership
import Linvesther.Api.AuthStores
import Linvesther.Base.Runs

/-! `walletProof.ts`: the message that a holder signs to link a wallet, and the check of what comes back. Only
the nonce of a challenge is remembered. -/

namespace Linvesther.Api.WalletProof

open Ownership (isHexDigit)

section Viem

/-- Milliseconds, or an invalid date. -/
abbrev JsDate : Type := Option ℤ

/-- The fields of a Sign-In with Ethereum message, each of which a message may lack. -/
structure SiweMessage where
  scheme : Option String
  domain : Option String
  address : Option String
  statement : Option String
  uri : Option String
  version : Option String
  chainId : Option ℕ
  nonce : Option String
  requestId : Option String
  issuedAt : Option JsDate
  expirationTime : Option JsDate
  notBefore : Option JsDate
  resources : Option (List String)
deriving DecidableEq

/-- The functions of the library. `createSiweMessage` throws on fields that it does not render, and a signature
that cannot be checked does not verify. -/
structure Viem where
  checksumAddress : String → String
  createSiweMessage : SiweMessage → Option String
  parseSiweMessage : String → SiweMessage
  verifyMessage : String → String → String → Bool

/-- `0x` and hex digits. -/
def isHex (text : String) : Bool :=
  text.toList.take 2 = ['0', 'x'] && (text.toList.drop 2).all isHexDigit

def isAddress (text : String) : Bool := isHex text && text.length = 42

def Viem.getAddress (viem : Viem) (address : String) : Option String :=
  if isAddress address then some (viem.checksumAddress address) else none

end Viem

section Nonces

/-- `Buffer.from(nonce).toString("hex")`, of a nonce in base64url. -/
def hexOf (nonce : String) : String :=
  String.ofList (nonce.toList.flatMap fun c => [Nat.digitChar (c.toNat / 16), Nat.digitChar (c.toNat % 16)])

def hexValue (c : Char) : ℕ :=
  if c.isDigit then c.toNat - '0'.toNat
  else if 'a' ≤ c then c.toNat - 'a'.toNat + 10 else c.toNat - 'A'.toNat + 10

/-- Pairs of hex digits, up to the first that is none. -/
def hexBytes : List Char → List ℕ
  | a :: b :: rest => if isHexDigit a && isHexDigit b then (hexValue a * 16 + hexValue b) :: hexBytes rest else []
  | _ => []

/-- `Buffer.from(text, "hex").toString()`. A byte beyond ASCII gives a text that is no nonce. -/
def nonceOf (text : String) : Option String :=
  let bytes := hexBytes text.toList
  if bytes.all (· < 128) then some (String.ofList (bytes.map Char.ofNat)) else none

/-- `NonceStore.consume`: the nonce is taken out even if it has expired. -/
def consume (now : ℕ) (nonce : Option String) (rows : List (String × ℕ)) : Bool × List (String × ℕ) :=
  match nonce with
  | none => (false, rows)
  | some nonce =>
    match rows.find? (·.1 = nonce) with
    | none => (false, rows)
    | some row => (now < row.2, rows.filter (·.1 ≠ nonce))

/-- `NonceStore.issue`. In the database a nonce that is there already violates the primary key. -/
def issueNonce (storage : Storage) (now : ℕ) (nonce : String) (rows : List (String × ℕ)) :
    Option (List (String × ℕ)) :=
  match storage with
  | .memory => some (issueInMemory now nonce rows)
  | .postgres =>
    if nonce ∈ rows.map Prod.fst then none else some (pruneRows now (rows ++ [(nonce, now + NONCE_TTL_MS)]))

end Nonces

section Proofs

structure WalletProofOptions where
  domain : String
  uri : String
  /-- The network's answer at a time, where contract wallets can be asked. -/
  verifyContract : Option (ℕ → ℕ → String → String → String → Bool)

inductive ProofFailure where
  | malformed | wrongDomain | wrongAccount | expired | replayed | badSignature | unsupportedWallet
deriving DecidableEq

inductive Verdict where
  | ok (address : String)
  | fail (reason : ProofFailure)
  | thrown
deriving DecidableEq

def CHALLENGE_TTL_MS : ℕ := 5 * 60000

def STATEMENT : String :=
  "Link this wallet to your Linvesther account to read its balances and history. " ++
    "This signature does not move funds or grant any access to them."

variable (viem : Viem) (options : WalletProofOptions)

/-- What a challenge is made of. -/
def challengeFields (now : ℕ) (accountId address : String) (chainId : ℕ) (nonce : String) : SiweMessage where
  scheme := none
  domain := some options.domain
  address := some address
  statement := some STATEMENT
  uri := some options.uri
  version := some "1"
  chainId := some chainId
  nonce := some (hexOf nonce)
  requestId := some accountId
  issuedAt := some (some now)
  expirationTime := some (some (now + CHALLENGE_TTL_MS))
  notBefore := none
  resources := none

/-- A challenge as it was returned. -/
structure Challenge where
  accountId : String
  address : String
  nonce : String
  expiresAt : ℕ
  fields : SiweMessage
  message : String
deriving DecidableEq

/-- The challenge, if one is returned, and the nonces; `none` for them if none was issued. -/
def issueWalletChallenge (storage : Storage) (now : ℕ) (accountId address : String) (chainId : ℕ) (nonce : String)
    (rows : List (String × ℕ)) : Option Challenge × Option (List (String × ℕ)) :=
  match viem.getAddress address with
  | none => (none, none)
  | some address =>
    match issueNonce storage now nonce rows with
    | none => (none, none)
    | some rows =>
      let fields := challengeFields options now accountId address chainId nonce
      ((viem.createSiweMessage fields).map fun message =>
        ⟨accountId, address, nonce, now + CHALLENGE_TTL_MS, fields, message⟩, some rows)

/-- `parsed.expirationTime.getTime() <= now`, which no invalid date satisfies. -/
def hasExpired (now : ℕ) : Option JsDate → Bool
  | none => true
  | some none => false
  | some (some t) => t ≤ now

/-- The fields that the message is rendered from again. -/
def canonicalFields (parsed : SiweMessage) (address : String) : SiweMessage :=
  { parsed with
    address := some address
    uri := some (parsed.uri.getD options.uri)
    version := some "1" }

/-- The signature is by a key, or by a contract that the network answers for. -/
def verifySignature (now chainId : ℕ) (address message signature : String) : Verdict :=
  if viem.verifyMessage address message signature then .ok address
  else
    match options.verifyContract with
    | none => .fail .unsupportedWallet
    | some verify => if verify now chainId address message signature then .ok address else .fail .badSignature

/-- The checks before the nonce is taken: what is left to check, or the refusal; `none` where rendering throws. -/
def checkMessage (now : ℕ) (accountId message signature : String) :
    Except (Option ProofFailure) (String × ℕ × String) :=
  let parsed := viem.parseSiweMessage message
  match parsed.address, parsed.nonce, parsed.domain, parsed.chainId with
  | some address, some nonce, some domain, some chainId =>
    if address = "" ∨ nonce = "" ∨ domain = "" ∨ chainId = 0 ∨ ¬ isAddress address ∨
        ¬ (isHex signature ∧ 2 < signature.length) then .error (some .malformed)
    else if parsed.statement ≠ some STATEMENT then .error (some .malformed)
    else if domain ≠ options.domain then .error (some .wrongDomain)
    else if parsed.requestId ≠ some accountId then .error (some .wrongAccount)
    else if hasExpired now parsed.expirationTime then .error (some .expired)
    else
      match viem.createSiweMessage (canonicalFields options parsed (viem.checksumAddress address)) with
      | none => .error none
      | some canonical =>
        if canonical ≠ message then .error (some .malformed)
        else .ok (viem.checksumAddress address, chainId, nonce)
  | _, _, _, _ => .error (some .malformed)

def verifyWalletProof (now : ℕ) (accountId message signature : String) (rows : List (String × ℕ)) :
    Verdict × List (String × ℕ) :=
  match checkMessage viem options now accountId message signature with
  | .error (some reason) => (.fail reason, rows)
  | .error none => (.thrown, rows)
  | .ok (address, chainId, nonce) =>
    let consumed := consume now (nonceOf nonce) rows
    if consumed.1 then (verifySignature viem options now chainId address message signature, consumed.2)
    else (.fail .replayed, consumed.2)

/-- An answer of `verifyWalletProof` that accepts. -/
structure Proof where
  accountId : String
  message : String
  address : String
  time : ℕ
deriving DecidableEq

/-- The nonces that wait, and beside them all that were issued, the challenges returned and the proofs
accepted. -/
structure Server where
  rows : List (String × ℕ)
  issued : List String
  challenges : List Challenge
  proofs : List Proof

def Server.init : Server := ⟨[], [], [], []⟩

inductive Call where
  | issue (accountId address : String) (chainId : ℕ) (nonce : String)
  | verify (accountId message signature : String)

structure Move where
  now : ℕ
  call : Call

variable (storage : Storage)

def step (s : Server) (m : Move) : Server :=
  match m.call with
  | .issue accountId address chainId nonce =>
    match issueWalletChallenge viem options storage m.now accountId address chainId nonce s.rows with
    | (_, none) => s
    | (challenge, some rows) =>
      { s with
        rows
        issued := nonce :: s.issued
        challenges := s.challenges ++ challenge.toList }
  | .verify accountId message signature =>
    match verifyWalletProof viem options m.now accountId message signature s.rows with
    | (.ok address, rows) => { s with rows, proofs := s.proofs ++ [⟨accountId, message, address, m.now⟩] }
    | (_, rows) => { s with rows }

def serverAt (moves : List Move) : Server := moves.foldl (step viem options storage) .init

/-- The nonce that a message names. -/
def namedNonce (message : String) : Option String := (viem.parseSiweMessage message).nonce.bind nonceOf

/-- Nonces are drawn anew, and nobody names one that was not returned in a challenge. -/
def NonceUnguessable (s : Server) (m : Move) : Prop :=
  match m.call with
  | .issue _ _ _ nonce => nonce ∉ s.issued
  | .verify _ message _ =>
    ∀ nonce ∈ namedNonce viem message, nonce ∈ s.issued → nonce ∈ s.challenges.map (·.nonce)

/-- What a message says is what was said in the challenge whose nonce it names: the account, address, network,
URI and times, and nothing more. -/
def FieldsAsIssued (s : Server) (m : Move) : Prop :=
  match m.call with
  | .issue .. => True
  | .verify _ message _ =>
    ∀ c ∈ s.challenges, namedNonce viem message = some c.nonce → viem.parseSiweMessage message = c.fields

instance (s : Server) : (m : Move) → Decidable (NonceUnguessable viem s m)
  | ⟨_, .issue _ _ _ nonce⟩ => inferInstanceAs (Decidable (nonce ∉ s.issued))
  | ⟨_, .verify _ message _⟩ => inferInstanceAs (Decidable (∀ nonce ∈ namedNonce viem message,
      nonce ∈ s.issued → nonce ∈ s.challenges.map (·.nonce)))

instance (s : Server) : (m : Move) → Decidable (FieldsAsIssued viem s m)
  | ⟨_, .issue ..⟩ => .isTrue trivial
  | ⟨_, .verify _ message _⟩ => inferInstanceAs (Decidable (∀ c ∈ s.challenges,
      namedNonce viem message = some c.nonce → viem.parseSiweMessage message = c.fields))

/-- A checksummed address is an address, and its own checksum. -/
def Checksums : Prop :=
  ∀ a, isAddress a → isAddress (viem.checksumAddress a) ∧ viem.checksumAddress (viem.checksumAddress a) =
    viem.checksumAddress a

/-- Whatever verifies was signed by the holder of the address. -/
structure Unforgeable (Signs : String → String → Prop) : Prop where
  key : ∀ address message signature, viem.verifyMessage address message signature → Signs address message
  contract : ∀ verify ∈ options.verifyContract, ∀ now chainId address message signature,
    verify now chainId address message signature → Signs address message

/-- The proof is of a challenge that was returned, before it expired, by the holder of its address. -/
def Proof.Answers (p : Proof) (Signs : String → String → Prop) (c : Challenge) : Prop :=
  p.message = c.message ∧ p.accountId = c.accountId ∧ p.address = c.address ∧ Signs c.address c.message ∧
    p.time < c.expiresAt

end Proofs

section Specs

variable {viem : Viem} {options : WalletProofOptions} {storage : Storage} {now : ℕ} {rows rows' : List (String × ℕ)}

theorem consume_subset {nonce : Option String} {n : String}
    (h : n ∈ (consume now nonce rows).2.map Prod.fst) : n ∈ rows.map Prod.fst := by
  unfold consume at h
  split at h
  next => exact h
  next nonce =>
    split at h
    next => exact h
    next => exact List.map_subset _ List.filter_sublist.subset h

/-- A nonce that is accepted was waiting, and waits no longer. -/
theorem consume_accepts {nonce : Option String} (h : (consume now nonce rows).1 = true) :
    ∃ n, nonce = some n ∧ n ∈ rows.map Prod.fst ∧ n ∉ (consume now nonce rows).2.map Prod.fst := by
  cases nonce with
  | none => cases h
  | some n =>
    unfold consume at h ⊢
    dsimp only at h ⊢
    cases hfind : rows.find? (·.1 = n) with
    | none =>
      rw [hfind] at h
      cases h
    | some row =>
      have hkey := List.find?_some hfind
      rw [decide_eq_true_eq] at hkey
      refine ⟨n, rfl, hkey ▸ List.mem_map_of_mem (List.mem_of_find?_eq_some hfind), fun hin => ?_⟩
      obtain ⟨r, hr, heq⟩ := List.mem_map.1 hin
      have hne := (List.mem_filter.1 hr).2
      rw [decide_eq_true_eq] at hne
      exact hne heq

theorem mem_issueNonce {nonce n : String} (h : issueNonce storage now nonce rows = some rows')
    (hn : n ∈ rows'.map Prod.fst) : n ∈ rows.map Prod.fst ∨ n = nonce := by
  unfold issueNonce at h
  cases storage with
  | memory =>
    obtain rfl := Option.some.inj h
    exact mem_issueInMemory hn
  | postgres =>
    dsimp only at h
    split_ifs at h
    cases h
    have hadded := mem_pruneRows hn
    rw [List.map_append, List.mem_append] at hadded
    exact hadded.imp_right List.mem_singleton.1

/-- How a challenge was made. -/
structure Challenge.Made (viem : Viem) (options : WalletProofOptions) (c : Challenge) : Prop where
  address : ∃ address, isAddress address ∧ c.address = viem.checksumAddress address
  fields : ∃ now chainId, c.fields = challengeFields options now c.accountId c.address chainId c.nonce ∧
    c.expiresAt = now + CHALLENGE_TTL_MS
  message : viem.createSiweMessage c.fields = some c.message

theorem issue_spec {accountId address nonce : String} {chainId : ℕ} {challenge : Option Challenge}
    (h : issueWalletChallenge viem options storage now accountId address chainId nonce rows =
      (challenge, some rows')) : issueNonce storage now nonce rows = some rows' ∧
        ∀ c ∈ challenge, c.nonce = nonce ∧ c.Made viem options := by
  unfold issueWalletChallenge Viem.getAddress at h
  split at h
  next => cases h
  next checked hchecked =>
    split_ifs at hchecked with haddress
    cases hchecked
    split at h
    next => cases h
    next issued hissued =>
      dsimp only at h
      obtain ⟨hchallenge, hrows⟩ := Prod.mk.inj h
      cases hrows
      refine ⟨hissued, fun c hc => ?_⟩
      rw [← hchallenge] at hc
      obtain ⟨message, hmessage, rfl⟩ := Option.map_eq_some_iff.1 hc
      exact ⟨rfl, ⟨address, haddress, rfl⟩, ⟨now, chainId, rfl, rfl⟩, hmessage⟩

/-- What a message has been found to say when its nonce is taken. -/
structure Checked (viem : Viem) (options : WalletProofOptions) (now : ℕ) (accountId message checked nonce : String) :
    Prop where
  address : ∃ a, (viem.parseSiweMessage message).address = some a ∧ isAddress a ∧
    checked = viem.checksumAddress a
  nonce : (viem.parseSiweMessage message).nonce = some nonce
  account : (viem.parseSiweMessage message).requestId = some accountId
  fresh : hasExpired now (viem.parseSiweMessage message).expirationTime = false
  canonical : viem.createSiweMessage (canonicalFields options (viem.parseSiweMessage message) checked) = some message

theorem checkMessage_ok {accountId message signature address nonce : String} {chainId : ℕ}
    (h : checkMessage viem options now accountId message signature = .ok (address, chainId, nonce)) :
    Checked viem options now accountId message address nonce := by
  unfold checkMessage at h
  dsimp only at h
  split at h
  next a n domain c ha hn hdomain hc =>
    split_ifs at h with hmalformed hstatement hwrong haccount hexpired
    split at h
    next => cases h
    next canonical hcanonical =>
      split_ifs at h with hdiffers
      cases h
      push Not at hmalformed hdiffers haccount
      rw [hdiffers] at hcanonical
      rw [Bool.not_eq_true] at hexpired
      exact ⟨⟨a, ha, hmalformed.2.2.2.2.1, rfl⟩, hn, haccount, hexpired, hcanonical⟩
  next => cases h

theorem signs_of_verifySignature {Signs : String → String → Prop} (hunforgeable : Unforgeable viem options Signs)
    {chainId : ℕ} {address message signature returned : String}
    (h : verifySignature viem options now chainId address message signature = .ok returned) :
    returned = address ∧ Signs address message := by
  unfold verifySignature at h
  split_ifs at h with hkey
  · cases h
    exact ⟨rfl, hunforgeable.key _ _ _ hkey⟩
  · split at h
    next => cases h
    next verify hverify =>
      split_ifs at h with hcontract
      cases h
      exact ⟨rfl, hunforgeable.contract verify hverify _ _ _ _ _ hcontract⟩

theorem verify_spec {Signs : String → String → Prop} (hunforgeable : Unforgeable viem options Signs)
    (now : ℕ) (accountId message signature : String) (rows : List (String × ℕ)) :
    (∀ n ∈ (verifyWalletProof viem options now accountId message signature rows).2.map Prod.fst,
      n ∈ rows.map Prod.fst) ∧
    ∀ address, (verifyWalletProof viem options now accountId message signature rows).1 = .ok address →
      ∃ nonce n, Checked viem options now accountId message address nonce ∧ nonceOf nonce = some n ∧
        n ∈ rows.map Prod.fst ∧
        n ∉ (verifyWalletProof viem options now accountId message signature rows).2.map Prod.fst ∧
        Signs address message := by
  unfold verifyWalletProof
  cases hcheck : checkMessage viem options now accountId message signature with
  | error refusal =>
    cases refusal with
    | none => exact ⟨fun n hn => hn, fun address haddress => by cases haddress⟩
    | some reason => exact ⟨fun n hn => hn, fun address haddress => by cases haddress⟩
  | ok found =>
    obtain ⟨checked, chainId, nonce⟩ := found
    dsimp only
    split_ifs with hconsumed
    · refine ⟨fun n hn => consume_subset hn, fun address haddress => ?_⟩
      obtain ⟨rfl, hsigns⟩ := signs_of_verifySignature hunforgeable haddress
      obtain ⟨n, hnonce, hwaited, hgone⟩ := consume_accepts hconsumed
      exact ⟨nonce, n, checkMessage_ok hcheck, hnonce, hwaited, hgone, hsigns⟩
    · exact ⟨fun n hn => consume_subset hn, fun address haddress => by cases haddress⟩

end Specs

section Runs

variable {viem : Viem} {options : WalletProofOptions} {storage : Storage} {Signs : String → String → Prop}
  {s : Server} {m : Move}

/-- A nonce that was accepted waits no longer, and every proof answers a challenge of its own. -/
structure Inv (viem : Viem) (options : WalletProofOptions) (Signs : String → String → Prop) (s : Server) : Prop where
  rows : ∀ n ∈ s.rows.map Prod.fst, n ∈ s.issued
  made : ∀ c ∈ s.challenges, c.Made viem options
  spent : ∀ p ∈ s.proofs, ∃ n, namedNonce viem p.message = some n ∧ n ∈ s.issued ∧ n ∉ s.rows.map Prod.fst
  answers : ∀ p ∈ s.proofs, ∃ c ∈ s.challenges, p.Answers Signs c
  once : (s.proofs.map (·.message)).Nodup

/-- A message that says what its challenge said is that challenge. -/
theorem answers_of_checked (hchecksum : Checksums viem) {c : Challenge} (hmade : c.Made viem options)
    {now : ℕ} {accountId message address nonce : String}
    (hchecked : Checked viem options now accountId message address nonce)
    (hfields : viem.parseSiweMessage message = c.fields) (hsigns : Signs address message) :
    Proof.Answers ⟨accountId, message, address, now⟩ Signs c := by
  obtain ⟨⟨issuedTo, haddress, hissuedTo⟩, ⟨time, chainId, hmadeFields, hexpires⟩, hmessage⟩ := hmade
  obtain ⟨⟨a, ha, -, rfl⟩, -, haccount, hfresh, hcanonical⟩ := hchecked
  rw [hfields, hmadeFields] at ha haccount hfresh hcanonical
  have hsame : c.address = a := Option.some.inj ha
  have hchecked : viem.checksumAddress a = c.address := by
    rw [← hsame, hissuedTo, (hchecksum issuedTo haddress).2]
  have hcanonicalFields : canonicalFields options
      (challengeFields options time c.accountId c.address chainId c.nonce) c.address =
        challengeFields options time c.accountId c.address chainId c.nonce := rfl
  rw [hchecked, hcanonicalFields, ← hmadeFields, hmessage] at hcanonical
  have hequal : c.message = message := Option.some.inj hcanonical
  rw [hchecked] at hsigns
  refine ⟨hequal.symm, (Option.some.inj haccount).symm, hchecked, ?_, ?_⟩
  · rw [hequal]
    exact hsigns
  · have hlater : ¬ ((time + CHALLENGE_TTL_MS : ℤ) ≤ now) := of_decide_eq_false hfresh
    change now < c.expiresAt
    rw [hexpires]
    omega

theorem inv_issue (h : Inv viem options Signs s) {now : ℕ} {accountId address nonce : String} {chainId : ℕ}
    (hnew : nonce ∉ s.issued) :
    Inv viem options Signs (step viem options storage s ⟨now, .issue accountId address chainId nonce⟩) := by
  unfold step
  dsimp only
  split
  next => exact h
  next challenge rows hissue =>
    obtain ⟨hrows, hchallenge⟩ := issue_spec hissue
    constructor
    · intro n hn
      rcases mem_issueNonce hrows hn with hold | rfl
      · exact List.mem_cons_of_mem _ (h.rows n hold)
      · exact List.mem_cons_self ..
    · intro c hc
      rcases List.mem_append.1 hc with hold | hc
      · exact h.made c hold
      · exact (hchallenge c (Option.mem_toList.1 hc)).2
    · intro p hp
      obtain ⟨n, hnamed, hissued, hspent⟩ := h.spent p hp
      refine ⟨n, hnamed, List.mem_cons_of_mem _ hissued, fun hn => ?_⟩
      rcases mem_issueNonce hrows hn with hold | rfl
      · exact hspent hold
      · exact hnew hissued
    · intro p hp
      obtain ⟨c, hc, hanswers⟩ := h.answers p hp
      exact ⟨c, List.mem_append_left _ hc, hanswers⟩
    · exact h.once

theorem inv_verify (hchecksum : Checksums viem) (hunforgeable : Unforgeable viem options Signs)
    (h : Inv viem options Signs s) {now : ℕ} {accountId message signature : String}
    (hknown : ∀ nonce ∈ namedNonce viem message, nonce ∈ s.issued → nonce ∈ s.challenges.map (·.nonce))
    (hfields : ∀ c ∈ s.challenges, namedNonce viem message = some c.nonce → viem.parseSiweMessage message = c.fields) :
    Inv viem options Signs (step viem options storage s ⟨now, .verify accountId message signature⟩) := by
  obtain ⟨hfewer, haccepts⟩ := verify_spec hunforgeable now accountId message signature s.rows
  have hspent : ∀ p ∈ s.proofs, ∀ rows : List (String × ℕ), (∀ n ∈ rows.map Prod.fst, n ∈ s.rows.map Prod.fst) →
      ∃ n, namedNonce viem p.message = some n ∧ n ∈ s.issued ∧ n ∉ rows.map Prod.fst := by
    intro p hp rows hrows
    obtain ⟨n, hnamed, hissued, hgone⟩ := h.spent p hp
    exact ⟨n, hnamed, hissued, fun hn => hgone (hrows n hn)⟩
  unfold step
  dsimp only
  split
  next address rows hverify =>
    rw [hverify] at hfewer haccepts
    obtain ⟨nonce, n, hchecked, hnonce, hwaited, hgone, hsigns⟩ := haccepts address rfl
    have hnamed : namedNonce viem message = some n := by
      unfold namedNonce
      rw [hchecked.nonce]
      exact hnonce
    obtain ⟨c, hc, hcn⟩ := List.mem_map.1 (hknown n hnamed (h.rows n hwaited))
    have hanswers := answers_of_checked hchecksum (h.made c hc) hchecked
      (hfields c hc (by rw [hnamed, hcn])) hsigns
    constructor
    · exact fun n hn => h.rows n (hfewer n hn)
    · exact h.made
    · intro p hp
      rcases List.mem_append.1 hp with hold | hnew
      · exact hspent p hold rows hfewer
      · rw [List.mem_singleton.1 hnew]
        exact ⟨n, hnamed, h.rows n hwaited, hgone⟩
    · intro p hp
      rcases List.mem_append.1 hp with hold | hnew
      · exact h.answers p hold
      · rw [List.mem_singleton.1 hnew]
        exact ⟨c, hc, hanswers⟩
    · rw [List.map_append, List.map_singleton, List.nodup_append_comm]
      refine List.nodup_cons.2 ⟨fun hin => ?_, h.once⟩
      obtain ⟨p, hp, hsame⟩ := List.mem_map.1 hin
      -- the nonce of an earlier proof of the same message no longer waited
      obtain ⟨n', hnamed', -, hgone'⟩ := h.spent p hp
      rw [hsame, hnamed] at hnamed'
      rw [← Option.some.inj hnamed'] at hgone'
      exact hgone' hwaited
  next verdict rows _ hverify =>
    rw [hverify] at hfewer
    exact ⟨fun n hn => h.rows n (hfewer n hn), h.made, fun p hp => hspent p hp rows hfewer, h.answers, h.once⟩

end Runs

section Example

/-- `toISOString` of the times below. -/
def isoTime (t : ℤ) : String :=
  if t = 0 then "1970-01-01T00:00:00.000Z"
  else if t = 300000 then "1970-01-01T00:05:00.000Z" else "1970-01-11T00:00:00.000Z"

/-- A message as the library renders it, of fields without scheme, start time and resources. -/
def render (m : SiweMessage) : Option String := do
  let domain ← m.domain
  let address ← m.address
  let statement ← m.statement
  let uri ← m.uri
  let version ← m.version
  let chainId ← m.chainId
  let nonce ← m.nonce
  let requestId ← m.requestId
  let issuedAt ← m.issuedAt.join
  let expirationTime ← m.expirationTime.join
  pure (domain ++ " wants you to sign in with your Ethereum account:\n" ++ address ++ "\n\n" ++ statement ++
    "\n\nURI: " ++ uri ++ "\nVersion: " ++ version ++ "\nChain ID: " ++ Nat.repr chainId ++ "\nNonce: " ++ nonce ++
    "\nIssued At: " ++ isoTime issuedAt ++ "\nExpiration Time: " ++ isoTime expirationTime ++
    "\nRequest ID: " ++ requestId)

def exampleOptions : WalletProofOptions := ⟨"linvesther.test", "https://linvesther.test", none⟩

def exampleNonce : String := "abcdefghijklmnopqrstuvwxyzABCDEFGHIJKLMNOPQ"

def holder : String := "0x1111111111111111111111111111111111111111"

def other : String := "0x3333333333333333333333333333333333333333"

def issuedFields : SiweMessage := challengeFields exampleOptions 0 "0x2222_main" holder 8453 exampleNonce

/-- The nonce of that challenge, in a message of another holder for another account, network and page, that
lasts ten days. -/
def otherFields : SiweMessage :=
  { issuedFields with
    address := some other
    uri := some "https://elsewhere.test"
    chainId := some 1
    requestId := some "0x4444_main"
    expirationTime := some (some 864000000) }

/-- Both messages are read back, and each holder has signed one. -/
def exampleViem : Viem where
  checksumAddress a := a
  createSiweMessage := render
  parseSiweMessage message :=
    if render issuedFields = some message then issuedFields
    else if render otherFields = some message then otherFields
    else ⟨none, none, none, none, none, none, none, none, none, none, none, none, none⟩
  verifyMessage address message signature :=
    signature = "0x01" ∧ (address = holder ∧ render issuedFields = some message ∨
      address = other ∧ render otherFields = some message)

def issueMove : Move := ⟨0, .issue "0x2222_main" holder 8453 exampleNonce⟩

def answerMoves (accountId : String) (fields : SiweMessage) : List Move :=
  [issueMove, ⟨1000, .verify accountId ((render fields).getD "") "0x01"⟩]

end Example

end Linvesther.Api.WalletProof
