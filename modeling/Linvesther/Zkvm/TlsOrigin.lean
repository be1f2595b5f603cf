import Linvesther.Zkvm.Performance

/-! The TLS origin guest: what the wallet signs of a session. The signed bytes are the fields one after
the other, with nothing between them. -/

namespace Linvesther.TlsOrigin

open Transaction Commitments

abbrev Bytes := Commitments.Bytes

section Session

abbrev Address := {bytes : Bytes // bytes.length = 20}

structure TlsSessionReceipt where
  serverName : String
  requestMethod : String
  requestPath : String
  requestQuery : String
  responseStatus : UInt16
  responseBodyHash : Digest
  disclosedFields : List String
  walletBindingSignature : Bytes
  walletAddress : Address
deriving DecidableEq

/-- What `binding_digest` feeds the hasher. -/
def TlsSessionReceipt.bindingPreimage (r : TlsSessionReceipt) : Bytes :=
  asBytes r.serverName ++ asBytes r.requestMethod ++ asBytes r.requestPath ++
    asBytes r.requestQuery ++ toBeBytes 2 r.responseStatus.toNat ++ r.responseBodyHash.1 ++
    (r.disclosedFields.map asBytes).flatten ++ r.walletAddress.1

def REQUIRED_DISCLOSED_CATEGORIES : List String :=
  ["wallet_selector", "symbol", "filter", "type", "time_window", "error", "relevant_count"]

inductive SessionError where
  | hostnameMismatch
  | redactionHidesRequiredField
  | walletBindingInvalid
  | rawNotBoundToInput
deriving DecidableEq

def verifySessionShape (receipt : TlsSessionReceipt) (expectedHostname : String) :
    Except SessionError Unit := do
  revertIf (receipt.serverName ≠ expectedHostname) .hostnameMismatch
  REQUIRED_DISCLOSED_CATEGORIES.forM fun category =>
    revertIf (category ∉ receipt.disclosedFields) .redactionHidesRequiredField

variable {VerifyingKey Signature : Type} (crypto : Performance.Crypto VerifyingKey Signature)

def TlsSessionReceipt.bindingDigest (r : TlsSessionReceipt) : Digest :=
  crypto.sha256 r.bindingPreimage

def verifyWalletBinding (receipt : TlsSessionReceipt) (verifyingKeySec1 : Bytes) :
    Except SessionError Unit :=
  match crypto.fromSec1Bytes verifyingKeySec1 with
  | none => .error .walletBindingInvalid
  | some verifyingKey =>
    match crypto.fromSlice receipt.walletBindingSignature with
    | none => .error .walletBindingInvalid
    | some signature =>
      revertIf (crypto.verify verifyingKey (receipt.bindingDigest crypto).1 signature = false)
        .walletBindingInvalid

def verifyRawBoundToInput (receipt : TlsSessionReceipt) (normalizedInputBytes : Bytes) :
    Except SessionError Unit :=
  revertIf (crypto.sha256 normalizedInputBytes ≠ receipt.responseBodyHash) .rawNotBoundToInput

structure GuestInput where
  receipt : TlsSessionReceipt
  verifyingKeySec1 : Bytes
  normalizedInputBytes : Bytes
  expectedHostname : String
  originVerifiedInGuest : Bool

inductive OriginBadge where
  | a1
  | bridgeAttested
deriving DecidableEq

structure GuestOutput where
  badge : OriginBadge
  normalizedInputDigest : Digest
deriving DecidableEq

def run (input : GuestInput) : Except SessionError GuestOutput :=
  if !input.originVerifiedInGuest then
    .ok ⟨.bridgeAttested, crypto.sha256 input.normalizedInputBytes⟩
  else do
    verifySessionShape input.receipt input.expectedHostname
    verifyWalletBinding crypto input.receipt input.verifyingKeySec1
    verifyRawBoundToInput crypto input.receipt input.normalizedInputBytes
    pure ⟨.a1, crypto.sha256 input.normalizedInputBytes⟩

end Session

section Boundaries

/-- The fields that the wallet signs. -/
def TlsSessionReceipt.bound (r : TlsSessionReceipt) : TlsSessionReceipt :=
  { r with walletBindingSignature := [] }

/-- How many bytes each field of variable length takes. -/
structure Shape where
  serverName : ℕ
  requestMethod : ℕ
  requestPath : ℕ
  requestQuery : ℕ
  disclosedFields : List ℕ
deriving DecidableEq

def Shape.size (s : Shape) : ℕ :=
  s.serverName + s.requestMethod + s.requestPath + s.requestQuery + s.disclosedFields.sum

def TlsSessionReceipt.shape (r : TlsSessionReceipt) : Shape where
  serverName := (asBytes r.serverName).length
  requestMethod := (asBytes r.requestMethod).length
  requestPath := (asBytes r.requestPath).length
  requestQuery := (asBytes r.requestQuery).length
  disclosedFields := r.disclosedFields.map fun f => (asBytes f).length

theorem length_bindingPreimage (r : TlsSessionReceipt) :
    r.bindingPreimage.length = r.shape.size + 54 := by
  have hstatus := length_toBeBytes 2 r.responseStatus.toNat
  have hhash := r.responseBodyHash.2
  have hwallet := r.walletAddress.2
  have hfields : (r.disclosedFields.map asBytes).flatten.length =
      (r.disclosedFields.map fun f => (asBytes f).length).sum := by
    rw [List.length_flatten, List.map_map]
    rfl
  simp only [TlsSessionReceipt.bindingPreimage, List.length_append, hstatus, hhash, hwallet, hfields,
    Shape.size, TlsSessionReceipt.shape]
  omega

theorem toBeBytes_status_injective {x y : UInt16} (h : toBeBytes 2 x.toNat = toBeBytes 2 y.toNat) :
    x = y :=
  UInt16.toNat_inj.1 (toBeBytes_injective x.toNat_lt y.toNat_lt h)

/-- Where the boundaries are the same, the bytes tell the fields. -/
theorem bound_eq_of_shape {r r' : TlsSessionReceipt} (hshape : r.shape = r'.shape)
    (h : r.bindingPreimage = r'.bindingPreimage) : r.bound = r'.bound := by
  simp only [TlsSessionReceipt.shape, Shape.mk.injEq] at hshape
  obtain ⟨hserver, hmethod, hpath, hquery, hfields⟩ := hshape
  simp only [TlsSessionReceipt.bindingPreimage, List.append_assoc] at h
  obtain ⟨h₁, h⟩ := List.append_inj h hserver
  obtain ⟨h₂, h⟩ := List.append_inj h hmethod
  obtain ⟨h₃, h⟩ := List.append_inj h hpath
  obtain ⟨h₄, h⟩ := List.append_inj h hquery
  obtain ⟨h₅, h⟩ := List.append_inj h (by simp)
  obtain ⟨h₆, h⟩ := List.append_inj h (by rw [r.responseBodyHash.2, r'.responseBodyHash.2])
  obtain ⟨h₇, h₈⟩ := List.append_inj' h
    (by rw [r.walletAddress.2, r'.walletAddress.2])
  have hdisclosed : r.disclosedFields = r'.disclosedFields := by
    have hmap : r.disclosedFields.map asBytes = r'.disclosedFields.map asBytes := by
      rw [List.eq_iff_flatten_eq, List.map_map, List.map_map]
      exact ⟨h₇, hfields⟩
    exact List.map_injective_iff.2 asBytes_injective hmap
  cases r
  cases r'
  simp only [TlsSessionReceipt.bound, TlsSessionReceipt.mk.injEq]
  exact ⟨asBytes_injective h₁, asBytes_injective h₂, asBytes_injective h₃, asBytes_injective h₄,
    toBeBytes_status_injective h₅, Subtype.ext h₆, hdisclosed, trivial, Subtype.ext h₈⟩

theorem asBytes_append (s t : String) : asBytes (s ++ t) = asBytes s ++ asBytes t := by
  unfold asBytes
  rw [String.toUTF8_eq_toByteArray, String.toByteArray_append]
  simp

/-- A text of `n` bytes, all zero. -/
def zeros (n : ℕ) : String := String.ofList (List.replicate n '\x00')

theorem asBytes_zeros (n : ℕ) : asBytes (zeros n) = List.replicate n 0 := by
  unfold zeros
  induction n with
  | zero => rfl
  | succ n ih =>
    have hsplit : List.replicate (n + 1) '\x00' = ['\x00'] ++ List.replicate n '\x00' :=
      List.replicate_succ
    have hone : asBytes (String.ofList ['\x00']) = [0] := by decide
    rw [hsplit, String.ofList_append, asBytes_append, ih, hone]
    rfl

/-- The receipt of the given shape whose bytes are all zero. -/
def blank (s : Shape) : TlsSessionReceipt where
  serverName := zeros s.serverName
  requestMethod := zeros s.requestMethod
  requestPath := zeros s.requestPath
  requestQuery := zeros s.requestQuery
  responseStatus := 0
  responseBodyHash := ⟨List.replicate 32 0, List.length_replicate⟩
  disclosedFields := s.disclosedFields.map zeros
  walletBindingSignature := []
  walletAddress := ⟨List.replicate 20 0, List.length_replicate⟩

theorem blank_shape (s : Shape) : (blank s).shape = s := by
  have hfields : (s.disclosedFields.map zeros).map (fun f => (asBytes f).length) =
      s.disclosedFields := by
    simp [asBytes_zeros, Function.comp_def]
  simp only [TlsSessionReceipt.shape, blank, asBytes_zeros, List.length_replicate, hfields]

theorem blank_bindingPreimage (s : Shape) :
    (blank s).bindingPreimage = List.replicate (s.size + 54) 0 := by
  rw [List.eq_replicate_iff, length_bindingPreimage, blank_shape]
  refine ⟨rfl, fun b hb => ?_⟩
  have hstatus : toBeBytes 2 (0 : UInt16).toNat = [0, 0] := by decide
  have hfields : b ∈ ((s.disclosedFields.map zeros).map asBytes).flatten → b = 0 := by
    intro hmem
    rw [List.map_map, List.mem_flatten] at hmem
    obtain ⟨l, hl, hbl⟩ := hmem
    obtain ⟨n, -, rfl⟩ := List.mem_map.1 hl
    rw [Function.comp_apply, asBytes_zeros] at hbl
    exact List.eq_of_mem_replicate hbl
  simp only [TlsSessionReceipt.bindingPreimage, blank, asBytes_zeros, hstatus, List.mem_append,
    List.mem_replicate] at hb
  rcases hb with ((((((h | h) | h) | h) | h) | h) | h) | h
  · exact h.2
  · exact h.2
  · exact h.2
  · exact h.2
  · simpa using h
  · exact h.2
  · exact hfields h
  · exact h.2

/-- The signed bytes tell the receipts of two shapes apart if and only if the shapes are the same or
differ in their sizes. -/
theorem binding_injective_iff (σ τ : Shape) :
    (∀ r r' : TlsSessionReceipt, r.shape = σ → r'.shape = τ →
      r.bindingPreimage = r'.bindingPreimage → r.bound = r'.bound) ↔ σ = τ ∨ σ.size ≠ τ.size := by
  constructor
  · intro hinj
    by_contra hneither
    push Not at hneither
    obtain ⟨hne, hsize⟩ := hneither
    have hbytes : (blank σ).bindingPreimage = (blank τ).bindingPreimage := by
      rw [blank_bindingPreimage, blank_bindingPreimage, hsize]
    have hbound := hinj _ _ (blank_shape σ) (blank_shape τ) hbytes
    have hshape : (blank σ).bound.shape = (blank τ).bound.shape := by rw [hbound]
    exact hne ((blank_shape σ).symm.trans (hshape.trans (blank_shape τ)))
  · rintro (rfl | hsize) r r' hr hr' h
    · exact bound_eq_of_shape (hr.trans hr'.symm) h
    · have hlength := congrArg List.length h
      rw [length_bindingPreimage, length_bindingPreimage, hr, hr'] at hlength
      omega

end Boundaries

section Moved

/-- The receipt with its query as part of its path. -/
def TlsSessionReceipt.moveQuery (r : TlsSessionReceipt) : TlsSessionReceipt :=
  { r with requestPath := r.requestPath ++ r.requestQuery, requestQuery := "" }

theorem moveQuery_bindingPreimage (r : TlsSessionReceipt) :
    r.moveQuery.bindingPreimage = r.bindingPreimage := by
  have hempty : asBytes "" = [] := by decide
  simp only [TlsSessionReceipt.bindingPreimage, TlsSessionReceipt.moveQuery, asBytes_append, hempty,
    List.append_assoc, List.nil_append]

/-- The guest cannot tell a receipt from the same receipt with its query moved. -/
theorem run_moveQuery {VerifyingKey Signature : Type}
    (crypto : Performance.Crypto VerifyingKey Signature) (input : GuestInput) :
    run crypto { input with receipt := input.receipt.moveQuery } = run crypto input := by
  unfold run verifyWalletBinding TlsSessionReceipt.bindingDigest
  rw [moveQuery_bindingPreimage]
  rfl

def exampleReceipt : TlsSessionReceipt where
  serverName := "api.binance.com"
  requestMethod := "GET"
  requestPath := "/api/v3/myTrades"
  requestQuery := "symbol=BTCUSDT"
  responseStatus := 200
  responseBodyHash := .ofNat 7
  disclosedFields := REQUIRED_DISCLOSED_CATEGORIES
  walletBindingSignature := toBeBytes 64 1
  walletAddress := ⟨toBeBytes 20 9, length_toBeBytes 20 9⟩

/-- Two receipts that pass the shape check and differ in path and query have the same signed bytes. -/
theorem moved_query_collides :
    verifySessionShape exampleReceipt "api.binance.com" = .ok () ∧
    verifySessionShape exampleReceipt.moveQuery "api.binance.com" = .ok () ∧
    exampleReceipt.bindingPreimage = exampleReceipt.moveQuery.bindingPreimage ∧
    exampleReceipt.bound ≠ exampleReceipt.moveQuery.bound := by
  refine ⟨by decide, by decide, (moveQuery_bindingPreimage _).symm, fun h => ?_⟩
  have hquery : exampleReceipt.requestQuery = "" := congrArg TlsSessionReceipt.requestQuery h
  exact absurd hquery (by decide)

end Moved

end Linvesther.TlsOrigin
