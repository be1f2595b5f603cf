import Linvesther.Base.Transaction

/-! `framing.rs`: domain-separated hashing. Every component is written after its length, so no bytes
can be read as two different tags or field lists. -/

namespace Linvesther.Commitments

open Transaction

abbrev Bytes := List UInt8

/-- A 32-byte hash value. -/
abbrev Digest := {bytes : Bytes // bytes.length = 32}

section BigEndian

/-- The last `k` bytes of `n`, the most significant first. -/
def toBeBytes : ℕ → ℕ → Bytes
  | 0, _ => []
  | k + 1, n => toBeBytes k (n / 256) ++ [UInt8.ofNat n]

@[simp] theorem length_toBeBytes (k n : ℕ) : (toBeBytes k n).length = k := by
  induction k generalizing n with
  | zero => rfl
  | succ k ih => simp [toBeBytes, ih]

theorem toBeBytes_injective {k n m : ℕ} (hn : n < 256 ^ k) (hm : m < 256 ^ k)
    (h : toBeBytes k n = toBeBytes k m) : n = m := by
  induction k generalizing n m with
  | zero =>
    rw [pow_zero] at hn hm
    omega
  | succ k ih =>
    rw [pow_succ] at hn hm
    obtain ⟨hinit, hlast⟩ := List.append_inj h (by simp)
    have hdiv : n / 256 = m / 256 := ih (by omega) (by omega) hinit
    have hmod : n % 256 = m % 256 := by
      have := congrArg UInt8.toNat (List.singleton_inj.1 hlast)
      simpa using this
    omega

/-- The hash value that reads as the given number. -/
def Digest.ofNat (n : ℕ) : Digest := ⟨toBeBytes 32 n, length_toBeBytes 32 n⟩

end BigEndian

section Frames

inductive FramingError where
  | tagTooLong (len : ℕ)
  | fieldTooLong (len : ℕ)
deriving DecidableEq

/-- A length as a prefix of the given width. -/
def encodeLen (width : ℕ) (tooLong : ℕ → FramingError) (len : ℕ) : Except FramingError Bytes :=
  if len < 256 ^ width then .ok (toBeBytes width len) else .error (tooLong len)

def encodeLenU32 (len : ℕ) : Except FramingError Bytes := encodeLen 4 .tagTooLong len

def encodeLenU64 (len : ℕ) : Except FramingError Bytes := encodeLen 8 .fieldTooLong len

def encodeFields : List Bytes → Except FramingError Bytes
  | [] => pure []
  | field :: fields => do
    let len ← encodeLenU64 field.length
    let rest ← encodeFields fields
    pure (len ++ field ++ rest)

/-- The bytes of a tag. -/
def asBytes (tag : String) : Bytes := tag.toUTF8.data.toList

/-- What `frame_hash` feeds the hasher. -/
def frame (tag : String) (fields : List Bytes) : Except FramingError Bytes := do
  let len ← encodeLenU32 (asBytes tag).length
  let rest ← encodeFields fields
  pure (len ++ asBytes tag ++ rest)

def frameHash (sha256 : Bytes → Digest) (tag : String) (fields : List Bytes) :
    Except FramingError Digest := do
  let bytes ← frame tag fields
  pure (sha256 bytes)

theorem encodeLen_ok {width : ℕ} {tooLong : ℕ → FramingError} {len : ℕ} {bytes : Bytes} :
    encodeLen width tooLong len = .ok bytes ↔ len < 256 ^ width ∧ bytes = toBeBytes width len := by
  unfold encodeLen
  split_ifs with h
  · exact ⟨fun hok => ⟨h, (Except.ok.inj hok).symm⟩, fun hbytes => by rw [hbytes.2]⟩
  · exact ⟨fun hok => (by cases hok), fun hbytes => absurd hbytes.1 h⟩

theorem asBytes_injective : Function.Injective asBytes := fun _ _ h =>
  String.toByteArray_inj.1 (ByteArray.ext (Array.toList_inj.1 h))

theorem encodeFields_unambiguous {fields fields' : List Bytes} {bytes : Bytes}
    (h : encodeFields fields = .ok bytes) (h' : encodeFields fields' = .ok bytes) :
    fields = fields' := by
  induction fields generalizing fields' bytes with
  | nil =>
    simp only [encodeFields, pure_ok] at h
    subst h
    cases fields' with
    | nil => rfl
    | cons field' fields' =>
      simp only [encodeFields, encodeLenU64, bind_ok, encodeLen_ok, pure_ok] at h'
      obtain ⟨len, ⟨-, rfl⟩, rest, -, h'⟩ := h'
      have := congrArg List.length h'
      simp at this
  | cons field fields ih =>
    simp only [encodeFields, encodeLenU64, bind_ok, encodeLen_ok, pure_ok] at h
    obtain ⟨len, ⟨hlen, rfl⟩, rest, hrest, rfl⟩ := h
    cases fields' with
    | nil =>
      simp only [encodeFields, pure_ok] at h'
      have := congrArg List.length h'
      simp only [List.length_append, length_toBeBytes, List.length_nil] at this
      omega
    | cons field' fields' =>
      simp only [encodeFields, encodeLenU64, bind_ok, encodeLen_ok, pure_ok, List.append_assoc] at h'
      obtain ⟨len', ⟨hlen', rfl⟩, rest', hrest', h'⟩ := h'
      -- Equal lengths come first, and so the fields end at the same place.
      obtain ⟨hbytes, h'⟩ := List.append_inj h' (by simp)
      have hlength := toBeBytes_injective hlen' hlen hbytes
      obtain ⟨rfl, rfl⟩ := List.append_inj h' hlength
      rw [ih hrest hrest']

/-- Bytes that were framed tell the tag and the fields they were framed from. -/
theorem frame_unambiguous {tag tag' : String} {fields fields' : List Bytes} {bytes : Bytes}
    (h : frame tag fields = .ok bytes) (h' : frame tag' fields' = .ok bytes) :
    tag = tag' ∧ fields = fields' := by
  simp only [frame, encodeLenU32, bind_ok, encodeLen_ok, pure_ok] at h h'
  obtain ⟨len, ⟨hlen, rfl⟩, rest, hrest, rfl⟩ := h
  obtain ⟨len', ⟨hlen', rfl⟩, rest', hrest', h'⟩ := h'
  simp only [List.append_assoc] at h'
  obtain ⟨hbytes, h'⟩ := List.append_inj h' (by simp)
  have hlength := toBeBytes_injective hlen' hlen hbytes
  obtain ⟨htag, rfl⟩ := List.append_inj h' hlength
  exact ⟨asBytes_injective htag.symm, encodeFields_unambiguous hrest hrest'⟩

theorem forall_mem_pair {p : Bytes → Prop} {a b : Bytes} (ha : p a) (hb : p b) :
    ∀ field ∈ [a, b], p field := by
  simp [ha, hb]

/-- The framed bytes, where every length fits its prefix. -/
def framed (tag : String) (fields : List Bytes) : Bytes := (frame tag fields).toOption.getD []

theorem frame_eq {tag : String} {fields : List Bytes} (htag : (asBytes tag).length < 256 ^ 4)
    (hfields : ∀ field ∈ fields, field.length < 256 ^ 8) :
    frame tag fields = .ok (framed tag fields) := by
  have hrest : ∃ rest, encodeFields fields = .ok rest := by
    induction fields with
    | nil => exact ⟨[], rfl⟩
    | cons field fields ih =>
      obtain ⟨rest, hrest⟩ := ih fun f hf => hfields f (List.mem_cons_of_mem _ hf)
      have hlen : encodeLen 8 .fieldTooLong field.length = .ok (toBeBytes 8 field.length) :=
        encodeLen_ok.2 ⟨hfields field List.mem_cons_self, rfl⟩
      refine ⟨toBeBytes 8 field.length ++ field ++ rest, ?_⟩
      rw [encodeFields, encodeLenU64, hlen, hrest]
      rfl
  obtain ⟨rest, hrest⟩ := hrest
  have hframe : frame tag fields =
      .ok (toBeBytes 4 (asBytes tag).length ++ asBytes tag ++ rest) := by
    rw [frame, encodeLenU32, encodeLen_ok.2 ⟨htag, rfl⟩, hrest]
    rfl
  rw [framed, hframe]
  rfl

end Frames

section Preimages

variable {tag : String} {fields : List Bytes}

/-- The bytes that are hashed, if the tag and the fields are not refused. -/
def preimage (tag : String) (fields : List Bytes) : Option Bytes := (frame tag fields).toOption

theorem frameHash_preimage (sha256 : Bytes → Digest) (tag : String) (fields : List Bytes) :
    (frameHash sha256 tag fields).toOption = (preimage tag fields).map sha256 := by
  unfold frameHash preimage
  cases frame tag fields with
  | error e => rfl
  | ok bytes => rfl

theorem preimage_eq_some {bytes : Bytes} : preimage tag fields = some bytes ↔ frame tag fields = .ok bytes := by
  unfold preimage
  cases frame tag fields with
  | error e => exact iff_of_false nofun nofun
  | ok framed => simp [Except.toOption]

theorem length_lt_of_encodeFields {bytes : Bytes} (h : encodeFields fields = .ok bytes) :
    ∀ field ∈ fields, field.length < 256 ^ 8 := by
  induction fields generalizing bytes with
  | nil => exact fun field hfield => absurd hfield List.not_mem_nil
  | cons field fields ih =>
    simp only [encodeFields, encodeLenU64, bind_ok, encodeLen_ok, pure_ok] at h
    obtain ⟨len, ⟨hlen, -⟩, rest, hrest, -⟩ := h
    exact List.forall_mem_cons.2 ⟨hlen, ih hrest⟩

/-- Only lengths that have no room in their prefix are refused. -/
theorem preimage_isSome_iff :
    (preimage tag fields).isSome ↔ (asBytes tag).length < 2 ^ 32 ∧ ∀ field ∈ fields, field.length < 2 ^ 64 := by
  have htagPrefix : 256 ^ 4 = 2 ^ 32 := by norm_num
  have hfieldPrefix : 256 ^ 8 = 2 ^ 64 := by norm_num
  rw [Option.isSome_iff_exists, ← htagPrefix, ← hfieldPrefix]
  constructor
  · rintro ⟨bytes, h⟩
    rw [preimage_eq_some] at h
    simp only [frame, encodeLenU32, bind_ok, encodeLen_ok, pure_ok] at h
    obtain ⟨len, ⟨htag, -⟩, rest, hrest, -⟩ := h
    exact ⟨htag, length_lt_of_encodeFields hrest⟩
  · intro h
    exact ⟨_, preimage_eq_some.2 (frame_eq h.1 h.2)⟩

/-- Bytes that are hashed for a tag and fields are hashed for no other tag or fields: not for another tag, not after bytes
moved from one field to the next, and not after a field was split or two were merged. -/
structure Unambiguous (hashed : String → List Bytes → Option Bytes) : Prop where
  defined : ∀ tag fields, (hashed tag fields).isSome ↔
    (asBytes tag).length < 2 ^ 32 ∧ ∀ field ∈ fields, field.length < 2 ^ 64
  injective : ∀ tag fields tag' fields' bytes, hashed tag fields = some bytes → hashed tag' fields' = some bytes →
    tag = tag' ∧ fields = fields'
  retagged : ∀ tag tag' fields fields' bytes, tag ≠ tag' → hashed tag fields = some bytes →
    hashed tag' fields' ≠ some bytes
  moved : ∀ tag lo hi a b c bytes, b ≠ [] → hashed tag (lo ++ (a ++ b) :: c :: hi) = some bytes →
    hashed tag (lo ++ a :: (b ++ c) :: hi) ≠ some bytes
  split : ∀ tag lo hi a b bytes, hashed tag (lo ++ (a ++ b) :: hi) = some bytes →
    hashed tag (lo ++ a :: b :: hi) ≠ some bytes

theorem frameHash_injective (sha256 : Bytes → Digest) :
    (∀ tag fields, (frameHash sha256 tag fields).toOption = (preimage tag fields).map sha256) ∧ Unambiguous preimage := by
  have hinjective : ∀ tag fields tag' fields' bytes, preimage tag fields = some bytes →
      preimage tag' fields' = some bytes → tag = tag' ∧ fields = fields' := by
    intro tag fields tag' fields' bytes h h'
    exact frame_unambiguous (preimage_eq_some.1 h) (preimage_eq_some.1 h')
  refine ⟨frameHash_preimage sha256, fun tag fields => preimage_isSome_iff, hinjective, ?_, ?_, ?_⟩
  · intro tag tag' fields fields' bytes hne h h'
    exact hne (hinjective _ _ _ _ _ h h').1
  · intro tag lo hi a b c bytes hne h h'
    have hfields := List.append_cancel_left (hinjective _ _ _ _ _ h h').2
    rw [List.cons.injEq, List.append_right_eq_self] at hfields
    exact hne hfields.1
  · intro tag lo hi a b bytes h h'
    have hlength := congrArg List.length (hinjective _ _ _ _ _ h h').2
    simp at hlength

end Preimages

end Linvesther.Commitments
