import Linvesther.Worker.Crypto

/-! Keys are rotated, and what was written before is still read: a field of the current format for its own context
only, a field of the earlier format for any. -/

namespace Linvesther.Worker

open Collector (Key Nonce)

section Rotation

/-- The current key becomes a previous one; which of the older ones stay is up to the operator. -/
def MasterKey.rotate (key : MasterKey) (next : Key) (kept : List Key) : MasterKey := ⟨next, key.current :: kept⟩

def MasterKey.rotateAll (key : MasterKey) (rotations : List (Key × List Key)) : MasterKey :=
  rotations.foldl (fun key r => key.rotate r.1 r.2) key

/-- What the earlier format wrote: no marker, no context. -/
def encryptLegacy (aead : Aead) (key : MasterKey) (nonce : Nonce) (plaintext : String) : Option EncryptedField :=
  (aead.sealed key.current nonce (asBytes plaintext) []).map fun ciphertext => ⟨ciphertext, nonce.val⟩

/-- Only what was sealed opens, and a ciphertext tells its key, its nonce and its context; none is another one with
two bytes in front. -/
structure Aead.Perfect (aead : Aead) : Prop where
  ideal : aead.Ideal
  authentic : ∀ {key nonce ciphertext aad msg}, aead.opened key nonce ciphertext aad = some msg →
    aead.sealed key nonce msg aad = some ciphertext
  binding : ∀ {key nonce msg aad key' nonce' msg' aad' ciphertext}, aead.sealed key nonce msg aad = some ciphertext →
    aead.sealed key' nonce' msg' aad' = some ciphertext → key = key' ∧ nonce = nonce' ∧ aad = aad'
  unextended : ∀ {key nonce msg aad key' nonce' msg' aad' ciphertext marker label},
    aead.sealed key nonce msg aad = some ciphertext →
      aead.sealed key' nonce' msg' aad' ≠ some (marker :: label :: ciphertext)

end Rotation

section Reading

variable {aead : Aead} {key writer : MasterKey} {nonce nonce' : Nonce} {plaintext context : String} {e : EncryptedField}

theorem asBytes_injective : Function.Injective asBytes := by
  intro text text' h
  have hread := congrArg fromUtf8 h
  rw [fromUtf8_asBytes, fromUtf8_asBytes, Option.some.injEq] at hread
  exact hread

theorem mem_labelledFirst {label : UInt8} {k : Key} : k ∈ labelledFirst aead key label ↔ k ∈ key.all := by
  unfold labelledFirst
  rw [List.mem_append, List.mem_filter, List.mem_filter]
  by_cases hlabel : aead.keyId k = label <;> simp [hlabel]

/-- Whatever keys are tried, it is the one that sealed that opens. -/
theorem openWith_sealed (h : aead.Perfect) {k : Key} {keys : List Key} (hk : k ∈ keys)
    {msg aad ciphertext : Collector.Bytes} (hsealed : aead.sealed k nonce msg aad = some ciphertext) :
    openWith aead keys nonce ciphertext aad = some msg := by
  obtain ⟨ciphertext', hsealed', -, hopened⟩ := h.ideal k nonce msg aad
  rw [hsealed, Option.some.injEq] at hsealed'
  subst hsealed'
  unfold openWith
  induction keys with
  | nil => cases hk
  | cons k' keys ih =>
    rw [List.findSome?_cons]
    cases hother : aead.opened k' nonce ciphertext aad with
    | some msg' =>
      obtain ⟨rfl, -, -⟩ := h.binding hsealed (h.authentic hother)
      exact hother.symm.trans hopened
    | none =>
      refine ih ((List.mem_cons.1 hk).resolve_left ?_)
      rintro rfl
      rw [hopened] at hother
      cases hother

/-- What was never sealed for the context does not open. -/
theorem openWith_eq_none (h : aead.Perfect) (keys : List Key) {aad ciphertext : Collector.Bytes}
    (hnever : ∀ k msg, aead.sealed k nonce msg aad ≠ some ciphertext) :
    openWith aead keys nonce ciphertext aad = none := by
  unfold openWith
  rw [List.findSome?_eq_none_iff]
  intro k _
  cases hopened : aead.opened k nonce ciphertext aad with
  | none => rfl
  | some msg => exact absurd (h.authentic hopened) (hnever k msg)

theorem encrypt_eq_some (h : aead.Ideal) (he : encrypt aead writer nonce plaintext context = some e) :
    ∃ byte rest, aead.sealed writer.current nonce (asBytes plaintext) (asBytes context) = some (byte :: rest) ∧
      e = ⟨FORMAT_V2 :: aead.keyId writer.current :: byte :: rest, nonce.val⟩ := by
  obtain ⟨ciphertext, hsealed, hnonempty, -⟩ :=
    h writer.current nonce (asBytes plaintext) (asBytes context)
  obtain ⟨byte, rest, rfl⟩ := List.exists_cons_of_ne_nil hnonempty
  unfold encrypt at he
  rw [hsealed] at he
  exact ⟨byte, rest, hsealed, (Option.some.inj he).symm⟩

theorem marked_format (label byte : UInt8) (rest : Collector.Bytes) :
    marked (FORMAT_V2 :: label :: byte :: rest) = some (label, byte :: rest) := by
  unfold marked
  exact if_pos rfl

/-- A field is read as long as the key that wrote it is among the keys. -/
theorem decrypt_written (h : aead.Perfect) (he : encrypt aead writer nonce plaintext context = some e)
    (hkey : writer.current ∈ key.all) : decrypt aead key e.ciphertext nonce context = some plaintext := by
  obtain ⟨byte, rest, hsealed, rfl⟩ := encrypt_eq_some h.ideal he
  unfold decrypt
  dsimp only
  rw [marked_format, Option.bind_some, openWith_sealed h (mem_labelledFirst.2 hkey) hsealed]
  exact fromUtf8_asBytes plaintext

/-- It is read for its own context and under its own nonce only. -/
theorem decrypt_elsewhere (h : aead.Perfect) (he : encrypt aead writer nonce plaintext context = some e)
    {context' : String} (hother : context' ≠ context ∨ nonce' ≠ nonce) :
    decrypt aead key e.ciphertext nonce' context' = none := by
  obtain ⟨byte, rest, hsealed, rfl⟩ := encrypt_eq_some h.ideal he
  have hcurrent : openWith aead (labelledFirst aead key (aead.keyId writer.current)) nonce' (byte :: rest)
      (asBytes context') = none := by
    refine openWith_eq_none h _ fun k msg hagain => ?_
    obtain ⟨-, hnonce, hcontext⟩ := h.binding hsealed hagain
    rcases hother with hcontext' | hnonce'
    · exact hcontext' (asBytes_injective hcontext).symm
    · exact hnonce' hnonce.symm
  have hlegacy : openWith aead key.all nonce' (FORMAT_V2 :: aead.keyId writer.current :: byte :: rest) [] = none :=
    openWith_eq_none h _ fun k msg => h.unextended hsealed
  unfold decrypt
  dsimp only
  rw [marked_format, Option.bind_some, hcurrent, hlegacy]
  rfl

/-- A field of the earlier format may have the marker by chance, but what follows it was not sealed. -/
theorem openWith_marked_legacy (h : aead.Perfect) {k : Key} {msg ciphertext : Collector.Bytes}
    (hsealed : aead.sealed k nonce msg [] = some ciphertext) (keys : UInt8 → List Key) (aad : Collector.Bytes) :
    ((marked ciphertext).bind fun m => openWith aead (keys m.1) nonce' m.2 aad) = none := by
  cases hmarked : marked ciphertext with
  | none => rfl
  | some m =>
    obtain ⟨label, body⟩ := m
    have hbytes : ciphertext = FORMAT_V2 :: label :: body := by
      unfold marked at hmarked
      split at hmarked
      · split_ifs at hmarked with hformat
        cases hmarked
        rw [hformat]
      · cases hmarked
    rw [hbytes] at hsealed
    exact openWith_eq_none h _ fun k' msg' hbody => h.unextended hbody hsealed

theorem decrypt_legacy (h : aead.Perfect) (he : encryptLegacy aead writer nonce plaintext = some e)
    (hkey : writer.current ∈ key.all) : decrypt aead key e.ciphertext nonce context = some plaintext := by
  unfold encryptLegacy at he
  rw [Option.map_eq_some_iff] at he
  obtain ⟨ciphertext, hsealed, rfl⟩ := he
  have hmarked : ((marked ciphertext).bind fun m =>
      openWith aead (labelledFirst aead key m.1) nonce m.2 (asBytes context)) = none :=
    openWith_marked_legacy h hsealed (labelledFirst aead key) (asBytes context)
  unfold decrypt
  dsimp only
  rw [hmarked, openWith_sealed h hkey hsealed]
  exact fromUtf8_asBytes plaintext

theorem isCurrent_written (h : aead.Perfect) {context' : String}
    (he : encrypt aead writer nonce plaintext context = some e) :
    isCurrent aead key e.ciphertext nonce' context' = true ↔
      writer.current = key.current ∧ nonce = nonce' ∧ context = context' := by
  obtain ⟨byte, rest, hsealed, rfl⟩ := encrypt_eq_some h.ideal he
  unfold isCurrent
  rw [marked_format]
  dsimp only
  constructor
  · intro hopens
    obtain ⟨msg, hmsg⟩ := Option.isSome_iff_exists.1 hopens
    obtain ⟨hkey, hnonce, hcontext⟩ := h.binding hsealed (h.authentic hmsg)
    exact ⟨hkey, hnonce, asBytes_injective hcontext⟩
  · rintro ⟨hkey, rfl, rfl⟩
    obtain ⟨ciphertext, hsealed', -, hopened⟩ :=
      h.ideal writer.current nonce (asBytes plaintext) (asBytes context)
    rw [hsealed, Option.some.injEq] at hsealed'
    subst hsealed'
    rw [← hkey, hopened]
    rfl

theorem isCurrent_legacy (h : aead.Perfect) (he : encryptLegacy aead writer nonce plaintext = some e)
    (context : String) : isCurrent aead key e.ciphertext nonce' context = false := by
  unfold encryptLegacy at he
  rw [Option.map_eq_some_iff] at he
  obtain ⟨ciphertext, hsealed, rfl⟩ := he
  have hmarked : ((marked ciphertext).bind fun m => openWith aead [key.current] nonce' m.2 (asBytes context)) = none :=
    openWith_marked_legacy h hsealed (fun _ => [key.current]) (asBytes context)
  unfold isCurrent
  cases hmark : marked ciphertext with
  | none => rfl
  | some m =>
    rw [hmark, Option.bind_some, openWith, List.findSome?_singleton] at hmarked
    dsimp only
    rw [hmarked]
    rfl

theorem isCurrent_sealed (h : aead.Perfect) {ciphertext : Collector.Bytes}
    (hcurrent : isCurrent aead key ciphertext nonce context = true) :
    ∃ label body msg, marked ciphertext = some (label, body) ∧
      aead.sealed key.current nonce msg (asBytes context) = some body := by
  unfold isCurrent at hcurrent
  cases hmarked : marked ciphertext with
  | none =>
    rw [hmarked] at hcurrent
    cases hcurrent
  | some m =>
    rw [hmarked] at hcurrent
    obtain ⟨msg, hmsg⟩ := Option.isSome_iff_exists.1 hcurrent
    exact ⟨m.1, m.2, msg, rfl, h.authentic hmsg⟩

end Reading

section Safe

/-- What holds under a key and while it is the previous one. -/
structure RotationSafe (aead : Aead) (key : MasterKey) : Prop where
  reads : ∀ nonce plaintext context next kept, ∃ e, encrypt aead key nonce plaintext context = some e ∧
    decrypt aead key e.ciphertext nonce context = some plaintext ∧
      decrypt aead (key.rotate next kept) e.ciphertext nonce context = some plaintext
  bound : ∀ writer nonce plaintext context e, encrypt aead writer nonce plaintext context = some e →
    ∀ context' nonce', context' ≠ context → decrypt aead key e.ciphertext nonce' context' = none
  legacy : ∀ writer nonce plaintext e, encryptLegacy aead writer nonce plaintext = some e →
    writer.current ∈ key.all → ∀ context, decrypt aead key e.ciphertext nonce context = some plaintext
  current : ∀ writer nonce plaintext context e, encrypt aead writer nonce plaintext context = some e →
    ∀ nonce' context', isCurrent aead key e.ciphertext nonce' context' = true ↔
      writer.current = key.current ∧ nonce = nonce' ∧ context = context'
  currentLegacy : ∀ writer nonce plaintext e, encryptLegacy aead writer nonce plaintext = some e →
    ∀ nonce' context, isCurrent aead key e.ciphertext nonce' context = false
  currentSealed : ∀ ciphertext nonce context, isCurrent aead key ciphertext nonce context = true →
    ∃ label body msg, marked ciphertext = some (label, body) ∧
      aead.sealed key.current nonce msg (asBytes context) = some body

/-- After any rotations what is written is read before and after one more, and nothing is taken for what it is not. -/
theorem rotation_safe {aead : Aead} (h : aead.Perfect) (start : MasterKey) (rotations : List (Key × List Key)) :
    RotationSafe aead (start.rotateAll rotations) where
  reads nonce plaintext context next kept := by
    have hsome : (encrypt aead (start.rotateAll rotations) nonce plaintext context).isSome :=
      encrypt_isSome h.ideal nonce plaintext context
    obtain ⟨e, he⟩ := Option.isSome_iff_exists.1 hsome
    refine ⟨e, he, decrypt_written h he List.mem_cons_self, decrypt_written h he ?_⟩
    exact List.mem_cons_of_mem _ List.mem_cons_self
  bound _ _ _ _ _ he _ _ hcontext := decrypt_elsewhere h he (.inl hcontext)
  legacy _ _ _ _ he hkey _ := decrypt_legacy h he hkey
  current _ _ _ _ _ he _ _ := isCurrent_written h he
  currentLegacy _ _ _ _ he _ context := isCurrent_legacy h he context
  currentSealed _ _ _ hcurrent := isCurrent_sealed h hcurrent

end Safe

section Example

/-- Each byte three times. -/
def thrice : Collector.Bytes → Collector.Bytes
  | [] => []
  | byte :: rest => byte :: byte :: byte :: thrice rest

def once : Collector.Bytes → Collector.Bytes
  | byte :: _ :: _ :: rest => byte :: once rest
  | _ => []

/-- A key, a nonce and a context, so that it is known where they end. -/
def header (key : Key) (nonce : Nonce) (aad : Collector.Bytes) : Collector.Bytes :=
  key.val ++ (nonce.val ++ (List.replicate aad.length 1 ++ 0 :: aad))

/-- A cipher that hides nothing, but opens as an ideal one does. -/
def plainAead : Aead where
  sealed key nonce msg aad := some (thrice (header key nonce aad ++ msg))
  opened key nonce ciphertext aad :=
    let msg := (once ciphertext).drop (header key nonce aad).length
    if thrice (header key nonce aad ++ msg) = ciphertext then some msg else none
  keyId key := key.val.headD 0

theorem once_thrice (bytes : Collector.Bytes) : once (thrice bytes) = bytes := by
  induction bytes with
  | nil => rfl
  | cons byte bytes ih => rw [thrice, once, ih]

theorem length_thrice (bytes : Collector.Bytes) : (thrice bytes).length = 3 * bytes.length := by
  induction bytes with
  | nil => rfl
  | cons byte bytes ih =>
    rw [thrice, List.length_cons, List.length_cons, List.length_cons, List.length_cons, ih]
    ring

theorem counted_inj {l l' rest rest' : Collector.Bytes}
    (h : List.replicate l.length 1 ++ 0 :: (l ++ rest) = List.replicate l'.length 1 ++ 0 :: (l' ++ rest')) :
    l = l' ∧ rest = rest' := by
  have hcount (n : ℕ) (tail : Collector.Bytes) :
      ((List.replicate n 1 ++ 0 :: tail).takeWhile (· = (1 : UInt8))).length = n := by
    rw [List.takeWhile_append_of_pos (by simp)]
    simp
  have hlength : l.length = l'.length := by
    have hboth := congrArg (fun bytes => (bytes.takeWhile (· = (1 : UInt8))).length) h
    rwa [hcount, hcount] at hboth
  rw [hlength, List.append_cancel_left_eq, List.cons.injEq] at h
  exact List.append_inj h.2 hlength

theorem header_inj {key key' : Key} {nonce nonce' : Nonce} {aad aad' msg msg' : Collector.Bytes}
    (h : header key nonce aad ++ msg = header key' nonce' aad' ++ msg') :
    key = key' ∧ nonce = nonce' ∧ aad = aad' := by
  unfold header at h
  simp only [List.append_assoc, List.cons_append] at h
  obtain ⟨hkey, hrest⟩ := List.append_inj h (key.property.trans key'.property.symm)
  obtain ⟨hnonce, hrest⟩ := List.append_inj hrest (nonce.property.trans nonce'.property.symm)
  exact ⟨Subtype.ext hkey, Subtype.ext hnonce, (counted_inj hrest).1⟩

theorem plainAead_perfect : plainAead.Perfect where
  ideal key nonce msg aad := by
    refine ⟨thrice (header key nonce aad ++ msg), rfl, ?_, ?_⟩
    · intro hnil
      have hlength := congrArg List.length hnil
      rw [length_thrice] at hlength
      simp [header] at hlength
    · have hmsg : (once (thrice (header key nonce aad ++ msg))).drop (header key nonce aad).length = msg := by
        rw [once_thrice, List.drop_left]
      change (if thrice (header key nonce aad ++ _) = _ then some _ else none) = some msg
      rw [hmsg, if_pos rfl]
  authentic {key nonce ciphertext aad msg} h := by
    change (if thrice (header key nonce aad ++ _) = ciphertext then some _ else none) = some msg at h
    split_ifs at h with heq
    cases h
    exact congrArg some heq
  binding h h' := by
    have heq := congrArg once (Option.some.inj (h.trans h'.symm))
    rw [once_thrice, once_thrice] at heq
    exact header_inj heq
  unextended h h' := by
    have hlength := congrArg List.length (Option.some.inj h)
    have hlength' := congrArg List.length (Option.some.inj h')
    rw [length_thrice] at hlength hlength'
    rw [List.length_cons, List.length_cons] at hlength'
    omega

theorem rotation_safe_twice :
    RotationSafe plainAead ((⟨Collector.exampleKek, []⟩ : MasterKey).rotateAll
      [(Collector.exampleDek, []), (Collector.exampleKek, [Collector.exampleKek])]) :=
  rotation_safe plainAead_perfect ⟨Collector.exampleKek, []⟩
    [(Collector.exampleDek, []), (Collector.exampleKek, [Collector.exampleKek])]

end Example

end Linvesther.Worker
