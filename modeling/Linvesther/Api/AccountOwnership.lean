import Linvesther.Base.LikePattern

/-! `accountOwnership.ts` and `connections_owned_by`: who owns an account id, as the API decides it and as the
database lists it. -/

namespace Linvesther.Api.Ownership

open LikePattern

section Sources

/-- The characters of a lower-cased address, and the `_` after it. -/
def isAddressChar (c : Char) : Bool := c.isDigit || 'a' ≤ c && c ≤ 'f' || c = 'x' || c = '_'

/-- `toLowerCase` of JavaScript or `lower` of the database. What they do beyond ASCII is theirs, but no other
character becomes one of an address. -/
structure Lowercase where
  lower : Char → List Char
  ascii : ∀ c : Char, c.toNat < 128 → lower c = [c.toLower]
  foreign : ∀ c : Char, 128 ≤ c.toNat → ∃ d ds, lower c = d :: ds ∧ isAddressChar d = false

def Lowercase.apply (l : Lowercase) (s : String) : List Char := s.toList.flatMap l.lower

/-- `/^[A-Za-z0-9-]{1,32}$/`. -/
def extraAccountName (name : List Char) : Bool :=
  1 ≤ name.length && name.length ≤ 32 && name.all fun c => c.isAlphanum || c = '-'

/-- The explicit entry of an account id. An empty text is none. -/
def entry (accountOwners : String → Option String) (accountId : String) : Option String :=
  (accountOwners accountId).filter (· ≠ "")

def isOwner (js : Lowercase) (accountOwners : String → Option String) (accountId callerAddress : String) :
    Bool :=
  match entry accountOwners accountId with
  | some registered => js.apply registered = js.apply callerAddress
  | none =>
    let caller := js.apply callerAddress
    let id := js.apply accountId
    id = caller ||
      (caller ++ ['_']).isPrefixOf id && extraAccountName (accountId.toList.drop (callerAddress.length + 1))

/-- A row of a table of connections. -/
structure ConnectionRow where
  accountId : String
  label : Option String
  createdAtUs : ℕ
  status : String
deriving DecidableEq

structure OwnedConnection where
  accountId : String
  label : Option String
  connectedAtMs : ℕ
  status : String
  broker : String
deriving DecidableEq

/-- `lower(account_id) = lower($1) OR lower(account_id) LIKE lower($1) || '\_%' ESCAPE '\'`. -/
def isListed (pg : Lowercase) (ownerAddress accountId : String) : Bool :=
  pg.apply accountId = pg.apply ownerAddress ||
    like '\\' (pg.apply ownerAddress ++ ['\\', '_', '%']) (pg.apply accountId)

/-- The query of each broker's table. -/
def ownedBy (pg : Lowercase) (broker : String) (table : List ConnectionRow) (ownerAddress : String) :
    List OwnedConnection :=
  ((table.filter fun r => isListed pg ownerAddress r.accountId).insertionSort fun a b =>
    a.createdAtUs ≤ b.createdAtUs).map fun r =>
      ⟨r.accountId, r.label, r.createdAtUs / 1000, r.status, broker⟩

def connectionsOwnedBy (pg : Lowercase) (table : List ConnectionRow) (ownerAddress : String) :
    List OwnedConnection :=
  ownedBy pg "binance" table ownerAddress

def isHexDigit (c : Char) : Bool := c.isDigit || 'a' ≤ c && c ≤ 'f' || 'A' ≤ c && c ≤ 'F'

/-- The address of a session: `0x` and hex digits. -/
structure Caller where
  text : String
  prefixed : text.toList.take 2 = ['0', 'x']
  digits : (text.toList.drop 2).all isHexDigit = true
deriving DecidableEq

/-- An address of twenty bytes. -/
structure Address extends Caller where
  length_eq : text.length = 42
deriving DecidableEq

/-- The address that an account id begins with: all before its first `_`. -/
def ownerPart (accountId : String) : List Char := accountId.toList.takeWhile (· ≠ '_')

/-- An address up to the case of its letters. -/
def Caller.lower (a : Caller) : List Char := a.text.toList.map Char.toLower

/-- The account id is the address, or the address and a name after a `_`. -/
def Spells (a : Caller) (accountId : String) : Prop := (ownerPart accountId).map Char.toLower = a.lower

instance (a : Caller) (accountId : String) : Decidable (Spells a accountId) :=
  inferInstanceAs (Decidable (_ = _))

/-- The explicit entry of the id, if it has one, names the address that the id spells. -/
def EntryAgrees (accountOwners : String → Option String) (accountId : String) : Prop :=
  ∀ registered ∈ entry accountOwners accountId, ∀ a : Address,
    registered.toList.map Char.toLower = a.lower ↔ Spells a.toCaller accountId

end Sources

section Lowering

variable {l : Lowercase} {w text : List Char}

theorem lt_128_of_isAddressChar {c : Char} (h : isAddressChar c = true) : c.toNat < 128 := by
  simp only [isAddressChar, Char.isDigit, Bool.or_eq_true, Bool.and_eq_true, decide_eq_true_eq] at h
  rcases h with ((⟨-, h⟩ | ⟨-, h⟩) | rfl) | rfl
  · exact Nat.lt_of_le_of_lt h (by decide)
  · exact Nat.lt_of_le_of_lt h (by decide)
  · decide
  · decide

theorem toLower_of_le {c : Char} (h : 128 ≤ c.toNat) : c.toLower = c := by
  apply Char.toLower_eq_of_not_isUpper
  intro hupper
  simp only [Char.isUpper, decide_eq_true_eq] at hupper
  exact absurd (Nat.le_trans h hupper.2) (by decide)

/-- Against a text of address characters, a character beyond ASCII stays different. -/
theorem lower_cons (l : Lowercase) (d : Char) : (∃ c, l.lower d = [c] ∧ d.toLower = c) ∨
    ∃ e es, l.lower d = e :: es ∧ isAddressChar e = false ∧ isAddressChar d.toLower = false := by
  rcases Nat.lt_or_ge d.toNat 128 with hascii | hforeign
  · exact .inl ⟨_, l.ascii d hascii, rfl⟩
  · obtain ⟨e, es, he, hne⟩ := l.foreign d hforeign
    refine .inr ⟨e, es, he, hne, ?_⟩
    rw [toLower_of_le hforeign, Bool.eq_false_iff]
    intro h
    exact absurd (lt_128_of_isAddressChar h) (by omega)

theorem prefix_lower_iff (hw : ∀ c ∈ w, isAddressChar c = true) :
    w <+: text.flatMap l.lower ↔ w <+: text.map Char.toLower := by
  induction w generalizing text with
  | nil => simp
  | cons c w ih =>
    cases text with
    | nil => simp
    | cons d text =>
      rw [List.flatMap_cons, List.map_cons, List.cons_prefix_cons]
      have hc := hw c List.mem_cons_self
      rcases lower_cons l d with ⟨c', hlower, rfl⟩ | ⟨e, es, hlower, he, hd⟩
      · rw [hlower, List.singleton_append, List.cons_prefix_cons,
          ih fun c hc => hw c (List.mem_cons_of_mem _ hc)]
      · rw [hlower, List.cons_append, List.cons_prefix_cons]
        refine iff_of_false (fun h => ?_) (fun h => ?_)
        · rw [h.1, he] at hc
          cases hc
        · rw [h.1, hd] at hc
          cases hc

theorem lower_eq_iff (hw : ∀ c ∈ w, isAddressChar c = true) :
    text.flatMap l.lower = w ↔ text.map Char.toLower = w := by
  induction w generalizing text with
  | nil =>
    cases text with
    | nil => simp
    | cons d text =>
      rcases lower_cons l d with ⟨c', hlower, -⟩ | ⟨e, es, hlower, -, -⟩ <;> simp [hlower]
  | cons c w ih =>
    cases text with
    | nil => simp
    | cons d text =>
      rw [List.flatMap_cons, List.map_cons, List.cons.injEq]
      have hc := hw c List.mem_cons_self
      rcases lower_cons l d with ⟨c', hlower, rfl⟩ | ⟨e, es, hlower, he, hd⟩
      · rw [hlower, List.singleton_append, List.cons.injEq,
          ih fun c hc => hw c (List.mem_cons_of_mem _ hc)]
      · rw [hlower, List.cons_append, List.cons.injEq]
        refine iff_of_false (fun h => ?_) (fun h => ?_)
        · rw [← h.1, he] at hc
          cases hc
        · rw [← h.1, hd] at hc
          cases hc

/-- The text before the first `_` is `w`, if the whole is, or `w` with a `_` after it begins it. -/
theorem takeWhile_eq_iff (hw : '_' ∉ w) :
    text.takeWhile (· ≠ '_') = w ↔ text = w ∨ w ++ ['_'] <+: text := by
  induction text generalizing w with
  | nil =>
    rw [List.takeWhile_nil]
    refine ⟨.inl, fun h => h.resolve_right fun hbegins => ?_⟩
    have := hbegins.length_le
    simp at this
  | cons c text ih =>
    rw [List.takeWhile_cons]
    by_cases hc : c = '_'
    · subst hc
      cases w with
      | nil => simp
      | cons d w =>
        have hd : d ≠ '_' := fun h => hw (h ▸ List.mem_cons_self)
        simp [Ne.symm hd, hd]
    · rw [if_pos (by simpa using hc)]
      cases w with
      | nil => simp [Ne.symm hc]
      | cons d w =>
        have hw' : '_' ∉ w := fun h => hw (List.mem_cons_of_mem _ h)
        rw [List.cons.injEq, List.cons.injEq, List.cons_append, List.cons_prefix_cons, ih hw']
        constructor
        · intro ⟨hcd, h⟩
          exact h.imp (fun h => ⟨hcd, h⟩) fun h => ⟨hcd.symm, h⟩
        · intro h
          rcases h with ⟨hcd, h⟩ | ⟨hcd, h⟩
          · exact ⟨hcd, .inl h⟩
          · exact ⟨hcd.symm, .inr h⟩

theorem toLower_eq_underscore_iff (c : Char) : c.toLower = '_' ↔ c = '_' := by
  constructor
  · intro h
    have halpha : c.isAlpha = false := by
      rw [← Char.isAlpha_toLower_eq_isAlpha, h]
      decide
    have hupper : ¬ c.isUpper = true := by
      intro hupper
      rw [Char.isAlpha, hupper] at halpha
      cases halpha
    rwa [Char.toLower_eq_of_not_isUpper hupper] at h
  · rintro rfl
    decide

theorem map_takeWhile_underscore (text : List Char) :
    (text.takeWhile (· ≠ '_')).map Char.toLower = (text.map Char.toLower).takeWhile (· ≠ '_') := by
  rw [List.takeWhile_map]
  congr 2
  funext c
  simp only [Function.comp_apply, ne_eq, toLower_eq_underscore_iff]

end Lowering

section Addresses

variable {js pg : Lowercase} {accountOwners : String → Option String} {accountId : String} {a b : Caller}

theorem isAddressChar_toLower {c : Char} (h : isHexDigit c = true) :
    isAddressChar c.toLower = true ∧ c.toLower ≠ '_' := by
  have hascii : c.toNat < 128 := by
    simp only [isHexDigit, Char.isDigit, Bool.or_eq_true, Bool.and_eq_true, decide_eq_true_eq] at h
    rcases h with (⟨-, h⟩ | ⟨-, h⟩) | ⟨-, h⟩ <;> exact Nat.lt_of_le_of_lt h (by decide)
  have hall : ∀ n < 128, isHexDigit (Char.ofNat n) = true →
      isAddressChar (Char.ofNat n).toLower = true ∧ (Char.ofNat n).toLower ≠ '_' := by
    decide +kernel
  rw [← Char.ofNat_toNat c] at h ⊢
  exact hall c.toNat hascii h

theorem Caller.toList_eq (a : Caller) : a.text.toList = '0' :: 'x' :: a.text.toList.drop 2 := by
  rw [← List.take_append_drop 2 a.text.toList, a.prefixed]
  rfl

theorem Caller.mem_lower (a : Caller) {c : Char} (hc : c ∈ a.lower) :
    isAddressChar c = true ∧ c ≠ '_' := by
  rw [Caller.lower, a.toList_eq] at hc
  simp only [List.map_cons, List.mem_cons] at hc
  rcases hc with rfl | rfl | hc
  · decide
  · decide
  · obtain ⟨d, hd, rfl⟩ := List.mem_map.1 hc
    exact isAddressChar_toLower (List.all_eq_true.1 a.digits d hd)

theorem Caller.apply_text (l : Lowercase) (a : Caller) : l.apply a.text = a.lower :=
  (lower_eq_iff fun _ hc => (a.mem_lower hc).1).2 rfl

theorem Caller.underscore_notMem (a : Caller) : '_' ∉ a.lower := fun h => (a.mem_lower h).2 rfl

/-- Up to case, a text is the address or begins with it and a `_`. -/
theorem spells_iff (l : Lowercase) : Spells a accountId ↔
    l.apply accountId = a.lower ∨ a.lower ++ ['_'] <+: l.apply accountId := by
  have hchars : ∀ c ∈ a.lower ++ ['_'], isAddressChar c = true := by
    intro c hc
    rcases List.mem_append.1 hc with hc | hc
    · exact (a.mem_lower hc).1
    · rw [List.mem_singleton.1 hc]
      decide
  unfold Spells ownerPart Lowercase.apply
  rw [map_takeWhile_underscore, takeWhile_eq_iff a.underscore_notMem,
    lower_eq_iff fun _ hc => (a.mem_lower hc).1, prefix_lower_iff hchars]

theorem isListed_iff : isListed pg a.text accountId = true ↔ Spells a accountId := by
  have hplain : Plain '\\' a.lower := by
    intro c hc
    obtain ⟨haddress, hunderscore⟩ := a.mem_lower hc
    refine ⟨?_, ?_, hunderscore⟩
    · rintro rfl
      exact absurd haddress (by decide)
    · rintro rfl
      exact absurd haddress (by decide)
  rw [isListed, Bool.or_eq_true, decide_eq_true_eq, a.apply_text, like_prefix_iff hplain _ (by decide),
    spells_iff pg]
  refine or_congr Iff.rfl ⟨fun ⟨t, ht⟩ => ⟨t, ?_⟩, fun ⟨t, ht⟩ => ⟨t, ?_⟩⟩
  · rw [ht, List.append_assoc, List.singleton_append]
  · rw [← ht, List.append_assoc, List.singleton_append]

theorem isOwner_of_entry {registered : String} (h : entry accountOwners accountId = some registered) :
    isOwner js accountOwners accountId a.text = true ↔
      registered.toList.map Char.toLower = a.lower := by
  rw [isOwner, h]
  dsimp only
  rw [decide_eq_true_eq, a.apply_text]
  exact lower_eq_iff fun _ hc => (a.mem_lower hc).1

/-- What stands after the first `_` is a name. -/
def NameFits (accountId : String) : Prop :=
  ownerPart accountId = accountId.toList ∨
    extraAccountName (accountId.toList.drop ((ownerPart accountId).length + 1)) = true

theorem Spells.length_eq (h : Spells a accountId) : (ownerPart accountId).length = a.text.length := by
  have hlength := congrArg List.length h
  rwa [List.length_map, Caller.lower, List.length_map, String.length_toList] at hlength

/-- Nothing stands after the address, or a `_` does. -/
theorem ownerPart_eq_iff (h : Spells a accountId) :
    ownerPart accountId = accountId.toList ↔ js.apply accountId = a.lower := by
  constructor
  · intro hwhole
    rw [Lowercase.apply, lower_eq_iff fun _ hc => (a.mem_lower hc).1, ← hwhole]
    exact h
  · intro hwhole
    rw [Lowercase.apply, lower_eq_iff fun _ hc => (a.mem_lower hc).1] at hwhole
    have hlength := congrArg List.length (hwhole.trans h.symm)
    rw [List.length_map, List.length_map] at hlength
    exact (List.takeWhile_prefix _).eq_of_length hlength.symm

theorem isOwner_of_no_entry (h : entry accountOwners accountId = none) :
    isOwner js accountOwners accountId a.text = true ↔ Spells a accountId ∧ NameFits accountId := by
  rw [isOwner, h]
  dsimp only
  rw [Bool.or_eq_true, Bool.and_eq_true, decide_eq_true_eq, a.apply_text, List.isPrefixOf_iff_prefix]
  constructor
  · intro howner
    have hspells : Spells a accountId := (spells_iff js).2 (howner.imp_right And.left)
    refine ⟨hspells, howner.imp (ownerPart_eq_iff hspells).2 fun hname => ?_⟩
    rw [hspells.length_eq]
    exact hname.2
  · intro ⟨hspells, hfits⟩
    rcases (spells_iff js).1 hspells with hwhole | hbegins
    · exact .inl hwhole
    · refine hfits.imp (ownerPart_eq_iff hspells).1 fun hname => ⟨hbegins, ?_⟩
      rw [hspells.length_eq] at hname
      exact hname

end Addresses

section Agreement

variable {js pg : Lowercase} {accountOwners : String → Option String} {accountId : String}

/-- The id was connected by someone who owned it then. -/
def Connected (js : Lowercase) (accountOwners : String → Option String) (accountId : String) : Prop :=
  ∃ caller : Caller, isOwner js accountOwners accountId caller.text = true

/-- The list and the API agree on an id for every address, exactly if its entry names what it spells. -/
theorem listed_iff_owned_iff (hconnected : Connected js accountOwners accountId) :
    (∀ a : Address, isListed pg a.text accountId = isOwner js accountOwners accountId a.text) ↔
      EntryAgrees accountOwners accountId := by
  unfold EntryAgrees
  cases h : entry accountOwners accountId with
  | none =>
    obtain ⟨caller, hcaller⟩ := hconnected
    have hfits := ((isOwner_of_no_entry h).1 hcaller).2
    refine iff_of_true (fun a => ?_) nofun
    rw [Bool.eq_iff_iff, isListed_iff, isOwner_of_no_entry h]
    exact ⟨fun hspells => ⟨hspells, hfits⟩, And.left⟩
  | some registered =>
    have hstep : ∀ a : Address, (isListed pg a.text accountId =
        isOwner js accountOwners accountId a.text) ↔
        (registered.toList.map Char.toLower = a.lower ↔ Spells a.toCaller accountId) := by
      intro a
      rw [Bool.eq_iff_iff, isListed_iff, isOwner_of_entry h]
      exact Iff.comm
    simp only [hstep, Option.mem_def, Option.some.injEq, forall_eq']

theorem Spells.unique (js : Lowercase) {accountId' : String} {a b : Caller} (hsame : js.apply accountId = js.apply accountId')
    (ha : Spells a accountId) (hb : Spells b accountId') : a.lower = b.lower := by
  have hfirst := (takeWhile_eq_iff a.underscore_notMem).2 ((spells_iff js).1 ha)
  have hsecond := (takeWhile_eq_iff b.underscore_notMem).2 ((spells_iff js).1 hb)
  rw [← hfirst, ← hsecond, hsame]

theorem EntryAgrees.spells (h : EntryAgrees accountOwners accountId) {a : Address}
    (howner : isOwner js accountOwners accountId a.text = true) : Spells a.toCaller accountId := by
  cases hentry : entry accountOwners accountId with
  | none => exact ((isOwner_of_no_entry hentry).1 howner).1
  | some registered => exact (h registered hentry a).1 ((isOwner_of_entry hentry).1 howner)

theorem owner_unique {a b : Caller} (ha : isOwner js accountOwners accountId a.text = true)
    (hb : isOwner js accountOwners accountId b.text = true) : a.lower = b.lower := by
  cases hentry : entry accountOwners accountId with
  | none =>
    exact Spells.unique js rfl ((isOwner_of_no_entry hentry).1 ha).1
      ((isOwner_of_no_entry hentry).1 hb).1
  | some registered =>
    exact ((isOwner_of_entry hentry).1 ha).symm.trans ((isOwner_of_entry hentry).1 hb)

theorem perm_listed_iff (p : String → Bool) (table : List ConnectionRow) (owner : String) :
    ((connectionsOwnedBy pg table owner).map (·.accountId)).Perm
      ((table.map (·.accountId)).filter p) ↔
      ∀ r ∈ table, isListed pg owner r.accountId = p r.accountId := by
  have hlisted : ((connectionsOwnedBy pg table owner).map (·.accountId)).Perm
      ((table.map (·.accountId)).filter (isListed pg owner)) := by
    rw [connectionsOwnedBy, ownedBy, List.map_map, List.filter_map]
    exact (List.perm_insertionSort _ _).map _
  constructor
  · intro hperm r hr
    have hmem := (hlisted.symm.trans hperm).mem_iff (a := r.accountId)
    have hin : r.accountId ∈ table.map (·.accountId) := List.mem_map_of_mem hr
    rw [List.mem_filter, List.mem_filter, and_iff_right hin, and_iff_right hin] at hmem
    exact Bool.eq_iff_iff.2 hmem
  · intro hsame
    refine hlisted.trans (List.Perm.of_eq (List.filter_congr fun id hid => ?_))
    obtain ⟨r, hr, rfl⟩ := List.mem_map.1 hid
    exact hsame r hr

/-- What the database lists for an address is what the API lets it own, for every address, exactly if every
explicit entry of a stored id names the address that the id spells. An id has one owning address, and so have
ids that differ in case, if their entries name what they spell. -/
theorem ownership_agrees_iff (js pg : Lowercase) (accountOwners : String → Option String)
    (table : List ConnectionRow) (hconnected : ∀ r ∈ table, Connected js accountOwners r.accountId) :
    ((∀ a : Address, ((connectionsOwnedBy pg table a.text).map (·.accountId)).Perm
        ((table.map (·.accountId)).filter fun id => isOwner js accountOwners id a.text)) ↔
      ∀ r ∈ table, EntryAgrees accountOwners r.accountId) ∧
    (∀ id, ∀ a b : Caller, isOwner js accountOwners id a.text = true →
      isOwner js accountOwners id b.text = true → a.lower = b.lower) ∧
    ∀ id id', js.apply id = js.apply id' → EntryAgrees accountOwners id → EntryAgrees accountOwners id' →
      ∀ a b : Address, isOwner js accountOwners id a.text = true →
        isOwner js accountOwners id' b.text = true → a.lower = b.lower := by
  refine ⟨?_, fun id a b => owner_unique, fun id id' hsame hid hid' a b ha hb =>
    Spells.unique js hsame (hid.spells ha) (hid'.spells hb)⟩
  simp only [perm_listed_iff]
  constructor
  · exact fun h r hr => (listed_iff_owned_iff (hconnected r hr)).1 fun a => h a r hr
  · exact fun h a r hr => (listed_iff_owned_iff (hconnected r hr)).2 (h r hr) a

end Agreement

section Example

/-- Lower-casing that leaves what is beyond ASCII as it is. -/
def asciiLowercase : Lowercase where
  lower c := [c.toLower]
  ascii _ _ := rfl
  foreign c hc := by
    refine ⟨c, [], by rw [toLower_of_le hc], ?_⟩
    rw [Bool.eq_false_iff]
    intro h
    exact absurd (lt_128_of_isAddressChar h) (by omega)

def exampleAddress : Address where
  text := "0x00000000000000000000000000000000000000Ab"
  prefixed := by decide +kernel
  digits := by decide +kernel
  length_eq := by decide +kernel

def noEntries (_ : String) : Option String := none

/-- The account of the address itself, and one more it added. -/
def ownConnections : List ConnectionRow :=
  [⟨"0x00000000000000000000000000000000000000ab", none, 1000, "active"⟩,
    ⟨"0x00000000000000000000000000000000000000AB_second", none, 2000, "active"⟩]

theorem ownership_agrees_own_connections :
    (∀ r ∈ ownConnections, Connected asciiLowercase noEntries r.accountId) ∧
      ∀ a : Address, ((connectionsOwnedBy asciiLowercase ownConnections a.text).map (·.accountId)).Perm
        ((ownConnections.map (·.accountId)).filter fun id => isOwner asciiLowercase noEntries id a.text) := by
  have hconnected : ∀ r ∈ ownConnections, Connected asciiLowercase noEntries r.accountId := by
    have howns : ∀ r ∈ ownConnections,
        isOwner asciiLowercase noEntries r.accountId exampleAddress.text = true := by
      decide +kernel
    exact fun r hr => ⟨exampleAddress.toCaller, howns r hr⟩
  exact ⟨hconnected, (ownership_agrees_iff asciiLowercase asciiLowercase noEntries ownConnections
    hconnected).1.2 fun _ _ => nofun⟩

def namedEntry (accountId : String) : Option String :=
  if accountId = "acc-mine" then some exampleAddress.text else none

/-- An account with an explicit entry is its owner's to read, and is not listed. -/
theorem named_account_not_listed :
    Connected asciiLowercase namedEntry "acc-mine" ∧
      isOwner asciiLowercase namedEntry "acc-mine" exampleAddress.text = true ∧
      connectionsOwnedBy asciiLowercase [⟨"acc-mine", none, 1000, "active"⟩] exampleAddress.text = [] := by
  have howns : isOwner asciiLowercase namedEntry "acc-mine" exampleAddress.text = true := by
    decide +kernel
  exact ⟨⟨exampleAddress.toCaller, howns⟩, howns, by decide +kernel⟩

end Example

end Linvesther.Api.Ownership
