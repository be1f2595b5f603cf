import Linvesther.Base.JsonText

/-! RFC 8785: the canonical text of a document, with the texts of its numbers left open. What two ways to write numbers
make of a document differs exactly if they write one of its numbers differently. -/

namespace JsonText

section Checks

/-- What is asked of the numbers, the strings and the names of each object. -/
structure Checks where
  number : Numeral → Prop
  string : List UInt16 → Prop
  names : List (List UInt16) → Prop

def Checks.and (c c' : Checks) : Checks where
  number n := c.number n ∧ c'.number n
  string units := c.string units ∧ c'.string units
  names keys := c.names keys ∧ c'.names keys

/-- What passes the first passes the second. -/
structure Checks.Implies (c c' : Checks) : Prop where
  number : ∀ n, c.number n → c'.number n
  string : ∀ units, c.string units → c'.string units
  names : ∀ keys, c.names keys → c'.names keys

mutual

/-- Every part of a document is as it is asked to be. -/
def Doc.Passes (c : Checks) : Doc → Prop
  | .null => True
  | .bool _ => True
  | .number n => c.number n
  | .string units => c.string units
  | .array items => PassItems c items
  | .object members => c.names (members.map Prod.fst) ∧ PassMembers c members

def PassItems (c : Checks) : List Doc → Prop
  | [] => True
  | item :: items => item.Passes c ∧ PassItems c items

def PassMembers (c : Checks) : List (List UInt16 × Doc) → Prop
  | [] => True
  | (name, item) :: members => (c.string name ∧ item.Passes c) ∧ PassMembers c members

end

variable {c c' : Checks}

theorem passItems_iff {items : List Doc} : PassItems c items ↔ ∀ item ∈ items, item.Passes c := by
  induction items with
  | nil => simp [PassItems]
  | cons item items ih =>
    rw [PassItems, ih, List.forall_mem_cons]

theorem passMembers_iff {members : List (List UInt16 × Doc)} :
    PassMembers c members ↔ ∀ m ∈ members, c.string m.1 ∧ m.2.Passes c := by
  induction members with
  | nil => simp [PassMembers]
  | cons m members ih =>
    obtain ⟨name, item⟩ := m
    rw [PassMembers, ih, List.forall_mem_cons]

mutual

theorem Doc.passes_and (doc : Doc) : doc.Passes (c.and c') ↔ doc.Passes c ∧ doc.Passes c' := by
  cases doc with
  | null => simp [Doc.Passes]
  | bool _ => simp [Doc.Passes]
  | number n => rfl
  | string units => rfl
  | array items =>
    rw [Doc.Passes, Doc.Passes, Doc.Passes, passItems_and items]
  | object members =>
    rw [Doc.Passes, Doc.Passes, Doc.Passes, passMembers_and members]
    exact and_and_and_comm

theorem passItems_and (items : List Doc) : PassItems (c.and c') items ↔ PassItems c items ∧ PassItems c' items := by
  cases items with
  | nil => simp [PassItems]
  | cons item items =>
    rw [PassItems, PassItems, PassItems, Doc.passes_and item, passItems_and items]
    exact and_and_and_comm

theorem passMembers_and (members : List (List UInt16 × Doc)) :
    PassMembers (c.and c') members ↔ PassMembers c members ∧ PassMembers c' members := by
  match members with
  | [] => simp [PassMembers]
  | (name, item) :: members =>
    rw [PassMembers, PassMembers, PassMembers, Doc.passes_and item, passMembers_and members]
    change ((c.string name ∧ c'.string name) ∧ _) ∧ _ ↔ _
    tauto

end

mutual

theorem Doc.Passes.imp (hc : c.Implies c') (doc : Doc) (h : doc.Passes c) : doc.Passes c' := by
  cases doc with
  | null => trivial
  | bool _ => trivial
  | number n => exact hc.number n h
  | string units => exact hc.string units h
  | array items => exact passItems_imp hc items h
  | object members => exact ⟨hc.names _ h.1, passMembers_imp hc members h.2⟩

theorem passItems_imp (hc : c.Implies c') (items : List Doc) (h : PassItems c items) : PassItems c' items := by
  cases items with
  | nil => trivial
  | cons item items => exact ⟨Doc.Passes.imp hc item h.1, passItems_imp hc items h.2⟩

theorem passMembers_imp (hc : c.Implies c') (members : List (List UInt16 × Doc)) (h : PassMembers c members) :
    PassMembers c' members := by
  match members with
  | [] => trivial
  | (name, item) :: members =>
    exact ⟨⟨hc.string name h.1.1, Doc.Passes.imp hc item h.1.2⟩, passMembers_imp hc members h.2⟩

end

end Checks

section Depth

mutual

/-- How deep arrays and objects stand in one another. -/
def Doc.depth : Doc → ℕ
  | .null => 0
  | .bool _ => 0
  | .number _ => 0
  | .string _ => 0
  | .array items => depthItems items + 1
  | .object members => depthMembers members + 1

def depthItems : List Doc → ℕ
  | [] => 0
  | item :: items => max item.depth (depthItems items)

def depthMembers : List (List UInt16 × Doc) → ℕ
  | [] => 0
  | (_, item) :: members => max item.depth (depthMembers members)

end

end Depth

section Writing

/-- The characters of UTF-16 code units. A surrogate without its other half is none. -/
def decodeUnits : List UInt16 → Option (List Char)
  | [] => some []
  | [u] => if u.toNat < 0xD800 ∨ 0xE000 ≤ u.toNat then some [Char.ofNat u.toNat] else none
  | u :: v :: rest =>
    if u.toNat < 0xD800 ∨ 0xE000 ≤ u.toNat then (decodeUnits (v :: rest)).map (Char.ofNat u.toNat :: ·)
    else if u.toNat < 0xDC00 ∧ 0xDC00 ≤ v.toNat ∧ v.toNat < 0xE000 then
      (decodeUnits rest).map (Char.ofNat (0x10000 + (u.toNat - 0xD800) * 0x400 + (v.toNat - 0xDC00)) :: ·)
    else none

def WellFormed (units : List UInt16) : Prop := (decodeUnits units).isSome

instance (units : List UInt16) : Decidable (WellFormed units) := inferInstanceAs (Decidable (_ = true))

def hexChar (n : ℕ) : Char := "0123456789abcdef".toList.getD n '0'

def escape (c : Char) : List Char :=
  if c = '"' then ['\\', '"']
  else if c = '\\' then ['\\', '\\']
  else if c.toNat = 8 then ['\\', 'b']
  else if c.toNat = 9 then ['\\', 't']
  else if c.toNat = 10 then ['\\', 'n']
  else if c.toNat = 12 then ['\\', 'f']
  else if c.toNat = 13 then ['\\', 'r']
  else if c.toNat < 32 then ['\\', 'u', '0', '0', hexChar (c.toNat / 16), hexChar (c.toNat % 16)]
  else [c]

def writeString (units : List UInt16) : Option (List Char) :=
  (decodeUnits units).map fun chars => '"' :: chars.flatMap escape ++ ['"']

/-- The texts with commas between them and the bracket that closes them. -/
def joined (close : Char) : List (List Char) → List Char
  | [] => [close]
  | [text] => text ++ [close]
  | text :: texts => text ++ ',' :: joined close texts

/-- The members in the order of their names' code units. -/
def sorted {α : Type} (members : List (List UInt16 × α)) : List (List UInt16 × α) :=
  members.insertionSort fun a b => a.1 ≤ b.1

variable (number : Numeral → Option (List Char))

mutual

/-- The canonical text of a document. -/
def write : Doc → Option (List Char)
  | .null => some ['n', 'u', 'l', 'l']
  | .bool value => some (if value then ['t', 'r', 'u', 'e'] else ['f', 'a', 'l', 's', 'e'])
  | .number n => number n
  | .string units => writeString units
  | .array items => (writeItems items).map fun texts => '[' :: joined ']' texts
  | .object members => (writeMembers members).map fun texts => '\x7b' :: joined '\x7d' ((sorted texts).map Prod.snd)

def writeItems : List Doc → Option (List (List Char))
  | [] => some []
  | item :: items =>
    match write item, writeItems items with
    | some text, some texts => some (text :: texts)
    | _, _ => none

/-- Each member under its name: its name and its value, as they are written. -/
def writeMembers : List (List UInt16 × Doc) → Option (List (List UInt16 × List Char))
  | [] => some []
  | (name, item) :: members =>
    match writeString name, write item, writeMembers members with
    | some key, some text, some texts => some ((name, key ++ ':' :: text) :: texts)
    | _, _, _ => none

end

/-- A document is written if its numbers are and its strings are well-formed. -/
def writable : Checks where
  number n := (number n).isSome
  string := WellFormed
  names _ := True

variable {number}

theorem writeString_isSome (units : List UInt16) : (writeString units).isSome ↔ WellFormed units := by
  unfold writeString WellFormed
  rw [Option.isSome_map]

mutual

theorem write_isSome (doc : Doc) : (write number doc).isSome ↔ doc.Passes (writable number) := by
  cases doc with
  | null => simp [write, Doc.Passes]
  | bool _ => simp [write, Doc.Passes]
  | number n => rw [write]; rfl
  | string units => rw [write, writeString_isSome]; rfl
  | array items => rw [write, Option.isSome_map, writeItems_isSome items, Doc.Passes]
  | object members =>
    rw [write, Option.isSome_map, writeMembers_isSome members, Doc.Passes]
    simp [writable]

theorem writeItems_isSome (items : List Doc) :
    (writeItems number items).isSome ↔ PassItems (writable number) items := by
  cases items with
  | nil => simp [writeItems, PassItems]
  | cons item items =>
    rw [PassItems, ← write_isSome item, ← writeItems_isSome items, writeItems]
    cases write number item with
    | none => simp
    | some text =>
      cases writeItems number items with
      | none => simp
      | some texts => simp

theorem writeMembers_isSome (members : List (List UInt16 × Doc)) :
    (writeMembers number members).isSome ↔ PassMembers (writable number) members := by
  match members with
  | [] => simp [writeMembers, PassMembers]
  | (name, item) :: members =>
    rw [PassMembers, ← write_isSome item, ← writeMembers_isSome members, writeMembers]
    change _ ↔ (WellFormed name ∧ _) ∧ _
    rw [← writeString_isSome name]
    cases writeString name with
    | none => simp
    | some key =>
      cases write number item with
      | none => simp
      | some text =>
        cases writeMembers number members with
        | none => simp
        | some texts => simp

end

end Writing

section Decoding

def numberChars : List Char := ['0', '1', '2', '3', '4', '5', '6', '7', '8', '9', '+', '-', '.', 'e', 'E']

/-- A number is written with the characters of numbers. -/
def WritesNumbers (number : Numeral → Option (List Char)) : Prop :=
  ∀ n text, number n = some text → ∀ c ∈ text, c ∈ numberChars

/-- A number cannot go on with what follows. -/
def Delimits (rest : List Char) : Prop := ∀ c ∈ rest.head?, c ∉ numberChars

theorem delimits_cons {c : Char} (h : c ∉ numberChars) (rest : List Char) : Delimits (c :: rest) := by
  intro d hd
  rw [← Option.some.inj hd]
  exact h

theorem takeWhile_number {text rest : List Char} (h : ∀ c ∈ text, c ∈ numberChars) (hrest : Delimits rest) :
    (text ++ rest).takeWhile (· ∈ numberChars) = text := by
  rw [List.takeWhile_append_of_pos fun c hc => decide_eq_true (h c hc)]
  cases rest with
  | nil => simp
  | cons c rest => simp [hrest c rfl]

/-- Texts that can be told from what follows them, and agree on it if they are the same. -/
theorem joined_inj {ι : Type} {close : Char} (hclose : close ∉ numberChars) {f g : ι → List Char}
    {P : ι → Prop} {l : List ι} (h : ∀ i ∈ l, ∀ rest rest', Delimits rest → Delimits rest' →
      f i ++ rest = g i ++ rest' → P i ∧ rest = rest') {rest rest' : List Char}
    (heq : joined close (l.map f) ++ rest = joined close (l.map g) ++ rest') :
    (∀ i ∈ l, P i) ∧ rest = rest' := by
  induction l with
  | nil => simpa [joined] using heq
  | cons i l ih =>
    obtain ⟨hi, hl⟩ := List.forall_mem_cons.1 h
    cases l with
    | nil =>
      simp only [List.map_cons, List.map_nil, joined, List.append_assoc, List.singleton_append] at heq
      obtain ⟨hP, hrest⟩ := hi _ _ (delimits_cons hclose _) (delimits_cons hclose _) heq
      exact ⟨by simpa using hP, (List.cons.inj hrest).2⟩
    | cons j l =>
      simp only [List.map_cons, joined, List.append_assoc, List.cons_append] at heq
      have hcomma : ',' ∉ numberChars := by decide
      obtain ⟨hP, hrest⟩ := hi _ _ (delimits_cons hcomma _) (delimits_cons hcomma _) heq
      obtain ⟨hPs, hend⟩ := ih hl (List.cons.inj hrest).2
      exact ⟨List.forall_mem_cons.2 ⟨hP, hPs⟩, hend⟩

variable {f g : Numeral → Option (List Char)}

/-- What two writers make of the items of a list, item by item. -/
def textOf (number : Numeral → Option (List Char)) (doc : Doc) : List Char := (write number doc).getD []

def memberText (number : Numeral → Option (List Char)) (m : List UInt16 × Doc) : List Char :=
  (writeString m.1).getD [] ++ ':' :: textOf number m.2

theorem writeItems_eq {items : List Doc} {texts : List (List Char)} (h : writeItems f items = some texts) :
    (∀ item ∈ items, write f item = some (textOf f item)) ∧ texts = items.map (textOf f) := by
  induction items generalizing texts with
  | nil =>
    cases h
    simp
  | cons item items ih =>
    rw [writeItems] at h
    cases hitem : write f item with
    | none => simp [hitem] at h
    | some text =>
      cases hitems : writeItems f items with
      | none => simp [hitem, hitems] at h
      | some rest =>
        obtain ⟨heach, hrest⟩ := ih hitems
        have htext : textOf f item = text := by simp [textOf, hitem]
        rw [hitem, hitems, Option.some.injEq] at h
        refine ⟨List.forall_mem_cons.2 ⟨by rw [hitem, htext], heach⟩, ?_⟩
        rw [← h, List.map_cons, htext, hrest]

theorem writeMembers_eq {members : List (List UInt16 × Doc)} {texts : List (List UInt16 × List Char)}
    (h : writeMembers f members = some texts) :
    (∀ m ∈ members, write f m.2 = some (textOf f m.2)) ∧
      texts = members.map fun m => (m.1, memberText f m) := by
  induction members generalizing texts with
  | nil =>
    cases h
    simp
  | cons m members ih =>
    obtain ⟨name, item⟩ := m
    rw [writeMembers] at h
    cases hkey : writeString name with
    | none => simp [hkey] at h
    | some key =>
      cases hitem : write f item with
      | none => simp [hkey, hitem] at h
      | some text =>
        cases hmembers : writeMembers f members with
        | none => simp [hkey, hitem, hmembers] at h
        | some rest =>
          obtain ⟨heach, hrest⟩ := ih hmembers
          have htext : textOf f item = text := by simp [textOf, hitem]
          rw [hkey, hitem, hmembers, Option.some.injEq] at h
          refine ⟨List.forall_mem_cons.2 ⟨by rw [hitem, htext], heach⟩, ?_⟩
          rw [← h, List.map_cons, hrest, memberText, hkey, htext]
          rfl

/-- The sorted texts are those of the sorted members. -/
theorem sorted_texts (number : Numeral → Option (List Char)) (members : List (List UInt16 × Doc)) :
    (sorted (members.map fun m => (m.1, memberText number m))).map Prod.snd =
      (sorted members).map (memberText number) := by
  unfold sorted
  rw [← List.map_insertionSort (fun a b : List UInt16 × Doc => a.1 ≤ b.1)
    (fun a b : List UInt16 × List Char => a.1 ≤ b.1) (fun m => (m.1, memberText number m)) members
    fun _ _ _ _ => Iff.rfl, List.map_map]
  rfl

/-- Both write each number in the same way. -/
def sameNumbers (f g : Numeral → Option (List Char)) : Checks where
  number n := f n = g n
  string _ := True
  names _ := True

/-- Where two texts of a document go on and come to the same, its numbers are written in the same way. -/
def Tells (f g : Numeral → Option (List Char)) (doc : Doc) : Prop :=
  ∀ {text text' rest rest' : List Char}, write f doc = some text → write g doc = some text' → Delimits rest →
    Delimits rest' → text ++ rest = text' ++ rest' → doc.Passes (sameNumbers f g) ∧ rest = rest'

theorem tells_of_eq {doc : Doc} (heq : write f doc = write g doc) (h : doc.Passes (sameNumbers f g)) :
    Tells f g doc := by
  intro text text' rest rest' htext htext' _ _ hsame
  rw [← heq, htext, Option.some.injEq] at htext'
  rw [htext', List.append_cancel_left_eq] at hsame
  exact ⟨h, hsame⟩

theorem tells_number (hf : WritesNumbers f) (hg : WritesNumbers g) (n : Numeral) : Tells f g (.number n) := by
  intro text text' rest rest' h h' hrest hrest' heq
  rw [write] at h h'
  have hsame := congrArg (List.takeWhile (· ∈ numberChars)) heq
  rw [takeWhile_number (hf n text h) hrest, takeWhile_number (hg n text' h') hrest'] at hsame
  rw [hsame, List.append_cancel_left_eq] at heq
  refine ⟨?_, heq⟩
  change f n = g n
  rw [h, h', hsame]

theorem tells_array {items : List Doc} (h : ∀ item ∈ items, Tells f g item) : Tells f g (.array items) := by
  intro text text' rest rest' htext htext' _ _ heq
  rw [write, Option.map_eq_some_iff] at htext htext'
  obtain ⟨texts, htexts, rfl⟩ := htext
  obtain ⟨texts', htexts', rfl⟩ := htext'
  obtain ⟨heach, rfl⟩ := writeItems_eq htexts
  obtain ⟨heach', rfl⟩ := writeItems_eq htexts'
  have hitem : ∀ item ∈ items, ∀ rest rest', Delimits rest → Delimits rest' →
      textOf f item ++ rest = textOf g item ++ rest' → item.Passes (sameNumbers f g) ∧ rest = rest' :=
    fun item hitem _ _ hr hr' hi => h item hitem (heach item hitem) (heach' item hitem) hr hr' hi
  rw [Doc.Passes, passItems_iff]
  exact joined_inj (by decide) hitem (List.cons.inj heq).2

theorem tells_object {members : List (List UInt16 × Doc)} (h : ∀ m ∈ members, Tells f g m.2) :
    Tells f g (.object members) := by
  intro text text' rest rest' htext htext' _ _ heq
  rw [write, Option.map_eq_some_iff] at htext htext'
  obtain ⟨texts, htexts, rfl⟩ := htext
  obtain ⟨texts', htexts', rfl⟩ := htext'
  obtain ⟨heach, rfl⟩ := writeMembers_eq htexts
  obtain ⟨heach', rfl⟩ := writeMembers_eq htexts'
  rw [sorted_texts, sorted_texts] at heq
  have hmem : ∀ m, m ∈ sorted members ↔ m ∈ members := fun m => List.mem_insertionSort _
  have hmember : ∀ m ∈ sorted members, ∀ rest rest', Delimits rest → Delimits rest' →
      memberText f m ++ rest = memberText g m ++ rest' → m.2.Passes (sameNumbers f g) ∧ rest = rest' := by
    intro m hm _ _ hr hr' hi
    -- the name is the same in both texts
    unfold memberText at hi
    rw [List.append_assoc, List.append_assoc, List.append_cancel_left_eq, List.cons_append, List.cons_append] at hi
    have hin := (hmem m).1 hm
    exact h m hin (heach m hin) (heach' m hin) hr hr' (List.cons.inj hi).2
  obtain ⟨hall, hrest⟩ := joined_inj (by decide) hmember (List.cons.inj heq).2
  rw [Doc.Passes, passMembers_iff]
  exact ⟨⟨trivial, fun m hm => ⟨trivial, hall m ((hmem m).2 hm)⟩⟩, hrest⟩

mutual

theorem tells (hf : WritesNumbers f) (hg : WritesNumbers g) (doc : Doc) : Tells f g doc := by
  cases doc with
  | null =>
    apply tells_of_eq
    · rfl
    · trivial
  | bool _ =>
    apply tells_of_eq
    · rfl
    · trivial
  | number n => exact tells_number hf hg n
  | string units =>
    apply tells_of_eq
    · rfl
    · trivial
  | array items => exact tells_array (items_tell hf hg items)
  | object members => exact tells_object (members_tell hf hg members)

theorem items_tell (hf : WritesNumbers f) (hg : WritesNumbers g) (items : List Doc) :
    ∀ item ∈ items, Tells f g item := by
  cases items with
  | nil => simp
  | cons item items => exact List.forall_mem_cons.2 ⟨tells hf hg item, items_tell hf hg items⟩

theorem members_tell (hf : WritesNumbers f) (hg : WritesNumbers g) (members : List (List UInt16 × Doc)) :
    ∀ m ∈ members, Tells f g m.2 := by
  match members with
  | [] => simp
  | (name, item) :: members =>
    exact List.forall_mem_cons.2 ⟨tells hf hg item, members_tell hf hg members⟩

end

mutual

theorem write_congr (doc : Doc) (h : doc.Passes (sameNumbers f g)) : write f doc = write g doc := by
  cases doc with
  | null => rfl
  | bool _ => rfl
  | number n => exact h
  | string units => rfl
  | array items => rw [write, write, writeItems_congr items h]
  | object members => rw [write, write, writeMembers_congr members h.2]

theorem writeItems_congr (items : List Doc) (h : PassItems (sameNumbers f g) items) :
    writeItems f items = writeItems g items := by
  cases items with
  | nil => rfl
  | cons item items => rw [writeItems, writeItems, write_congr item h.1, writeItems_congr items h.2]

theorem writeMembers_congr (members : List (List UInt16 × Doc)) (h : PassMembers (sameNumbers f g) members) :
    writeMembers f members = writeMembers g members := by
  match members with
  | [] => rfl
  | (name, item) :: members =>
    rw [writeMembers, writeMembers, write_congr item h.1.2, writeMembers_congr members h.2]

end

/-- The canonical texts are the same exactly if the numbers are written in the same way. -/
theorem write_eq_iff (hf : WritesNumbers f) (hg : WritesNumbers g) {doc : Doc} {text : List Char}
    (h : write f doc = some text) : write f doc = write g doc ↔ doc.Passes (sameNumbers f g) := by
  constructor
  · intro heq
    have hnone : Delimits [] := by
      intro c hc
      cases hc
    exact (tells hf hg doc h (heq ▸ h) hnone hnone rfl).1
  · exact write_congr doc

end Decoding

end JsonText
