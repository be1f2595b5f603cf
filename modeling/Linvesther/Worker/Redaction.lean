import Linvesther.Api.AccountOwnership
import Linvesther.Base.Utf8

/-! `redact`: the address is looked for in a lower-cased copy of the text, and the text itself is cut where it was
found in the copy. -/

namespace Linvesther.Worker.Redaction

open Utf8
open Api.Ownership (isAddressChar isHexDigit isAddressChar_toLower lt_128_of_isAddressChar toLower_of_le)
open String (utf8Len)

section Model

/-- How a character is lower-cased between what is before it and after it. No character beyond ASCII becomes one of
an address. -/
structure Lowercase where
  lower : List Char → Char → List Char → List Char
  ascii : ∀ before c after, c.toNat < 128 → lower before c after = [c.toLower]
  foreign : ∀ before c after, 128 ≤ c.toNat →
    lower before c after ≠ [] ∧ ∀ d ∈ lower before c after, isAddressChar d = false

/-- The characters of a text, each with what it becomes. -/
def Lowercase.letters (lib : Lowercase) : List Char → List Char → List (Char × List Char)
  | _, [] => []
  | before, c :: after => (c, lib.lower before c after) :: lib.letters (before ++ [c]) after

def lowered (letters : List (Char × List Char)) : List Char := letters.flatMap Prod.snd

def Lowercase.toLowercase (lib : Lowercase) (text : List Char) : List Char := lowered (lib.letters [] text)

def isAddress (text : List Char) : Bool :=
  utf8Len text = 42 && ['0', 'x'].isPrefixOf text && (text.drop 2).all isHexDigit

/-- The loop panics, or has not come to its end yet. -/
inductive Stop
  | panicked
  | running
deriving DecidableEq

def mark : List Char := ['[', 'a', 'd', 'd', 'r', 'e', 's', 's', ']']

def redactFrom (text lower needle : List Char) : ℕ → ℕ → List Char → Except Stop (List Char)
  | 0, _, _ => .error .running
  | fuel + 1, start, out =>
    match sliceFrom lower start with
    | none => .error .panicked
    | some rest =>
      match findBytes needle rest with
      | some offset =>
        match slice text start (start + offset) with
        | none => .error .panicked
        | some kept => redactFrom text lower needle fuel (start + (offset + utf8Len needle)) (out ++ kept ++ mark)
      | none =>
        match sliceFrom text start with
        | none => .error .panicked
        | some kept => .ok (out ++ kept)

/-- Each turn of the loop takes a character of the copy, unless nothing is looked for: then it has no end. -/
def redact (lib : Lowercase) (text address : List Char) : Except Stop (List Char) :=
  redactFrom text (lib.toLowercase text) (lib.toLowercase address) ((lib.toLowercase text).length + 1) 0 []

/-- The address in any case of its letters. -/
def InAnyCase (address m : List Char) : Prop := m.map Char.toLower = address.map Char.toLower

def Occurs (address text : List Char) : Prop := ∃ q, OccursAt (InAnyCase address) text q

/-- Where the address begins in the text, none of these places within another: so many characters are passed over,
and so many are before. -/
def places (address : List Char) : ℕ → ℕ → List Char → List ℕ
  | _, _, [] => []
  | skip + 1, i, _ :: text => places address skip (i + 1) text
  | 0, i, c :: text =>
    if (address.map Char.toLower).isPrefixOf ((c :: text).map Char.toLower) then
      i :: places address (address.length - 1) (i + 1) text
    else places address 0 (i + 1) text

/-- How many bytes the characters before this one have when they are lower-cased. -/
def offsetIn (letters : List (Char × List Char)) (i : ℕ) : ℕ := utf8Len (lowered (letters.take i))

def Lowercase.offset (lib : Lowercase) (text : List Char) (i : ℕ) : ℕ := offsetIn (lib.letters [] text) i

/-- The places of the address in the lower-cased text are, as places of the text, between characters and within it,
and of each address in the text a piece is taken there. -/
structure Aligned (lib : Lowercase) (text address : List Char) : Prop where
  bounded : ∀ i ∈ places address 0 0 text,
    Boundary text (lib.offset text i) ∧ Boundary text (lib.offset text i + 42)
  taken : ∀ q, OccursAt (InAnyCase address) text q →
    ∃ i ∈ places address 0 0 text, lib.offset text i < q + 42 ∧ q < lib.offset text i + 42

end Model

section Letters

variable {lib : Lowercase} {text before w needle address : List Char} {letters S V W : List (Char × List Char)}

structure Lowered (p : Char × List Char) : Prop where
  ascii : p.1.toNat < 128 → p.2 = [p.1.toLower]
  foreign : 128 ≤ p.1.toNat → p.2 ≠ [] ∧ ∀ d ∈ p.2, isAddressChar d = false

theorem letters_fst : (lib.letters before text).map Prod.fst = text := by
  induction text generalizing before with
  | nil => rfl
  | cons c text ih => rw [Lowercase.letters, List.map_cons, ih]

theorem letters_lowered : ∀ p ∈ lib.letters before text, Lowered p := by
  induction text generalizing before with
  | nil => exact fun p hp => absurd hp List.not_mem_nil
  | cons c text ih => exact List.forall_mem_cons.2 ⟨⟨lib.ascii _ _ _, lib.foreign _ _ _⟩, ih⟩

theorem lowered_cons {p : Char × List Char} : lowered (p :: S) = p.2 ++ lowered S := List.flatMap_cons

theorem lowered_append : lowered (S ++ V) = lowered S ++ lowered V := List.flatMap_append

theorem toLower_not_address {c : Char} (h : 128 ≤ c.toNat) : isAddressChar c.toLower = false := by
  rw [toLower_of_le h, Bool.eq_false_iff]
  intro hc
  exact absurd (lt_128_of_isAddressChar hc) (by omega)

/-- A text of such characters begins the lower-cased copy where it begins the text. -/
theorem prefix_lowered_iff (hw : ∀ c ∈ w, isAddressChar c = true) (hS : ∀ p ∈ S, Lowered p) :
    w <+: lowered S ↔ w <+: (S.map Prod.fst).map Char.toLower := by
  induction w generalizing S with
  | nil => simp
  | cons c w ih =>
    cases S with
    | nil => simp [lowered]
    | cons p S =>
      obtain ⟨hp, hS⟩ := List.forall_mem_cons.1 hS
      obtain ⟨hc, hw⟩ := List.forall_mem_cons.1 hw
      rw [List.map_cons, List.map_cons, List.cons_prefix_cons, lowered_cons]
      rcases Nat.lt_or_ge p.1.toNat 128 with hascii | hforeign
      · rw [hp.ascii hascii, List.singleton_append, List.cons_prefix_cons]
        exact and_congr_right fun _ => ih hw hS
      · obtain ⟨hne, hnot⟩ := hp.foreign hforeign
        refine iff_of_false (fun h => ?_) (fun h => ?_)
        · cases hexpanded : p.2 with
          | nil => exact hne hexpanded
          | cons d ds =>
            rw [hexpanded, List.cons_append, List.cons_prefix_cons] at h
            have hd := hnot d (by simp [hexpanded])
            rw [← h.1, hc] at hd
            cases hd
        · have hd := toLower_not_address hforeign
          rw [← h.1, hc] at hd
          cases hd

theorem lowered_of_map (hw : ∀ c ∈ w, isAddressChar c = true) (hS : ∀ p ∈ S, Lowered p)
    (h : (S.map Prod.fst).map Char.toLower = w) : lowered S = w := by
  induction S generalizing w with
  | nil => exact h
  | cons p S ih =>
    subst h
    obtain ⟨hp, hS⟩ := List.forall_mem_cons.1 hS
    obtain ⟨hc, hw⟩ := List.forall_mem_cons.1 hw
    have hascii : p.1.toNat < 128 := by
      by_contra hforeign
      rw [toLower_not_address (by omega)] at hc
      cases hc
    rw [lowered_cons, hp.ascii hascii, List.singleton_append]
    exact congrArg _ (ih hw hS rfl)

theorem findBytes_foreign {ds s : List Char} (hne : needle ≠ []) (hneedle : ∀ c ∈ needle, isAddressChar c = true)
    (hds : ∀ d ∈ ds, isAddressChar d = false) :
    findBytes needle (ds ++ s) = (findBytes needle s).map (· + utf8Len ds) := by
  induction ds with
  | nil => simp
  | cons d ds ih =>
    obtain ⟨hd, hds⟩ := List.forall_mem_cons.1 hds
    have hnot : ¬ needle <+: d :: (ds ++ s) := by
      intro h
      cases needle with
      | nil => exact hne rfl
      | cons c needle =>
        rw [List.cons_prefix_cons] at h
        rw [← h.1, hneedle c List.mem_cons_self] at hd
        cases hd
    rw [List.cons_append, findBytes_of_not_prefix hnot, ih hds, Option.map_map]
    congr 1
    funext n
    simp [Nat.add_assoc]

theorem places_here {s : List Char} {i : ℕ} (hne : address ≠ [])
    (h : address.map Char.toLower <+: s.map Char.toLower) :
    places address 0 i s = i :: places address (address.length - 1) (i + 1) s.tail := by
  cases s with
  | nil => exact absurd (List.map_eq_nil_iff.1 (List.prefix_nil.1 h)) hne
  | cons c s => exact if_pos (List.isPrefixOf_iff_prefix.2 h)

theorem places_next {c : Char} {s : List Char} {i : ℕ}
    (h : ¬ address.map Char.toLower <+: (c :: s).map Char.toLower) :
    places address 0 i (c :: s) = places address 0 (i + 1) s :=
  if_neg fun hmeets => h (List.isPrefixOf_iff_prefix.1 hmeets)

theorem places_skip {us vs : List Char} {i : ℕ} :
    places address us.length i (us ++ vs) = places address 0 (i + us.length) vs := by
  induction us generalizing i with
  | nil => simp
  | cons u us ih =>
    rw [List.cons_append, List.length_cons, places, ih]
    congr 1
    omega

end Letters

section Loop

variable {lib : Lowercase} {text out address : List Char} {letters U V W S : List (Char × List Char)}

/-- What an address is lower-cased to. -/
structure Needle (needle : List Char) : Prop where
  chars : ∀ c ∈ needle, isAddressChar c = true
  length_eq : needle.length = 42

theorem utf8Len_address {m : List Char} (h : ∀ c ∈ m, isAddressChar c.toLower = true) : utf8Len m = m.length := by
  induction m with
  | nil => rfl
  | cons c m ih =>
    obtain ⟨hc, hm⟩ := List.forall_mem_cons.1 h
    have hascii : c.toNat < 128 := by
      by_contra hforeign
      rw [toLower_not_address (by omega)] at hc
      cases hc
    have hsize : c.utf8Size = 1 := Char.utf8Size_eq_one_iff.2 (UInt32.le_iff_toNat_le.2 (Nat.le_of_lt_succ hascii))
    rw [String.utf8Len_cons, ih hm, hsize, List.length_cons]

theorem address_needle (h : isAddress address = true) : Needle (address.map Char.toLower) := by
  simp only [isAddress, Bool.and_eq_true, decide_eq_true_eq, List.isPrefixOf_iff_prefix] at h
  obtain ⟨⟨hlen, rest, rfl⟩, hdigits⟩ := h
  have hchars : ∀ c ∈ ['0', 'x'] ++ rest, isAddressChar c.toLower = true := by
    refine List.forall_mem_append.2 ⟨by simp [isAddressChar], fun c hc => ?_⟩
    exact (isAddressChar_toLower (List.all_eq_true.1 hdigits c hc)).1
  refine ⟨fun c hc => ?_, ?_⟩
  · obtain ⟨d, hd, rfl⟩ := List.mem_map.1 hc
    exact hchars d hd
  · rw [List.length_map, ← utf8Len_address hchars, hlen]

theorem toLowercase_address (h : isAddress address = true) : lib.toLowercase address = address.map Char.toLower := by
  refine lowered_of_map (address_needle h).chars letters_lowered ?_
  rw [letters_fst]

theorem InAnyCase.chars {m : List Char} (hneedle : Needle (address.map Char.toLower)) (hm : InAnyCase address m) :
    (∀ c ∈ m, isAddressChar c.toLower = true) ∧ utf8Len m = 42 := by
  have hchars : ∀ c ∈ m, isAddressChar c.toLower = true := by
    intro c hc
    exact hneedle.chars _ (hm ▸ List.mem_map_of_mem hc)
  refine ⟨hchars, ?_⟩
  rw [utf8Len_address hchars, ← hneedle.length_eq, ← hm, List.length_map]

/-- The first place in the copy is the first place in the text. -/
theorem find_lowered (hneedle : Needle (address.map Char.toLower)) (hS : ∀ p ∈ S, Lowered p) :
    (findBytes (address.map Char.toLower) (lowered S) = none ∧ ∀ i, places address 0 i (S.map Prod.fst) = []) ∨
      ∃ U W V, S = U ++ (W ++ V) ∧ lowered W = address.map Char.toLower ∧
        findBytes (address.map Char.toLower) (lowered S) = some (utf8Len (lowered U)) ∧
        ∀ i, places address 0 i (S.map Prod.fst) =
          (i + U.length) :: places address 0 (i + (U.length + W.length)) (V.map Prod.fst) := by
  have hlength : address.length = 42 := by simpa using hneedle.length_eq
  have hne : address ≠ [] := List.ne_nil_of_length_pos (by omega)
  have hmapne : address.map Char.toLower ≠ [] := fun h => hne (List.map_eq_nil_iff.1 h)
  induction S with
  | nil =>
    refine .inl ⟨?_, fun i => rfl⟩
    rw [lowered, List.flatMap_nil, findBytes, if_neg]
    rwa [List.isPrefixOf_iff_prefix, List.prefix_nil]
  | cons p S ih =>
    have hmeets := prefix_lowered_iff hneedle.chars hS
    by_cases hstarts : address.map Char.toLower <+: ((p :: S).map Prod.fst).map Char.toLower
    · have hmany : 42 ≤ S.length + 1 := by simpa [hlength] using hstarts.length_le
      have hhere : ((p :: S.take 41).map Prod.fst).map Char.toLower = address.map Char.toLower := by
        have htake := List.prefix_iff_eq_take.1 hstarts
        rw [List.length_map, hlength, ← List.map_take, ← List.map_take] at htake
        exact htake.symm
      refine .inr ⟨[], p :: S.take 41, S.drop 41, by simp, lowered_of_map hneedle.chars ?_ hhere,
        findBytes_of_prefix (hmeets.2 hstarts), fun i => ?_⟩
      · exact fun q hq => hS q (List.mem_of_mem_take (i := 42) hq)
      · have hskip := @places_skip address ((S.take 41).map Prod.fst) ((S.drop 41).map Prod.fst) (i + 1)
        rw [← List.map_append, List.take_append_drop, List.length_map, List.length_take,
          min_eq_left (by omega)] at hskip
        rw [places_here hne hstarts, hlength, List.map_cons, List.tail_cons, hskip, List.length_cons,
          List.length_take, min_eq_left (by omega)]
        simp [Nat.add_assoc]
    · obtain ⟨hp, hrest⟩ := List.forall_mem_cons.1 hS
      have hplaces (i : ℕ) : places address 0 i ((p :: S).map Prod.fst) =
          places address 0 (i + 1) (S.map Prod.fst) := places_next hstarts
      have hfind : findBytes (address.map Char.toLower) (lowered (p :: S)) =
          (findBytes (address.map Char.toLower) (lowered S)).map (· + utf8Len p.2) := by
        rw [← hmeets, lowered_cons] at hstarts
        rw [lowered_cons]
        rcases Nat.lt_or_ge p.1.toNat 128 with hascii | hforeign
        · rw [hp.ascii hascii] at hstarts ⊢
          simpa using findBytes_of_not_prefix hstarts
        · exact findBytes_foreign hmapne hneedle.chars (hp.foreign hforeign).2
      rcases ih hrest with ⟨hnone, hempty⟩ | ⟨U, W, V, rfl, hW, hsome, hsplit⟩
      · exact .inl ⟨by rw [hfind, hnone]; rfl, fun i => (hplaces i).trans (hempty _)⟩
      · refine .inr ⟨p :: U, W, V, rfl, hW, ?_, fun i => ?_⟩
        · rw [hfind, hsome, Option.map_some, lowered_cons, String.utf8Len_append, Nat.add_comm]
        · rw [hplaces, hsplit, List.length_cons]
          congr 1
          · omega
          · congr 1
            omega

theorem offsetIn_append {pre : List (Char × List Char)} :
    offsetIn (pre ++ S) (pre.length + U.length) = utf8Len (lowered pre) + utf8Len (lowered (S.take U.length)) := by
  rw [offsetIn, List.take_length_add_append, lowered_append, String.utf8Len_append]

/-- The loop cuts the text at the places of the address, each moved to its offset in the copy. -/
theorem redactFrom_eq (hneedle : Needle (address.map Char.toLower)) {fuel : ℕ} {pre : List (Char × List Char)}
    (hS : ∀ p ∈ S, Lowered p) (hfuel : (places address 0 pre.length (S.map Prod.fst)).length < fuel) :
    redactFrom text (lowered (pre ++ S)) (address.map Char.toLower) fuel (utf8Len (lowered pre)) out =
      (cutOut text mark 42 ((places address 0 pre.length (S.map Prod.fst)).map (offsetIn (pre ++ S)))
        (utf8Len (lowered pre))).elim (.error .panicked) fun rest => .ok (out ++ rest) := by
  have hwidth : utf8Len (address.map Char.toLower) = 42 := (InAnyCase.chars hneedle (by simp [InAnyCase])).2
  induction fuel generalizing pre S out with
  | zero => omega
  | succ fuel ih =>
    have hrest : sliceFrom (lowered (pre ++ S)) (utf8Len (lowered pre)) = some (lowered S) :=
      sliceFrom_iff.2 ⟨lowered pre, lowered_append, rfl⟩
    rw [redactFrom, hrest]
    rcases find_lowered hneedle hS with ⟨hnone, hempty⟩ | ⟨U, W, V, rfl, hW, hsome, hsplit⟩
    · rw [hempty]
      dsimp only
      rw [hnone]
      cases hslice : sliceFrom text (utf8Len (lowered pre)) <;> simp [cutOut, hslice]
    · rw [hsplit] at hfuel ⊢
      rw [List.length_cons] at hfuel
      dsimp only
      rw [hsome, List.map_cons, cutOut, offsetIn_append, List.take_left]
      cases hslice : slice text (utf8Len (lowered pre)) (utf8Len (lowered pre) + utf8Len (lowered U)) with
      | none => simp [hslice]
      | some kept =>
        have hpre : utf8Len (lowered (pre ++ (U ++ W))) =
            utf8Len (lowered pre) + (utf8Len (lowered U) + utf8Len (address.map Char.toLower)) := by
          rw [lowered_append, lowered_append, hW, String.utf8Len_append, String.utf8Len_append]
        have hnext := @ih (out ++ kept ++ mark) V (pre ++ (U ++ W)) (fun p hp => hS p (by simp [hp]))
          (by simpa [Nat.add_assoc] using Nat.lt_of_succ_lt_succ hfuel)
        rw [hpre, List.append_assoc, List.append_assoc, List.length_append, List.length_append] at hnext
        rw [Option.bind_some]
        dsimp only
        rw [hslice]
        dsimp only
        rw [hnext, hwidth, Nat.add_assoc]
        cases cutOut text mark 42 _ _ <;> simp

/-- The places leave room for each other in the copy. -/
theorem places_spaced (hneedle : Needle (address.map Char.toLower)) {pre : List (Char × List Char)}
    (hS : ∀ p ∈ S, Lowered p) :
    Spaced 42 ((places address 0 pre.length (S.map Prod.fst)).map (offsetIn (pre ++ S))) (utf8Len (lowered pre)) := by
  have hwidth : utf8Len (address.map Char.toLower) = 42 := (InAnyCase.chars hneedle (by simp [InAnyCase])).2
  induction hn : S.length using Nat.strong_induction_on generalizing pre S with
  | _ n ih =>
    rcases find_lowered hneedle hS with ⟨-, hempty⟩ | ⟨U, W, V, rfl, hW, -, hsplit⟩
    · rw [hempty]
      exact ⟨by simp, by simp⟩
    · have hWne : W ≠ [] := by
        rintro rfl
        rw [← hW] at hwidth
        simp [lowered] at hwidth
      have hfewer : V.length < n := by
        have := List.length_pos_iff.2 hWne
        simp only [List.length_append] at hn
        omega
      have hrest := @ih V.length hfewer V (pre ++ (U ++ W)) (fun p hp => hS p (by simp [hp])) rfl
      have hpre : utf8Len (lowered (pre ++ (U ++ W))) = utf8Len (lowered pre) + utf8Len (lowered U) + 42 := by
        rw [lowered_append, lowered_append, hW, String.utf8Len_append, String.utf8Len_append, hwidth, Nat.add_assoc]
      rw [hpre, List.append_assoc, List.append_assoc, List.length_append, List.length_append] at hrest
      rw [hsplit, List.map_cons, offsetIn_append, List.take_left]
      refine ⟨List.forall_mem_cons.2 ⟨by omega, fun b hb => ?_⟩, List.pairwise_cons.2 ⟨hrest.from_le, hrest.apart⟩⟩
      have := hrest.from_le b hb
      omega

theorem places_length_le {skip i : ℕ} {s : List Char} : (places address skip i s).length ≤ s.length := by
  induction s generalizing skip i with
  | nil => simp [places]
  | cons c s ih =>
    cases skip with
    | zero =>
      rw [places, List.length_cons]
      split_ifs
      · exact Nat.succ_le_succ ih
      · exact Nat.le_succ_of_le ih
    | succ skip => exact Nat.le_succ_of_le ih

theorem length_le_lowered (hS : ∀ p ∈ S, Lowered p) : S.length ≤ (lowered S).length := by
  induction S with
  | nil => exact Nat.zero_le _
  | cons p S ih =>
    obtain ⟨hp, hS⟩ := List.forall_mem_cons.1 hS
    have hone : 1 ≤ p.2.length := by
      rcases Nat.lt_or_ge p.1.toNat 128 with hascii | hforeign
      · simp [hp.ascii hascii]
      · exact List.length_pos_iff.2 (hp.foreign hforeign).1
    have := ih hS
    rw [lowered_cons, List.length_append, List.length_cons]
    omega

end Loop

section Main

variable {lib : Lowercase} {text address : List Char}

/-- `redact` cuts the text at the offsets that the places of the address have in the copy. -/
theorem redact_eq (haddress : isAddress address = true) :
    redact lib text address =
      (cutOut text mark 42 ((places address 0 0 text).map (lib.offset text)) 0).elim (.error .panicked) .ok := by
  have hS : ∀ p ∈ lib.letters [] text, Lowered p := letters_lowered
  have hfuel : (places address 0 0 text).length < (lib.toLowercase text).length + 1 := by
    have hplaces : (places address 0 0 text).length ≤ text.length := places_length_le
    have hcopy := length_le_lowered hS
    rw [← List.length_map (f := Prod.fst), letters_fst] at hcopy
    exact Nat.lt_succ_of_le (hplaces.trans hcopy)
  have hloop := @redactFrom_eq text [] address _ (address_needle haddress) ((lib.toLowercase text).length + 1) [] hS
    (by rw [letters_fst]; exact hfuel)
  rw [letters_fst] at hloop
  rw [redact, toLowercase_address haddress]
  exact hloop

/-- No address is left in what `redact` gives, and it does give something, where the text and its lower-cased copy are
aligned. -/
theorem redact_iff (lib : Lowercase) (text address : List Char) (haddress : isAddress address = true) :
    (∃ out, redact lib text address = .ok out ∧ ¬ Occurs address out) ↔ Aligned lib text address := by
  have hneedle := address_needle haddress
  have hspaced : Spaced 42 ((places address 0 0 text).map (lib.offset text)) 0 := by
    have h := @places_spaced address _ hneedle [] (@letters_lowered lib text [])
    rwa [letters_fst] at h
  have hnot (c : Char) (hc : isAddressChar c.toLower = false) (m : List Char) (hm : InAnyCase address m) : c ∉ m := by
    intro hmem
    rw [(InAnyCase.chars hneedle hm).1 c hmem] at hc
    cases hc
  have hinner : ¬ ∃ q, OccursAt (InAnyCase address) ['a', 'd', 'd', 'r', 'e', 's', 's'] q := by
    rintro ⟨q, a, m, b, h, hm, -⟩
    have hlen := congrArg utf8Len h
    rw [String.utf8Len_append, String.utf8Len_append, (InAnyCase.chars hneedle hm).2,
      show utf8Len ['a', 'd', 'd', 'r', 'e', 's', 's'] = 7 from rfl] at hlen
    omega
  have hleft {out : List Char}
      (hout : cutOut text mark 42 ((places address 0 0 text).map (lib.offset text)) 0 = some out) :
      Occurs address out ↔ ∃ q, 0 ≤ q ∧ OccursAt (InAnyCase address) text q ∧
        ∀ b ∈ (places address 0 0 text).map (lib.offset text), q + 42 ≤ b ∨ b + 42 ≤ q :=
    occurs_cutOut (fun m hm => (InAnyCase.chars hneedle hm).2) (hnot '[' (by decide)) (hnot ']' (by decide))
      hinner hspaced hout
  have hzero : Boundary text 0 := ⟨[], text, rfl, rfl⟩
  have hsome : (∃ out, cutOut text mark 42 ((places address 0 0 text).map (lib.offset text)) 0 = some out) ↔ _ :=
    cutOut_isSome hspaced hzero
  rw [redact_eq haddress]
  constructor
  · rintro ⟨out, hredact, hclean⟩
    cases hcut : cutOut text mark 42 ((places address 0 0 text).map (lib.offset text)) 0 with
    | none => simp [hcut] at hredact
    | some kept =>
      rw [hcut] at hredact
      cases hredact
      refine ⟨fun i hi => hsome.1 ⟨out, hcut⟩ _ (List.mem_map_of_mem hi), fun q hq => ?_⟩
      by_contra hnone
      refine hclean ((hleft hcut).2 ⟨q, Nat.zero_le q, hq, fun b hb => ?_⟩)
      obtain ⟨i, hi, rfl⟩ := List.mem_map.1 hb
      by_contra hover
      exact hnone ⟨i, hi, by omega, by omega⟩
  · rintro ⟨hbounded, htaken⟩
    obtain ⟨out, hcut⟩ := hsome.2 (List.forall_mem_map.2 hbounded)
    refine ⟨out, by rw [hcut]; rfl, fun hoccurs => ?_⟩
    obtain ⟨q, -, hq, hcuts⟩ := (hleft hcut).1 hoccurs
    obtain ⟨i, hi, hlt, hgt⟩ := htaken q hq
    rcases hcuts _ (List.mem_map_of_mem hi) with h | h <;> omega

theorem mem_places {skip i j : ℕ} (h : i ∈ places address skip j text) :
    ∃ a m b, text = a ++ m ++ b ∧ InAnyCase address m ∧ i = j + a.length := by
  induction text generalizing skip j with
  | nil => exact absurd h List.not_mem_nil
  | cons c text ih =>
    have hnext {skip : ℕ} (h : i ∈ places address skip (j + 1) text) :
        ∃ a m b, c :: text = a ++ m ++ b ∧ InAnyCase address m ∧ i = j + a.length := by
      obtain ⟨a, m, b, rfl, hm, rfl⟩ := ih h
      exact ⟨c :: a, m, b, rfl, hm, by rw [List.length_cons]; omega⟩
    cases skip with
    | succ skip => exact hnext h
    | zero =>
      rw [places] at h
      split_ifs at h with hstarts
      · rcases List.mem_cons.1 h with rfl | h
        · rw [List.isPrefixOf_iff_prefix, List.prefix_iff_eq_take, ← List.map_take] at hstarts
          exact ⟨[], _, _, (List.take_append_drop _ _).symm, hstarts.symm, rfl⟩
        · exact hnext h
      · exact hnext h

/-- Each address in the text begins at a place or within the address that begins there. -/
theorem places_cover {skip j : ℕ} {a m b : List Char} (hne : address ≠ []) (htext : text = a ++ m ++ b)
    (hm : InAnyCase address m) (hskip : skip ≤ a.length) :
    ∃ i ∈ places address skip j text, i ≤ j + a.length ∧ j + a.length < i + address.length := by
  induction text generalizing skip j a with
  | nil =>
    obtain ⟨h, -⟩ := List.append_eq_nil_iff.1 htext.symm
    obtain ⟨-, rfl⟩ := List.append_eq_nil_iff.1 h
    exact absurd (List.map_eq_nil_iff.1 hm.symm) hne
  | cons c text ih =>
    have hnext {skip : ℕ} (hskip : skip + 1 ≤ a.length) :
        ∃ i ∈ places address skip (j + 1) text, i ≤ j + a.length ∧ j + a.length < i + address.length := by
      cases a with
      | nil => simp at hskip
      | cons d a =>
        rw [List.cons_append, List.cons_append, List.cons.injEq] at htext
        obtain ⟨i, hi, hle, hlt⟩ := ih (j := j + 1) htext.2 (Nat.le_of_succ_le_succ hskip)
        exact ⟨i, hi, by rw [List.length_cons]; omega, by rw [List.length_cons]; omega⟩
    have hpos := List.length_pos_iff.2 hne
    cases skip with
    | succ skip => exact hnext hskip
    | zero =>
      by_cases hstarts : address.map Char.toLower <+: (c :: text).map Char.toLower
      · rw [places_here hne hstarts]
        rcases Nat.lt_or_ge a.length address.length with hlt | hge
        · exact ⟨j, List.mem_cons_self, by omega, by omega⟩
        · obtain ⟨i, hi, hle, hlt⟩ := @hnext (address.length - 1) (by omega)
          exact ⟨i, List.mem_cons_of_mem _ hi, hle, hlt⟩
      · rw [places_next hstarts]
        refine hnext ?_
        by_contra hzero
        obtain rfl : a = [] := List.eq_nil_of_length_eq_zero (by omega)
        refine hstarts ⟨b.map Char.toLower, ?_⟩
        rw [htext, List.nil_append, List.map_append, hm]

/-- A text of which no character changes its size is aligned with its copy. -/
theorem aligned_of_same_sizes (haddress : isAddress address = true)
    (hsame : ∀ p ∈ lib.letters [] text, utf8Len p.2 = p.1.utf8Size) : Aligned lib text address := by
  have hneedle := address_needle haddress
  have hlength : address.length = 42 := by simpa using hneedle.length_eq
  have hsizes (S : List (Char × List Char)) (hS : ∀ p ∈ S, utf8Len p.2 = p.1.utf8Size) :
      utf8Len (lowered S) = utf8Len (S.map Prod.fst) := by
    induction S with
    | nil => rfl
    | cons p S ih =>
      obtain ⟨hp, hS⟩ := List.forall_mem_cons.1 hS
      rw [lowered_cons, String.utf8Len_append, List.map_cons, String.utf8Len_cons, ih hS, hp, Nat.add_comm]
  have hoffset (i : ℕ) : lib.offset text i = utf8Len (text.take i) := by
    rw [Lowercase.offset, offsetIn, hsizes _ fun p hp => hsame p (List.mem_of_mem_take hp), List.map_take, letters_fst]
  have hplace {i : ℕ} (hi : i ∈ places address 0 0 text) :
      ∃ m b, text = text.take i ++ m ++ b ∧ utf8Len m = 42 ∧ (text.take i).length = i ∧ m.length = 42 := by
    obtain ⟨a, m, b, rfl, hm, rfl⟩ := mem_places hi
    have hmlen : m.length = 42 := by
      rw [← hlength, ← List.length_map (f := Char.toLower), hm, List.length_map]
    exact ⟨m, b, by simp, (InAnyCase.chars hneedle hm).2, by simp, hmlen⟩
  refine ⟨fun i hi => ?_, fun q hq => ?_⟩
  · obtain ⟨m, b, htext, hm, -⟩ := hplace hi
    rw [hoffset]
    refine ⟨⟨text.take i, text.drop i, (List.take_append_drop i text).symm, rfl⟩, ?_⟩
    exact ⟨text.take i ++ m, b, htext, by rw [String.utf8Len_append, hm]⟩
  · obtain ⟨a, m, b, htext, hm, rfl⟩ := hq
    have hne : address ≠ [] := List.ne_nil_of_length_pos (by omega)
    obtain ⟨i, hi, hle, hlt⟩ := @places_cover text address 0 0 a m b hne htext hm (Nat.zero_le _)
    obtain ⟨m', b', htext', hm', hi', hlen'⟩ := hplace hi
    simp only [hoffset]
    have hbefore : text.take i <+: a := by
      refine List.prefix_of_prefix_length_le (List.take_prefix i text) ⟨m ++ b, by rw [htext]; simp⟩ ?_
      omega
    refine ⟨i, hi, ?_, ?_⟩
    · have := String.utf8Len_le_of_prefix hbefore
      omega
    · have hwithin : a <+: text.take i ++ m' := by
        refine List.prefix_of_prefix_length_le ⟨m ++ b, by rw [htext]; simp⟩ ⟨b', htext'.symm⟩ ?_
        rw [List.length_append]
        omega
      obtain ⟨e, he⟩ := hwithin
      have hepos : 0 < utf8Len e := by
        rw [Nat.pos_iff_ne_zero, Ne, String.utf8Len_eq_zero]
        rintro rfl
        have := congrArg List.length he
        simp only [List.length_append, List.length_nil] at this
        omega
      have hbytes := congrArg utf8Len he
      simp only [String.utf8Len_append] at hbytes
      omega

/-- Lower-casing as far as the examples need it: the sign of the kelvin becomes a letter of one byte. -/
def exampleLowercase : Lowercase where
  lower _ c _ := if c = Char.ofNat 0x212A then ['k'] else [c.toLower]
  ascii before c after h := if_neg (by rintro rfl; exact absurd h (by decide))
  foreign before c after h := by
    split_ifs
    · exact ⟨by simp, List.forall_mem_singleton.2 (by simp [isAddressChar])⟩
    · exact ⟨by simp, List.forall_mem_singleton.2 (toLower_not_address h)⟩

def exampleAddress : List Char := ['0', 'x'] ++ List.replicate 40 'a'

theorem redact_plain :
    ∃ out, redact exampleLowercase (['N', 'o', ' '] ++ exampleAddress) exampleAddress = .ok out ∧
      ¬ Occurs exampleAddress out :=
  (redact_iff _ _ _ (by decide +kernel)).2 (aligned_of_same_sizes (by decide +kernel) (by decide +kernel))

/-- One sign of the kelvin before the address and `redact` panics; with twenty-one it leaves the address where it is. -/
theorem redact_kelvin :
    isAddress exampleAddress = true ∧
      redact exampleLowercase (Char.ofNat 0x212A :: exampleAddress) exampleAddress = .error .panicked ∧
      ∃ out, redact exampleLowercase (List.replicate 21 (Char.ofNat 0x212A) ++ exampleAddress) exampleAddress =
        .ok out ∧ Occurs exampleAddress out := by
  refine ⟨by decide +kernel, rfl, List.replicate 7 (Char.ofNat 0x212A) ++ mark ++ exampleAddress, rfl, ?_⟩
  exact ⟨_, List.replicate 7 (Char.ofNat 0x212A) ++ mark, exampleAddress, [], by simp, rfl, rfl⟩

end Main

end Linvesther.Worker.Redaction
