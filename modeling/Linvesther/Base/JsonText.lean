import Mathlib

/-! JSON texts: the documents that the grammar makes of them, with numbers as they are written and strings as
UTF-16 code units. A text is read with as much fuel as it is long, which is always enough. -/

namespace JsonText

section Numerals

structure Exponent where
  upper : Bool
  sign : Option Bool
  digits : List (Fin 10)
deriving DecidableEq

/-- A number as it is written. -/
structure Numeral where
  negative : Bool
  integer : List (Fin 10)
  fraction : Option (List (Fin 10))
  exponent : Option Exponent
deriving DecidableEq

def digitChar (d : Fin 10) : Char := "0123456789".toList.getD d '0'

def digit? (c : Char) : Option (Fin 10) :=
  if h : 48 ≤ c.toNat ∧ c.toNat < 58 then some ⟨c.toNat - 48, by omega⟩ else none

def Exponent.chars (e : Exponent) : List Char :=
  (if e.upper then 'E' else 'e') :: (match e.sign with | none => [] | some true => ['-'] | some false => ['+']) ++
    e.digits.map digitChar

/-- The characters of a number. -/
def Numeral.chars (n : Numeral) : List Char :=
  (if n.negative then ['-'] else []) ++ n.integer.map digitChar ++
    (match n.fraction with | none => [] | some digits => '.' :: digits.map digitChar) ++
      (match n.exponent with | none => [] | some e => e.chars)

def Numeral.magnitude (n : Numeral) : ℕ := n.integer.foldl (fun m d => 10 * m + d) 0

/-- The value of a number without fraction and exponent. -/
def Numeral.value (n : Numeral) : ℤ := if n.negative then -n.magnitude else n.magnitude

def Numeral.isInteger (n : Numeral) : Bool := n.fraction.isNone && n.exponent.isNone

theorem digitChar_notMem (d : Fin 10) : digitChar d ∉ ['.', 'e', 'E'] := by
  revert d
  decide +kernel

/-- A number is written with a point or an exponent exactly if it has one. -/
theorem any_chars (n : Numeral) : n.chars.any (· ∈ ['.', 'e', 'E']) = !n.isInteger := by
  have hdigits : ∀ digits : List (Fin 10), (digits.map digitChar).any (· ∈ ['.', 'e', 'E']) = false := by
    intro digits
    rw [List.any_eq_false]
    intro c hc
    obtain ⟨d, -, rfl⟩ := List.mem_map.1 hc
    simpa using digitChar_notMem d
  obtain ⟨negative, integer, fraction, exponent⟩ := n
  have hsign : (if negative then ['-'] else []).any (· ∈ ['.', 'e', 'E']) = false := by
    cases negative <;> decide
  unfold Numeral.chars Numeral.isInteger
  rw [List.any_append, List.any_append, List.any_append, hsign, hdigits]
  cases fraction with
  | some digits => simp
  | none =>
    cases exponent with
    | none => simp
    | some e =>
      unfold Exponent.chars
      cases e.upper <;> simp

end Numerals

section Documents

/-- What a text says. The members of an object stand as in the text, those with the same name included. -/
inductive Doc where
  | null
  | bool (value : Bool)
  | number (numeral : Numeral)
  | string (units : List UInt16)
  | array (items : List Doc)
  | object (members : List (List UInt16 × Doc))

end Documents

section Reading

def isSpace (c : Char) : Bool := c = ' ' || c = '\t' || c = '\n' || c = '\r'

def skip (text : List Char) : List Char := text.dropWhile isSpace

def digits : List Char → List (Fin 10) × List Char
  | [] => ([], [])
  | c :: rest =>
    match digit? c with
    | some d => (d :: (digits rest).1, (digits rest).2)
    | none => ([], c :: rest)

/-- At least one digit. -/
def someDigits (text : List Char) : Option (List (Fin 10) × List Char) :=
  match digits text with
  | ([], _) => none
  | found => some found

def fraction : List Char → Option (Option (List (Fin 10)) × List Char)
  | '.' :: rest => (someDigits rest).map fun p => (some p.1, p.2)
  | text => some (none, text)

def sign : List Char → Option Bool × List Char
  | '+' :: rest => (some false, rest)
  | '-' :: rest => (some true, rest)
  | text => (none, text)

def exponent : List Char → Option (Option Exponent × List Char)
  | [] => some (none, [])
  | c :: rest =>
    if c = 'e' ∨ c = 'E' then
      (someDigits (sign rest).2).map fun p => (some ⟨c = 'E', (sign rest).1, p.1⟩, p.2)
    else some (none, c :: rest)

/-- A number. Its integer has no zero in front. -/
def numeral (text : List Char) : Option (Numeral × List Char) := do
  let unsigned := match text with | '-' :: rest => (true, rest) | _ => (false, text)
  let (integer, rest) ← someDigits unsigned.2
  if integer.head? = some 0 ∧ integer.length ≠ 1 then none
  else do
    let (fraction, rest) ← fraction rest
    let (exponent, rest) ← exponent rest
    pure (⟨unsigned.1, integer, fraction, exponent⟩, rest)

def utf16 (c : Char) : List UInt16 :=
  if c.toNat < 0x10000 then [UInt16.ofNat c.toNat]
  else [UInt16.ofNat (0xD800 + (c.toNat - 0x10000) / 0x400), UInt16.ofNat (0xDC00 + (c.toNat - 0x10000) % 0x400)]

def hexDigit? (c : Char) : Option ℕ :=
  if 48 ≤ c.toNat ∧ c.toNat < 58 then some (c.toNat - 48)
  else if 65 ≤ c.toNat ∧ c.toNat < 71 then some (c.toNat - 55)
  else if 97 ≤ c.toNat ∧ c.toNat < 103 then some (c.toNat - 87)
  else none

def unit? (a b c d : Char) : Option UInt16 := do
  pure (UInt16.ofNat (((← hexDigit? a) * 16 + (← hexDigit? b)) * 256 + (← hexDigit? c) * 16 + (← hexDigit? d)))

/-- The escapes of two characters. -/
def escaped? (c : Char) : Option UInt16 :=
  [('"', 34), ('\\', 92), ('/', 47), ('b', 8), ('f', 12), ('n', 10), ('r', 13), ('t', 9)].lookup c

/-- The rest of a string, its quote included. -/
def stringBody : List Char → Option (List UInt16 × List Char)
  | [] => none
  | '"' :: rest => some ([], rest)
  | '\\' :: 'u' :: a :: b :: c :: d :: rest =>
    match unit? a b c d, stringBody rest with
    | some u, some (units, rest) => some (u :: units, rest)
    | _, _ => none
  | '\\' :: c :: rest =>
    match escaped? c, stringBody rest with
    | some u, some (units, rest) => some (u :: units, rest)
    | _, _ => none
  | c :: rest =>
    if c.toNat < 32 then none
    else (stringBody rest).map fun p => (utf16 c ++ p.1, p.2)

def scalar (text : List Char) : Option (Doc × List Char) :=
  match text with
  | 'n' :: 'u' :: 'l' :: 'l' :: rest => some (.null, rest)
  | 't' :: 'r' :: 'u' :: 'e' :: rest => some (.bool true, rest)
  | 'f' :: 'a' :: 'l' :: 's' :: 'e' :: rest => some (.bool false, rest)
  | _ => (numeral text).map fun p => (.number p.1, p.2)

/-- What follows an item: another, or the end. -/
def after (close : Char) (text : List Char) : Option (Bool × List Char) :=
  match skip text with
  | [] => none
  | c :: rest => if c = ',' then some (true, rest) else if c = close then some (false, rest) else none

def expect (c : Char) (text : List Char) : Option (List Char) :=
  match skip text with
  | [] => none
  | c' :: rest => if c' = c then some rest else none

mutual

def value : ℕ → List Char → Option (Doc × List Char)
  | 0, _ => none
  | fuel + 1, text =>
    match skip text with
    | [] => none
    | c :: rest =>
      if c = '"' then (stringBody rest).map fun p => (.string p.1, p.2)
      else if c = '[' then
        match expect ']' rest with
        | some rest => some (.array [], rest)
        | none => (items fuel rest).map fun p => (.array p.1, p.2)
      else if c = '\x7b' then
        match expect '\x7d' rest with
        | some rest => some (.object [], rest)
        | none => (members fuel rest).map fun p => (.object p.1, p.2)
      else scalar (c :: rest)

def items : ℕ → List Char → Option (List Doc × List Char)
  | 0, _ => none
  | fuel + 1, text =>
    match value fuel text with
    | none => none
    | some (item, rest) =>
      match after ']' rest with
      | none => none
      | some (false, rest) => some ([item], rest)
      | some (true, rest) => (items fuel rest).map fun p => (item :: p.1, p.2)

def members : ℕ → List Char → Option (List (List UInt16 × Doc) × List Char)
  | 0, _ => none
  | fuel + 1, text =>
    match (expect '"' text).bind stringBody with
    | none => none
    | some (name, rest) =>
      match (expect ':' rest).bind (value fuel) with
      | none => none
      | some (item, rest) =>
        match after '\x7d' rest with
        | none => none
        | some (false, rest) => some ([(name, item)], rest)
        | some (true, rest) => (members fuel rest).map fun p => ((name, item) :: p.1, p.2)

end

/-- The document of a text. -/
def read (text : List Char) : Option Doc :=
  match value (2 * text.length + 1) text with
  | some (doc, rest) => if skip rest = [] then some doc else none
  | none => none

end Reading

section Fuel

variable {text rest : List Char} {doc : Doc}

theorem length_skip_le (text : List Char) : (skip text).length ≤ text.length :=
  (List.dropWhile_suffix isSpace).length_le

theorem length_digits_add (text : List Char) :
    (digits text).1.length + (digits text).2.length = text.length := by
  induction text with
  | nil => rfl
  | cons c text ih =>
    unfold digits
    cases digit? c with
    | none => simp
    | some d =>
      simp only [List.length_cons]
      omega

theorem length_someDigits_lt {found : List (Fin 10)} (h : someDigits text = some (found, rest)) :
    rest.length < text.length := by
  have hlength := length_digits_add text
  unfold someDigits at h
  split at h
  · cases h
  · rename_i hne
    rw [Option.some.injEq] at h
    rw [h] at hlength
    cases found with
    | nil => exact absurd h (hne rest)
    | cons d found =>
      simp only [List.length_cons] at hlength
      omega

theorem length_fraction_le {found : Option (List (Fin 10))} (h : fraction text = some (found, rest)) :
    rest.length ≤ text.length := by
  unfold fraction at h
  split at h
  · rw [Option.map_eq_some_iff] at h
    obtain ⟨p, hp, heq⟩ := h
    cases heq
    have hlt := length_someDigits_lt hp
    simp only [List.length_cons]
    omega
  · cases h
    exact le_rfl

theorem length_sign_le (text : List Char) : (sign text).2.length ≤ text.length := by
  unfold sign
  split <;> simp

theorem length_exponent_le {found : Option Exponent} (h : exponent text = some (found, rest)) :
    rest.length ≤ text.length := by
  cases text with
  | nil =>
    cases h
    exact le_rfl
  | cons c text =>
    dsimp only [exponent] at h
    split_ifs at h
    · rw [Option.map_eq_some_iff] at h
      obtain ⟨p, hp, heq⟩ := h
      cases heq
      have hlt := length_someDigits_lt hp
      have hsign := length_sign_le text
      simp only [List.length_cons]
      omega
    · cases h
      exact le_rfl

theorem length_numeral_lt {n : Numeral} (h : numeral text = some (n, rest)) : rest.length < text.length := by
  unfold numeral at h
  simp only [Option.bind_eq_bind, Option.bind_eq_some_iff] at h
  obtain ⟨⟨integer, rest₁⟩, hinteger, h⟩ := h
  have hunsigned : (match text with | '-' :: rest => (true, rest) | _ => (false, text)).2.length ≤ text.length := by
    split <;> simp
  have hlt := length_someDigits_lt hinteger
  split_ifs at h
  simp only [Option.bind_eq_some_iff] at h
  obtain ⟨⟨found, rest₂⟩, hfraction, ⟨e, rest₃⟩, hexponent, h⟩ := h
  have hle := length_fraction_le hfraction
  have hle' := length_exponent_le hexponent
  cases h
  dsimp only at hle' ⊢
  omega

theorem length_stringBody_lt {units : List UInt16} (h : stringBody text = some (units, rest)) :
    rest.length < text.length := by
  fun_induction stringBody text generalizing units rest with
  | case1 => cases h
  | case2 rest =>
    cases h
    simp
  | case3 a b c d text u units' rest' hbody hunit ih =>
    cases h
    have hlt := ih hbody
    simp only [List.length_cons]
    omega
  | case4 => cases h
  | case5 c text hnot u units' rest' hbody hescaped ih =>
    cases h
    have hlt := ih hbody
    simp only [List.length_cons]
    omega
  | case6 => cases h
  | case7 => cases h
  | case8 c text hquote hunicode hescape hlow ih =>
    rw [Option.map_eq_some_iff] at h
    obtain ⟨⟨units', rest'⟩, hp, heq⟩ := h
    cases heq
    have hlt := ih hp
    simp only [List.length_cons]
    omega

theorem length_scalar_lt (h : scalar text = some (doc, rest)) : rest.length < text.length := by
  unfold scalar at h
  split at h
  · cases h
    simp
    omega
  · cases h
    simp
    omega
  · cases h
    simp
    omega
  · rw [Option.map_eq_some_iff] at h
    obtain ⟨⟨n, rest'⟩, hn, heq⟩ := h
    cases heq
    exact length_numeral_lt hn

theorem length_after_lt {close : Char} {more : Bool} (h : after close text = some (more, rest)) :
    rest.length < text.length := by
  have hskip := length_skip_le text
  unfold after at h
  split at h
  · cases h
  · rename_i c rest' heq
    rw [heq, List.length_cons] at hskip
    split_ifs at h
    · cases h
      omega
    · cases h
      omega

theorem length_expect_lt {c : Char} (h : expect c text = some rest) : rest.length < text.length := by
  have hskip := length_skip_le text
  unfold expect at h
  split at h
  · cases h
  · rename_i c' rest' heq
    rw [heq, List.length_cons] at hskip
    split_ifs at h
    cases h
    omega

section Shorter

/-- What is left of a text after a part of it is shorter than the text. -/
def Shortens {α : Type*} (parse : List Char → Option (α × List Char)) : Prop :=
  ∀ {text rest a}, parse text = some (a, rest) → rest.length < text.length

variable {fuel : ℕ}

theorem value_shortens (hitems : Shortens (items fuel)) (hmembers : Shortens (members fuel)) :
    Shortens (value (fuel + 1)) := by
  intro text rest doc h
  have hskip := length_skip_le text
  unfold value at h
  split at h
  · cases h
  · rename_i c tail heq
    rw [heq, List.length_cons] at hskip
    split_ifs at h
    · rw [Option.map_eq_some_iff] at h
      obtain ⟨p, hp, hrest⟩ := h
      cases hrest
      have hlt := length_stringBody_lt hp
      omega
    · split at h
      · rename_i found hfound
        cases h
        have hlt := length_expect_lt hfound
        omega
      · rw [Option.map_eq_some_iff] at h
        obtain ⟨p, hp, hrest⟩ := h
        cases hrest
        have hlt := hitems hp
        omega
    · split at h
      · rename_i found hfound
        cases h
        have hlt := length_expect_lt hfound
        omega
      · rw [Option.map_eq_some_iff] at h
        obtain ⟨p, hp, hrest⟩ := h
        cases hrest
        have hlt := hmembers hp
        omega
    · have hlt := length_scalar_lt h
      rw [List.length_cons] at hlt
      omega

theorem items_shortens (hvalue : Shortens (value fuel)) (hitems : Shortens (items fuel)) :
    Shortens (items (fuel + 1)) := by
  intro text rest docs h
  unfold items at h
  split at h
  · cases h
  · rename_i item tail hitem
    have hlt := hvalue hitem
    split at h
    · cases h
    · rename_i tail' hafter
      cases h
      have hlt' := length_after_lt hafter
      omega
    · rename_i tail' hafter
      rw [Option.map_eq_some_iff] at h
      obtain ⟨p, hp, hrest⟩ := h
      cases hrest
      have hlt' := length_after_lt hafter
      have hlt'' := hitems hp
      omega

theorem members_shortens (hvalue : Shortens (value fuel)) (hmembers : Shortens (members fuel)) :
    Shortens (members (fuel + 1)) := by
  intro text rest named h
  unfold members at h
  split at h
  · cases h
  · rename_i name tail hname
    rw [Option.bind_eq_some_iff] at hname
    obtain ⟨quoted, hquoted, hbody⟩ := hname
    have hlt := length_expect_lt hquoted
    have hlt' := length_stringBody_lt hbody
    split at h
    · cases h
    · rename_i item tail' hitem
      rw [Option.bind_eq_some_iff] at hitem
      obtain ⟨colon, hcolon, hread⟩ := hitem
      have hlt₁ := length_expect_lt hcolon
      have hlt₂ := hvalue hread
      split at h
      · cases h
      · rename_i tail'' hafter
        cases h
        have hlt₃ := length_after_lt hafter
        omega
      · rename_i tail'' hafter
        rw [Option.map_eq_some_iff] at h
        obtain ⟨p, hp, hrest⟩ := h
        cases hrest
        have hlt₃ := length_after_lt hafter
        have hlt₄ := hmembers hp
        omega

theorem length_rest_lt (fuel : ℕ) : Shortens (value fuel) ∧ Shortens (items fuel) ∧ Shortens (members fuel) := by
  induction fuel with
  | zero =>
    refine ⟨fun h => ?_, fun h => ?_, fun h => ?_⟩
    · cases h
    · cases h
    · cases h
  | succ fuel ih =>
    obtain ⟨hvalue, hitems, hmembers⟩ := ih
    exact ⟨value_shortens hitems hmembers, items_shortens hvalue hitems, members_shortens hvalue hmembers⟩

end Shorter

/-- A unit of fuel for each step down and each character is enough: more makes no difference. -/
theorem fuel_succ (fuel : ℕ) :
    (∀ {text : List Char}, 2 * text.length + 1 ≤ fuel → value (fuel + 1) text = value fuel text) ∧
      (∀ {text : List Char}, 2 * text.length + 2 ≤ fuel → items (fuel + 1) text = items fuel text) ∧
      ∀ {text : List Char}, 2 * text.length + 2 ≤ fuel → members (fuel + 1) text = members fuel text := by
  induction fuel with
  | zero =>
    refine ⟨fun h => ?_, fun h => ?_, fun h => ?_⟩
    · omega
    · omega
    · omega
  | succ fuel ih =>
    obtain ⟨hvalue, hitems, hmembers⟩ := ih
    refine ⟨fun {text} h => ?_, fun {text} h => ?_, fun {text} h => ?_⟩
    · have hskip := length_skip_le text
      rw [value, value]
      cases hrest : skip text with
      | nil => rfl
      | cons c rest =>
        rw [hrest, List.length_cons] at hskip
        dsimp only
        rw [hitems (by omega), hmembers (by omega)]
    · rw [items, items, hvalue (by omega)]
      cases hitem : value fuel text with
      | none => rfl
      | some p =>
        obtain ⟨item, rest⟩ := p
        have hlt := (length_rest_lt fuel).1 hitem
        dsimp only
        cases hafter : after ']' rest with
        | none => rfl
        | some q =>
          obtain ⟨more, rest'⟩ := q
          have hlt' := length_after_lt hafter
          cases more with
          | false => rfl
          | true =>
            dsimp only
            rw [hitems (by omega)]
    · rw [members, members]
      cases hname : (expect '"' text).bind stringBody with
      | none => rfl
      | some p =>
        obtain ⟨name, rest⟩ := p
        rw [Option.bind_eq_some_iff] at hname
        obtain ⟨quoted, hquoted, hbody⟩ := hname
        have hlt := length_expect_lt hquoted
        have hlt' := length_stringBody_lt hbody
        dsimp only
        cases hcolon : expect ':' rest with
        | none => rfl
        | some rest₁ =>
          have hlt₁ := length_expect_lt hcolon
          rw [Option.bind_some, Option.bind_some, hvalue (by omega)]
          cases hitem : value fuel rest₁ with
          | none => rfl
          | some q =>
            obtain ⟨item, rest₂⟩ := q
            have hlt₂ := (length_rest_lt fuel).1 hitem
            dsimp only
            cases hafter : after '\x7d' rest₂ with
            | none => rfl
            | some r =>
              obtain ⟨more, rest₃⟩ := r
              have hlt₃ := length_after_lt hafter
              cases more with
              | false => rfl
              | true =>
                dsimp only
                rw [hmembers (by omega)]

theorem value_of_le {fuel : ℕ} (h : 2 * text.length + 1 ≤ fuel) :
    value fuel text = value (2 * text.length + 1) text := by
  induction fuel, h using Nat.le_induction with
  | base => rfl
  | succ fuel hle ih => rw [(fuel_succ fuel).1 hle, ih]

/-- The fuel that a text is read with is enough. -/
theorem read_eq_some_iff : read text = some doc ↔
    ∃ fuel rest, 2 * text.length + 1 ≤ fuel ∧ value fuel text = some (doc, rest) ∧ skip rest = [] := by
  unfold read
  constructor
  · intro h
    split at h
    · rename_i found rest hvalue
      split_ifs at h with hskip
      cases h
      exact ⟨_, rest, le_rfl, hvalue, hskip⟩
    · cases h
  · rintro ⟨fuel, rest, hfuel, hvalue, hskip⟩
    rw [value_of_le hfuel] at hvalue
    rw [hvalue]
    dsimp only
    rw [if_pos hskip]

end Fuel

end JsonText
