import Linvesther.Base.Signed

/-! JSON as `JSON.stringify` writes it and as `serde` decodes what has been parsed. -/

namespace Linvesther.Verifier

/-- A JSON text as a tree. Numbers with a fraction or an exponent are kept as they are written: no
field that is read is one. -/
inductive Json where
  | null
  | bool (value : Bool)
  | int (value : ℤ)
  | float (literal : String)
  | str (value : String)
  | arr (items : List Json)
  | obj (fields : List (String × Json))

namespace Json

section Stringify

def hexDigit (n : ℕ) : Char := "0123456789abcdef".toList.getD n '0'

/-- A character of a string, escaped where it has to be. -/
def escape (c : Char) : String :=
  if c = '"' then "\\\""
  else if c = '\\' then "\\\\"
  else if c.toNat = 8 then "\\b"
  else if c.toNat = 9 then "\\t"
  else if c.toNat = 10 then "\\n"
  else if c.toNat = 12 then "\\f"
  else if c.toNat = 13 then "\\r"
  else if c.toNat < 32 then
    String.ofList ['\\', 'u', '0', '0', hexDigit (c.toNat / 16), hexDigit (c.toNat % 16)]
  else String.ofList [c]

def quote (s : String) : String := "\"" ++ String.join (s.toList.map escape) ++ "\""

mutual

/-- `JSON.stringify`. -/
def stringify : Json → String
  | .null => "null"
  | .bool true => "true"
  | .bool false => "false"
  | .int value => toString value
  | .float literal => literal
  | .str value => quote value
  | .arr items => "[" ++ ",".intercalate (stringifyItems items) ++ "]"
  | .obj fields => "\x7b" ++ ",".intercalate (stringifyFields fields) ++ "\x7d"

def stringifyItems : List Json → List String
  | [] => []
  | item :: items => stringify item :: stringifyItems items

def stringifyFields : List (String × Json) → List String
  | [] => []
  | (name, value) :: fields => (quote name ++ ":" ++ stringify value) :: stringifyFields fields

end

end Stringify

section Decode

def asStr : Json → Option String
  | .str value => some value
  | _ => none

def asI64 : Json → Option (Signed 64)
  | .int value => Signed.checked 64 value
  | _ => none

def asU64 : Json → Option UInt64
  | .int value => if 0 ≤ value ∧ value < 2 ^ 64 then some (UInt64.ofNat value.toNat) else none
  | _ => none

def asList {α : Type} (decode : Json → Option α) : Json → Option (List α)
  | .arr items => items.mapM decode
  | _ => none

/-- A field without a default: it is there, and only once. -/
def field (fields : List (String × Json)) (name : String) : Option Json :=
  match fields.filter (·.1 = name) with
  | [f] => some f.2
  | _ => none

/-- The fields of a derived structure, from an object by name or from an array by position. Other
fields of an object are ignored. -/
def asStruct (names : List String) : Json → Option (List Json)
  | .obj fields => names.mapM (field fields)
  | .arr items => if items.length = names.length then some items else none
  | _ => none

/-- A structure of two fields. -/
def asPair {α β : Type} (name : String) (decode : Json → Option α) (name' : String)
    (decode' : Json → Option β) (j : Json) : Option (α × β) :=
  match j.asStruct [name, name'] with
  | some [first, second] => do pure (← decode first, ← decode' second)
  | _ => none

theorem asPair_obj {α β : Type} {name name' : String} (hne : name ≠ name')
    {decode : Json → Option α} {decode' : Json → Option β} {first second : Json} {a : α} {b : β}
    (hfirst : decode first = some a) (hsecond : decode' second = some b) :
    (obj [(name, first), (name', second)]).asPair name decode name' decode' = some (a, b) := by
  simp [asPair, asStruct, field, hne, hne.symm, hfirst, hsecond]

end Decode

end Json

end Linvesther.Verifier
