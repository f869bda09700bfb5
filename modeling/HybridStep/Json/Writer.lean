import HybridStep.Json.Value

/-! # Writing JSON

Compact text without blanks, and text with one element or member a line. Floating-point numbers are
written with the fewest digits that read back, by place up to sixteen digits before the point and
four zeros after it, and with an exponent beyond that. -/

namespace HybridStep.Json

/-! ### Numbers -/

/-- Zeros. -/
def zeros (n : Nat) : String := String.ofList (List.replicate n '0')

/-- The text of digits with their exponent. -/
def digitsText (d : Binary64.Digits) : String :=
  let ds := toString d.digits
  let n := ds.length
  let point : Int := n + d.exponent
  if 0 ≤ d.exponent ∧ point ≤ 16 then ds ++ zeros d.exponent.toNat ++ ".0"
  else if 0 < point ∧ point ≤ 16 then
    String.ofList (ds.toList.take point.toNat) ++ "." ++ String.ofList (ds.toList.drop point.toNat)
  else if -5 < point ∧ point ≤ 0 then "0." ++ zeros (-point).toNat ++ ds
  else
    let head := String.ofList (ds.toList.take 1)
    let mantissa := if n = 1 then head else head ++ "." ++ String.ofList (ds.toList.drop 1)
    mantissa ++ "e" ++ toString (point - 1)

/-- The text of a floating-point number. -/
def floatText (x : Binary64) : String :=
  let magnitude := if x.significand = 0 then "0.0" else digitsText x.shortest
  if x.negative then "-" ++ magnitude else magnitude

/-- The text of a number. -/
def numberText : JsonNumber → String
  | .int n => toString n
  | .float x => floatText x

/-! ### Strings -/

/-- A digit in base sixteen, in lower case. -/
def hexDigit (n : Nat) : Char := Nat.digitChar n

/-- A character of a string. -/
def escapeChar (c : Char) : List Char :=
  if c = '"' then ['\\', '"']
  else if c = '\\' then ['\\', '\\']
  else if c = '\x08' then ['\\', 'b']
  else if c = '\x0c' then ['\\', 'f']
  else if c = '\n' then ['\\', 'n']
  else if c = '\r' then ['\\', 'r']
  else if c = '\t' then ['\\', 't']
  else if c.toNat < 0x20 then
    ['\\', 'u', '0', '0', hexDigit (c.toNat / 16), hexDigit (c.toNat % 16)]
  else [c]

/-- The text of a string. -/
def stringText (s : String) : String :=
  String.ofList ('"' :: s.toList.flatMap escapeChar ++ ['"'])

/-! ### Compact text -/

mutual

/-- The text of a value without blanks. -/
def compact : Json → String
  | null => "null"
  | bool b => if b then "true" else "false"
  | number n => numberText n
  | string s => stringText s
  | array elements => "[" ++ ",".intercalate (compactElements elements) ++ "]"
  | object members => "\x7b" ++ ",".intercalate (compactMembers members) ++ "\x7d"

/-- The texts of elements. -/
def compactElements : List Json → List String
  | [] => []
  | v :: vs => v.compact :: compactElements vs

/-- The texts of members. -/
def compactMembers : List (String × Json) → List String
  | [] => []
  | (k, v) :: ms => (stringText k ++ ":" ++ v.compact) :: compactMembers ms

end

/-! ### Indented text -/

/-- The blanks at the start of a line. -/
def indent (depth : Nat) : String := String.ofList (List.replicate (2 * depth) ' ')

/-- Texts between brackets, one a line, or the brackets alone. -/
def enclosed (opening closing : String) (depth : Nat) (texts : List String) : String :=
  if texts.isEmpty then opening ++ closing
  else
    opening ++ "\n" ++ ",\n".intercalate (texts.map (indent (depth + 1) ++ ·)) ++ "\n" ++
      indent depth ++ closing

mutual

/-- The text of a value with one element or member a line. -/
def pretty (depth : Nat) : Json → String
  | array elements => enclosed "[" "]" depth (prettyElements (depth + 1) elements)
  | object members => enclosed "\x7b" "\x7d" depth (prettyMembers (depth + 1) members)
  | v => v.compact

/-- The texts of elements. -/
def prettyElements (depth : Nat) : List Json → List String
  | [] => []
  | v :: vs => v.pretty depth :: prettyElements depth vs

/-- The texts of members. -/
def prettyMembers (depth : Nat) : List (String × Json) → List String
  | [] => []
  | (k, v) :: ms => (stringText k ++ ": " ++ v.pretty depth) :: prettyMembers depth ms

end

end HybridStep.Json
