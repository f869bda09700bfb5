import HybridStep.Body.Node
import HybridStep.Body.Token.Scan
import HybridStep.Number.Decimal

/-! # The values of literals

What a scanned literal denotes. Whole numbers may carry any suffix, which is ignored, except that
the suffixes `f32` and `f64` make a real of them. Whole numbers beyond 64 bits, reals with too large
an exponent, characters and bytes have no value here. -/

namespace HybridStep.Literal

open Ascii (isDigit hexValue?)
open Identifier (isIdentifier)

/-- Whether the characters after an exponent mark make the number a real: a sign, or digits that are
followed by nothing or by a suffix. `digit` tells whether a digit has been read. -/
def isExponent (digit : Bool) : List Char → Bool
  | [] => digit
  | c :: cs =>
    if c = '_' then isExponent digit cs
    else if c = '+' ∨ c = '-' then true
    else if isDigit c then isExponent true cs
    else digit && isIdentifier (c :: cs)

/-- The value of the digits of a whole number, and its suffix; `some_` tells whether a digit has
been read. -/
def wholeValue (base : Nat) (some_ : Bool) (value : Nat) : List Char → Option (Nat × List Char)
  | [] => if some_ then some (value, []) else none
  | c :: cs =>
    let stop := if some_ then some (value, c :: cs) else none
    if c = '_' then wholeValue base some_ value cs
    else if base = 10 ∧ c = '.' then none
    else if base = 10 ∧ (c = 'e' ∨ c = 'E') then (if isExponent false cs then none else stop)
    else if isDigit c ∨ base = 16 then
      match hexValue? c with
      | some d => if base ≤ d then none else wholeValue base true (base * value + d) cs
      | none => stop
    else stop

/-- The value of a whole number and its suffix. -/
def whole? (cs : List Char) : Option (Nat × List Char) :=
  let found := match cs with
    | '0' :: 'x' :: cs => wholeValue 16 false 0 cs
    | '0' :: 'o' :: cs => wholeValue 8 false 0 cs
    | '0' :: 'b' :: cs => wholeValue 2 false 0 cs
    | c :: cs => if isDigit c then wholeValue 10 false 0 (c :: cs) else none
    | [] => none
  found.filter fun (_, suffix) => suffix.isEmpty || isIdentifier suffix

/-- Which parts of a real have been read. -/
structure RealParts where
  point : Bool := false
  mark : Bool := false
  sign : Bool := false
  exponent : Bool := false

/-- The digits of a real without underscores and without a plus sign, and its suffix. -/
def realDigits (p : RealParts) : List Char → Option (List Char × List Char)
  | [] => if p.mark && !p.exponent then none else some ([], [])
  | c :: cs =>
    let stop := if p.mark && !p.exponent then none else some ([], c :: cs)
    let keep := fun (p : RealParts) (d : Char) =>
      (realDigits p cs).map fun (digits, suffix) => (d :: digits, suffix)
    if c = '_' then realDigits p cs
    else if isDigit c then keep { p with exponent := p.exponent || p.mark } c
    else if c = '.' then (if p.mark || p.point then none else keep { p with point := true } c)
    else if c = 'e' ∨ c = 'E' then
      match cs.find? (· ≠ '_') with
      | some d =>
        if d = '+' ∨ d = '-' ∨ isDigit d then
          if p.mark then (if p.exponent then stop else none) else keep { p with mark := true } 'e'
        else stop
      | none => stop
    else if c = '-' then
      if p.sign || p.exponent || !p.mark then none else keep { p with sign := true } c
    else if c = '+' then
      if p.sign || p.exponent || !p.mark then none else realDigits { p with sign := true } cs
    else stop

/-- The digits of a real and its suffix. -/
def real? (cs : List Char) : Option (List Char × List Char) :=
  (realDigits {} cs).filter fun (_, suffix) => suffix.isEmpty || isIdentifier suffix

/-- The text that a text literal denotes. -/
def text? : List Char → Option String
  | '"' :: cs => (Quoted.readCooked .text cs).map fun (value, _) => String.ofList value
  | 'r' :: cs => (Quoted.readHashed .text cs).map fun (value, _) => String.ofList value
  | _ => none

/-- The number that a literal denotes. -/
def number? (cs : List Char) : Option Literal :=
  match whole? cs with
  | some (n, suffix) =>
    if suffix = "f32".toList ∨ suffix = "f64".toList then (Decimal.read? (toString n)).map .real
    else (Word.ofInt? n).map .int
  | none =>
    (real? cs).bind fun (digits, _) => (Decimal.read? (String.ofList digits)).map .real

/-- What a literal denotes, if it has a value here. -/
def ofToken? (token : String) : Option Literal :=
  match token.toList with
  | c :: cs =>
    if isDigit c then number? (c :: cs) else (text? (c :: cs)).map .text
  | [] => none

end HybridStep.Literal
