import HybridStep.Text.Ascii
import HybridStep.Text.Blank

/-! # Decimal numbers

Decimal texts are read as exact rational numbers: an optional sign, digits with an optional point,
and an optional decimal exponent of magnitude at most 4096. Underscores may stand anywhere and
blanks at both ends. -/

namespace HybridStep.Decimal

open Ascii (isDigit natOfDigits)

/-- The digits of a text that consists of at least one ASCII digit and nothing else. -/
def digits? (cs : List Char) : Option Nat :=
  if cs ≠ [] ∧ cs.all isDigit then some (natOfDigits cs) else none

/-- Splits an optional leading sign off; `true` is the minus sign. -/
def splitSign : List Char → Bool × List Char
  | '-' :: cs => (true, cs)
  | '+' :: cs => (false, cs)
  | cs => (false, cs)

/-- The integer denoted by an optional sign and digits. -/
def int? (cs : List Char) : Option Int :=
  let (negative, ds) := splitSign cs
  (digits? ds).map fun n => if negative then -(n : Int) else n

/-- The largest magnitude of a decimal exponent. -/
def maxExponent : Nat := 4096

/-- The part before the first character with `p`, and what follows that character if
there is one. -/
def cut (p : Char → Bool) (cs : List Char) : List Char × Option (List Char) :=
  match cs.dropWhile (fun c => !p c) with
  | [] => (cs, none)
  | _ :: rest => (cs.takeWhile (fun c => !p c), some rest)

/-- The exponent after the mark, zero if there is no mark. -/
def exponent? : Option (List Char) → Option Int
  | none => some 0
  | some cs => (int? cs).filter fun e => e.natAbs ≤ maxExponent

/-- The value of a number with the digits `whole` before and `fraction` after the point. -/
def value (negative : Bool) (whole fraction : List Char) (exponent : Int) : Rat :=
  let n : Int := natOfDigits (whole ++ fraction)
  let n := if negative then -n else n
  mkRat (n * Int.pow 10 exponent.toNat) (Nat.pow 10 fraction.length * Nat.pow 10 (-exponent).toNat)

/-- Reads a decimal that holds neither blanks at its ends nor underscores. -/
def readPlain? (cs : List Char) : Option Rat := do
  let (mantissa, mark) := cut (fun c => c == 'e' || c == 'E') cs
  let exponent ← exponent? mark
  let (negative, unsigned) := splitSign mantissa
  let (whole, point) := cut (· == '.') unsigned
  let fraction := point.getD []
  if whole = [] ∧ fraction = [] then none
  else if (whole ++ fraction).all isDigit then some (value negative whole fraction exponent)
  else none

/-- Reads a decimal text. -/
def read? (text : String) : Option Rat :=
  readPlain? ((trimBlank text.toList).filter (· ≠ '_'))

end HybridStep.Decimal
