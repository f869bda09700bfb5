import HybridStep.Json.Value
import HybridStep.Text.Ascii

/-! # The lexical elements of JSON text

Blanks, words, strings and numbers, each read off the front of a list of characters. A reader tells
text that is no JSON from text that ends early and from JSON that has another form than the one
wanted. -/

namespace HybridStep

/-- Why a text is not the JSON that is wanted: it is no JSON, it ends early, or it is JSON of
another form. -/
inductive JsonFault where
  | malformed | truncated | mismatched
  deriving DecidableEq

/-- The text of the fault. -/
def JsonFault.message : JsonFault → String
  | malformed => "malformed text"
  | truncated => "the text ends early"
  | mismatched => "a value has the wrong form"

/-- A reader takes what it reads off the front of a text. -/
abbrev Reading := StateT (List Char) (Except JsonFault)

namespace Json

/-! ### Blanks and words -/

/-- Blank, tab, line feed and carriage return. -/
def isSpace (c : Char) : Bool := c = ' ' || c = '\n' || c = '\t' || c = '\r'

/-- Drops blanks and gives the next character, which stays. -/
def peek : Reading (Option Char) := fun cs =>
  let rest := cs.dropWhile isSpace
  .ok (rest.head?, rest)

/-- Drops blanks and gives the next character, which stays. The text must not end here. -/
def peekSome : Reading Char := do
  match ← peek with
  | some c => return c
  | none => throw .truncated

/-- Drops a character. -/
def drop1 : Reading Unit := modify List.tail

/-- The given characters have to follow. -/
def expect : List Char → Reading Unit
  | [] => pure ()
  | c :: cs => do
    match ← get with
    | [] => throw .truncated
    | d :: rest => if c = d then set rest else throw .malformed
    expect cs

/-- After blanks, a character has to follow. -/
def expectMark (c : Char) : Reading Unit := do
  if (← peekSome) = c then drop1 else throw .malformed

/-! ### Strings -/

/-- The number of four hexadecimal digits. A text of less than four bytes ends early. -/
def hexUnit : List Char → Except JsonFault (Nat × List Char)
  | a :: b :: c :: d :: rest =>
    match Ascii.hexValue? a, Ascii.hexValue? b, Ascii.hexValue? c, Ascii.hexValue? d with
    | some a, some b, some c, some d => .ok (((a * 16 + b) * 16 + c) * 16 + d, rest)
    | _, _, _, _ => .error .malformed
  | cs => .error (if (String.ofList cs).utf8ByteSize < 4 then .truncated else .malformed)

/-- Whether a number is the first half of a pair that stands for one character. -/
def isLeading (n : Nat) : Bool := 0xD800 ≤ n && n ≤ 0xDBFF

/-- Whether a number is the second half of a pair that stands for one character. -/
def isTrailing (n : Nat) : Bool := 0xDC00 ≤ n && n ≤ 0xDFFF

/-- The second half of a pair, written with its escape. -/
def trailingUnit : List Char → Except JsonFault (Nat × List Char)
  | [] => .error .truncated
  | ['\\'] => .error .truncated
  | '\\' :: 'u' :: rest => do
    let (n, rest) ← hexUnit rest
    if isTrailing n then return (n, rest) else throw .malformed
  | _ => .error .malformed

/-- The character of a numeric escape, after its mark. -/
def numericEscape (cs : List Char) : Except JsonFault (Char × List Char) := do
  let (n, rest) ← hexUnit cs
  if isTrailing n then throw .malformed
  else if isLeading n then
    let (low, rest) ← trailingUnit rest
    return (Char.ofNat ((n - 0xD800) * 1024 + (low - 0xDC00) + 0x10000), rest)
  else return (Char.ofNat n, rest)

/-- The character of an escape that is a single letter or mark. -/
def shortEscape? (c : Char) : Option Char :=
  if c = '"' ∨ c = '\\' ∨ c = '/' then some c
  else if c = 'b' then some '\x08'
  else if c = 'f' then some '\x0c'
  else if c = 'n' then some '\n'
  else if c = 'r' then some '\r'
  else if c = 't' then some '\t'
  else none

/-- The character of an escape, after the backslash. -/
def escape : List Char → Except JsonFault (Char × List Char)
  | [] => .error .truncated
  | 'u' :: rest => numericEscape rest
  | c :: rest =>
    match shortEscape? c with
    | some d => .ok (d, rest)
    | none => .error .malformed

/-- Reads past an escape whose character does not matter. -/
def skippedEscape : List Char → Except JsonFault (Char × List Char)
  | 'u' :: rest => (hexUnit rest).map fun (_, rest) => ('u', rest)
  | cs => escape cs

/-- The characters of a string up to its closing mark, at most a given number of them. -/
def stringChars (esc : List Char → Except JsonFault (Char × List Char)) :
    Nat → List Char → Except JsonFault (List Char × List Char)
  | _, [] => .error .truncated
  | 0, _ => .error .malformed
  | _, '"' :: rest => .ok ([], rest)
  | fuel + 1, '\\' :: rest => do
    let (c, rest) ← esc rest
    let (cs, rest) ← stringChars esc fuel rest
    return (c :: cs, rest)
  | fuel + 1, c :: rest =>
    if c.toNat < 0x20 then .error .malformed
    else do
      let (cs, rest) ← stringChars esc fuel rest
      return (c :: cs, rest)

/-- A string, after its opening mark. -/
def stringBody : Reading String := fun cs => do
  let (s, rest) ← stringChars escape (cs.length + 1) cs
  return (String.ofList s, rest)

/-- Reads past a string, after its opening mark. Lone halves of pairs do not matter. -/
def skipString : Reading Unit := fun cs => do
  let (_, rest) ← stringChars skippedEscape (cs.length + 1) cs
  return ((), rest)

/-! ### Numbers -/

/-- A written number: its sign, the digits before and after the point, and the exponent. A number
without point and exponent is `plain`. -/
structure WrittenNumber where
  negative : Bool
  whole : List Char
  fraction : List Char
  exponent : Int
  plain : Bool

/-- The digits at the front. -/
def digits : Reading (List Char) := fun cs =>
  .ok (cs.takeWhile Ascii.isDigit, cs.dropWhile Ascii.isDigit)

/-- One digit at least. Where the text ends first, the fault is the given one. -/
def someDigits (ended : JsonFault) : Reading (List Char) := do
  match ← digits, ← get with
  | [], [] => throw ended
  | [], _ => throw .malformed
  | ds, _ => return ds

/-- The digits before the point, without leading zeros. -/
def wholeDigits (ended : JsonFault) : Reading (List Char) := do
  let ds ← someDigits ended
  match ds with
  | '0' :: _ :: _ => throw .malformed
  | _ => return ds

/-- The digits after the point, if there is a point. -/
def fractionDigits (ended : JsonFault) : Reading (Option (List Char)) := do
  match ← get with
  | '.' :: rest => do
    set rest
    some <$> someDigits ended
  | _ => return none

/-- An optional sign; `true` is the minus sign. -/
def exponentSign : Reading Bool := do
  match ← get with
  | '-' :: rest => do
    set rest
    return true
  | '+' :: rest => do
    set rest
    return false
  | _ => return false

/-- The exponent, if there is one. -/
def exponentDigits (ended : JsonFault) : Reading (Option Int) := do
  match ← get with
  | c :: rest =>
    if c = 'e' ∨ c = 'E' then do
      set rest
      let negative ← exponentSign
      let n : Int := Ascii.natOfDigits (← someDigits ended)
      return some (if negative then -n else n)
    else return none
  | [] => return none

/-- A number after its sign. -/
def unsignedNumber (ended : JsonFault) (negative : Bool) : Reading WrittenNumber := do
  let whole ← wholeDigits ended
  let fraction ← fractionDigits ended
  let exponent ← exponentDigits ended
  return ⟨negative, whole, fraction.getD [], exponent.getD 0, fraction.isNone && exponent.isNone⟩

/-- A number. Where the text ends within it, the fault is the given one. -/
def writtenNumber (ended : JsonFault) : Reading WrittenNumber := do
  match ← get with
  | '-' :: rest => do
    set rest
    unsignedNumber ended true
  | _ => unsignedNumber ended false

/-- The integer that a number without point and exponent is: from `-2 ^ 63` to `2 ^ 64 - 1`, where
the negative zero is none. -/
def WrittenNumber.int? (w : WrittenNumber) : Option Int :=
  let n := Ascii.natOfDigits w.whole
  if !w.plain then none
  else if w.negative then if 0 < n ∧ n ≤ 9223372036854775808 then some (-n) else none
  else if n < 18446744073709551616 then some n else none

/-- The greatest significand that is read in full. -/
def maxSignificand : Nat := 18446744073709551615

/-- Appends digits to a significand until one of them does not fit. Gives the digits from there on
too. -/
def appendDigits (n : Nat) : List Char → Nat × List Char
  | [] => (n, [])
  | d :: ds =>
    let next := 10 * n + Ascii.digitValue d
    if maxSignificand < next then (n, d :: ds) else appendDigits next ds

/-- The floating-point number that is denoted, if it is finite. The digits before the point that do
not fit into the significand count as zeros, those after the point are dropped. -/
def WrittenNumber.float? (w : WrittenNumber) : Option Binary64 :=
  let (whole, zeros) := appendDigits 0 w.whole
  let (significand, dropped) := appendDigits whole w.fraction
  let places : Int := w.fraction.length - dropped.length
  Binary64.ofDecimal? w.negative significand (w.exponent + zeros.length - places)

/-- The number that is denoted: an integer, or a floating-point number if that is finite. -/
def WrittenNumber.value? (w : WrittenNumber) : Option JsonNumber :=
  match w.int? with
  | some n => some (.int n)
  | none => w.float?.map JsonNumber.float

/-- A number with its value. -/
def readNumber : Reading JsonNumber := do
  match (← writtenNumber .truncated).value? with
  | some n => return n
  | none => throw .malformed

end Json

end HybridStep
