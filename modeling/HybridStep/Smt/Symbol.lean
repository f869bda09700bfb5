import HybridStep.Text.Ascii

/-! # Written symbols

A name is written as it stands if it is a simple symbol, and between bars otherwise; a bar inside is
written as an underscore. -/

namespace HybridStep.Symbol

open Ascii (isLetter isDigit)

/-- The other characters of simple symbols. -/
def marks : List Char := "~!@$%^&*_-+=<>.?/".toList

/-- A character that may stand in a simple symbol. -/
def isSimpleChar (c : Char) : Bool := isLetter c || isDigit c || marks.contains c

/-- A nonempty list of simple characters that does not start with a digit. -/
def isSimple : List Char → Bool
  | [] => false
  | c :: cs => !isDigit c && (c :: cs).all isSimpleChar

/-- The characters of a written symbol. -/
def quoteChars (cs : List Char) : List Char :=
  if isSimple cs then cs
  else '|' :: cs.map (fun c => if c = '|' then '_' else c) ++ ['|']

/-- The written form of a name. -/
def quote (name : String) : String := String.ofList (quoteChars name.toList)

end HybridStep.Symbol
