/-! # Sorts of terms

Integers, reals, truth values and enumerations. An enumeration is given by its name and its variants
in order. -/

namespace HybridStep

/-- A named finite enumeration. -/
structure EnumSort where
  name : String
  variants : List String
  deriving DecidableEq, Inhabited

/-- The position of a variant. -/
def EnumSort.indexOf? (e : EnumSort) (variant : String) : Option Nat :=
  e.variants.findIdx? (· == variant)

/-- The sort of a term. -/
inductive TermSort where
  | int
  | real
  | bool
  | enum (e : EnumSort)
  deriving DecidableEq, Inhabited

namespace TermSort

/-- Integers and reals. -/
def isNumeric : TermSort → Bool
  | int | real => true
  | bool | enum _ => false

/-- The least sort that holds the values of both: the sort itself, or the reals for an integer and a
real. -/
def join? (a b : TermSort) : Option TermSort :=
  if a = b then some a
  else if a.isNumeric && b.isNumeric then some real
  else none

/-- The name of a sort, unquoted. -/
def text : TermSort → String
  | int => "Int"
  | real => "Real"
  | bool => "Bool"
  | enum e => e.name

theorem join?_self (a : TermSort) : a.join? a = some a := by simp [join?]

theorem join?_comm (a b : TermSort) : a.join? b = b.join? a := by
  unfold join?
  by_cases h : a = b
  · simp [h]
  · simp [h, Ne.symm h, Bool.and_comm]

end TermSort

end HybridStep
