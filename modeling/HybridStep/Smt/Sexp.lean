/-! # S-expressions

The shape of everything a script writes: atoms, and lists in parentheses with single spaces between
their elements. -/

namespace HybridStep

/-- An atom or a list of s-expressions. -/
inductive Sexp where
  | atom (text : String)
  | list (elements : List Sexp)
  deriving Inhabited

namespace Sexp

mutual

/-- The characters of an s-expression. -/
def chars : Sexp → List Char
  | atom s => s.toList
  | list l => '(' :: charsOfList l ++ [')']

/-- The characters of the elements of a list, with single spaces in between. -/
def charsOfList : List Sexp → List Char
  | [] => []
  | [x] => x.chars
  | x :: xs => x.chars ++ ' ' :: charsOfList xs

end

/-- The text of an s-expression. -/
def text (x : Sexp) : String := String.ofList x.chars

end Sexp

end HybridStep
