/-! # Paths

A path is a list of names; its text has a mark in between, a point unless another one is given.
Cutting a text at its marks gives at least one name, which may be empty. -/

namespace HybridStep.Path

/-- Cuts characters at a mark. -/
def cut (mark : Char) : List Char → List (List Char)
  | [] => [[]]
  | c :: cs =>
    if c = mark then [] :: cut mark cs
    else match cut mark cs with
      | [] => [[c]]
      | name :: names => (c :: name) :: names

/-- The names between the marks of a text. -/
def names (mark : Char) (text : String) : List String :=
  (cut mark text.toList).map String.ofList

/-- The names of a dotted path. -/
def ofText (text : String) : List String := names '.' text

/-- The text of a dotted path. -/
def text (path : List String) : String := ".".intercalate path

theorem cut_ne_nil (mark : Char) (cs : List Char) : cut mark cs ≠ [] := by
  cases cs with
  | nil => simp [cut]
  | cons c cs =>
    unfold cut
    split
    · simp
    · split <;> simp

end HybridStep.Path
