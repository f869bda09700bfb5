import HybridStep.Text.Path
import HybridStep.Text.Regex

/-! # Name patterns

A star in a pattern stands for any text without a line feed, every other character for itself. A
pattern is given to an engine as a regex: what stands between the stars is escaped, and the whole
is held at the start and the end of a name. -/

namespace HybridStep

/-- A pattern without a regex, with the reason. -/
structure PatternError where
  pattern : String
  cause : RegexError
  deriving DecidableEq

/-- The texts of the error and of what caused it. -/
def PatternError.texts (e : PatternError) : List String :=
  ["invalid name pattern `" ++ e.pattern ++ "`", e.cause.message]

/-- A name pattern, compiled by an engine. -/
structure NameFilter (engine : RegexEngine) where
  regex : engine.Regex

namespace NameFilter

variable {engine : RegexEngine}

/-- The regex of a pattern, as a text. -/
def source (engine : RegexEngine) (pattern : String) : String :=
  let body := ".*".intercalate ((Path.names '*' pattern).map engine.escape)
  "^" ++ body ++ "$"

/-- The filter of a pattern. -/
def ofPattern (engine : RegexEngine) (pattern : String) :
    Except PatternError (NameFilter engine) :=
  match engine.compile (source engine pattern) with
  | .ok regex => .ok ⟨regex⟩
  | .error e => .error ⟨pattern, e⟩

/-- Whether a name matches. -/
def isMatch (filter : NameFilter engine) (name : String) : Bool :=
  engine.isMatch filter.regex name

end NameFilter

/-- The items whose name matches the filter, or all of them without one. -/
def filterByName {engine : RegexEngine} {α : Type} (items : List α)
    (filter : Option (NameFilter engine)) (name : α → String) : List α :=
  match filter with
  | some filter => items.filter fun item => filter.isMatch (name item)
  | none => items

end HybridStep
