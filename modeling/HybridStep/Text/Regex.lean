/-! # Regexes

An engine for regexes compiles a text to a regex and tells whether a regex is found in another text.
Which engine it is stays open: a program that uses regexes is given one. -/

namespace HybridStep

/-- Why a text has no regex: it is not well formed, or its regex takes more bytes than the engine
allows. -/
inductive RegexError where
  | malformed (text : String)
  | tooBig (limit : Nat)
  deriving DecidableEq

/-- The text of the error. -/
def RegexError.message : RegexError → String
  | malformed text => text
  | tooBig limit => "Compiled regex exceeds size limit of " ++ toString limit ++ " bytes."

/-- An engine for regexes.

* `escape` makes a text into one that stands for itself in a regex;
* `compile` gives the regex of a text;
* `isMatch` tells whether a regex is found anywhere in a text. -/
structure RegexEngine where
  Regex : Type
  escape : String → String
  compile : String → Except RegexError Regex
  isMatch : Regex → String → Bool

end HybridStep
