import HybridStep.Body.Diagnostic
import HybridStep.Smt.Combinator

/-! # Why a body has no constraints -/

namespace HybridStep

/-- Why a modifier cannot be encoded.

* `unsupportedOperator`: an operator has no meaning for operands of these sorts;
* `sortMismatch`: a term would have operands of wrong sorts;
* `unknownTag`: a text is no variant of the enumeration it is used for;
* `bareTag`: a text is used where no enumeration is expected;
* `narrowing`: a real value is put into an integer;
* `priorValue`: the value of a port before the step is not of its sort;
* `missingElse`, `returnWithoutTarget`, `emptyReturn`: statements that the modifier cannot have;
* `unencodable`: the node has no meaning in its place. -/
inductive EncodingError where
  | unsupportedOperator (op : String) (operands : List TermSort)
  | sortMismatch (e : SortMismatch)
  | unknownTag (tag sort : String)
  | bareTag (tag : String)
  | narrowing (name : String)
  | priorValue (port value sort : String)
  | missingElse (modifier : String)
  | returnWithoutTarget (modifier : String)
  | emptyReturn (modifier : String)
  | unencodable (node : Node)

namespace EncodingError

/-- A text between quotation marks of a message. -/
def ticked (s : String) : String := "`" ++ s ++ "`"

/-- The text by which a message shows a node. -/
def shown : Node → String
  | .unsupported text => text
  | n => n.diagnostic

/-- The text of the error. -/
def message : EncodingError → String
  | unsupportedOperator op operands =>
    "unsupported operator " ++ ticked op ++ " for operands of sort (" ++
      ", ".intercalate (operands.map TermSort.text) ++ ")"
  | sortMismatch e => e.message
  | unknownTag tag sort => "unknown tag " ++ ticked tag ++ " for enumeration " ++ ticked sort
  | bareTag tag =>
    "string literal " ++ ticked tag ++ " is used outside of an enumeration context"
  | narrowing name => "cannot narrow a real value into the integer-sorted " ++ ticked name
  | priorValue port value sort =>
    "prior value " ++ value ++ " of port " ++ ticked port ++ " does not fit sort " ++ sort
  | missingElse modifier => ticked "if" ++ " without " ++ ticked "else" ++ " in " ++ ticked modifier
  | returnWithoutTarget modifier =>
    ticked "return" ++ " in " ++ ticked modifier ++ ", which has no target port"
  | emptyReturn modifier => ticked "return" ++ " without a value in " ++ ticked modifier
  | unencodable node =>
    "cannot translate " ++ node.kind ++ " " ++ ticked (shown node) ++ " into constraints"

end EncodingError

end HybridStep
