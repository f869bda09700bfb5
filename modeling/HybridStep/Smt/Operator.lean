/-! # Operators of terms -/

namespace HybridStep

/-- The operators that terms are built with. -/
inductive Operator where
  | add | sub | mul | div | intDiv | mod | pow | neg
  | lt | le | gt | ge | eq | distinct
  | not | and | or | xor | ite | toReal
  deriving DecidableEq, Inhabited

namespace Operator

/-- The SMT-LIB symbol. Subtraction and negation share one. -/
def symbol : Operator → String
  | add => "+"
  | sub | neg => "-"
  | mul => "*"
  | div => "/"
  | intDiv => "div"
  | mod => "mod"
  | pow => "^"
  | lt => "<"
  | le => "<="
  | gt => ">"
  | ge => ">="
  | eq => "="
  | distinct => "distinct"
  | not => "not"
  | and => "and"
  | or => "or"
  | xor => "xor"
  | ite => "ite"
  | toReal => "to_real"

/-- The four order comparisons. -/
def isOrdering : Operator → Bool
  | lt | le | gt | ge => true
  | _ => false

end Operator

end HybridStep
