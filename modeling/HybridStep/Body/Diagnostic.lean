import HybridStep.Body.Node
import HybridStep.Text.Visible

/-! # Nodes in diagnostic form

The text by which a message shows a node: the form of the node with its parts, labelled where there
are several. -/

namespace HybridStep

namespace Diagnostic

/-- A form with one part. -/
def applied (form part : String) : String := form ++ "(" ++ part ++ ")"

/-- A form with labelled parts. -/
def labelled (form : String) (parts : List (String × String)) : String :=
  form ++ " \x7b " ++ ", ".intercalate (parts.map fun (label, part) => label ++ ": " ++ part) ++
    " \x7d"

/-- A list of parts. -/
def listed (parts : List String) : String := "[" ++ ", ".intercalate parts ++ "]"

end Diagnostic

open Diagnostic

/-- The diagnostic form of a literal. -/
def Literal.diagnostic : Literal → String
  | int n => applied "Int" n.text
  | real q =>
    applied "Real" (applied "Rational"
      (labelled "Ratio" [("numer", toString q.num), ("denom", toString q.den)]))
  | bool b => applied "Bool" (if b then "true" else "false")
  | text s => applied "Str" (Visible.quoted s)

/-- The diagnostic form of an operator with one operand. -/
def UnaryOp.diagnostic : UnaryOp → String
  | not => "Not"
  | neg => "Neg"
  | identity => "Identity"

/-- The diagnostic form of an operator with two operands. -/
def BinaryOp.diagnostic : BinaryOp → String
  | add => "Add"
  | sub => "Sub"
  | mul => "Mul"
  | div => "Div"
  | mod => "Mod"
  | pow => "Pow"
  | bitAnd => "BitAnd"
  | bitOr => "BitOr"
  | bitXor => "BitXor"
  | shl => "Shl"
  | shr => "Shr"

/-- The diagnostic form of a junction. -/
def BoolOp.diagnostic : BoolOp → String
  | and => "And"
  | or => "Or"

/-- The diagnostic form of a comparison. -/
def CmpOp.diagnostic : CmpOp → String
  | eq => "Eq"
  | ne => "Ne"
  | lt => "Lt"
  | le => "Le"
  | gt => "Gt"
  | ge => "Ge"

namespace Node

mutual

/-- The diagnostic form of a node. -/
def diagnostic : Node → String
  | literal value => applied "Literal" value.diagnostic
  | name n => applied "Name" (Visible.quoted n)
  | access segments => applied "Attribute" (listed (segments.map Visible.quoted))
  | assign targets value =>
    labelled "Assign" [("targets", listed (diagnostics targets)), ("value", value.diagnostic)]
  | augment target op value =>
    labelled "AugAssign"
      [("target", target.diagnostic), ("op", op.diagnostic), ("value", value.diagnostic)]
  | unary op operand =>
    labelled "UnaryOp" [("op", op.diagnostic), ("operand", operand.diagnostic)]
  | binary op left right =>
    labelled "BinOp"
      [("op", op.diagnostic), ("left", left.diagnostic), ("right", right.diagnostic)]
  | logical op values =>
    labelled "BoolOp" [("op", op.diagnostic), ("values", listed (diagnostics values))]
  | compare left ops others =>
    labelled "Compare"
      [("left", left.diagnostic), ("ops", listed (ops.map CmpOp.diagnostic)),
        ("comparators", listed (diagnostics others))]
  | choice test body orelse =>
    labelled "IfExpr"
      [("test", test.diagnostic), ("body", body.diagnostic), ("orelse", orelse.diagnostic)]
  | branch test body orelse =>
    labelled "IfStmt"
      [("test", test.diagnostic), ("body", listed (diagnostics body)),
        ("orelse", diagnosticOfElse orelse)]
  | ret value => applied "Return" (diagnosticOfValue value)
  | block body => applied "Block" (listed (diagnostics body))
  | unsupported text => applied "Unsupported" (Visible.quoted text)

/-- The diagnostic forms of several nodes. -/
def diagnostics : List Node → List String
  | [] => []
  | n :: ns => n.diagnostic :: diagnostics ns

/-- The diagnostic form of an arm that may be missing. -/
def diagnosticOfElse : Option (List Node) → String
  | none => "None"
  | some body => applied "Some" (listed (diagnostics body))

/-- The diagnostic form of a value that may be missing. -/
def diagnosticOfValue : Option Node → String
  | none => "None"
  | some value => applied "Some" value.diagnostic

end

end Node

end HybridStep
