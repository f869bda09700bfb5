import HybridStep.Number.Word

/-! # Statement trees

Update bodies as the trees that are encoded. One closed type holds expressions and statements;
what has no place in it is kept as the text it was written in. -/

namespace HybridStep

/-- A literal. A text literal stands for a variant of an enumeration. -/
inductive Literal where
  | int (n : Word)
  | real (q : Rat)
  | bool (b : Bool)
  | text (s : String)
  deriving DecidableEq, Inhabited

/-- The operators with one operand. The last one passes its operand on. -/
inductive UnaryOp where
  | not | neg | identity
  deriving DecidableEq, Inhabited

/-- The arithmetic and bitwise operators with two operands. -/
inductive BinaryOp where
  | add | sub | mul | div | mod | pow | bitAnd | bitOr | bitXor | shl | shr
  deriving DecidableEq, Inhabited

/-- Conjunction and disjunction of several operands. -/
inductive BoolOp where
  | and | or
  deriving DecidableEq, Inhabited

/-- The comparisons. -/
inductive CmpOp where
  | eq | ne | lt | le | gt | ge
  deriving DecidableEq, Inhabited

/-- An expression or a statement of an update body.

* `access` is a chain of field names with its base, such as `s.port.value`;
* `compare left ops others` compares each operand with the next one;
* `choice` is a conditional with a value, `branch` one without, whose other arm may be missing;
* `unsupported` keeps the written text of anything else. -/
inductive Node where
  | literal (value : Literal)
  | name (name : String)
  | access (segments : List String)
  | assign (targets : List Node) (value : Node)
  | augment (target : Node) (op : BinaryOp) (value : Node)
  | unary (op : UnaryOp) (operand : Node)
  | binary (op : BinaryOp) (left right : Node)
  | logical (op : BoolOp) (values : List Node)
  | compare (left : Node) (ops : List CmpOp) (others : List Node)
  | choice (test body orelse : Node)
  | branch (test : Node) (body : List Node) (orelse : Option (List Node))
  | ret (value : Option Node)
  | block (body : List Node)
  | unsupported (text : String)
  deriving BEq, Inhabited

namespace UnaryOp

/-- The written operator. -/
def text : UnaryOp → String
  | not => "!"
  | neg => "-"
  | identity => "*"

end UnaryOp

namespace BinaryOp

/-- The written operator. -/
def text : BinaryOp → String
  | add => "+"
  | sub => "-"
  | mul => "*"
  | div => "/"
  | mod => "%"
  | pow => "pow"
  | bitAnd => "&"
  | bitOr => "|"
  | bitXor => "^"
  | shl => "<<"
  | shr => ">>"

end BinaryOp

namespace Node

/-- What kind of node it is, in words. -/
def kind : Node → String
  | literal _ => "literal"
  | name _ => "name"
  | access _ => "attribute"
  | assign .. => "assignment"
  | augment .. => "augmented assignment"
  | unary .. => "unary operation"
  | binary .. => "binary operation"
  | logical .. => "boolean operation"
  | compare .. => "comparison"
  | choice .. => "conditional expression"
  | branch .. => "if statement"
  | ret _ => "return"
  | block _ => "block"
  | unsupported _ => "unsupported syntax"

/-- The text of unsupported syntax, and the kind of any other node. -/
def sourceText : Node → String
  | unsupported text => text
  | n => n.kind

end Node

end HybridStep
