import HybridStep.Body.Node
import HybridStep.Body.Token
import HybridStep.Smt.Sort

/-! # Expressions as they are written

The expressions, statements and patterns of update bodies. Forms whose operands meet the operators
around them are trees; forms that end with their own brackets and have no meaning for the encoding
keep the token trees they are written with. -/

namespace HybridStep

/-- The operators written between two expressions. Augmented assignments count among them. -/
inductive InfixOp where
  | binary (op : BinaryOp)
  | compare (op : CmpOp)
  | logical (op : BoolOp)
  | augment (op : BinaryOp)
  deriving DecidableEq

/-- What a point selects: a field by its name or by its position. -/
inductive Member where
  | named (name : String)
  | position (index : Nat)
  deriving DecidableEq

/-- The patterns that are told apart: a range, which may lack an end, a reference, a pattern that is
kept as it stands, and the others. -/
inductive PatternKind where
  | range (isOpen : Bool)
  | reference
  | raw
  | other
  deriving DecidableEq

/-- A pattern that binds a parameter or a local: the name it gives to the whole value, or the part
that gives it none. -/
structure Pattern where
  trees : List TokenTree
  name : Except (List TokenTree) String
  kind : PatternKind := .other

mutual

/-- An expression with the attributes in front of it. -/
inductive Expr where
  | mk (attributes : List TokenTree) (form : ExprForm)

/-- The form of an expression.

* `path` has a name if it is a single word; `construction` is a structure literal;
* `invocation` is a macro call, which may be in braces; `enclosed` stands in parentheses;
* `closed` is any other form that is bracketed or a single word; `raw` is kept as it stands;
* `suffixed` is an expression followed by a question mark or by `await`;
* `binding` is a `let` used as a condition, `leap` a `break`;
* `cast` tells whether its type ends in a path that generic arguments could follow;
* `closure` has the trees before its body, and tells whether its result type is written;
* `conditional` is an `if`, `block` a block that may carry a label and start with attributes;
* `blockLike` is any other form that ends in its own block. -/
inductive ExprForm where
  | literal (trees : List TokenTree) (value : Option Literal)
  | path (trees : List TokenTree) (name : Option String)
  | construction (trees : List TokenTree)
  | invocation (trees : List TokenTree) (braced : Bool)
  | enclosed (inner : Expr)
  | closed (trees : List TokenTree)
  | raw (trees : List TokenTree)
  | field (base : Expr) (member : Member)
  | method (receiver : Expr) (name : String) (generics : List TokenTree) (args : List Expr)
      (trailing : Bool)
  | call (function : Expr) (args : List Expr) (trailing : Bool)
  | index (base position : Expr)
  | suffixed (inner : Expr) (trees : List TokenTree)
  | unary (op : UnaryOp) (operand : Expr)
  | borrow (mark : List TokenTree) (isRaw : Bool) (inner : Expr)
  | operation (op : InfixOp) (left right : Expr)
  | assign (target value : Expr)
  | cast (inner : Expr) (type : List TokenTree) (openPath : Bool)
  | range (start : Option Expr) (closed : Bool) (stop : Option Expr)
  | binding (pattern : List TokenTree) (value : Expr)
  | closure (head : List TokenTree) (params : List Pattern) (typed : Bool) (body : Expr)
  | leap (label : Option String) (value : Option Expr)
  | ret (value : Option Expr)
  | yield_ (value : Option Expr)
  | conditional (test : Expr) (body : List Stmt) (orelse : Option Expr)
  | block (label : Option String) (attributes : List TokenTree) (body : List Stmt)
  | blockLike (labelled : Bool) (trees : List TokenTree)

/-- A statement: a binding, a statement without meaning here, or an expression with or without a
semicolon. The trees of a binding's pattern hold its type, and its alternative those from `else`
on. -/
inductive Stmt where
  | bind (attributes : List TokenTree) (pattern : Pattern) (typed : Option TermSort)
      (value : Option Expr) (alternative : List TokenTree)
  | skipped (trees : List TokenTree)
  | expr (e : Expr) (terminated : Bool)

end

namespace Expr

/-- The attributes in front of an expression. -/
def attributes : Expr → List TokenTree
  | mk attributes _ => attributes

/-- The form of an expression. -/
def form : Expr → ExprForm
  | mk _ form => form

/-- Whether an expression ends with its own block, so that no semicolon has to follow it. -/
def endsWithBlock (e : Expr) : Bool :=
  match e.form with
  | .conditional .. | .block .. | .blockLike .. => true
  | _ => false

/-- Whether an expression needs a semicolon when another statement follows it. -/
def needsSemicolon (e : Expr) : Bool :=
  match e.form with
  | .invocation _ braced => !braced
  | _ => !e.endsWithBlock

/-- Puts attributes in front of those of an expression. What is kept as it stands takes none. -/
def attach (attributes : List TokenTree) : Expr → Expr
  | mk own (.raw trees) => mk own (.raw trees)
  | mk own form => mk (attributes ++ own) form

/-- Puts attributes in front of the operand that an expression starts with. A range keeps them for
itself. -/
def attachLeft (attributes : List TokenTree) : Expr → Expr
  | mk own (.assign target value) => mk own (.assign (attachLeft attributes target) value)
  | mk own (.operation op left right) => mk own (.operation op (attachLeft attributes left) right)
  | mk own (.cast inner type openPath) => mk own (.cast (attachLeft attributes inner) type openPath)
  | mk own form => attach attributes (mk own form)

end Expr

end HybridStep
