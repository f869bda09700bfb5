import HybridStep.Body.Expr.Trees
import HybridStep.Ordered.Map

/-! # Statement trees of written expressions

Each written expression has a node. In the tail of a function an expression without semicolon
becomes a return; an `if` is a conditional expression where both of its arms are single values, and
a branch otherwise. What has no node of its own becomes unsupported syntax with its text. -/

namespace HybridStep

namespace Expr

/-- The node of an expression that is not supported. -/
def unsupported (e : Expr) : Node := .unsupported e.text

mutual

/-- Whether an expression only makes sense as a statement. -/
def isStatement : Expr → Bool
  | mk _ (.assign ..) => true
  | mk _ (.ret _) => true
  | mk _ (.operation (.augment _) _ _) => true
  | mk _ (.conditional _ body orelse) => !(isValueBlock body && isValueElse orelse)
  | mk _ _ => false

/-- Whether a block is a single value. -/
def isValueBlock : List Stmt → Bool
  | [.expr e false] => !e.isStatement
  | _ => false

/-- Whether the other arm of an `if` is there and a single value. -/
def isValueElse : Option Expr → Bool
  | some (mk _ (.block _ _ body)) => isValueBlock body
  | some (mk _ (.conditional _ body orelse)) => isValueBlock body && isValueElse orelse
  | _ => false

end

/-- The names of a chain of fields, from its base on. -/
def fieldChain : Expr → Option (List String)
  | mk _ (.path _ (some name)) => some [name]
  | mk _ (.enclosed inner) => inner.fieldChain
  | mk _ (.field base (.named member)) => base.fieldChain.map (· ++ [member])
  | mk _ _ => none

/-- The targets of a chain of assignments. -/
def assignTargets : Expr → List Expr
  | mk _ (.assign target value) => target :: assignTargets value
  | _ => []

/-- What a chain of assignments assigns. -/
def assignValue : Expr → Expr
  | mk _ (.assign _ value) => assignValue value
  | e => e

/-- Whether an expression is a junction by `op`. -/
def isJunction (op : BoolOp) : Expr → Bool
  | mk _ (.operation (.logical op') _ _) => op = op'
  | _ => false

/-- The operands that an expression with a node adds to a junction by `op`: those of a junction of
the same kind, or itself. -/
def junctionParts (op : BoolOp) (e : Expr) : Node → List Node
  | .logical op' values => if e.isJunction op then values else [.logical op' values]
  | node => [node]

mutual

/-- The node of an expression that stands for a value. -/
def toNode : Expr → Node
  | mk _ (.literal _ (some value)) => .literal value
  | mk _ (.path _ (some name)) => .name name
  | mk attributes (.field base member) =>
    match fieldChain (mk attributes (.field base member)) with
    | some segments => .access segments
    | none => unsupported (mk attributes (.field base member))
  | mk _ (.unary op operand) => .unary op operand.toNode
  | mk _ (.operation (.binary op) left right) => .binary op left.toNode right.toNode
  | mk _ (.operation (.compare op) left right) => .compare left.toNode [op] [right.toNode]
  | mk _ (.operation (.logical op) left right) =>
    .logical op (junctionParts op left left.toNode ++ junctionParts op right right.toNode)
  | mk _ (.enclosed inner) => inner.toNode
  | mk _ (.cast inner _ _) => inner.toNode
  | mk _ (.borrow _ false inner) => inner.toNode
  | mk attributes (.conditional test body orelse) =>
    match valueNode body, elseNode orelse with
    | some yes, some no => .choice test.toNode yes no
    | _, _ => unsupported (mk attributes (.conditional test body orelse))
  | mk attributes (.block none inner body) =>
    (valueNode body).getD (unsupported (mk attributes (.block none inner body)))
  | mk attributes (.method receiver name generics args trailing) =>
    let whole := mk attributes (.method receiver name generics args trailing)
    match toNodes args with
    | [exponent] =>
      if ["pow", "powi", "powf"].contains name then .binary .pow receiver.toNode exponent
      else unsupported whole
    | _ => unsupported whole
  | mk attributes form => unsupported (mk attributes form)

/-- The nodes of several expressions. -/
def toNodes : List Expr → List Node
  | [] => []
  | e :: es => e.toNode :: toNodes es

/-- The node of the other arm of an `if`, if it is there. -/
def elseNode : Option Expr → Option Node
  | some e => some e.toNode
  | none => none

/-- The node of a block that is a single value. -/
def valueNode : List Stmt → Option Node
  | [.expr e false] => if e.isStatement then none else some e.toNode
  | _ => none

end

end Expr

namespace Stmt

mutual

/-- The nodes of a block. With `tail`, a trailing expression becomes a return. -/
def toNodes (tail : Bool) : List Stmt → List Node
  | [] => []
  | .bind attributes pattern typed value alternative :: rest =>
    let here := match value with
      | none => []
      | some e => match pattern.name with
        | .ok name => [.assign [.name name] e.toNode]
        | .error _ =>
          [.unsupported (Stmt.text (.bind attributes pattern typed value alternative))]
    here ++ toNodes tail rest
  | .skipped _ :: rest => toNodes tail rest
  | .expr (.mk attributes form) terminated :: rest =>
    let e := Expr.mk attributes form
    let last := tail && !terminated && rest.isEmpty
    let here := match form with
      | .assign .. => [.assign (Expr.toNodes e.assignTargets) e.assignValue.toNode]
      | .operation (.augment op) target value => [.augment target.toNode op value.toNode]
      | .ret value => [.ret (Expr.elseNode value)]
      | .conditional test body orelse =>
        if last && !e.isStatement then [.ret (some e.toNode)]
        else [.branch test.toNode (toNodes last body) (elseNodes last orelse)]
      | .block none _ body => toNodes last body
      | _ => if last then [.ret (some e.toNode)] else [e.toNode]
    here ++ toNodes tail rest

/-- The nodes of the other arm of an `if` statement. -/
def elseNodes (tail : Bool) : Option Expr → Option (List Node)
  | none => none
  | some (.mk _ (.block _ _ body)) => some (toNodes tail body)
  | some (.mk _ (.conditional test body orelse)) =>
    some [.branch test.toNode (toNodes tail body) (elseNodes tail orelse)]
  | some e => some [e.toNode]

end

mutual

/-- The locals that a block binds with a primitive type, with their sorts, in order. -/
def declared : List Stmt → List (String × TermSort)
  | [] => []
  | .bind _ pattern typed _ _ :: rest =>
    match pattern.name, typed with
    | .ok name, some sort => (name, sort) :: declared rest
    | _, _ => declared rest
  | .skipped _ :: rest => declared rest
  | .expr e _ :: rest => declaredIn e ++ declared rest

/-- The locals that an expression in the place of a statement binds with a primitive type. -/
def declaredIn : Expr → List (String × TermSort)
  | .mk _ (.block _ _ body) => declared body
  | .mk _ (.conditional _ body orelse) => declared body ++ declaredInElse orelse
  | .mk _ _ => []

/-- The locals that the other arm of an `if` binds with a primitive type. -/
def declaredInElse : Option Expr → List (String × TermSort)
  | some e => declaredIn e
  | none => []

end

end Stmt

end HybridStep
