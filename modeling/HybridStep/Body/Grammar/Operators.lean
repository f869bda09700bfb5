import HybridStep.Body.Grammar.Patterns

/-! # Operators between expressions

Expressions with infix operators are read by precedence climbing: a left operand is extended by the
operators that bind at least as tightly as a given precedence. Comparisons do not chain, assignments
associate to the right, and a range is no left operand. -/

namespace HybridStep.Grammar

variable (g : Nested)

/-- The infix operators, longer ones before those that start them. -/
def infixOperators : List InfixOp :=
  [.augment .add, .augment .sub, .augment .mul, .augment .div, .augment .mod, .augment .bitXor,
   .augment .bitAnd, .augment .bitOr, .augment .shl, .augment .shr, .logical .and, .logical .or,
   .binary .shl, .binary .shr, .compare .eq, .compare .le, .compare .ne, .compare .ge, .binary .add,
   .binary .sub, .binary .mul, .binary .div, .binary .mod, .binary .bitXor, .binary .bitAnd,
   .binary .bitOr, .compare .lt, .compare .gt]

/-- The infix operator ahead. -/
def infixAhead? (ts : List TokenTree) : Option InfixOp :=
  infixOperators.find? fun o => startsOp o.text ts

/-- Whether an assignment sign is ahead. -/
def startsAssign (ts : List TokenTree) : Bool := startsOp "=" ts && !startsOp "=>" ts

/-- Whether a point is ahead, and no dots. -/
def startsPoint (ts : List TokenTree) : Bool := startsOp "." ts && !startsOp ".." ts

/-- The precedence of what is ahead, the lowest if it extends no operand. -/
def precedenceAhead (ts : List TokenTree) : Precedence :=
  match infixAhead? ts with
  | some o => o.precedence
  | none =>
    if startsAssign ts then .assign
    else if startsOp ".." ts then .range
    else if startsWord "as" ts then .cast
    else .lowest

/-- Whether an expression is a range. -/
def isRange (e : Expr) : Bool := match e.form with
  | .range .. => true
  | _ => false

/-- Whether an expression is a comparison. -/
def isComparison (e : Expr) : Bool := match e.form with
  | .operation (.compare _) _ _ => true
  | _ => false

/-- Whether the trees may start an expression. -/
def startsExpr (ts : List TokenTree) : Bool :=
  (startsAnyWord ts && !startsWord "as" ts) || startsGroup .paren ts || startsGroup .bracket ts ||
    startsGroup .brace ts || startsLiteral ts || (startsOp "!" ts && !startsOp "!=" ts) ||
    (startsOp "-" ts && !startsOp "-=" ts && !startsOp "->" ts) ||
    (startsOp "*" ts && !startsOp "*=" ts) || (startsOp "|" ts && !startsOp "|=" ts) ||
    (startsOp "&" ts && !startsOp "&=" ts) || startsOp ".." ts ||
    (startsOp "<" ts && !startsOp "<=" ts && !startsOp "<<=" ts) || startsOp "::" ts ||
    startsLifetime ts || startsOp "#" ts

/-- The right operand of an operator of precedence `p`: an operand together with what binds more
tightly, or as tightly if that is an assignment. -/
def rightOperand (allowStruct : Bool) (p : Precedence) : Reader Expr := do
  loop (fun e => do
    let next := precedenceAhead (← ahead)
    if p < next || (next == p && p == Precedence.assign) then
      let before := (← ahead).length
      let e' ← g.climb allowStruct next e
      if (← ahead).length = before then return .inr e'
      else return .inl e'
    else return .inr e) (← g.unary allowStruct)

/-- Whether a range without an upper bound ends here. -/
def endsRange (allowStruct : Bool) (ts : List TokenTree) : Bool :=
  ts.isEmpty ||
    [",", ";", "?", "=>", "=", "+", "/", "%", "^", ">", "<=", "!=", "-=", "*=", "&=", "|=",
     "<<="].any (startsOp · ts) ||
    startsPoint ts || (!allowStruct && startsGroup .brace ts) || startsWord "as" ts

/-- The dots of a range after its lower bound, and its upper bound, which there must be after
`..=`. -/
def rangeFrom (allowStruct : Bool) (start : Option Expr) : Reader ExprForm := do
  if startsOp "..." (← ahead) then failure
  if ← acceptOp "..=" then
    return .range start true (some (← rightOperand g allowStruct .range))
  else
    takeOp ".."
    if endsRange allowStruct (← ahead) then return .range start false none
    else return .range start false (some (← rightOperand g allowStruct .range))

end HybridStep.Grammar
