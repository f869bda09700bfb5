import HybridStep.Body.Grammar.Operands

/-! # Expressions

Operands with what follows them, with operators in front of them and between them. -/

namespace HybridStep.Grammar

open TokenTree (op)

variable (g : Nested)

/-! ### Behind an operand -/

/-- The indexes in a number such as `0.1` after a point, and whether it ends in a point. -/
def indexParts? (text : String) : Option (List Nat × Bool) :=
  let parts := (text.splitOn ".").filter (· ≠ "")
  let index? (p : String) : Option Nat :=
    match Literal.whole? p.toList with
    | some (n, []) => if isIndex n then some n else none
    | _ => none
  (parts.mapM index?).map fun indexes => (indexes, text.endsWith ".")

/-- The field, call or `await` after a point that has been taken. -/
def afterPoint (e : Expr) : Reader ExprForm := do
  if ← acceptWord "await" then return .suffixed e (op "." ++ [.ident "await"])
  else if startsName (← ahead) then
    let name ← takeName
    let (generics, turbofish) ← collect do
      let turbofish ← acceptOp "::"
      if turbofish then discard (genericArguments g)
      return turbofish
    if turbofish || startsGroup .paren (← ahead) then
      let (args, trailing) ← group .paren (commaItems (g.expr true))
      return .method e name generics args trailing
    else return .field e (.named name)
  else return .field e (.position (← takeIndex))

/-- The fields of a number with points after a point. -/
def indexFields (e : Expr) (indexes : List Nat) : Expr :=
  indexes.foldl (fun e n => .mk [] (.field e (.position n))) e

/-- Whether a number with a point or an exponent is ahead. -/
def realAhead? : List TokenTree → Option String
  | .literal text :: _ =>
    if (Literal.whole? text.toList).isNone && (Literal.real? text.toList).isSome then some text
    else none
  | _ => none

/-- What follows an expression: calls, fields, indexes and question marks. -/
def trailers (e : Expr) : Reader Expr :=
  loop (fun e => do
    let ts ← ahead
    if startsGroup .paren ts then
      let (args, trailing) ← group .paren (commaItems (g.expr true))
      return .inl (.mk [] (.call e args trailing))
    else if startsPoint ts && !isRange e then
      takeOp "."
      match realAhead? (← ahead) with
      | some text =>
        match indexParts? text with
        | none => failure
        | some (indexes, trailing) =>
          discard takeLiteral
          let e := indexFields e indexes
          if trailing then return .inl (.mk [] (← afterPoint g e)) else return .inl e
      | none => return .inl (.mk [] (← afterPoint g e))
    else if startsGroup .bracket ts then
      let position ← group .bracket (g.expr true)
      return .inl (.mk [] (.index e position))
    else if startsOp "?" ts && !isRange e then
      takeOp "?"
      return .inl (.mk [] (.suffixed e (op "?")))
    else return .inr e) e

/-! ### In front of an operand -/

/-- The form of a borrow. -/
def borrowForm (allowStruct : Bool) : Reader ExprForm := do
  let (mark, isRaw) ← collect do
    takeOp "&"
    let ts ← ahead
    let isRaw := startsWord "raw" ts && startsOneOf ["mut", "const"] (skipTree ts)
    if isRaw then
      takeWord "raw"
      discard takeAnyWord
    else discard (acceptWord "mut")
    return isRaw
  return .borrow mark isRaw (← g.unary allowStruct)

/-- The operator in front of an operand, if one is ahead. -/
def unaryAhead? (ts : List TokenTree) : Option UnaryOp :=
  [UnaryOp.identity, .not, .neg].find? fun o => startsOp o.text ts

/-- An operand: an expression without infix operators. The attributes in front of what is kept as it
stands are kept with it, and a range takes none. -/
def unary (allowStruct : Bool) : Reader Expr :=
  quiet do
    let start ← ahead
    let (attributes, ()) ← collect (outerAttributes g)
    let ts ← ahead
    if startsOp "&" ts then return .mk attributes (← borrowForm g allowStruct)
    else match unaryAhead? ts with
      | some o =>
        takeOp o.text
        return .mk attributes (.unary o (← g.unary allowStruct))
      | none =>
        let e ← trailers g (← operand g allowStruct)
        match e.form with
        | .raw _ => return .mk [] (.raw (← since start))
        | _ =>
          if isRange e && !attributes.isEmpty then failure
          return e.attach attributes

/-! ### Between operands -/

/-- Whether something that may not follow a cast without parentheses is ahead. -/
def extendsCast (ts : List TokenTree) : Bool :=
  startsPoint ts || startsOp "?" ts || startsGroup .bracket ts || startsGroup .paren ts

/-- Extends a left operand by the operators that bind at least as tightly as `base`. -/
def climb (allowStruct : Bool) (base : Precedence) (left : Expr) : Reader Expr :=
  quiet <| loop (fun left => do
    let ts ← ahead
    if isRange left then return .inr left
    match infixAhead? ts with
    | some o =>
      if o.precedence < base then return .inr left
      if o.precedence == Precedence.compare && isComparison left then failure
      takeOp o.text
      let right ← rightOperand g allowStruct o.precedence
      return .inl (.mk [] (.operation o left right))
    | none =>
      if base ≤ Precedence.assign && startsAssign ts then
        takeOp "="
        return .inl (.mk [] (.assign left (← rightOperand g allowStruct .assign)))
      else if base ≤ Precedence.range && startsOp ".." ts then
        return .inl (.mk [] (← rangeFrom g allowStruct (some left)))
      else if base ≤ Precedence.cast && startsWord "as" ts then
        takeWord "as"
        let (type, shape) ← collect (g.type false)
        if extendsCast (← ahead) then failure
        return .inl (.mk [] (.cast left type shape.openPath))
      else return .inr left) left

/-- An expression. -/
def expr (allowStruct : Bool) : Reader Expr := do
  climb g allowStruct .lowest (← unary g allowStruct)

/-- Whether an expression that ends with its own block is ahead. -/
def startsBlockLike (ts : List TokenTree) : Bool :=
  startsOneOf ["if", "while", "loop", "match"] ts || startsGroup .brace ts || startsLifetime ts ||
    (startsWord "for" ts && !startsBinder ts) ||
    (startsOneOf ["try", "unsafe", "const"] ts && startsGroup .brace (skipTree ts))

/-- An expression at the start of a statement. One that ends with its own block is only extended by
a point or a question mark. -/
def leading : Reader Expr :=
  quiet do
    let (attributes, ()) ← collect (outerAttributes g)
    let e ← if startsBlockLike (← ahead) then operand g true else unary g true
    let ts ← ahead
    if !e.endsWithBlock then climb g true .lowest (e.attach attributes)
    else if startsPoint ts || startsOp "?" ts then
      climb g true .lowest ((← trailers g e).attach attributes)
    else return e.attach attributes

end HybridStep.Grammar
