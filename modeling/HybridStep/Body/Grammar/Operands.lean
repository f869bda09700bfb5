import HybridStep.Body.Grammar.Operators

/-! # Operands

The expressions that stand between operators: literals, paths, bracketed and block-like forms,
closures and jumps. -/

namespace HybridStep.Grammar

open TokenTree (op)

variable (g : Nested)

/-- The form that `make` gives to the trees and the result of `p`. -/
def formOf {α : Type} (make : List TokenTree → α → ExprForm) (p : Reader α) : Reader ExprForm := do
  let (trees, a) ← collect p
  return make trees a

/-- A closed form. -/
def closedForm (p : Reader Unit) : Reader ExprForm := formOf (fun trees () => .closed trees) p

/-- A form that is kept as it stands. -/
def rawForm (p : Reader Unit) : Reader ExprForm := do
  let start ← ahead
  quiet p
  return .raw (← since start)

/-! ### Paths and bracketed forms -/

/-- The fields of a structure literal. -/
def structFields : Reader Unit :=
  group .brace do
    loop (fun () => do
      if ← atEnd then return .inr ()
      if ← acceptOp ".." then
        if !(← atEnd) then written (g.expr true)
        return .inr ()
      outerAttributes g
      if startsName (← ahead) then
        discard takeName
        if ← acceptOp ":" then written (g.expr true)
      else
        discard takeIndex
        takeOp ":"
        written (g.expr true)
      if ← atEnd then return .inr ()
      takeOp ","
      return .inl ()) ()

/-- A path, or a macro call or structure literal that starts with one. -/
def pathForm (allowStruct : Bool) : Reader ExprForm := do
  let (trees, qualified, p) ← collect (qualifiedPath g true)
  let ts ← ahead
  if !qualified && p.plain && startsBang ts then
    formOf (fun rest d => .invocation (trees ++ rest) (d == .brace)) do
      takeOp "!"
      takeGroup
  else if allowStruct && startsGroup .brace ts then
    formOf (fun rest () => .construction (trees ++ rest)) (structFields g)
  else return .path trees p.name?

/-- An expression in parentheses, or a tuple. -/
def parenForm : Reader ExprForm := do
  let (trees, inner) ← collect <| group .paren do
    if ← atEnd then return none
    let first ← writtenIn .inside (g.expr true)
    if ← atEnd then return some first
    takeOp ","
    discard (commaList (written (g.expr true)))
    return none
  match inner with
  | some e => return .enclosed e
  | none => return .closed trees

/-- A list in brackets, or one value repeated. -/
def bracketForm : Reader ExprForm :=
  closedForm <| group .bracket do
    if !(← atEnd) then
      written (g.expr true)
      if ← acceptOp ";" then written (g.expr true)
      else if !(← atEnd) then
        takeOp ","
        discard (commaList (written (g.expr true)))

/-! ### Closures -/

/-- A parameter of a closure. The attributes in front of a pattern without type belong to it. -/
def closureParam : Reader Pattern := do
  let (attributes, ()) ← collect (outerAttributes g)
  let (_, p) ← collect g.pattern
  if startsOp ":" (← ahead) then
    leave attributes
    return (← typedPattern g p).1
  else
    let p := withAttributes attributes p
    leave p.trees
    return p

/-- The parameters of a closure between bars. -/
def closureParams : Reader (List Pattern) := do
  takeOp "|"
  let params ← loop (fun (found : List Pattern) => do
    if startsOp "|" (← ahead) then return .inr found.reverse
    let p ← closureParam g
    if startsOp "|" (← ahead) then return .inr (p :: found).reverse
    takeOp ","
    return .inl (p :: found)) []
  takeOp "|"
  return params

/-- Whether a word is ahead that binds parameters. -/
def startsBinder (ts : List TokenTree) : Bool :=
  startsWord "for" ts && startsParameters (skipTree ts)

/-- Whether a closure is ahead. -/
def startsClosure (ts : List TokenTree) : Bool :=
  let next := skipTree ts
  startsOp "|" ts || startsWord "move" ts || startsWord "static" ts || startsBinder ts ||
    (startsWord "const" ts && !startsGroup .brace next) ||
    (startsWord "async" ts && (startsOp "|" next || startsWord "move" next))

/-- A closure. One with a result type has a block as its body. -/
def closureForm (allowStruct : Bool) : Reader ExprForm := do
  let (head, params, typed) ← collect do
    discard (boundParameters g)
    discard (acceptWord "const")
    discard (acceptWord "static")
    discard (acceptWord "async")
    discard (acceptWord "move")
    let params ← closureParams g
    return (params, (← returnType g true).isSome)
  if typed then
    let body ← quiet (block g)
    return .closure head params true (.mk [] (.block none [] body))
  else return .closure head params false (← g.expr allowStruct)

/-! ### Block-like forms -/

/-- An `if`. -/
def conditional : Reader Expr := do
  takeWord "if"
  let test ← g.expr false
  let body ← block g
  if ← acceptWord "else" then
    if startsWord "if" (← ahead) then
      return .mk [] (.conditional test body (some (← g.conditional)))
    else
      let orelse ← block g
      return .mk [] (.conditional test body (some (.mk [] (.block none [] orelse))))
  else return .mk [] (.conditional test body none)

/-- An arm of a `match`. It needs a comma unless it is the last one or ends with its own block. -/
def matchArm : Reader Unit := do
  outerAttributes g
  discard (alternatives g)
  if ← acceptWord "if" then written (g.expr true)
  takeOp "=>"
  if (← writtenIn .ofArm g.leading).endsWithBlock || (← atEnd) then discard (acceptOp ",")
  else takeOp ","

/-- A `match`. -/
def matchForm : Reader Unit := do
  takeWord "match"
  discard (writtenIn .ofCondition (g.expr false))
  group .brace do
    innerAttributes g
    discard (untilEnd (matchArm g))

/-- A loop, whose label has been read. -/
def loopForm : Reader Unit := do
  if ← acceptWord "while" then discard (writtenIn .ofCondition (g.expr false))
  else if ← acceptWord "for" then
    discard (alternatives g)
    takeWord "in"
    discard (writtenIn .ofCondition (g.expr false))
  else takeWord "loop"
  discard (blockWithAttributes g)

/-- A block that may carry a label. -/
def blockForm (label : Option String) : Reader ExprForm := do
  let (attributes, body) ← quiet (blockWithAttributes g)
  return .block label attributes body

/-- A loop or block with a label. -/
def labelledForm : Reader ExprForm := do
  let label ← takeLifetime
  takeOp ":"
  if startsGroup .brace (← ahead) then blockForm g (some label)
  else formOf (fun trees () => .blockLike true (labelTrees (some label) ++ trees)) (loopForm g)

/-- A form that ends in its own block. -/
def blockLikeForm (p : Reader Unit) : Reader ExprForm :=
  formOf (fun trees () => .blockLike false trees) p

/-- Whether a block that starts with `async` is ahead. -/
def startsAsyncBlock (ts : List TokenTree) : Bool :=
  startsWord "async" ts &&
    (startsGroup .brace (skipTree ts) ||
      (startsWord "move" (skipTree ts) && startsGroup .brace (skipTree (skipTree ts))))

/-! ### Jumps and conditions -/

/-- A `break` with what may follow it. -/
def breakForm (allowStruct : Bool) : Reader ExprForm := do
  takeWord "break"
  let label ← acceptLifetime
  if label.isSome && startsOp ":" (← ahead) then failure
  let ts ← ahead
  if startsExpr ts && (allowStruct || !startsGroup .brace ts) then
    return .leap label (some (← g.expr true))
  else return .leap label none

/-- A value after a word, if one follows. -/
def optionalValue : Reader (Option Expr) := do
  if startsExpr (← ahead) then return some (← g.expr true)
  else return none

/-- The pattern and value of a `let` used as a condition. -/
def letForm (allowStruct : Bool) : Reader ExprForm := do
  takeWord "let"
  let (pattern, _) ← collect (alternatives g)
  takeOp "="
  let left ← g.unary allowStruct
  return .binding pattern (← g.climb allowStruct Precedence.compare left)

/-! ### Operands -/

/-- A literal with its value. -/
def literalForm : Reader ExprForm :=
  formOf (fun trees text => .literal trees
    (if text = "true" ∨ text = "false" then some (.bool (text == "true"))
      else Literal.ofToken? text)) takeLiteral

/-- Whether a path, macro call or structure literal is ahead. -/
def startsPathForm (ts : List TokenTree) : Bool :=
  startsPath ts || startsOp "<" ts ||
    (startsWord "try" ts && (startsOp "!" (skipTree ts) || startsOp "::" (skipTree ts)))

/-- The form of an operand, other than an `if`. -/
def operandForm (allowStruct : Bool) : Reader ExprForm := do
  let ts ← ahead
  if startsLiteral ts then literalForm
  else if startsAsyncBlock ts then
    closedForm do
      takeWord "async"
      discard (acceptWord "move")
      discard (block g)
  else if startsWord "try" ts && startsGroup .brace (skipTree ts) then
    blockLikeForm do
      takeWord "try"
      discard (block g)
  else if startsClosure ts then closureForm g allowStruct
  else if startsBuiltin ts then rawForm builtinForm
  else if startsPathForm ts then pathForm g allowStruct
  else if startsGroup .paren ts then parenForm g
  else if startsWord "break" ts then breakForm g allowStruct
  else if startsWord "continue" ts then
    closedForm do
      takeWord "continue"
      discard acceptLifetime
  else if ← acceptWord "return" then return .ret (← optionalValue g)
  else if startsWord "become" ts then
    rawForm do
      takeWord "become"
      discard (g.expr true)
  else if startsGroup .bracket ts then bracketForm g
  else if startsWord "let" ts then letForm g allowStruct
  else if startsOneOf ["while", "for", "loop"] ts then blockLikeForm (loopForm g)
  else if startsWord "match" ts then blockLikeForm (matchForm g)
  else if ← acceptWord "yield" then return .yield_ (← optionalValue g)
  else if startsOneOf ["unsafe", "const"] ts then
    blockLikeForm do
      discard takeAnyWord
      discard (blockWithAttributes g)
  else if startsGroup .brace ts then blockForm g none
  else if startsOp ".." ts then rangeFrom g allowStruct none
  else if startsWord "_" ts then closedForm (takeWord "_")
  else if startsLifetime ts then labelledForm g
  else failure

/-- An operand without operators in front of it or behind it. -/
def operand (allowStruct : Bool) : Reader Expr := do
  if startsWord "if" (← ahead) then conditional g
  else return .mk [] (← operandForm g allowStruct)

end HybridStep.Grammar
