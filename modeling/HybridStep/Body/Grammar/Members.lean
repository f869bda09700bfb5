import HybridStep.Body.Grammar.Functions

/-! # Members of declarations

What stands in the braces of a trait, of an implementation and of a block of foreign declarations.
Members that have no proper form there are kept as they stand. -/

namespace HybridStep.Grammar

variable (g : Nested)

/-! ### Parts of members -/

/-- A block, or a semicolon in its place. Tells whether it is a semicolon. -/
def blockOrEnd : Reader Bool := do
  if ← acceptOp ";" then return true
  else
    discard (blockWithAttributes g)
    return false

/-- The value after an equals sign, if there is one. Tells whether there is. -/
def optionalDefinition : Reader Bool := do
  if ← acceptOp "=" then
    written (g.expr true)
    return true
  else return false

/-- What a constant has. -/
structure ConstantShape where
  generic : Bool
  valued : Bool

/-- A constant after its word. -/
def constant : Reader ConstantShape := do
  discard takeNameOrBlank
  let parameters ← looks (startsOp "<")
  genericParameters g
  takeOp ":"
  discard (g.type true)
  let valued ← optionalDefinition g
  let conditions ← whereClause g
  takeOp ";"
  return ⟨parameters || conditions, valued⟩

/-- What a type declaration has. -/
structure TypeDeclShape where
  bounded : Bool
  defined : Bool

/-- A type declaration from its word on. The flags tell whether conditions may stand before and
after the equals sign. -/
def typeDecl (before after : Bool) : Reader TypeDeclShape := do
  takeWord "type"
  discard takeName
  genericParameters g
  let bounded ← looks (startsOp ":")
  optionalBounds
    (boundsUntil g (fun ts => startsWord "where" ts || startsOp "=" ts || startsOp ";" ts) true)
  let found ← if before then whereClause g else pure false
  let defined ← acceptOp "="
  if defined then discard (g.type true)
  if after && !found then discard (whereClause g)
  takeOp ";"
  return ⟨bounded, defined⟩

/-- Whether a macro call may be ahead. -/
def startsCall (ts : List TokenTree) : Bool :=
  startsName ts || startsOneOf ["super", "self", "crate"] ts || startsOp "::" ts

/-- A macro call as a member. Without braces it ends in a semicolon. -/
def callMember : Reader Unit := do
  plainPath
  takeOp "!"
  if (← takeGroup) != .brace then takeOp ";"

/-! ### Members -/

/-- A member of a trait. -/
def traitMember : Reader Unit :=
  asItStandsIf do
    outerAttributes g
    let visible ← visibility
    let default ← acceptWord "default"
    let raw := visible || default
    let ts ← ahead
    if startsFunction false ts then
      discard (signature g false)
      discard (blockOrEnd g)
      return (raw, ())
    else if ← acceptWord "const" then return (raw || (← constant g).generic, ())
    else if startsWord "type" ts then
      discard (typeDecl g false true)
      return (raw, ())
    else if !raw && startsCall ts then
      callMember
      return (false, ())
    else failure

/-- A member of an implementation. -/
def implMember : Reader Unit :=
  asItStandsIf do
    outerAttributes g
    let visible ← visibility
    let start ← ahead
    let default := startsWord "default" start && !startsOp "!" (skipTree start)
    if default then takeWord "default"
    let ts ← ahead
    if startsFunction false ts then
      discard (signature g false)
      return (← blockOrEnd g, ())
    else if ← acceptWord "const" then
      let c ← constant g
      return (c.generic || !c.valued, ())
    else if startsWord "type" ts then
      let t ← typeDecl g false true
      return (t.bounded || !t.defined, ())
    else if !visible && !default && startsCall ts then
      callMember
      return (false, ())
    else failure

/-- A foreign variable from the words in front of `static` on. Tells whether it is kept as it
stands. -/
def foreignStatic : Reader Bool := do
  let unsafely ← acceptWord "unsafe"
  let safely ← if unsafely then pure false else acceptWord "safe"
  takeWord "static"
  discard (acceptWord "mut")
  discard takeName
  takeOp ":"
  discard (g.type true)
  let valued ← optionalDefinition g
  takeOp ";"
  return unsafely || safely || valued

/-- A foreign declaration. -/
def foreignMember : Reader Unit :=
  asItStandsIf do
    outerAttributes g
    let visible ← visibility
    let ts ← ahead
    if startsFunction true ts then
      let (_, safely) ← signature g true
      return (safely || !(← blockOrEnd g), ())
    else if startsWord "static" ts ||
        (startsOneOf ["unsafe", "safe"] ts && startsWord "static" (skipTree ts)) then
      return (← foreignStatic g, ())
    else if startsWord "type" ts then
      let t ← typeDecl g true true
      return (t.bounded || t.defined, ())
    else if !visible && startsCall ts then
      callMember
      return (false, ())
    else failure

/-- Members in braces, with the attributes that may stand first. -/
def memberBlock (member : Reader Unit) : Reader Unit :=
  group .brace do
    innerAttributes g
    discard (untilEnd member)

end HybridStep.Grammar
