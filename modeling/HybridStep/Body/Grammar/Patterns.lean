import HybridStep.Body.Grammar.Types

/-! # Patterns

What may stand on the left of a binding. A name, a reference to one, and the underscore give a name
to the whole value; every other pattern is read for its trees. -/

namespace HybridStep.Grammar

open TokenTree (op)

variable (g : Nested)

/-! ### Alternatives -/

/-- Whether a bar between alternatives is ahead. -/
def startsBar (ts : List TokenTree) : Bool :=
  startsOp "|" ts && !startsOp "||" ts && !startsOp "|=" ts

/-- Alternatives separated by bars, with an optional bar in front. Gives the kind of a single
one. -/
def alternatives : Reader PatternKind := do
  let barred ← looks startsBar
  if barred then takeOp "|"
  let first ← g.pattern
  if barred || startsBar (← ahead) then
    repeatWhile startsBar do
      takeOp "|"
      discard g.pattern
    return .other
  else return first.kind

/-! ### Literals and ranges -/

/-- A bound of a range of values, if there is one. -/
def rangeBound : Reader Bool := do
  let ts ← ahead
  if ts.isEmpty || ["|", "=", ",", ";"].any (startsOp · ts) || startsWord "if" ts ||
      (startsOp ":" ts && !startsOp "::" ts) then
    return false
  if startsLiteral ts then discard takeLiteral
  else if startsWord "const" ts then
    takeWord "const"
    discard (blockWithAttributes g)
  else discard (qualifiedPath g true)
  return true

/-- The dots of a range of values and its upper bound. Three dots stand for a closed range. -/
def rangeRest : Reader PatternKind := do
  let ts ← ahead
  let closed := startsOp "..." ts || startsOp "..=" ts
  discard (quiet (takeOp (if startsOp "..." ts then "..." else if closed then "..=" else "..")))
  leave (dots closed)
  let upper ← rangeBound g
  if closed && !upper then failure
  return .range !upper

/-- A literal, a constant, or a range that starts with one. -/
def literalPattern : Reader PatternKind := do
  if !(← rangeBound g) then failure
  if startsOp ".." (← ahead) then rangeRest g else return .other

/-- A range without a lower bound, or the dots that stand for any number of values. -/
def dotsPattern : Reader PatternKind := do
  let closed ← acceptOp "..="
  if !closed then takeOp ".."
  let upper ← rangeBound g
  if closed && !upper then failure
  return if upper then .range true else .other

/-! ### Patterns with parts -/

/-- The fields of a structure pattern. -/
def fieldPatterns : Reader Unit :=
  discard <| group .brace <| commaList do
    outerAttributes g
    if ← acceptOp ".." then
      if !(← atEnd) then failure
    else asItStandsIf do
      let boxed ← acceptWord "box"
      let byRef ← acceptWord "ref"
      let mutable ← acceptWord "mut"
      if boxed || byRef || mutable then discard takeName
      else if startsName (← ahead) then
        discard takeName
        if ← acceptOp ":" then discard (alternatives g)
      else
        discard takeIndex
        takeOp ":"
        discard (alternatives g)
      return (boxed, ())

/-- A pattern that starts with a path. -/
def pathPattern : Reader PatternKind := do
  let (qualified, p) ← qualifiedPath g true
  let ts ← ahead
  if !qualified && p.plain && startsBang ts then
    takeOp "!"
    discard takeGroup
  else if startsGroup .brace ts then fieldPatterns g
  else if startsGroup .paren ts then discard (group .paren (commaList (alternatives g)))
  else if startsOp ".." ts then return ← rangeRest g
  return .other

/-- A pattern for lists. A range in it needs both of its bounds. -/
def listPattern : Reader PatternKind := do
  discard <| group .bracket <| commaList do
    if (← alternatives g) = .range true then failure
  return .other

/-- A pattern that gives no name. -/
def nameless (p : Reader PatternKind) : Reader Pattern := do
  let (trees, kind) ← captured p
  return { trees := trees, name := .error trees, kind := kind }

/-- A name, with what may stand around it. -/
def namePattern : Reader Pattern := do
  let (trees, name) ← captured do
    discard (acceptWord "ref")
    discard (acceptWord "mut")
    let name ← if startsWord "self" (← ahead) then takeAnyWord else takeName
    if ← acceptOp "@" then discard g.pattern
    return name
  return { trees := trees, name := .ok name }

/-- A reference to a pattern, which gives the name that the pattern gives. -/
def referencePattern : Reader Pattern := do
  let (trees, inner) ← captured do
    takeOp "&"
    discard (acceptWord "mut")
    g.pattern
  return { trees := trees, name := inner.name, kind := .reference }

/-- A pattern behind the word `box`, which is kept as it stands. -/
def boxPattern : Reader PatternKind :=
  asItStandsIf do
    takeWord "box"
    discard g.pattern
    return (true, .raw)

/-- A pattern without alternatives. -/
def pattern : Reader Pattern := do
  let ts ← ahead
  let next := skipTree ts
  let goesOn := startsOp "::" next || startsOp "!" next || startsGroup .brace next ||
    startsGroup .paren next || startsOp ".." next
  if (startsName ts && goesOn) || (startsWord "self" ts && startsOp "::" next) ||
      startsOp "::" ts || startsOp "<" ts || startsOneOf ["Self", "super", "crate"] ts then
    nameless (pathPattern g)
  else if startsWord "_" ts then
    takeWord "_"
    return { trees := [.ident "_"], name := .ok "_" }
  else if startsWord "box" ts then nameless (boxPattern g)
  else if startsOp "-" ts || startsLiteral ts || startsWord "const" ts then
    nameless (literalPattern g)
  else if startsOneOf ["ref", "mut", "self"] ts || startsName ts then namePattern g
  else if startsOp "&" ts then referencePattern g
  else if startsGroup .paren ts then
    nameless do
      discard (group .paren (commaList (alternatives g)))
      return .other
  else if startsGroup .bracket ts then nameless (listPattern g)
  else if startsOp ".." ts && !startsOp "..." ts then nameless (dotsPattern g)
  else failure

/-! ### Patterns with attributes -/

/-- Puts attributes in front of a pattern. A range needs parentheses then, and what is kept as it
stands takes none. -/
def withAttributes (attributes : List TokenTree) (p : Pattern) : Pattern :=
  if attributes.isEmpty then p
  else match p.kind with
    | .raw => p
    | .reference => { p with trees := attributes ++ p.trees }
    | .range isOpen =>
      let trees := attributes ++ [.group .paren p.trees]
      ⟨trees, .error trees, .range isOpen⟩
    | .other => ⟨attributes ++ p.trees, p.name.mapError (attributes ++ ·), .other⟩

/-- A pattern with its type, if one follows. Gives the type too. -/
def typedPattern (p : Pattern) : Reader (Pattern × Option (List TokenTree)) := do
  leave p.trees
  if ← acceptOp ":" then
    let (type, _) ← captured (g.type true)
    return (⟨p.trees ++ op ":" ++ type, p.name, .other⟩, some type)
  else return (p, none)

end HybridStep.Grammar
