import HybridStep.Body.Grammar.Members

/-! # Declarations

Declarations inside a body have no meaning for the encoding and are only read for their trees. Those
that have no proper form are kept as they stand. -/

namespace HybridStep.Grammar

variable (g : Nested)

/-! ### Imports and modules -/

/-- What an import names. The flag allows paths in braces to start with `::`; tells whether one
does. -/
def useTree : Nat → Bool → Reader Bool
  | 0, _ => failure
  | n + 1, roots => do
    let ts ← ahead
    if startsGroup .brace ts then
      let found ← group .brace <| commaList do
        let rooted ← if roots then acceptOp "::" else pure false
        return (← useTree n (roots && !rooted)) || rooted
      return found.any id
    else if ← acceptOp "*" then return false
    else if startsName ts || startsOneOf ["self", "super", "crate", "try"] ts then
      discard takeAnyWord
      if ← acceptOp "::" then useTree n false
      else
        if ← acceptWord "as" then discard takeNameOrBlank
        return false
    else failure

/-- An import after its visibility. Tells whether it is kept as it stands. -/
def useItem : Reader Bool := do
  takeWord "use"
  let rooted ← acceptOp "::"
  let raw ← useTree (TokenTree.sizeOfList (← ahead) + 1) !rooted
  takeOp ";"
  return raw

/-- A foreign library from its first word on. -/
def libraryItem : Reader Unit := do
  takeWord "extern"
  takeWord "crate"
  if !(← acceptWord "self") then discard takeName
  if ← acceptWord "as" then discard takeNameOrBlank
  takeOp ";"

/-- A block of foreign declarations. -/
def foreignItem : Reader Unit := do
  discard (acceptWord "unsafe")
  callingConvention
  memberBlock g (foreignMember g)

/-- A module. -/
def moduleItem : Reader Unit := do
  discard (acceptWord "unsafe")
  takeWord "mod"
  if !(← acceptWord "try") then discard takeName
  if !(← acceptOp ";") then memberBlock g g.item

/-! ### Variables -/

/-- A variable. Tells whether it is kept as it stands, as it lacks its type or its value. -/
def staticItem : Reader Bool := do
  takeWord "static"
  discard (acceptWord "mut")
  discard takeName
  if ← optionalDefinition g then
    takeOp ";"
    return true
  takeOp ":"
  discard (g.type true)
  let valued ← optionalDefinition g
  takeOp ";"
  return !valued

/-! ### Structures -/

/-- Named fields of a structure, in braces. A field without a name may hold a structure. -/
def fields : Reader Unit :=
  discard <| group .brace <| commaList do
    outerAttributes g
    discard visibility
    let blank ← acceptWord "_"
    if !blank then discard takeName
    takeOp ":"
    asItStandsIf do
      let ts ← ahead
      if blank && (startsWord "struct" ts ||
          (startsWord "union" ts && startsGroup .brace (skipTree ts))) then
        discard takeAnyWord
        g.fields
        return (true, ())
      else
        discard (g.type true)
        return (false, ())

/-- Fields of a structure by position, in parentheses. -/
def positionalFields : Reader Unit :=
  discard <| group .paren <| commaList do
    outerAttributes g
    discard visibility
    discard (g.type true)

/-- A name with generic parameters, after the word of a declaration. -/
def genericName : Reader Unit := do
  discard takeName
  genericParameters g

/-- A structure. -/
def structItem : Reader Unit := do
  takeWord "struct"
  genericName g
  let found ← whereClause g
  let ts ← ahead
  if startsGroup .brace ts then fields g
  else
    if !found && startsGroup .paren ts then
      positionalFields g
      discard (whereClause g)
    takeOp ";"

/-- A variant of an enumeration. Its visibility is dropped. -/
def enumVariant : Reader Unit := do
  outerAttributes g
  discard (quiet visibility)
  discard takeName
  let ts ← ahead
  if startsGroup .brace ts then fields g
  else if startsGroup .paren ts then positionalFields g
  discard (optionalDefinition g)

/-- An enumeration. -/
def enumItem : Reader Unit := do
  takeWord "enum"
  genericName g
  discard (whereClause g)
  discard (group .brace (commaList (enumVariant g)))

/-- A union. -/
def unionItem : Reader Unit := do
  takeWord "union"
  genericName g
  discard (whereClause g)
  fields g

/-! ### Traits and implementations -/

/-- The bounds of a trait after its name, and its members. -/
def traitRest : Reader Unit := do
  optionalBounds
    (boundsUntil g (fun ts => startsWord "where" ts || startsGroup .brace ts) true)
  discard (whereClause g)
  memberBlock g (traitMember g)

/-- A trait, or a name for a sum of bounds. -/
def traitItem : Reader Unit := do
  takeWord "trait"
  genericName g
  if ← acceptOp "=" then
    discard (boundsUntil g (fun ts => startsWord "where" ts || startsOp ";" ts) false)
    discard (whereClause g)
    takeOp ";"
  else traitRest g

/-- A trait behind the words `unsafe` and `auto`. -/
def markedTraitItem : Reader Unit := do
  discard (acceptWord "unsafe")
  discard (acceptWord "auto")
  takeWord "trait"
  genericName g
  traitRest g

/-- An implementation after its visibility. Tells whether it is kept as it stands: it is constant,
or its trait is no path. -/
def implItem : Reader Bool := do
  discard (acceptWord "default")
  discard (acceptWord "unsafe")
  takeWord "impl"
  if ← looks startsParameters then genericParameters g
  let ts ← ahead
  let constant := startsWord "const" ts || (startsOp "?" ts && startsWord "const" (skipTree ts))
  if constant then
    discard (acceptOp "?")
    takeWord "const"
  let ts ← ahead
  let negative := startsOp "!" ts && !startsGroup .brace (skipTree ts)
  if negative then takeOp "!"
  let (isPath, forTrait) ← do
    let shape ← g.type true
    if ← acceptWord "for" then
      discard (g.type true)
      pure (shape.isPath, true)
    else pure (false, false)
  if negative && !forTrait then failure
  discard (whereClause g)
  memberBlock g (implMember g)
  return constant || (forTrait && !isPath)

/-! ### Declarations -/

/-- A macro that is declared by a pattern and a replacement. -/
def macroItem : Reader Unit := do
  takeWord "macro"
  discard takeName
  if startsGroup .paren (← ahead) then discard takeGroup
  if startsGroup .brace (← ahead) then discard takeGroup else failure

/-- A macro call as a declaration, which may give a name. Without braces it ends in a semicolon. -/
def callItem : Reader Unit := do
  plainPath
  takeOp "!"
  if !(← acceptWord "try") && startsName (← ahead) then discard takeAnyWord
  if (← takeGroup) != .brace then takeOp ";"

/-- Whether a trait is ahead behind the words `unsafe` and `auto`. -/
def startsMarkedTrait (ts : List TokenTree) : Bool :=
  let marked := dropWord "auto" (dropWord "unsafe" ts)
  startsOneOf ["unsafe", "auto"] ts && startsWord "trait" marked

/-- A declaration after its visibility, which `visible` tells whether it is given. Tells whether it
is kept as it stands. -/
def itemBody (visible : Bool) : Reader Bool := do
  let ts ← ahead
  let next := skipTree ts
  if startsFunction false ts then
    discard (signature g false)
    blockOrEnd g
  else if startsWord "extern" ts && startsWord "crate" next then
    libraryItem
    return false
  else if startsWord "extern" ts || (startsWord "unsafe" ts && startsWord "extern" next) then
    if visible then failure
    foreignItem g
    return false
  else if startsWord "use" ts then useItem
  else if startsWord "static" ts then staticItem g
  else if ← acceptWord "const" then
    let c ← constant g
    return c.generic || !c.valued
  else if startsWord "mod" ts || (startsWord "unsafe" ts && startsWord "mod" next) then
    moduleItem g
    return false
  else if startsWord "type" ts then
    let t ← typeDecl g true false
    return t.bounded || !t.defined
  else if startsWord "struct" ts then
    structItem g
    return false
  else if startsWord "enum" ts then
    enumItem g
    return false
  else if startsWord "union" ts && startsName next then
    unionItem g
    return false
  else if startsWord "trait" ts then
    traitItem g
    return false
  else if startsMarkedTrait ts then
    markedTraitItem g
    return false
  else if startsWord "impl" ts || (startsWord "unsafe" ts && startsWord "impl" next) ||
      (startsWord "default" ts && !startsOp "!" next) then
    return (← implItem g) || visible
  else if startsWord "macro" ts then
    macroItem
    return true
  else if !visible && startsCall ts then
    callItem
    return false
  else failure

/-- A declaration. -/
def item : Reader Unit :=
  asItStandsIf do
    outerAttributes g
    return (← itemBody g (← visibility), ())

end HybridStep.Grammar
