import HybridStep.Body.Grammar.Bounds

/-! # Types

Types have no meaning for the encoding beyond the primitive ones, but they have to be read to find
where they end. Where a sum of bounds is allowed, a path or a type in parentheses may turn out to be
its first bound. -/

namespace HybridStep.Grammar

variable (g : Nested)

/-! ### Function types -/

/-- The calling convention of a function, if one is given. -/
def callingConvention : Reader Unit := do
  if ← acceptWord "extern" then
    if ← looks startsText then discard takeLiteral

/-- A parameter of a function type. The first one may be the owner of a method; a changeable owner
is kept as it stands. -/
def typeParam (first : Bool) : Reader Unit :=
  asItStandsIf do
    let startsOwner := fun ts => startsWord "mut" ts && startsWord "self" (skipTree ts)
    let changeable := first && startsOwner (← ahead)
    if changeable then takeWord "mut"
    let ts ← ahead
    let next := skipTree ts
    let named := (startsName ts || startsWord "_" ts || (first && startsWord "self" ts)) &&
      startsOp ":" next && !startsOp "::" next
    if named then
      discard takeAnyWord
      takeOp ":"
    if first && !(named && startsWord "self" ts) && startsOwner (← ahead) then
      takeWord "mut"
      takeWord "self"
      return (true, ())
    else if changeable && !named then
      takeWord "self"
      return (true, ())
    else
      discard (g.type true)
      return (changeable, ())

/-- The dots for further parameters, perhaps with a name, if they are next. -/
def acceptDots : Reader Bool := do
  let ts ← ahead
  let next := skipTree ts
  let named := (startsName ts || startsWord "_" ts) && startsOp ":" next
  if startsOp "..." (if named then skipTree next else ts) then
    if named then
      discard takeAnyWord
      takeOp ":"
    takeOp "..."
    discard (acceptOp ",")
    return true
  else return false

/-- The parameters of a function type. The dots can only be the last. -/
def typeParams : Reader Unit :=
  group .paren <| loop (fun first => do
    if ← atEnd then return .inr ()
    outerAttributes g
    if ← acceptDots then return .inr ()
    typeParam g first
    if !(← atEnd) then takeOp ","
    return .inl false) true

/-- A function type. -/
def functionType : Reader TypeShape := do
  discard (acceptWord "unsafe")
  callingConvention
  takeWord "fn"
  typeParams g
  return { openPath := (← returnType g false).getD false }

/-! ### Sums of bounds -/

/-- Further bounds of a sum, each after a plus sign. -/
def remainingBounds (openPath : Bool) : Reader (Bool × Bool) :=
  loop (fun (joined, openPath) => do
    if ← acceptOp "+" then return .inl (true, (← g.bound false false).openPath)
    else return .inr (joined, openPath)) (false, openPath)

/-- A type in parentheses, a tuple, or a sum whose first bound is in parentheses. -/
def parenType (plus : Bool) : Reader TypeShape := do
  match ← ahead with
  | .group _ content :: _ =>
    if content.isEmpty then
      discard takeGroup
      return {}
    else if startsLifetime content then
      discard (group .paren (boundSum g true false false))
      return {}
    else if startsOp "?" content then
      let (trees, _, b) ← group .paren (captured (traitBound g false))
      let (joined, openPath) ← remainingBounds g b.openPath
      return { sole := if joined then none else some trees, openPath := openPath }
    else
      let (trees, sole) ← collect <| group .paren do
        let shape ← g.type true
        if ← atEnd then return shape.sole
        takeOp ","
        discard (commaList (g.type true))
        return none
      match sole with
      | some b =>
        if plus && startsOp "+" (← ahead) then
          leave [.group .paren b]
          return { openPath := (← remainingBounds g false).2 }
        else
          leave trees
          return {}
      | none =>
        leave trees
        return {}
  | _ => failure

/-- A type that starts with a path, behind the parameters that `binder` binds. -/
def pathType (plus : Bool) (binder : Option (List TokenTree)) : Reader TypeShape := do
  let (trees, qualified, p) ← collect (qualifiedPath g false)
  let ts ← ahead
  if qualified then
    leave trees
    return { openPath := p.isOpen }
  else if p.plain && startsBang ts then
    leave trees
    takeOp "!"
    discard takeGroup
    return {}
  else if binder.isSome || (plus && startsOp "+" ts) then
    let bound := binder.getD [] ++ trees
    leave bound
    let first : SumShape := ⟨false, true, p.isOpen⟩
    let sum ← if plus then moreBounds g false false first else pure first
    return { sole := if sum.joined then none else some bound, openPath := sum.openPath }
  else
    leave trees
    return { isPath := true, isWord := p.isWord, sole := some trees, openPath := p.isOpen }

/-! ### Types -/

/-- Whether the word `builtin` with a number sign is ahead, which starts a form without a meaning of
its own. -/
def startsBuiltin (ts : List TokenTree) : Bool :=
  startsWord "builtin" ts && startsOp "#" (skipTree ts)

/-- A form that starts with `builtin`. -/
def builtinForm : Reader Unit := do
  takeWord "builtin"
  takeOp "#"
  discard takeName
  if startsGroup .paren (← ahead) then discard takeGroup else failure

/-- A type that starts with a path or `builtin`, or a function type, behind the parameters that
`binder` binds. Tells whether it is kept as it stands. -/
def namedType (plus : Bool) (binder : Option (List TokenTree)) : Reader (Bool × TypeShape) := do
  let ts ← ahead
  if startsOneOf ["fn", "unsafe", "extern"] ts then
    leave (binder.getD [])
    return (false, ← functionType g)
  else if startsBuiltin ts then
    builtinForm
    return (true, {})
  else return (false, ← pathType g plus binder)

/-- A type in brackets: a list, perhaps of a given length. -/
def listType : Reader Unit :=
  group .bracket do
    discard (g.type true)
    if ← acceptOp ";" then written (g.expr true)

/-- A type. -/
def type (plus : Bool) : Reader TypeShape :=
  asItStandsIf do
    let ts ← ahead
    if startsWord "for" ts then
      let (binder, _) ← collect (boundParameters g)
      let ts ← ahead
      if startsName ts || startsOneOf (["fn", "unsafe", "extern"] ++ pathWords) ts then
        namedType g plus (some binder)
      else failure
    else if startsGroup .paren ts then return (false, ← parenType g plus)
    else if startsOneOf ["fn", "unsafe", "extern"] ts || startsPath ts || startsOp "<" ts then
      namedType g plus none
    else if ← acceptWord "dyn" then
      let starred ← acceptOp "*"
      let sum ← boundSum g plus false false
      return (starred, { openPath := !starred && sum.openPath })
    else if startsGroup .bracket ts then
      listType g
      return (false, {})
    else if ← acceptOp "*" then
      if !(← acceptWord "const") then takeWord "mut"
      return (false, { openPath := (← g.type false).openPath })
    else if ← acceptOp "&" then
      discard acceptLifetime
      discard (acceptWord "mut")
      return (false, { openPath := (← g.type false).openPath })
    else if ← acceptOp "!" then return (false, {})
    else if ← acceptWord "impl" then
      return (false, { openPath := (← boundSum g plus true true).openPath })
    else if ← acceptWord "_" then return (false, {})
    else if startsLifetime ts then
      return (false, { openPath := (← boundSum g true false false).openPath })
    else failure

/-- The sort of a primitive type, from its trees. -/
def sortOfType? : List TokenTree → Option TermSort
  | [.ident w] =>
    if ["i8", "i16", "i32", "i64", "i128", "isize", "u8", "u16", "u32", "u64", "u128",
        "usize"].contains w then some .int
    else if w = "f32" ∨ w = "f64" then some .real
    else if w = "bool" then some .bool
    else none
  | _ => none

end HybridStep.Grammar
