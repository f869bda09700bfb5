import HybridStep.Body.Grammar.Paths

/-! # Generic parameters and bounds

The parameters of declarations in angle brackets, the bounds that types have to satisfy, and the
conditions after `where`. -/

namespace HybridStep.Grammar

open TokenTree (op)

variable (g : Nested)

/-! ### Parameters -/

/-- Lifetimes joined by plus signs, perhaps none, up to what satisfies `stop` or the end. Tells
whether there are any. -/
def lifetimesUntil (stop : List TokenTree → Bool) : Reader Bool :=
  loop (fun found => do
    let ts ← ahead
    if ts.isEmpty || stop ts then return .inr found
    discard takeLifetime
    if ← acceptOp "+" then return .inl true
    else return .inr true) false

/-- A colon and the bounds that `p` reads, if a colon is next. Nothing is left if there are no
bounds. -/
def optionalBounds (p : Reader Bool) : Reader Unit := do
  if startsOp ":" (← ahead) then
    let (trees, found) ← collect do
      takeOp ":"
      p
    if found then leave trees

/-- A generic parameter; the flag allows an underscore. Tells whether it is a lifetime. -/
def genericParameter (blank : Bool) : Reader Bool := do
  outerAttributes g
  let ts ← ahead
  if startsLifetime ts then
    discard takeLifetime
    optionalBounds (lifetimesUntil fun ts => startsOp "," ts || startsOp ">" ts)
    return true
  if ← acceptWord "const" then
    discard takeName
    takeOp ":"
    discard (g.type true)
    if ← acceptOp "=" then constArgument g
  else if blank && startsWord "_" ts then takeWord "_"
  else
    discard takeName
    optionalBounds
      (boundsUntil g (fun ts => startsOp "," ts || startsOp ">" ts || startsOp "=" ts) true)
    if ← acceptOp "=" then discard (g.type true)
  return false

/-- The generic parameters of a declaration, if there are any. Lifetimes are left first, and an
empty list leaves nothing. -/
def genericParameters : Reader Unit := do
  if startsOp "<" (← ahead) then
    let items ← angleItems (genericParameter g true)
    if !items.isEmpty then leave (angleTrees (lifetimesFirst items))

/-- Whether generic parameters are ahead rather than a type in angle brackets. -/
def startsParameters (ts : List TokenTree) : Bool :=
  let next := skipTree ts
  let third := skipTree next
  startsOp "<" ts &&
    (startsOp ">" next || startsOp "#" next || startsWord "const" next ||
      ((startsLifetime next || startsName next) &&
        (startsOp ">" third || startsOp "," third || startsOp "=" third ||
          (startsOp ":" third && !startsOp "::" third))))

/-- Parameters bound by `for`, if the word is next. Tells whether it is. -/
def boundParameters : Reader Bool := do
  if ← acceptWord "for" then
    leave (angleTrees (← angleItems (genericParameter g false)))
    return true
  else return false

/-! ### Bounds -/

/-- The type after an arrow, if there is an arrow. The flag allows a sum of bounds. Tells whether
the type ends in a path that generic arguments could follow. -/
def returnType (plus : Bool) : Reader (Option Bool) := do
  if ← acceptOp "->" then return some (← g.type plus).openPath
  else return none

/-- The trees of a path without the list of generic arguments at its end, which holds none. -/
def withoutEmptyList (trees : List TokenTree) : List TokenTree :=
  match trees.reverse with
  | _ :: _ :: .punct ':' _ :: .punct ':' _ :: rest => rest.reverse
  | _ :: _ :: rest => rest.reverse
  | _ => trees

/-- A trait, with the parameters and result of a function trait. Tells whether it stands as a
constant one, which is kept as it is. -/
def traitBound (consts : Bool) : Reader (Bool × BoundShape) := do
  let binds ← boundParameters g
  let constant ←
    if startsGroup .bracket (← ahead) then
      group .bracket (takeWord "const")
      pure true
    else acceptWord "const"
  if constant && !consts then failure
  if ← acceptOp "?" then
    if binds || startsWord "for" (← ahead) then failure
  let (trees, p) ← collect (path g false)
  let ts ← ahead
  if p.last ≠ .arguments ∧ (startsGroup .paren ts ∨
      (startsOp "::" ts ∧ startsGroup .paren (skipTree (skipTree ts)))) then
    leave (if p.last = .emptyList then withoutEmptyList trees else trees)
    discard (quiet (acceptOp "::"))
    discard (group .paren (commaList (g.type true)))
    let result ← returnType g false
    return (constant, ⟨true, !constant && result.getD false⟩)
  else
    leave trees
    return (constant, ⟨true, !constant && p.isOpen⟩)

/-- A list of captured lifetimes and parameters. -/
def capturedParameters : Reader Unit := do
  takeWord "use"
  let items ← angleItems do
    if startsLifetime (← ahead) then
      discard takeLifetime
      return true
    else
      if !(← acceptWord "Self") then discard takeName
      return false
  leave (angleTrees (lifetimesFirst items))

/-- A bound: a lifetime, a trait, perhaps in parentheses, or a list of captured parameters. -/
def bound (captures consts : Bool) : Reader BoundShape := do
  let ts ← ahead
  if startsLifetime ts then
    discard takeLifetime
    return ⟨false, false⟩
  else if startsWord "use" ts then
    if !captures then failure
    capturedParameters
    return ⟨false, false⟩
  else asItStandsIf do
    if startsGroup .paren ts then group .paren (traitBound g consts) else traitBound g consts

/-- Whether a bound may be ahead after a plus sign. -/
def startsBound (consts : Bool) (ts : List TokenTree) : Bool :=
  startsAnyWord ts || startsOp "::" ts || startsOp "?" ts || startsLifetime ts ||
    startsGroup .paren ts || (consts && startsGroup .bracket ts)

/-- What a sum of bounds looks like: whether a plus sign stands in it, whether it has a trait, and
whether it ends in a path that generic arguments could follow. -/
structure SumShape where
  joined : Bool
  hasTrait : Bool
  openPath : Bool

/-- Further bounds of a sum, each after a plus sign. The last sign may stand alone. -/
def moreBounds (captures consts : Bool) : SumShape → Reader SumShape :=
  loop fun sum => do
    if ← acceptOp "+" then
      if ← looks (startsBound consts) then
        let b ← g.bound captures consts
        return .inl ⟨true, sum.hasTrait || b.isTrait, b.openPath⟩
      else return .inr { sum with joined := true }
    else return .inr sum

/-- A sum of bounds, of a single one if `plus` does not hold. It needs a trait. -/
def boundSum (plus captures consts : Bool) : Reader SumShape := do
  let b ← g.bound captures consts
  let first : SumShape := ⟨false, b.isTrait, b.openPath⟩
  let sum ← if plus then moreBounds g captures consts first else pure first
  if sum.hasTrait then return sum else failure

/-! ### Conditions -/

/-- Whether a list of conditions ends, or the bounds of one of them. -/
def endsCondition (ts : List TokenTree) : Bool :=
  ts.isEmpty || startsGroup .brace ts || startsOp "," ts || startsOp ";" ts || startsOp "=" ts ||
    (startsOp ":" ts && !startsOp "::" ts)

/-- A condition on a lifetime or a type. -/
def condition : Reader Unit := do
  let ts ← ahead
  if startsLifetime ts && startsOp ":" (skipTree ts) then
    discard takeLifetime
    takeOp ":"
    discard (lifetimesUntil fun ts => endsCondition ts || startsOp ":" ts)
  else
    discard (boundParameters g)
    discard (g.type true)
    takeOp ":"
    discard (boundsUntil g endsCondition true)

/-- The conditions of a declaration after `where`, if the word is next. Tells whether it is. Nothing
is left if there are no conditions. -/
def whereClause : Reader Bool := do
  if startsWord "where" (← ahead) then
    let (trees, found) ← collect do
      takeWord "where"
      if startsParameters (← ahead) then failure
      loop (fun found => do
        if ← looks endsCondition then return .inr found
        condition g
        if ← acceptOp "," then return .inl true
        else return .inr true) false
    if found then leave trees
    return true
  else return false

end HybridStep.Grammar
