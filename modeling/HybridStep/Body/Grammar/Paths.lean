import HybridStep.Body.Grammar.Reader

/-! # Paths and attributes

Paths name types, values and macros. Their generic arguments hold types and expressions, so every
reader from here on takes the readers for what is nested in it, and none of them recurs. -/

namespace HybridStep.Grammar

open TokenTree (op)

/-- What a type looks like.

* `isPath` tells whether it is a path without a leading type, `isWord` whether it has one segment
  and could be the name of an associated item;
* `sole` holds the trees of a bound if the type could be the first bound of a sum;
* `openPath` tells whether it ends in a path that generic arguments could follow. -/
structure TypeShape where
  isPath : Bool := false
  isWord : Bool := false
  sole : Option (List TokenTree) := none
  openPath : Bool := false

/-- What a bound looks like: whether it is a trait, and whether it ends in a path that generic
arguments could follow. -/
structure BoundShape where
  isTrait : Bool
  openPath : Bool

/-- The readers for what is nested in a construct.

* `expr` reads an expression, `unary` one without infix operators, `climb` goes on after a left
  operand with operators that bind at least as tightly as a precedence; the flag allows structure
  literals;
* `leading` reads an expression at the start of a statement, which may end with its own block;
* `type` reads a type, which may be a sum of bounds if the flag allows it;
* `bound` reads a bound; the flags allow lists of captured parameters and constant traits;
* `pattern` reads a pattern without alternatives;
* `conditional` reads an `if`, `statements` the content of a block, `item` a declaration, `fields`
  the fields of a structure in braces. -/
structure Nested where
  expr : Bool → Reader Expr
  unary : Bool → Reader Expr
  climb : Bool → Precedence → Expr → Reader Expr
  leading : Reader Expr
  type : Bool → Reader TypeShape
  bound : Bool → Bool → Reader BoundShape
  pattern : Reader Pattern
  conditional : Reader Expr
  statements : Reader (List Stmt)
  item : Reader Unit
  fields : Reader Unit

variable (g : Nested)

/-! ### Plain paths -/

/-- What follows the word of a segment: nothing, a list of generic arguments that holds none, or
generic arguments. -/
inductive SegmentEnd where
  | word | emptyList | arguments
  deriving DecidableEq

/-- What a path looks like: whether it starts with `::`, its first word, the number of its segments,
whether all of them are plain words, and the end of the last one. -/
structure PathShape where
  rooted : Bool
  first : String
  segments : Nat
  plain : Bool
  last : SegmentEnd

namespace PathShape

/-- Whether a path has one segment and nothing in front of it. -/
def isWord (p : PathShape) : Bool := !p.rooted && p.segments == 1

/-- The name that a path is, if it is a single plain word. -/
def name? (p : PathShape) : Option String := if p.isWord && p.plain then some p.first else none

/-- Whether generic arguments could follow a path. -/
def isOpen (p : PathShape) : Bool := p.last = .word

end PathShape

/-- The words that a path may start with although they are no names. -/
def pathWords : List String := ["super", "self", "Self", "crate"]

/-- Whether the trees may start a path without a leading type. -/
def startsPath (ts : List TokenTree) : Bool :=
  startsName ts || startsOp "::" ts || startsOneOf pathWords ts

/-- Whether a macro call goes on after its path. -/
def startsBang (ts : List TokenTree) : Bool := startsOp "!" ts && !startsOp "!=" ts

/-- A path of plain words. -/
def plainPath : Reader Unit := do
  let segment : Reader Unit := do
    let ts ← ahead
    if startsName ts || startsOneOf pathWords ts then discard takeAnyWord else failure
  discard (acceptOp "::")
  segment
  repeatWhile (startsOp "::") do
    takeOp "::"
    segment

/-! ### Attributes -/

/-- The content of an attribute. -/
def attributeContent : Reader Unit := do
  if startsWord "unsafe" (← ahead) then takeWord "unsafe" else plainPath
  let ts ← ahead
  if startsAnyGroup ts then discard takeGroup
  else if ← acceptOp "=" then
    let ts ← ahead
    if startsOp "#" ts && startsGroup .bracket (skipTree ts) then failure
    else written (g.expr true)

/-- The attributes in front of a construct. -/
def outerAttributes : Reader Unit :=
  repeatWhile (startsOp "#") do
    takeOp "#"
    group .bracket (attributeContent g)

/-- The attributes at the start of the content of a block. -/
def innerAttributes : Reader Unit :=
  repeatWhile (fun ts => startsOp "#" ts && startsOp "!" (skipTree ts)) do
    takeOp "#"
    takeOp "!"
    group .bracket (attributeContent g)

/-! ### Blocks -/

/-- A block: statements in braces. -/
def block : Reader (List Stmt) := group .brace g.statements

/-- A block with the attributes it may start with. -/
def blockWithAttributes : Reader (List TokenTree × List Stmt) :=
  group .brace do
    let (attributes, ()) ← captured (innerAttributes g)
    return (attributes, ← g.statements)

/-! ### Lists in angle brackets -/

/-- An item of a list in angle brackets, and whether a comma follows it. -/
structure AngleItem where
  isLifetime : Bool
  trees : List TokenTree
  comma : Bool

/-- The trees of items one after the other. An item that had no comma gets one if another item
follows it; `separated` tells whether nothing is left to separate before the first one. -/
def angleItemTrees (separated : Bool) : List AngleItem → List TokenTree
  | [] => []
  | i :: is =>
    (if separated then [] else op ",") ++ i.trees ++ (if i.comma then op "," else []) ++
      angleItemTrees i.comma is

/-- The trees of a list in angle brackets with its items as they stand. -/
def angleTrees (items : List AngleItem) : List TokenTree :=
  op "<" ++ angleItemTrees true items ++ op ">"

/-- The items with the lifetimes among them first. -/
def lifetimesFirst (items : List AngleItem) : List AngleItem :=
  items.filter (·.isLifetime) ++ items.filter fun i => !i.isLifetime

/-- A list in angle brackets; `item` tells whether an item is a lifetime. Leaves nothing. -/
def angleItems (item : Reader Bool) : Reader (List AngleItem) :=
  quiet do
    takeOp "<"
    let items ← loop (fun found => do
      if ← looks (startsOp ">") then return .inr found.reverse
      let (trees, isLifetime) ← collect item
      let comma ← acceptOp ","
      if !comma && !(← looks (startsOp ">")) then failure
      return .inl (⟨isLifetime, trees, comma⟩ :: found)) []
    takeOp ">"
    return items

/-! ### Generic arguments -/

/-- A constant among generic arguments. -/
def constArgument : Reader Unit := do
  let ts ← ahead
  if startsLiteral ts then discard takeLiteral
  else if startsName ts then discard takeName
  else discard (blockWithAttributes g)

/-- Whether a constant in its own brackets or a literal is ahead. -/
def startsConstant (ts : List TokenTree) : Bool := startsLiteral ts || startsGroup .brace ts

/-- Bounds joined by plus signs, perhaps none, up to what satisfies `stop`. The last sign may stand
alone. Tells whether there are any. -/
def boundsUntil (stop : List TokenTree → Bool) (consts : Bool) : Reader Bool :=
  loop (fun found => do
    if ← looks stop then return .inr found
    discard (g.bound false consts)
    if ← acceptOp "+" then return .inl true
    else return .inr true) false

/-- One generic argument. Tells whether it is a lifetime. -/
def genericArgument : Reader Bool := do
  let ts ← ahead
  if startsLifetime ts && !startsOp "+" (skipTree ts) then
    discard takeLifetime
    return true
  if startsConstant ts then constArgument g
  else if (← g.type true).isWord then
    if ← acceptOp "=" then
      if startsConstant (← ahead) then constArgument g else discard (g.type true)
    else if ← acceptOp ":" then
      discard (boundsUntil g (fun ts => startsOp "," ts || startsOp ">" ts) true)
  return false

/-- Generic arguments between angle brackets. Lifetimes are left first. -/
def genericArguments : Reader SegmentEnd := do
  let items ← angleItems (genericArgument g)
  leave (angleTrees (lifetimesFirst items))
  return if items.isEmpty then .emptyList else .arguments

/-! ### Paths -/

/-- A segment of a path. In an expression, arguments need `::` in front. -/
def segment (inExpr : Bool) : Reader (String × SegmentEnd) := do
  if startsOneOf ["super", "self", "crate", "try"] (← ahead) then return (← takeAnyWord, .word)
  let name ← if startsWord "Self" (← ahead) then takeAnyWord else takeName
  let ts ← ahead
  let direct := !inExpr && startsOp "<" ts && !startsOp "<=" ts
  let turbofish := startsOp "::" ts && startsOp "<" (skipTree (skipTree ts))
  if direct || turbofish then
    discard (acceptOp "::")
    return (name, ← genericArguments g)
  else return (name, .word)

/-- A path. -/
def path (inExpr : Bool) : Reader PathShape := do
  let rooted ← acceptOp "::"
  let (name, first) ← segment g inExpr
  loop (fun (p : PathShape) => do
    let ts ← ahead
    if startsOp "::" ts && !startsGroup .paren (skipTree (skipTree ts)) then
      takeOp "::"
      let (_, last) ← segment g inExpr
      return .inl ⟨p.rooted, p.first, p.segments + 1, p.plain && last = .word, last⟩
    else return .inr p) ⟨rooted, name, 1, first = .word, first⟩

/-- A path that may start with a type in angle brackets. Tells whether it does. -/
def qualifiedPath (inExpr : Bool) : Reader (Bool × PathShape) := do
  if ← acceptOp "<" then
    discard (g.type true)
    if ← acceptWord "as" then discard (path g false)
    takeOp ">"
    takeOp "::"
    let (name, first) ← segment g inExpr
    let last ← loop (fun last => do
      if ← acceptOp "::" then return .inl (← segment g inExpr).2
      else return .inr last) first
    return (true, ⟨true, name, 1, false, last⟩)
  else return (false, ← path g inExpr)

end HybridStep.Grammar
