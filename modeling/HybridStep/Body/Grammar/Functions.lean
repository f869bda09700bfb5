import HybridStep.Body.Grammar.Expressions

/-! # Functions

The function that a body is has its parameters and statements kept. Functions inside a body have no
meaning for the encoding and are only read for their trees. -/

namespace HybridStep.Grammar

open TokenTree (op)

variable (g : Nested)

/-! ### What stands in front -/

/-- The visibility of a declaration. Tells whether it is given. -/
def visibility : Reader Bool := do
  if ← acceptWord "pub" then
    match ← ahead with
    | .group .paren content :: _ =>
      if startsOneOf ["crate", "self", "super"] content && content.length == 1 then
        discard takeGroup
      else if startsWord "in" content then
        group .paren do
          takeWord "in"
          plainPath
      return true
    | _ => return true
  else return false

/-- The trees without a word at their front, if it is there. -/
def dropWord (w : String) (ts : List TokenTree) : List TokenTree :=
  if startsWord w ts then ts.drop 1 else ts

/-- The trees without a calling convention at their front, if it is there. -/
def dropConvention (ts : List TokenTree) : List TokenTree :=
  if startsWord "extern" ts then
    if startsText (ts.drop 1) then ts.drop 2 else ts.drop 1
  else ts

/-- Whether a function is ahead. The flag allows the word `safe` in front of it. -/
def startsFunction (safe : Bool) (ts : List TokenTree) : Bool :=
  let ts := dropWord "async" (dropWord "const" ts)
  let ts := if safe && startsWord "safe" ts then ts.drop 1 else dropWord "unsafe" ts
  startsWord "fn" (dropConvention ts)

/-! ### Parameters -/

/-- The owner as first parameter of a method. -/
def receiverParam : Reader Unit := do
  let reference ← acceptOp "&"
  if reference then discard acceptLifetime
  discard (acceptWord "mut")
  takeWord "self"
  if !reference then
    if ← acceptOp ":" then discard (g.type true)

/-- What a parameter of a function is: the owner of a method, a pattern with its type, or the dots
that stand for any further parameters. -/
inductive FunctionParam where
  | owner
  | typed (p : Pattern)
  | dots

/-- A parameter of a function. A type in angle brackets may stand without a pattern. -/
def functionParam : Reader FunctionParam := do
  outerAttributes g
  if ← acceptOp "..." then return .dots
  if (← peeked (receiverParam g)).isSome then
    receiverParam g
    return .owner
  if startsName (← ahead) && startsOp "<" (skipTree (← ahead)) then
    leave (.ident "_" :: op ":")
    discard (g.type true)
    return .typed { trees := [.ident "_"], name := .ok "_" }
  else
    let p ← g.pattern
    takeOp ":"
    if ← acceptOp "..." then return .dots
    discard (g.type true)
    return .typed p

/-- The owner as a pattern. -/
def ownerPattern : Pattern := { trees := [.ident "self"], name := .ok "self" }

/-- The parameters of a function. Only the first one may be the owner, and the dots are the last. -/
def functionParams : Reader (List Pattern) :=
  group .paren <| loop (fun (found : List Pattern) => do
    if ← atEnd then return .inr found.reverse
    match ← functionParam g with
    | .dots =>
      discard (acceptOp ",")
      return .inr found.reverse
    | .owner =>
      if !found.isEmpty then failure
      if !(← atEnd) then takeOp ","
      return .inl [ownerPattern]
    | .typed p =>
      if !(← atEnd) then takeOp ","
      return .inl (p :: found)) []

/-! ### Functions -/

/-- A function up to its block. The flag allows the word `safe` in front of it. Gives its parameters
and whether the word is there. -/
def signature (safe : Bool) : Reader (List Pattern × Bool) := do
  discard (acceptWord "const")
  discard (acceptWord "async")
  let unsafely ← acceptWord "unsafe"
  let safely ← if safe && !unsafely then acceptWord "safe" else pure false
  callingConvention
  takeWord "fn"
  discard takeName
  genericParameters g
  let params ← functionParams g
  discard (returnType g true)
  discard (whereClause g)
  return (params, safely)

/-- A function with its parameters and statements. -/
def function : Reader (List Pattern × List Stmt) := do
  outerAttributes g
  discard visibility
  let (params, _) ← signature g false
  return (params, (← blockWithAttributes g).2)

end HybridStep.Grammar
