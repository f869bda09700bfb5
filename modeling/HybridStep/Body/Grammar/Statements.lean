import HybridStep.Body.Grammar.Items

/-! # Statements and whole bodies

Statements in blocks, and the two forms that the text of a body takes. All readers nest in each
other; they are tied together level by level, where the readers of a level use those of the level
below for what stands inside. The number of levels comes from the size of the text and is never
reached. -/

namespace HybridStep.Grammar

/-- The words that start a declaration in a block. -/
def startsItem (ts : List TokenTree) : Bool :=
  let next := skipTree ts
  let third := skipTree next
  startsOneOf ["pub", "extern", "use", "fn", "mod", "type", "struct", "enum", "trait", "impl",
    "macro"] ts ||
    (startsWord "crate" ts && !startsOp "::" next) ||
    (startsWord "static" ts && (startsWord "mut" next || startsName next)) ||
    (startsWord "const" ts && !(startsGroup .brace next || startsWord "static" next ||
      (startsWord "async" next && !startsOneOf ["unsafe", "extern", "fn"] third) ||
      startsWord "move" next || startsOp "|" next)) ||
    (startsWord "unsafe" ts && !startsGroup .brace next) ||
    (startsWord "async" ts && startsOneOf ["unsafe", "extern", "fn"] next) ||
    (startsWord "union" ts && startsName next) ||
    (startsWord "auto" ts && startsWord "trait" next) ||
    (startsWord "default" ts && startsOneOf ["unsafe", "impl"] next)

variable (g : Nested)

/-- How a macro call at the start of a statement goes on. -/
inductive MacroStart where
  | declaration | braced | none
  deriving DecidableEq

/-- Whether a macro call is ahead that is a statement of its own. -/
def macroStart (ts : List TokenTree) : MacroStart :=
  match plainPath.run ⟨ts, []⟩ with
  | some ((), ⟨rest, _⟩) =>
    let next := skipTree rest
    let third := skipTree next
    if !startsOp "!" rest then .none
    else if startsName next || startsWord "try" next then .declaration
    else if startsGroup .brace next && !(startsPoint third || startsOp "?" third) then .braced
    else .none
  | none => .none

/-- A macro call that is a statement of its own. -/
def macroStatement : Reader Unit := do
  outerAttributes g
  plainPath
  takeOp "!"
  discard takeGroup
  discard (acceptOp ";")

/-- What a `let` does if its pattern does not match, if that is given. The value in front of it must
not end in braces. -/
def alternative (valueEnd : Option TokenTree) : Reader Unit := do
  let braced := match valueEnd with
    | some (.group .brace _) => true
    | _ => false
  if !braced then
    if ← acceptWord "else" then discard (block g)

/-- A `let` statement. -/
def letStatement (attributes : List TokenTree) : Reader Stmt := do
  takeWord "let"
  let (p, type) ← typedPattern g (← quiet g.pattern)
  let (value, rest) ←
    if ← acceptOp "=" then
      let start ← ahead
      let value ← g.expr true
      let (rest, ()) ← collect (alternative g (← since start).getLast?)
      pure (some value, rest)
    else pure (none, [])
  takeOp ";"
  return .bind attributes p (type.bind sortOfType?) value rest

/-- A statement that is an expression. A macro call with a semicolon or in braces has no meaning of
its own. -/
def exprStatement (attributes : List TokenTree) : Reader Stmt := do
  let e := (← g.leading).attachLeft attributes
  let terminated ← acceptOp ";"
  let s := Stmt.expr e terminated
  match e.form with
  | .invocation _ braced => return if terminated || braced then .skipped s.trees else s
  | _ => return s

/-- A statement other than a lone semicolon. Leaves nothing. -/
def statement : Reader Stmt :=
  quiet do
    match ← peeked (outerAttributes g) with
    | none => failure
    | some ((), ts) =>
      let start := macroStart ts
      if start = .braced then return .skipped (← collect (macroStatement g)).1
      else if !startsWord "let" ts && (start = .declaration || startsItem ts) then
        return .skipped (← collect (item g)).1
      else
        let (attributes, ()) ← collect (outerAttributes g)
        if startsWord "let" ts then letStatement g attributes else exprStatement g attributes

/-- An empty statement. -/
def emptyStatement : Stmt := .expr (.mk [] (.raw [])) true

/-- Whether a statement has to end with a semicolon that it lacks if another one follows. -/
def lacksSemicolon : Stmt → Bool
  | .expr e false => e.needsSemicolon
  | _ => false

/-- The statements of a block. -/
def statements : Reader (List Stmt) :=
  loop (fun (found : List Stmt) => do
    if ← acceptOp ";" then return .inl (emptyStatement :: found)
    else if ← atEnd then return .inr found.reverse
    else
      let s ← statement g
      leave s.trees
      if lacksSemicolon s && !(← atEnd) then failure
      return .inl (s :: found)) []

/-! ### Tying the knot -/

/-- Readers that read nothing. -/
def noLevels : Nested where
  expr _ := failure
  unary _ := failure
  climb _ _ _ := failure
  leading := failure
  type _ := failure
  bound _ _ := failure
  pattern := failure
  conditional := failure
  statements := failure
  item := failure
  fields := failure

/-- The readers for constructs nested at most `n` deep. -/
def levels : Nat → Nested
  | 0 => noLevels
  | n + 1 =>
    let g := levels n
    { expr := expr g
      unary := unary g
      climb := climb g
      leading := leading g
      type := type g
      bound := bound g
      pattern := pattern g
      conditional := quiet (conditional g)
      statements := statements g
      item := item g
      fields := fields g }

/-- The readers for constructs in the given trees. Each level takes at least one of them. -/
def levelsFor (trees : List TokenTree) : Nested := levels (4 * TokenTree.sizeOfList trees + 8)

/-- The trees as one function with its parameters and statements. -/
def function? (trees : List TokenTree) : Option (List Pattern × List Stmt) :=
  readAll (function (levelsFor trees)) trees

/-- The trees as one expression. -/
def expr? (trees : List TokenTree) : Option Expr := readAll (expr (levelsFor trees) true) trees

end HybridStep.Grammar
