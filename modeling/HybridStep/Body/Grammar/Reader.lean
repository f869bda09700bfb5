import HybridStep.Body.Expr.Trees
import HybridStep.Body.Literal

/-! # Reading from token trees

A reader takes trees from the front of the input, or fails, and leaves the trees of what it took as
they are written back: marks that form one operator are joined, and every other mark stands alone.
The groups of the input are read from the inside to their end.

Types, patterns, declarations and statements leave their trees. Expressions leave none, as their
trees depend on where they stand; `written` leaves them. -/

namespace HybridStep.Grammar

open TokenTree (op)

/-- The trees ahead, and the trees left for those already taken, the last one first. -/
structure Input where
  ahead : List TokenTree
  taken : List TokenTree

/-- A reader of an `α`. -/
abbrev Reader := StateT Input Option

/-! ### Looking ahead -/

/-- Whether the trees start with an operator: its marks, all but the last one joined. -/
def startsMarks : List Char → List TokenTree → Bool
  | [], _ => true
  | [c], .punct d _ :: _ => c == d
  | c :: cs, .punct d true :: ts => c == d && startsMarks cs ts
  | _, _ => false

/-- Whether the trees start with the operator of the given text. -/
def startsOp (text : String) (ts : List TokenTree) : Bool := startsMarks text.toList ts

/-- Whether the trees start with the word `w`. -/
def startsWord (w : String) : List TokenTree → Bool
  | .ident name :: _ => name == w
  | _ => false

/-- Whether the trees start with one of the words. -/
def startsOneOf (ws : List String) (ts : List TokenTree) : Bool := ws.any (startsWord · ts)

/-- Whether the trees start with a group in delimiters `d`. -/
def startsGroup (d : Delimiter) : List TokenTree → Bool
  | .group d' _ :: _ => d == d'
  | _ => false

/-- The words that cannot be names. -/
def reserved : List String :=
  ["_", "abstract", "as", "async", "await", "become", "box", "break", "const", "continue", "crate",
   "do", "dyn", "else", "enum", "extern", "false", "final", "fn", "for", "if", "impl", "in", "let",
   "loop", "macro", "match", "mod", "move", "mut", "override", "priv", "pub", "ref", "return",
   "Self", "self", "static", "struct", "super", "trait", "true", "try", "type", "typeof", "unsafe",
   "unsized", "use", "virtual", "where", "while", "yield"]

/-- Whether the trees start with a name. -/
def startsName : List TokenTree → Bool
  | .ident name :: _ => !reserved.contains name
  | _ => false

/-- Whether the trees start with a name or any other word. -/
def startsAnyWord : List TokenTree → Bool
  | .ident _ :: _ => true
  | _ => false

/-- Whether the trees start with a label or lifetime. -/
def startsLifetime : List TokenTree → Bool
  | .punct '\'' true :: .ident _ :: _ => true
  | _ => false

/-- Whether the trees start with a literal, which may be a number after a minus sign. -/
def startsLiteral : List TokenTree → Bool
  | .literal _ :: _ => true
  | .punct '-' _ :: .literal text :: _ =>
    (Literal.whole? text.toList).isSome || (Literal.real? text.toList).isSome
  | ts => startsOneOf ["true", "false"] ts

/-- Whether the trees start with a text literal. -/
def startsText : List TokenTree → Bool
  | .literal text :: _ => (Literal.text? text.toList).isSome
  | _ => false

/-- Whether the trees start with a group of any delimiter. -/
def startsAnyGroup : List TokenTree → Bool
  | .group .. :: _ => true
  | _ => false

/-- The trees after the first one. A label counts as one tree. -/
def skipTree : List TokenTree → List TokenTree
  | .punct '\'' true :: .ident _ :: ts => ts
  | _ :: ts => ts
  | [] => []

/-! ### Taking -/

/-- The trees ahead. -/
def ahead : Reader (List TokenTree) := do return (← get).ahead

/-- Whether nothing is ahead. -/
def atEnd : Reader Bool := do return (← ahead).isEmpty

/-- Whether the trees ahead satisfy `p`. -/
def looks (p : List TokenTree → Bool) : Reader Bool := do return p (← ahead)

/-- Leaves trees without taking any. -/
def leave (ts : List TokenTree) : Reader Unit :=
  modify fun s => { s with taken := ts.reverse ++ s.taken }

/-- Takes `n` trees, leaving `ts` for them. -/
def advance (n : Nat) (ts : List TokenTree) : Reader Unit :=
  modify fun s => ⟨s.ahead.drop n, ts.reverse ++ s.taken⟩

/-- Takes the operator of the given text if it is next. -/
def acceptOp (text : String) : Reader Bool := do
  if startsOp text (← ahead) then advance text.length (op text); return true
  else return false

/-- Takes the operator of the given text. -/
def takeOp (text : String) : Reader Unit := do
  if ← acceptOp text then return () else failure

/-- Takes the word `w` if it is next. -/
def acceptWord (w : String) : Reader Bool := do
  if startsWord w (← ahead) then advance 1 [.ident w]; return true
  else return false

/-- Takes the word `w`. -/
def takeWord (w : String) : Reader Unit := do
  if ← acceptWord w then return () else failure

/-- Takes any word. -/
def takeAnyWord : Reader String := do
  match ← ahead with
  | .ident name :: _ => advance 1 [.ident name]; return name
  | _ => failure

/-- Takes a name. -/
def takeName : Reader String := do
  if startsName (← ahead) then takeAnyWord else failure

/-- Takes a name or an underscore. -/
def takeNameOrBlank : Reader String := do
  if startsWord "_" (← ahead) then takeAnyWord else takeName

/-- Takes a label or lifetime. Gives its name. -/
def takeLifetime : Reader String := do
  match ← ahead with
  | .punct '\'' true :: .ident name :: _ => advance 2 (TokenTree.lifetime name); return name
  | _ => failure

/-- Takes a label or lifetime if it is next. -/
def acceptLifetime : Reader (Option String) := do
  if startsLifetime (← ahead) then return some (← takeLifetime)
  else return none

/-- Takes a literal; a minus sign in front belongs to it. Gives its text. -/
def takeLiteral : Reader String := do
  match ← ahead with
  | .literal text :: _ => advance 1 [.literal text]; return text
  | .punct '-' _ :: .literal text :: _ =>
    if startsLiteral (← ahead) then advance 2 (op "-" ++ [.literal text]); return "-" ++ text
    else failure
  | ts => if startsOneOf ["true", "false"] ts then takeAnyWord else failure

/-- Whether a number can be the index of a field. -/
def isIndex (n : Nat) : Bool := n < 4294967296

/-- Takes the index of a field: a whole number below `2 ^ 32` without suffix, in any base. -/
def takeIndex : Reader Nat := do
  match ← ahead with
  | .literal text :: _ =>
    match Literal.whole? text.toList with
    | some (n, []) =>
      if isIndex n then advance 1 [.literal (toString n)]; return n
      else failure
    | _ => failure
  | _ => failure

/-- Takes a group of any delimiter as it stands. Gives its delimiter. -/
def takeGroup : Reader Delimiter := do
  match ← ahead with
  | .group d content :: _ => advance 1 [.group d content]; return d
  | _ => failure

variable {α β σ : Type}

/-- Reads a group in delimiters `d`, whose content must be what `p` reads. -/
def group (d : Delimiter) (p : Reader α) : Reader α := do
  match ← ahead with
  | .group d' content :: _ =>
    if d = d' then
      match p.run ⟨content, []⟩ with
      | some (a, ⟨[], taken⟩) => advance 1 [.group d taken.reverse]; return a
      | _ => failure
    else failure
  | _ => failure

/-! ### What readers leave -/

/-- The result of `p` with the trees that it would leave. -/
def collect (p : Reader α) : Reader (List TokenTree × α) := fun s =>
  (p.run ⟨s.ahead, []⟩).map fun (a, t) => ((t.taken.reverse, a), ⟨t.ahead, s.taken⟩)

/-- The result of `p`, which leaves nothing. -/
def quiet (p : Reader α) : Reader α := do return (← collect p).2

/-- The result of `p` with the trees that it leaves. -/
def captured (p : Reader α) : Reader (List TokenTree × α) := do
  let (trees, a) ← collect p
  leave trees
  return (trees, a)

/-- The trees between an earlier state of the input and now, as they stand. -/
def since (start : List TokenTree) : Reader (List TokenTree) := do
  return start.take (start.length - (← ahead).length)

/-- Reads with `p`, which tells whether to leave what it took as it stands. -/
def asItStandsIf (p : Reader (Bool × α)) : Reader α := do
  let start ← ahead
  let (trees, raw, a) ← collect p
  if raw then leave (← since start) else leave trees
  return a

/-- Leaves the trees of an expression in its place. -/
def writtenIn (s : Surroundings) (p : Reader Expr) : Reader Expr := do
  let e ← p
  leave (e.trees s)
  return e

/-- Leaves the trees of an expression between delimiters. -/
def written (p : Reader Expr) : Reader Unit := discard (writtenIn .inside p)

/-- The result of `p` on the trees ahead, which stay ahead, and what it would leave ahead. -/
def peeked (p : Reader α) : Reader (Option (α × List TokenTree)) := fun s =>
  some ((p.run s).map fun (a, t) => (a, t.ahead), s)

/-! ### Repeating -/

/-- Repeats `step`, which gives the next state or the result. Every step but the last one takes
something, so there are at most as many as trees ahead. -/
def repeatFrom (step : σ → Reader (σ ⊕ β)) : Nat → σ → Reader β
  | 0, _ => failure
  | n + 1, s => do
    match ← step s with
    | .inl s' => repeatFrom step n s'
    | .inr b => return b

/-- Repeats `step` as long as it gives a next state. -/
def loop (step : σ → Reader (σ ⊕ β)) (s : σ) : Reader β := do
  repeatFrom step ((← ahead).length + 1) s

/-- Items up to the end of the input, with commas in between and perhaps one at the end. Tells
whether there is one at the end. -/
def commaItems (p : Reader α) : Reader (List α × Bool) :=
  loop (fun found => do
    if ← atEnd then return .inr (found.reverse, !found.isEmpty)
    let a ← p
    if ← atEnd then return .inr ((a :: found).reverse, false)
    takeOp ","
    return .inl (a :: found)) []

/-- Items up to the end of the input, with commas in between and perhaps one at the end. -/
def commaList (p : Reader α) : Reader (List α) := do return (← commaItems p).1

/-- Repeats `p` to the end of the input. -/
def untilEnd (p : Reader α) : Reader (List α) :=
  loop (fun found => do
    if ← atEnd then return .inr found.reverse
    return .inl ((← p) :: found)) []

/-- Repeats `p` as long as `more` holds of the trees ahead. -/
def repeatWhile (more : List TokenTree → Bool) (p : Reader Unit) : Reader Unit :=
  loop (fun () => do
    if ← looks more then p; return .inl ()
    else return .inr ()) ()

/-- Reads all trees of a text that has token trees. -/
def readAll (p : Reader α) (trees : List TokenTree) : Option α :=
  match p.run ⟨trees, []⟩ with
  | some (a, ⟨[], _⟩) => some a
  | _ => none

end HybridStep.Grammar
