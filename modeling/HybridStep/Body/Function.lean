import HybridStep.Body.Expr.ToNode
import HybridStep.Body.Grammar.Statements
import HybridStep.Body.Token.Scan
import HybridStep.Text.Blank

/-! # Update functions

The body of an update is the text of a function or of a closure. Its first parameter is the entity,
through which ports are reached, its second one the time step. -/

namespace HybridStep

/-- The two forms of a body. -/
inductive FunctionKind where
  | item | closure
  deriving DecidableEq, Inhabited

/-- A body that has been read.

* `receiver` is the name of the entity in the body, `params` are the names of the other parameters;
* `declared` holds the sorts of the locals that are bound with a primitive type. -/
structure UpdateFunction where
  kind : FunctionKind
  receiver : Option String
  params : List String
  body : List Node
  declared : OrderedMap String TermSort

/-- Why a text is no body.

* `malformed`: it cannot be read;
* `notAFunction`: it is some other expression;
* `parameter`: a parameter is a pattern that gives no name. -/
inductive BodyError where
  | malformed
  | notAFunction (text : String)
  | parameter (pattern : String)
  deriving DecidableEq

/-- The text of the error. -/
def BodyError.message : BodyError → String
  | malformed => "syntax error in update body: unexpected text"
  | notAFunction text => "update body is neither a `fn` item nor a closure: `" ++ text ++ "`"
  | parameter pattern => "unsupported parameter pattern `" ++ pattern ++ "`"

namespace UpdateFunction

/-- The name of the time step, the first parameter after the entity. -/
def stepParam (f : UpdateFunction) : Option String := f.params.head?

/-- The names that parameters give. -/
def paramNames : List Pattern → Except BodyError (List String)
  | [] => .ok []
  | p :: ps =>
    match p.name with
    | .ok name => (paramNames ps).map (name :: ·)
    | .error trees => .error (.parameter (TokenTree.text trees))

/-- A function with the given parameters and statements. -/
def ofItem (params : List Pattern) (body : List Stmt) : Except BodyError UpdateFunction :=
  (paramNames params).map fun names =>
    ⟨.item, names.head?, names.tail, Stmt.toNodes true body, .ofList (Stmt.declared body)⟩

/-- A closure with the given parameters and body. A block as body is read like the block of a
function. -/
def ofClosure (params : List Pattern) (body : Expr) : Except BodyError UpdateFunction :=
  (paramNames params).map fun names =>
    match body.form with
    | .block none _ stmts =>
      ⟨.closure, names.head?, names.tail, Stmt.toNodes true stmts, .ofList (Stmt.declared stmts)⟩
    | _ => ⟨.closure, names.head?, names.tail, [.ret (some body.toNode)], .empty⟩

/-- Whether a text is taken for a function rather than an expression. -/
def startsItem (text : String) : Bool :=
  let cs := trimStart text.toList
  Scan.startsWith "fn " cs || Scan.startsWith "pub " cs

/-- Reads the text of a body. -/
def read (text : String) : Except BodyError UpdateFunction :=
  match Scan.trees? text with
  | none => .error .malformed
  | some trees =>
    if startsItem text then
      match Grammar.function? trees with
      | some (params, body) => ofItem params body
      | none => .error .malformed
    else
      match Grammar.expr? trees with
      | none => .error .malformed
      | some e =>
        match e.form with
        | .closure _ params _ body => ofClosure params body
        | _ => .error (.notAFunction e.text)

end UpdateFunction

end HybridStep
