import HybridStep.Body.Expr.Surroundings

/-! # The token trees of expressions

Expressions and statements as they are written back: with the parentheses that they need in their
place and no others, apart from those that were written. -/

namespace HybridStep

open TokenTree (op)

/-- What is written in `s`, or in parentheses if it needs them. -/
def grouped (needed : Bool) (s : Surroundings) (trees : Surroundings → List TokenTree) :
    List TokenTree :=
  if needed then [.group .paren (trees .inside)] else trees s

namespace ExprForm

/-- Whether a form needs parentheses behind attributes, which would go to its first operand
otherwise. -/
def startsWithOperand : ExprForm → Bool
  | .assign .. | .operation .. | .cast .. | .range .. => true
  | _ => false

end ExprForm

namespace Member

/-- The trees of a member after its point. -/
def trees : Member → List TokenTree
  | named name => [.ident name]
  | position index => [.literal (toString index)]

end Member

/-- The trees of a label in front of a block. -/
def labelTrees : Option String → List TokenTree
  | some name => TokenTree.lifetime name ++ op ":"
  | none => []

/-- The dots of a range. -/
def dots (closed : Bool) : List TokenTree := op (if closed then "..=" else "..")

/-- Whether a function that is called needs parentheses. A field by name does, as it would be a
method without them. -/
def calleeNeedsGroup (l : Surroundings) (function : Expr) : Bool :=
  match function.form with
  | .field _ (.named _) => true
  | .field _ (.position _) => false
  | _ => l.leftPrecedence function < Precedence.closed

/-- Whether the left operand of an operator needs parentheses. -/
def leftNeedsGroup (q : Precedence) (l : Surroundings) (left : Expr) : Bool :=
  if q = Precedence.assign then l.leftPrecedence left ≤ Precedence.range
  else if q = Precedence.compare then l.leftPrecedence left ≤ q
  else l.leftPrecedence left < q

/-- Whether the right operand of an operator needs parentheses. -/
def rightNeedsGroup (q : Precedence) (r : Surroundings) (right : Expr) : Bool :=
  q != Precedence.assign && r.rightPrecedence right ≤ q

mutual

/-- The trees of an expression in its place. -/
def Expr.trees : Expr → Surroundings → List TokenTree
  | .mk attributes form, s =>
    grouped (s.parenthesizes (.mk attributes form)) s fun s =>
      if attributes.isEmpty then form.trees s
      else attributes ++ grouped form.startsWithOperand s form.trees

/-- The trees of a form in its place, without attributes. -/
def ExprForm.trees : ExprForm → Surroundings → List TokenTree
  | .literal trees _, _ => trees
  | .path trees _, _ => trees
  | .construction trees, _ => trees
  | .invocation trees _, _ => trees
  | .closed trees, _ => trees
  | .raw trees, _ => trees
  | .blockLike _ trees, _ => trees
  | .enclosed inner, _ => [.group .paren (inner.trees .inside)]
  | .field base member, s =>
    let l := s.beforePoint
    grouped (l.leftPrecedence base < Precedence.closed) l base.trees ++ op "." ++ member.trees
  | .method receiver name generics args trailing, s =>
    let l := s.beforePoint
    grouped (l.leftPrecedence receiver < Precedence.closed) l receiver.trees ++ op "." ++
      .ident name :: generics ++ [.group .paren (Expr.listTrees args trailing)]
  | .call function args trailing, s =>
    let l := s.left true false .closed
    grouped (calleeNeedsGroup l function) l function.trees ++
      [.group .paren (Expr.listTrees args trailing)]
  | .index base position, s =>
    let l := s.left true false .closed
    grouped (l.leftPrecedence base < Precedence.closed) l base.trees ++
      [.group .bracket (position.trees .inside)]
  | .suffixed inner trees, s =>
    let l := s.beforePoint
    grouped (l.leftPrecedence inner < Precedence.closed) l inner.trees ++ trees
  | .unary o operand, s =>
    let r := s.right .leading
    op o.text ++ grouped (r.rightPrecedence operand < Precedence.leading) r operand.trees
  | .borrow mark _ inner, s =>
    let r := s.right .leading
    mark ++ grouped (r.rightPrecedence inner < Precedence.leading) r inner.trees
  | .operation o left right, s =>
    let l := s.left o.beginsExpr o.beginsArguments o.precedence
    let r := s.right o.precedence
    grouped (leftNeedsGroup o.precedence l left) l left.trees ++ op o.text ++
      grouped (rightNeedsGroup o.precedence r right) r right.trees
  | .assign target value, s =>
    let l := s.left false false .assign
    grouped (leftNeedsGroup .assign l target) l target.trees ++ op "=" ++
      value.trees (s.right .assign)
  | .cast inner type _, s =>
    let l := s.left false false .cast
    grouped (l.leftPrecedence inner < Precedence.cast) l inner.trees ++ .ident "as" :: type
  | .range start closed stop, s =>
    let l := s.left true false .range
    let r := s.right .range false true
    let before := match start with
      | some e => grouped (l.leftPrecedence e ≤ Precedence.range) l e.trees
      | none => []
    let after := match stop with
      | some e => grouped (r.rightPrecedence e ≤ Precedence.range) r e.trees
      | none => []
    before ++ dots closed ++ after
  | .binding pattern value, s =>
    let r := s.right .binding
    .ident "let" :: pattern ++ op "=" ++
      grouped (r.rightPrecedence value < Precedence.binding) r value.trees
  | .closure head _ _ body, s => head ++ body.trees (s.right .lowest)
  | .leap label value, s =>
    let target := match label with
      | some name => TokenTree.lifetime name
      | none => []
    let result := match value with
      | some e =>
        grouped (label.isNone && e.startsLabelled) (s.right .lowest true true) e.trees
      | none => []
    .ident "break" :: target ++ result
  | .ret value, s => .ident "return" :: Expr.resultTrees value s
  | .yield_ value, s => .ident "yield" :: Expr.resultTrees value s
  | .conditional test body orelse, _ =>
    let other := match orelse with
      | some e => .ident "else" :: e.trees .inside
      | none => []
    .ident "if" :: test.trees .ofCondition ++ .group .brace (Stmt.listTrees body) :: other
  | .block label inner body, _ => labelTrees label ++ [.group .brace (inner ++ Stmt.listTrees body)]

/-- The trees of the value of a `return` or `yield`. -/
def Expr.resultTrees : Option Expr → Surroundings → List TokenTree
  | some e, s => e.trees (s.right .lowest true)
  | none, _ => []

/-- The trees of arguments, with commas in between and perhaps one at the end. -/
def Expr.listTrees : List Expr → Bool → List TokenTree
  | [], _ => []
  | [e], trailing => e.trees .inside ++ if trailing then op "," else []
  | e :: es, trailing => e.trees .inside ++ op "," ++ Expr.listTrees es trailing

/-- The trees of a statement. -/
def Stmt.trees : Stmt → List TokenTree
  | .bind attributes pattern _ value alternative =>
    let start := match value with
      | some e => op "=" ++ e.trees .inside
      | none => []
    attributes ++ .ident "let" :: pattern.trees ++ start ++ alternative ++ op ";"
  | .skipped trees => trees
  | .expr e terminated => e.trees .ofStatement ++ if terminated then op ";" else []

/-- The trees of statements. -/
def Stmt.listTrees : List Stmt → List TokenTree
  | [] => []
  | s :: rest => s.trees ++ Stmt.listTrees rest

end

/-- The text of an expression on its own. -/
def Expr.text (e : Expr) : String := TokenTree.text (e.trees .inside)

/-- The text of a statement. -/
def Stmt.text (s : Stmt) : String := TokenTree.text s.trees

end HybridStep
