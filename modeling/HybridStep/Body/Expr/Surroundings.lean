import HybridStep.Body.Expr.Precedence

/-! # What stands around an expression

An operand is written in parentheses where it would be read otherwise without them. That depends on
the operators on both sides of it, and on whether it starts a statement, starts the body of an arm
of a `match`, or lies in a condition, where braces open a block. Operators such as a jump or a range
reach to the right as far as they can, so the right end of an operand decides too: it is looked
through for an operator that would take what follows as its own. -/

namespace HybridStep

/-- What stands around an expression.

* `before` and `after` are the precedences of the operators next to it;
* `statement` and `arm` tell that it is a whole statement or the whole body of an arm, and
  `startsStatement` and `startsArm` that one begins with it;
* in a `condition` no structure literal may stand; `endsCondition` tells that a block follows the
  condition that it ends, and `startsOptional` that it begins an operand which could be missing;
* the last three tell whether the operator after it could begin an expression, could go on with one,
  and could begin generic arguments. -/
structure Surroundings where
  before : Precedence := .lowest
  after : Precedence := .lowest
  statement : Bool := false
  startsStatement : Bool := false
  arm : Bool := false
  startsArm : Bool := false
  condition : Bool := false
  endsCondition : Bool := false
  startsOptional : Bool := false
  afterBegins : Bool := false
  afterContinues : Bool := false
  afterBeginsArguments : Bool := false

namespace Expr

/-- Whether an expression is a block without label and attributes. -/
def isPlainBlock : Expr → Bool
  | mk attributes (.block none inner _) => attributes.isEmpty && inner.isEmpty
  | _ => false

/-- Whether an expression is a `let`. -/
def isBinding (e : Expr) : Bool := match e.form with
  | .binding .. => true
  | _ => false

/-- Whether an expression is a structure literal. -/
def isConstruction (e : Expr) : Bool := match e.form with
  | .construction _ => true
  | _ => false

/-- Whether an expression is a `return` or `yield` without a value. -/
def isBareResult (e : Expr) : Bool := match e.form with
  | .ret none | .yield_ none => true
  | _ => false

/-- Whether an expression is a jump without a value. -/
def isBareJump (e : Expr) : Bool := match e.form with
  | .leap _ none => true
  | _ => e.isBareResult

/-- Whether braces after an expression could be read as part of it: it is a path, a `break` without
a value or a range without an upper bound. -/
def takesBraces (e : Expr) : Bool := match e.form with
  | .path .. | .leap _ none | .range _ _ none => true
  | _ => false

/-- Whether an expression starts with a word or dots and reaches as far to the right as it can. -/
def isGreedy (e : Expr) : Bool := match e.form with
  | .leap .. | .closure .. | .binding .. | .ret _ | .yield_ _ | .range none _ _ => true
  | _ => false

/-- Whether an expression is a cast to a type that generic arguments could follow. -/
def isOpenCast (e : Expr) : Bool := match e.form with
  | .cast _ _ openPath => openPath
  | _ => false

/-- Whether an expression starts with a label. -/
def startsLabelled : Expr → Bool
  | mk _ (.block label _ _) => label.isSome
  | mk _ (.blockLike labelled _) => labelled
  | mk _ (.assign target _) => startsLabelled target
  | mk _ (.suffixed inner _) => startsLabelled inner
  | mk _ (.operation _ left _) => startsLabelled left
  | mk _ (.call function _ _) => startsLabelled function
  | mk _ (.cast inner _ _) => startsLabelled inner
  | mk _ (.field base _) => startsLabelled base
  | mk _ (.index base _) => startsLabelled base
  | mk _ (.method receiver _ _ _ _) => startsLabelled receiver
  | mk _ (.range (some start) _ _) => startsLabelled start
  | _ => false

end Expr

namespace Surroundings

/-! ### Places -/

/-- Between delimiters. -/
def inside : Surroundings := {}

/-- A whole statement. -/
def ofStatement : Surroundings := { statement := true }

/-- The whole body of an arm. -/
def ofArm : Surroundings := { arm := true }

/-- A whole condition, in front of a block. -/
def ofCondition : Surroundings := { condition := true, endsCondition := true }

/-- Around the left operand of an operator of precedence `p`. The flags tell whether the operator
could begin an expression and generic arguments. -/
def left (s : Surroundings) (begins beginsArguments : Bool) (p : Precedence) : Surroundings :=
  { s with
    after := p
    statement := false
    startsStatement := s.statement || s.startsStatement
    arm := false
    startsArm := s.arm || s.startsArm
    endsCondition := false
    afterBegins := begins
    afterContinues := true
    afterBeginsArguments := beginsArguments }

/-- In front of a point or a question mark. Such an operand is a statement or an arm still. -/
def beforePoint (s : Surroundings) : Surroundings :=
  { s with
    after := .closed
    statement := s.statement || s.startsStatement
    startsStatement := false
    arm := s.arm || s.startsArm
    startsArm := false
    endsCondition := false
    afterBegins := false
    afterContinues := true
    afterBeginsArguments := false }

/-- Around the right operand of an operator of precedence `p`. The flags tell whether structure
literals are allowed again, and whether the operand could be missing. -/
def right (s : Surroundings) (p : Precedence) (freesBraces : Bool := false)
    (optional : Bool := false) : Surroundings :=
  { s with
    before := p
    statement := false
    startsStatement := false
    arm := false
    startsArm := false
    condition := s.condition && !freesBraces
    startsOptional := s.condition && optional }

/-! ### Parentheses -/

/-- Whether an expression has to be in parentheses in its place, whatever the operators around
it. -/
def parenthesizes (s : Surroundings) (e : Expr) : Bool :=
  (s.startsStatement && !e.needsSemicolon) ||
    ((s.statement || s.startsStatement) && e.isBinding) ||
    (s.startsArm && e.endsWithBlock) ||
    (s.condition && e.isConstruction) ||
    (s.endsCondition && (e.isBareResult || (!s.condition && e.takesBraces))) ||
    (s.startsOptional && e.isPlainBlock)

/-- The precedence of an expression in its place. -/
def precedenceOf (s : Surroundings) (e : Expr) : Precedence :=
  if s.afterBegins && e.isBareJump then .lowest
  else if !s.afterContinues && e.isGreedy then .leading
  else if s.afterBeginsArguments && e.isOpenCast then .lowest
  else e.precedence

/-! ### The ends of an operand -/

/-- What the right end of an operand makes of the operator after it: it cannot be followed by it, it
stops in front of it, or it takes the operator as its own. -/
inductive End where
  | fails | stops | takes
  deriving DecidableEq

/-- The end of an operand that follows an operator of precedence `p`, by the precedences alone. -/
def endAfter (s : Surroundings) (p : Precedence) : End :=
  if s.after = Precedence.lowest then .takes
  else if p = Precedence.assign ∨ p = Precedence.compare then
    if p ≤ s.after then .takes else .stops
  else if p < s.after then .takes else .stops

/-- Whether an assignment or a range follows. -/
def beforeAssignOrRange (s : Surroundings) : Bool :=
  s.after == Precedence.assign || s.after == Precedence.range

/-- The end of a closed operand. -/
def closedEnd (s : Surroundings) (p : Precedence) : End :=
  if p = Precedence.range ∧ s.beforeAssignOrRange then .fails
  else if p = Precedence.binding ∧ s.after < Precedence.binding then .fails
  else s.endAfter p

/-- The end of a jump without a value. -/
def bareJumpEnd (s : Surroundings) (p : Precedence) : End :=
  if s.after = Precedence.assign ∧ Precedence.assign < p then .fails else .takes

/-- Whether the left end of an operand goes with the operator before it. -/
def leftEndFits (s : Surroundings) (e : Expr) : Bool :=
  match e.form with
  | .assign .. => s.before ≤ Precedence.assign
  | .operation op _ _ =>
    if op.precedence = Precedence.assign then s.before ≤ Precedence.assign
    else s.before < op.precedence
  | .cast .. => s.before < Precedence.cast
  | .range (some _) _ _ => s.before < Precedence.assign
  | _ => true

/-- The right end of an operand in any place, behind an operator of any precedence. The numbers
count the ends that failed and that stopped on the way there. -/
abbrev Look := Surroundings → Precedence → Nat → Nat → End

/-- The precedence of a right operand whose right end is seen by `look`. -/
def rightPrecedenceBy (look : Look) (s : Surroundings) (e : Expr) : Precedence :=
  let p := s.precedenceOf e
  let loose :=
    if s.before = Precedence.assign ∨ s.before = Precedence.binding ∨
        s.before = Precedence.leading then p < s.before
    else p ≤ s.before
  let seen := s.after == Precedence.range || s.after == Precedence.or ||
    s.after == Precedence.and || !s.afterBegins
  if loose && seen && look s s.before 1 0 != .takes && s.leftEndFits e then .leading else p

/-- Whether the search ends at an operator, as it has gone past too many ends. -/
def gaveUp (s : Surroundings) (p : Precedence) (fails stops : Nat) : Bool :=
  if s.after = Precedence.closed then 2 ≤ fails && (s.endAfter p == .takes || 1 ≤ stops)
  else 1 ≤ stops

/-- How many failed ends count behind an operator. -/
def failsBehind (s : Surroundings) (fails : Nat) : Nat :=
  if s.after = Precedence.closed then fails else 1

/-- How many stopped ends count behind an operator that comes after one of precedence `p`. -/
def stopsBehind (s : Surroundings) (p : Precedence) : Nat :=
  if s.endAfter p = .takes then 1 else 0

/-- The end of an assignment of `value`. -/
def assignEnd (look : Look) (value : Expr) (s : Surroundings) (fails stops : Nat) : End :=
  let r := s.right .assign
  if (if s.after = Precedence.closed then 2 ≤ fails else 1 ≤ stops) then .takes
  else if look r .assign (s.failsBehind fails) 1 ≠ .fails then .takes
  else if r.rightPrecedenceBy look value < Precedence.assign then .takes
  else .fails

/-- The end of an operation with the right operand `operand`. -/
def operationEnd (look : Look) (op : InfixOp) (operand : Expr) (s : Surroundings)
    (p : Precedence) (fails stops : Nat) : End :=
  let q := op.precedence
  let r := s.right q
  if s.gaveUp p fails stops then .takes
  else if q = Precedence.compare ∧ s.after = Precedence.compare then .takes
  else match look r q (s.failsBehind fails) (s.stopsBehind p) with
    | .stops => s.endAfter p
    | .takes => .takes
    | .fails =>
      if q ≠ Precedence.assign ∧ r.rightPrecedenceBy look operand ≤ q then s.endAfter p
      else .fails

/-- The end of an operator in front of `operand`. -/
def leadingEnd (look : Look) (operand : Expr) (s : Surroundings) (p : Precedence)
    (fails stops : Nat) : End :=
  let r := s.right .leading
  if s.gaveUp p fails stops then .takes
  else match look r p (s.failsBehind fails) (s.stopsBehind p) with
    | .stops => s.endAfter p
    | .takes => .takes
    | .fails =>
      if r.rightPrecedenceBy look operand < Precedence.leading then s.endAfter p else .fails

/-- The end of a range with the upper bound `stop`. -/
def rangeEnd (look : Look) (stop : Expr) (s : Surroundings) (fails : Nat) : End :=
  let r := s.right .range false true
  if 1 ≤ fails then .takes
  else
    let found := look r .range fails (if s.beforeAssignOrRange then 0 else 1)
    if found = .takes ∨ (found = .stops ∧ !s.beforeAssignOrRange) then .takes
    else if r.rightPrecedenceBy look stop ≤ Precedence.range then .takes
    else .fails

/-- The end of a jump with a value; the flag tells whether the value could be missing. -/
def jumpEnd (look : Look) (optional : Bool) (s : Surroundings) (stops : Nat) : End :=
  if 1 ≤ stops then .takes
  else if look (s.right .lowest true optional) .lowest 1 1 = .fails then .stops
  else .takes

/-- The end of a `let` with the value `value`. -/
def bindingEnd (look : Look) (value : Expr) (s : Surroundings) (stops : Nat) : End :=
  let r := s.right .binding
  let looser := s.after < Precedence.binding
  if 1 ≤ stops then .takes
  else
    let found := look r .binding 1 (if looser then 0 else 1)
    if found = .takes then .takes
    else if looser then .stops
    else if r.rightPrecedenceBy look value < Precedence.binding then .takes
    else if found = .fails then .stops
    else .takes

mutual

/-- The right end of an operand that follows an operator. -/
def rightEnd : Expr → Look
  | .mk attributes form, s, p, fails, stops =>
    if s.parenthesizes (.mk attributes form) then s.endAfter p
    else formEnd form attributes.isEmpty s p fails stops

/-- The right end of an operand of a form, without attributes if it is `bare`. -/
def formEnd : ExprForm → Bool → Look
  | .assign _ value, bare, s, p, fails, stops =>
    if bare then assignEnd (rightEnd value) value s fails stops else s.closedEnd p
  | .operation op _ operand, bare, s, p, fails, stops =>
    if bare then operationEnd (rightEnd operand) op operand s p fails stops else s.closedEnd p
  | .borrow _ _ operand, _, s, p, fails, stops =>
    leadingEnd (rightEnd operand) operand s p fails stops
  | .unary _ operand, _, s, p, fails, stops =>
    leadingEnd (rightEnd operand) operand s p fails stops
  | .range _ _ (some stop), bare, s, p, fails, _ =>
    if bare then rangeEnd (rightEnd stop) stop s fails else s.closedEnd p
  | .range _ _ none, bare, s, p, _, _ =>
    if !bare then s.closedEnd p else if s.afterBegins then .takes else .fails
  | .leap label (some value), _, s, _, _, stops =>
    if label.isNone && value.startsLabelled then .takes
    else jumpEnd (rightEnd value) true s stops
  | .ret (some value), _, s, _, _, stops => jumpEnd (rightEnd value) false s stops
  | .yield_ (some value), _, s, _, _, stops => jumpEnd (rightEnd value) false s stops
  | .leap _ none, _, s, p, _, _ => s.bareJumpEnd p
  | .ret none, _, s, p, _, _ => s.bareJumpEnd p
  | .yield_ none, _, s, p, _, _ => s.bareJumpEnd p
  | .closure .., _, _, _, _, _ => .takes
  | .binding _ value, _, s, _, _, stops => bindingEnd (rightEnd value) value s stops
  | _, _, s, p, _, _ => s.closedEnd p

end

/-- The precedence of a right operand in its place. -/
def rightPrecedence (s : Surroundings) (e : Expr) : Precedence :=
  s.rightPrecedenceBy (rightEnd e) e

/-- The precedence of a left operand in its place. -/
def leftPrecedence (s : Surroundings) (e : Expr) : Precedence :=
  if (!s.afterBegins || s.after == Precedence.range) && rightEnd e s .lowest 0 0 == .stops &&
      s.leftEndFits e then .closed
  else s.precedenceOf e

end Surroundings

end HybridStep
