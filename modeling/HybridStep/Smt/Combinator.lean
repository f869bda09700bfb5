import HybridStep.Smt.Term

/-! # Checked construction of terms

One function per way to build an application. Each accepts exactly the operand sorts that its
operator takes and folds operations on constants. A fold that would leave the 64-bit integers, or
divide by zero, is not done, and the application is kept. -/

namespace HybridStep

/-- Operands whose sorts an operator does not take. -/
structure SortMismatch where
  op : Operator
  found : List TermSort
  deriving DecidableEq

/-- The text of the error. -/
def SortMismatch.message (e : SortMismatch) : String :=
  "`" ++ e.op.symbol ++ "` cannot be applied to (" ++
    ", ".intercalate (e.found.map TermSort.text) ++ ")"

namespace Term

/-- The error for an operator and its operands. -/
def mismatch (op : Operator) (operands : List Term) : SortMismatch := ⟨op, operands.map sort⟩

/-- An equation between terms of one sort. Equations are never folded. -/
def mkEq (lhs rhs : Term) : Except SortMismatch Term :=
  if lhs.sort = rhs.sort then .ok (app .eq [lhs, rhs] .bool)
  else .error (mismatch .eq [lhs, rhs])

/-- A conjunction or disjunction. The error names the first operand that is no truth value. -/
def mkJunction (op : Operator) (unit : Bool) (ts : List Term) : Except SortMismatch Term :=
  match ts.find? (fun t => t.sort ≠ .bool) with
  | some t => .error (mismatch op [t])
  | none => .ok (if ts.isEmpty then bool unit else app op ts .bool)

/-- A conjunction; the empty one is true. -/
def mkAnd (ts : List Term) : Except SortMismatch Term := mkJunction .and true ts

/-- A disjunction; the empty one is false. -/
def mkOr (ts : List Term) : Except SortMismatch Term := mkJunction .or false ts

/-- A negation of a truth value. -/
def mkNot : Term → Except SortMismatch Term
  | const (.bool b) => .ok (bool !b)
  | t => if t.sort = .bool then .ok (app .not [t] .bool) else .error (mismatch .not [t])

/-- An exclusive disjunction. -/
def mkXor (lhs rhs : Term) : Except SortMismatch Term :=
  if lhs.sort = .bool ∧ rhs.sort = .bool then
    match lhs, rhs with
    | const (.bool a), const (.bool b) => .ok (bool (a ^^ b))
    | _, _ => .ok (app .xor [lhs, rhs] .bool)
  else .error (mismatch .xor [lhs, rhs])

/-- A choice between two terms of one sort. Choices are never folded. -/
def mkIte (cond yes no : Term) : Except SortMismatch Term :=
  if cond.sort = .bool ∧ yes.sort = no.sort then .ok (app .ite [cond, yes, no] yes.sort)
  else .error (mismatch .ite [cond, yes, no])

/-- An integer as a real; a real stays as it is. -/
def mkToReal : Term → Except SortMismatch Term
  | const (.int n) => .ok (real n.val)
  | t =>
    match t.sort with
    | .real => .ok t
    | .int => .ok (app .toReal [t] .real)
    | _ => .error (mismatch .toReal [t])

/-- The negative of a number. -/
def mkNeg : Term → Except SortMismatch Term
  | const (.int n) => .ok (match n.neg? with
    | some m => int m
    | none => app .neg [int n] .int)
  | const (.real q) => .ok (real (-q))
  | t => if t.sort.isNumeric then .ok (app .neg [t] t.sort) else .error (mismatch .neg [t])

/-! ### Arithmetic -/

/-- Whether an arithmetic operator takes two operands of a sort. -/
def takesArith : Operator → TermSort → Bool
  | .add, s | .sub, s | .mul, s | .pow, s => s.isNumeric
  | .div, s => s = .real
  | .intDiv, s | .mod, s => s = .int
  | _, _ => false

/-- The value of an arithmetic operator on integers, where it is an integer constant. -/
def foldInt : Operator → Word → Word → Option Word
  | .add, a, b => a.add? b
  | .sub, a, b => a.sub? b
  | .mul, a, b => a.mul? b
  | .intDiv, a, b => a.div? b
  | .mod, a, b => a.mod? b
  | .pow, a, b => a.pow? b
  | _, _, _ => none

/-- The value of an arithmetic operator on reals. Powers of reals are not folded. -/
def foldReal : Operator → Rat → Rat → Option Rat
  | .add, a, b => some (a + b)
  | .sub, a, b => some (a - b)
  | .mul, a, b => some (a * b)
  | .div, a, b => if b = 0 then none else some (a / b)
  | _, _, _ => none

/-- The constant that an arithmetic operator gives on two constants. -/
def foldArith (op : Operator) : Term → Term → Option Term
  | const (.int a), const (.int b) => (foldInt op a b).map int
  | const (.real a), const (.real b) => (foldReal op a b).map real
  | _, _ => none

/-- An arithmetic operation on two numbers of one sort. -/
def mkArith (op : Operator) (lhs rhs : Term) : Except SortMismatch Term :=
  if lhs.sort = rhs.sort ∧ takesArith op lhs.sort then
    .ok ((foldArith op lhs rhs).getD (app op [lhs, rhs] lhs.sort))
  else .error (mismatch op [lhs, rhs])

/-! ### Comparison -/

/-- Whether a comparison takes two operands of a sort. -/
def takesCompare : Operator → TermSort → Bool
  | .lt, s | .le, s | .gt, s | .ge, s => s.isNumeric
  | .eq, _ | .distinct, _ => true
  | _, _ => false

/-- The value of a comparison, from whether its operands are in order and whether they are equal. -/
def foldOrder (op : Operator) (less equal : Bool) : Option Bool :=
  match op with
  | .lt => some less
  | .le => some (less || equal)
  | .gt => some (!(less || equal))
  | .ge => some !less
  | .eq => some equal
  | .distinct => some !equal
  | _ => none

/-- The value of an equality test. -/
def foldEquality (op : Operator) (equal : Bool) : Option Bool :=
  match op with
  | .eq => some equal
  | .distinct => some !equal
  | _ => none

/-- The truth value that a comparison gives on two constants. -/
def foldCompare (op : Operator) : Term → Term → Option Bool
  | const (.int a), const (.int b) => foldOrder op (decide (a.val < b.val)) (decide (a = b))
  | const (.real a), const (.real b) => foldOrder op (decide (a < b)) (decide (a = b))
  | const (.bool a), const (.bool b) => foldEquality op (a == b)
  | const (.tag _ i), const (.tag _ j) => foldEquality op (i == j)
  | _, _ => none

/-- A comparison of two terms of one sort. -/
def mkCompare (op : Operator) (lhs rhs : Term) : Except SortMismatch Term :=
  if lhs.sort = rhs.sort ∧ takesCompare op lhs.sort then
    .ok (match foldCompare op lhs rhs with
      | some b => bool b
      | none => app op [lhs, rhs] .bool)
  else .error (mismatch op [lhs, rhs])

end Term

end HybridStep
