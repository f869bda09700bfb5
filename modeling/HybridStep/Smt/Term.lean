import HybridStep.Number.Word
import HybridStep.Smt.Operator
import HybridStep.Smt.Sexp
import HybridStep.Smt.Sort
import HybridStep.Smt.Symbol

/-! # Terms

Constants, variables and applications of operators. An application carries its sort; the modules
that build terms see to it that it is the sort the operator gives. -/

namespace HybridStep

/-- A constant. A tag is the variant of an enumeration at a position. -/
inductive Constant where
  | int (n : Word)
  | real (q : Rat)
  | bool (b : Bool)
  | tag (e : EnumSort) (index : Nat)
  deriving DecidableEq, Inhabited

/-- A variable with its sort. -/
structure Variable where
  name : String
  sort : TermSort
  deriving DecidableEq, Inhabited

/-- A term. -/
inductive Term where
  | const (c : Constant)
  | var (v : Variable)
  | app (op : Operator) (args : List Term) (sort : TermSort)
  deriving Inhabited

namespace Term

mutual

/-- Decides whether two terms are equal. -/
def decEq : (a b : Term) → Decidable (a = b)
  | const c, const d => decidable_of_iff (c = d) (by simp)
  | var v, var w => decidable_of_iff (v = w) (by simp)
  | app f as r, app g bs s =>
    have := decEqList as bs
    decidable_of_iff (f = g ∧ as = bs ∧ r = s) (by simp)
  | const _, var _ => isFalse (by simp)
  | const _, app .. => isFalse (by simp)
  | var _, const _ => isFalse (by simp)
  | var _, app .. => isFalse (by simp)
  | app .., const _ => isFalse (by simp)
  | app .., var _ => isFalse (by simp)

/-- Decides whether two lists of terms are equal. -/
def decEqList : (as bs : List Term) → Decidable (as = bs)
  | [], [] => isTrue rfl
  | a :: as, b :: bs =>
    have := decEq a b
    have := decEqList as bs
    decidable_of_iff (a = b ∧ as = bs) (by simp)
  | [], _ :: _ => isFalse (by simp)
  | _ :: _, [] => isFalse (by simp)

end

instance : DecidableEq Term := decEq

end Term

namespace Constant

/-- The sort of a constant. -/
def sort : Constant → TermSort
  | int _ => .int
  | real _ => .real
  | bool _ => .bool
  | tag e _ => .enum e

/-- A magnitude with a minus sign in front, as SMT-LIB writes negative numbers. -/
def negated (x : Sexp) : Sexp := .list [.atom "-", x]

/-- The magnitude of a rational number as a decimal or a quotient of decimals. -/
def magnitude (q : Rat) : Sexp :=
  let whole (n : Nat) : Sexp := .atom (toString n ++ ".0")
  if q.den = 1 then whole q.num.natAbs
  else .list [.atom "/", whole q.num.natAbs, whole q.den]

/-- A real constant in SMT-LIB. -/
def realSexp (q : Rat) : Sexp := if q.num < 0 then negated (magnitude q) else magnitude q

/-- An integer constant in SMT-LIB. -/
def intSexp (n : Word) : Sexp :=
  if n.val < 0 then negated (.atom (toString n.val.natAbs)) else .atom (toString n.val.natAbs)

/-- A constant in SMT-LIB. A tag outside its enumeration is written as a question mark. -/
def sexp : Constant → Sexp
  | int n => intSexp n
  | real q => realSexp q
  | bool b => .atom (if b then "true" else "false")
  | tag e i => .atom (Symbol.quote (e.variants[i]?.getD "?"))

end Constant

namespace Term

/-- An integer constant. -/
def int (n : Word) : Term := const (.int n)

/-- A real constant. -/
def real (q : Rat) : Term := const (.real q)

/-- A truth value. -/
def bool (b : Bool) : Term := const (.bool b)

/-- A variant of an enumeration. -/
def tag (e : EnumSort) (index : Nat) : Term := const (.tag e index)

/-- The sort of a term. -/
def sort : Term → TermSort
  | const c => c.sort
  | var v => v.sort
  | app _ _ s => s

/-- Whether the term is a constant. -/
def isConstant : Term → Bool
  | const _ => true
  | _ => false

/-- The operator of an application. -/
def operator? : Term → Option Operator
  | app op _ _ => some op
  | _ => none

/-- The arguments of an application, none for other terms. -/
def args : Term → List Term
  | app _ as _ => as
  | _ => []

mutual

/-- The term as an s-expression. -/
def sexp : Term → Sexp
  | const c => c.sexp
  | var v => .atom (Symbol.quote v.name)
  | app op as _ => .list (.atom op.symbol :: sexps as)

/-- The terms of a list as s-expressions. -/
def sexps : List Term → List Sexp
  | [] => []
  | t :: ts => t.sexp :: sexps ts

end

/-- The text of a term. -/
def text (t : Term) : String := t.sexp.text

mutual

/-- The variables of a term in the order of their occurrences. -/
def vars : Term → List Variable
  | const _ => []
  | var v => [v]
  | app _ as _ => varsOfList as

/-- The variables of the terms of a list. -/
def varsOfList : List Term → List Variable
  | [] => []
  | t :: ts => t.vars ++ varsOfList ts

end

/-- The enumeration that a sort is, if it is one. -/
def enumOfSort : TermSort → List EnumSort
  | .enum e => [e]
  | _ => []

mutual

/-- The enumerations among the sorts of a term and of its parts, the whole before its parts. -/
def enums : Term → List EnumSort
  | const c => enumOfSort c.sort
  | var v => enumOfSort v.sort
  | app _ as s => enumOfSort s ++ enumsOfList as

/-- The enumerations among the sorts of the terms of a list. -/
def enumsOfList : List Term → List EnumSort
  | [] => []
  | t :: ts => t.enums ++ enumsOfList ts

end

end Term

end HybridStep
