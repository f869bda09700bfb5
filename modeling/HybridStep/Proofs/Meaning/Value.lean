import HybridStep.Body.Node
import HybridStep.Smt.Sort
import Mathlib.Algebra.Order.Field.Basic
import Mathlib.Data.Rat.Cast.Order

/-! # Values

The values that ports, locals and terms have: integers, elements of an ordered field for the reals,
truth values, and variants of enumerations. A value has exactly one sort. The operations of update
bodies act on values as they stand in the body; an integer that meets a real is widened, and an
operation on values of other sorts has no result.

Division, remainder and powers are total functions, of which only the cases are fixed that are
defined: what they give on a zero divisor or a negative exponent may be anything. -/

namespace HybridStep

/-- A value, with reals from a field. -/
inductive Val (K : Type) where
  | int (n : Int)
  | real (x : K)
  | bool (b : Bool)
  | tag (e : EnumSort) (i : Fin e.variants.length)
  deriving DecidableEq

/-- Total functions for the partial operations on numbers. -/
structure Arith (K : Type) [Field K] where
  intDiv : Int → Int → Int
  intMod : Int → Int → Int
  intPow : Int → Int → Int
  realDiv : K → K → K
  realPow : K → K → K
  intDiv_eq (a b : Int) : b ≠ 0 → intDiv a b = a / b
  intMod_eq (a b : Int) : b ≠ 0 → intMod a b = a % b
  intPow_eq (a : Int) (n : Nat) : intPow a n = a ^ n
  realDiv_eq (a b : K) : b ≠ 0 → realDiv a b = a / b

instance {K : Type} [Field K] : Inhabited (Arith K) where
  default :=
    { intDiv := (· / ·), intMod := (· % ·), intPow := fun a b => a ^ b.toNat
      realDiv := (· / ·), realPow := fun x _ => x
      intDiv_eq := fun _ _ _ => rfl
      intMod_eq := fun _ _ _ => rfl
      intPow_eq := fun _ _ => rfl
      realDiv_eq := fun _ _ _ => rfl }

variable {K : Type}

namespace Val

/-- The sort of a value. -/
def sort : Val K → TermSort
  | int _ => .int
  | real _ => .real
  | bool _ => .bool
  | tag e _ => .enum e

/-- The variant of an enumeration at a position. -/
def tag? (e : EnumSort) (i : Nat) : Option (Val K) :=
  if h : i < e.variants.length then some (tag e ⟨i, h⟩) else none

/-- The variant of an enumeration that a text names. -/
def ofText? (e : EnumSort) (text : String) : Option (Val K) := (e.indexOf? text).bind (tag? e)

/-- The variant that a text names in an enumeration that is given as a sort. -/
def textAs? (text : String) : TermSort → Option (Val K)
  | .enum e => ofText? e text
  | _ => none

variable [Field K]

/-- A value as one of a sort: a value of the sort itself, or an integer as a real. -/
def as? (s : TermSort) (v : Val K) : Option (Val K) :=
  if v.sort = s then some v
  else match v, s with
    | int n, .real => some (real n)
    | _, _ => none

/-- Widens an integer that meets a real. -/
def widen : Val K → Val K → Val K × Val K
  | int a, real y => (real a, real y)
  | real x, int b => (real x, real b)
  | v, w => (v, w)

/-- An operation on two numbers. -/
def numeric? (onInt : Int → Int → Int) (onReal : K → K → K) (v w : Val K) : Option (Val K) :=
  match v.widen w with
  | (int a, int b) => some (int (onInt a b))
  | (real x, real y) => some (real (onReal x y))
  | _ => none

/-- An operation on two truth values. -/
def logical? (onBool : Bool → Bool → Bool) : Val K → Val K → Option (Val K)
  | bool a, bool b => some (bool (onBool a b))
  | _, _ => none

omit [Field K] in
theorem sort_eq_int {v : Val K} : v.sort = .int ↔ ∃ n, v = int n := by
  cases v <;> simp [sort]

omit [Field K] in
theorem sort_eq_bool {v : Val K} : v.sort = .bool ↔ ∃ b, v = bool b := by
  cases v <;> simp [sort]

omit [Field K] in
theorem sort_of_textAs? {text : String} {s : TermSort} {v : Val K} (h : textAs? text s = some v) :
    v.sort = s := by
  cases s with
  | enum e =>
    simp only [textAs?, ofText?, Option.bind_eq_some_iff, tag?] at h
    obtain ⟨i, -, hi⟩ := h
    split at hi
    · cases hi; rfl
    · cases hi
  | int | real | bool => cases h

theorem sort_of_as? {s : TermSort} {v w : Val K} (h : v.as? s = some w) : w.sort = s := by
  unfold as? at h
  split at h
  · next hs => cases h; exact hs
  · cases v <;> cases s <;> simp_all [sort]
    subst h; rfl

theorem as?_of_sort {s : TermSort} {v : Val K} (h : v.sort = s) : v.as? s = some v := by
  simp [as?, h]

end Val

/-! ### Operations of update bodies -/

section

variable [Field K]

/-- An operation on one value. The complement of an integer `n` is `-n - 1`. -/
def UnaryOp.apply? : UnaryOp → Val K → Option (Val K)
  | .not, .bool b => some (.bool !b)
  | .not, .int n => some (.int (-n - 1))
  | .neg, .int n => some (.int (-n))
  | .neg, .real x => some (.real (-x))
  | .identity, v => some v
  | _, _ => none

/-- An operation on two values. -/
def BinaryOp.apply? (A : Arith K) : BinaryOp → Val K → Val K → Option (Val K)
  | .add => Val.numeric? (· + ·) (· + ·)
  | .sub => Val.numeric? (· - ·) (· - ·)
  | .mul => Val.numeric? (· * ·) (· * ·)
  | .div => Val.numeric? A.intDiv A.realDiv
  | .pow => Val.numeric? A.intPow A.realPow
  | .mod => fun v w =>
    match v, w with
    | .int a, .int b => some (.int (A.intMod a b))
    | _, _ => none
  | .bitAnd => Val.logical? (· && ·)
  | .bitOr => Val.logical? (· || ·)
  | .bitXor => Val.logical? (· ^^ ·)
  | .shl | .shr => fun _ _ => none

/-- Whether a comparison holds, from whether its operands are in order and whether they are
equal. -/
def CmpOp.test : CmpOp → (less equal : Bool) → Bool
  | .eq, _, equal => equal
  | .ne, _, equal => !equal
  | .lt, less, _ => less
  | .le, less, equal => less || equal
  | .gt, less, equal => !(less || equal)
  | .ge, less, _ => !less

/-- A comparison of two values of one sort. Only numbers have an order. -/
def CmpOp.apply? [LinearOrder K] (op : CmpOp) (v w : Val K) : Option Bool :=
  match v, w with
  | .int a, .int b => some (op.test (decide (a < b)) (decide (a = b)))
  | .real x, .real y => some (op.test (decide (x < y)) (decide (x = y)))
  | v, w =>
    if v.sort = w.sort ∧ (op = .eq ∨ op = .ne) then some (op.test false (decide (v = w)))
    else none

/-- A conjunction or disjunction of truth values. -/
def BoolOp.apply : BoolOp → List Bool → Bool
  | .and, bs => bs.all fun b => b
  | .or, bs => bs.any fun b => b

end

end HybridStep
