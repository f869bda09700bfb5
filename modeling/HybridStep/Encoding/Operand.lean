import HybridStep.Encoding.Error

/-! # Operations on encoded operands

What an operation of a body becomes, once its operands are terms. An integer that meets a real is
widened; a text that meets an enumeration becomes one of its variants. -/

namespace HybridStep

/-- An encoded expression: a term, a text without an enumeration yet, or syntax that was passed
through. -/
inductive Operand where
  | term (t : Term)
  | tag (t : String)
  | opaqueText (text : String)

/-- A term, with an error of its construction as an error of the encoding. -/
def checked (r : Except SortMismatch Term) : Except EncodingError Term :=
  r.mapError .sortMismatch

/-- A text as a variant of an enumeration. -/
def tagTerm (e : EnumSort) (tag : String) : Except EncodingError Term :=
  match e.indexOf? tag with
  | some i => .ok (.tag e i)
  | none => .error (.unknownTag tag e.name)

/-- A text as a variant of the enumeration that a sort is. -/
def tagOfSort (tag : String) : TermSort → Except EncodingError Term
  | .enum e => tagTerm e tag
  | _ => .error (.bareTag tag)

namespace Operand

/-- The term that an operand is. -/
def toTerm : Operand → Except EncodingError Term
  | term t => .ok t
  | tag t => .error (.bareTag t)
  | opaqueText text => .error (.unencodable (.unsupported text))

end Operand

namespace Term

/-- Widens an integer that meets a real. -/
def widen (lhs rhs : Term) : Except EncodingError (Term × Term) :=
  match lhs.sort, rhs.sort with
  | .int, .real => (checked lhs.mkToReal).map (·, rhs)
  | .real, .int => (checked rhs.mkToReal).map (lhs, ·)
  | _, _ => .ok (lhs, rhs)

end Term

/-- Two operands as terms that may be compared or chosen between. -/
def Operand.unify : Operand → Operand → Except EncodingError (Term × Term)
  | .term l, .term r => l.widen r
  | .tag t, .term r => (tagOfSort t r.sort).map (·, r)
  | .term l, .tag t => (tagOfSort t l.sort).map (l, ·)
  | .tag t, .tag _ => .error (.bareTag t)
  | .opaqueText text, _ => .error (.unencodable (.unsupported text))
  | _, .opaqueText text => .error (.unencodable (.unsupported text))

/-- An operation on one operand. The complement of an integer `n` is `-n - 1`. -/
def encodeUnary (op : UnaryOp) (operand : Term) : Except EncodingError Term :=
  let refused : Except EncodingError Term := .error (.unsupportedOperator op.text [operand.sort])
  match op with
  | .not =>
    match operand.sort with
    | .bool => checked operand.mkNot
    | .int => do
      let negated ← checked operand.mkNeg
      checked (Term.mkArith .sub negated (.int ⟨1, by decide, by decide⟩))
    | _ => refused
  | .neg => if operand.sort.isNumeric then checked operand.mkNeg else refused
  | .identity => .ok operand

/-- An arithmetic operation on two operands, widened where one is a real. -/
def encodeArith (op : Operator) (lhs rhs : Term) : Except EncodingError Term := do
  let (lhs, rhs) ← lhs.widen rhs
  checked (Term.mkArith op lhs rhs)

/-- An operation on two operands. A quotient of integers is an integer; the bitwise operators take
truth values only, and shifts nothing at all. -/
def encodeBinary (op : BinaryOp) (lhs rhs : Term) : Except EncodingError Term :=
  let refused : Except EncodingError Term :=
    .error (.unsupportedOperator op.text [lhs.sort, rhs.sort])
  let onBools (r : Except SortMismatch Term) : Except EncodingError Term :=
    if lhs.sort = .bool ∧ rhs.sort = .bool then checked r else refused
  match op with
  | .add => encodeArith .add lhs rhs
  | .sub => encodeArith .sub lhs rhs
  | .mul => encodeArith .mul lhs rhs
  | .pow => encodeArith .pow lhs rhs
  | .div =>
    if lhs.sort = .int ∧ rhs.sort = .int then checked (Term.mkArith .intDiv lhs rhs)
    else encodeArith .div lhs rhs
  | .mod => checked (Term.mkArith .mod lhs rhs)
  | .bitAnd => onBools (Term.mkAnd [lhs, rhs])
  | .bitOr => onBools (Term.mkOr [lhs, rhs])
  | .bitXor => onBools (Term.mkXor lhs rhs)
  | .shl => refused
  | .shr => refused

/-- The operator of a comparison. -/
def CmpOp.operator : CmpOp → Operator
  | eq => .eq
  | ne => .distinct
  | lt => .lt
  | le => .le
  | gt => .gt
  | ge => .ge

/-- A comparison of two operands. -/
def encodeCompare (op : CmpOp) (lhs rhs : Operand) : Except EncodingError Term := do
  let (lhs, rhs) ← lhs.unify rhs
  checked (Term.mkCompare op.operator lhs rhs)

/-- The comparisons of each operand with the next one, as far as there are operators. -/
def encodePairs : List CmpOp → Operand → List Operand → Except EncodingError (List Term)
  | op :: ops, left, right :: rest => do
    let pair ← encodeCompare op left right
    let pairs ← encodePairs ops right rest
    return pair :: pairs
  | _, _, _ => .ok []

end HybridStep
