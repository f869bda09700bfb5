import HybridStep.Encoding.Context

/-! # Encoding of expressions

An expression becomes a term over the versions that its names have at its position. The sort of the
place it flows into only decides how a text is read. -/

namespace HybridStep

open Encoder (lift onTable pass)

namespace Context

variable (c : Context)

/-- The handle of a local of the modifier. -/
def localHandle (name : String) (version : Version) : Encoder Term :=
  onTable fun t => .ok (t.ofLocal name c.modifier version (c.sortOfLocal name))

/-- The term that a read of a key gives. -/
def readKey (s : Scope) (key : VarKey) : Encoder Term :=
  match key, s.read key with
  | .port p, .index k => onTable (·.port c.model p (.index k))
  | .port p, _ => onTable (·.entryValue c.model p)
  | .local name, .index k => c.localHandle name (.index k)
  | .local name, _ => c.localHandle name .current

/-- The handle that a write of a key makes. -/
def writeKey (s : Scope) (key : VarKey) : Encoder Term :=
  match key with
  | .port p => onTable (·.port c.model p (.index (s.write key)))
  | .local name => c.localHandle name (.index (s.write key))

/-- The key of a node that is read or written. -/
def keyOf (n : Node) : Encoder VarKey :=
  match c.key? n with
  | some key => pure key
  | none => throw (.unencodable n)

/-- The term that a name or a chain of names gives. -/
def readNode (s : Scope) (n : Node) : Encoder Term := do c.readKey s (← c.keyOf n)

/-- The term that a name gives. The name of the time step is its variable. -/
def readName (s : Scope) (name : String) : Encoder Term :=
  if c.isStep (.name name) then return (← get).table.step else c.readNode s (.name name)

/-- A literal as an operand. -/
def literal (hint : Option TermSort) : Literal → Except EncodingError Operand
  | .int n => .ok (.term (.int n))
  | .real q => .ok (.term (.real q))
  | .bool b => .ok (.term (.bool b))
  | .text tag =>
    match hint with
    | some (.enum e) => (tagTerm e tag).map Operand.term
    | _ => .ok (.tag tag)

/-- A junction of terms. -/
def junction : BoolOp → List Term → Except EncodingError Term
  | .and, ts => checked (Term.mkAnd ts)
  | .or, ts => checked (Term.mkOr ts)

/-- A choice between two operands. -/
def chosen (cond : Term) (yes no : Operand) : Except EncodingError Term := do
  let (yes, no) ← yes.unify no
  checked (Term.mkIte cond yes no)

/-- A chain of comparisons as the conjunction of its pairs. -/
def compared (ops : List CmpOp) (left : Operand) (others : List Operand) :
    Except EncodingError Term := do
  checked (Term.mkAnd (← encodePairs ops left others))

mutual

/-- Encodes an expression. -/
def expr (s : Scope) (hint : Option TermSort) : Node → Encoder Operand
  | .literal value => lift (literal hint value)
  | .name n => Operand.term <$> c.readName s n
  | .access segments => Operand.term <$> c.readNode s (.access segments)
  | .unary op operand =>
    match op with
    | .identity => expr s hint operand
    | op => do
      let operand ← lift (← expr s none operand).toTerm
      Operand.term <$> lift (encodeUnary op operand)
  | .binary op left right => do
    let left ← lift (← expr s none left).toTerm
    let right ← lift (← expr s none right).toTerm
    Operand.term <$> lift (encodeBinary op left right)
  | .logical op values => do Operand.term <$> lift (junction op (← truths s values))
  | .compare left ops others => do
    let left ← expr s none left
    let others ← exprs s others
    Operand.term <$> lift (compared ops left others)
  | .choice test body orelse => do
    let cond ← lift (← expr s (some .bool) test).toTerm
    let yes ← expr s hint body
    let no ← expr s hint orelse
    Operand.term <$> lift (chosen cond yes no)
  | .unsupported text => do
    pass text
    return .opaqueText text
  | .assign targets value => throw (.unencodable (.assign targets value))
  | .augment target op value => throw (.unencodable (.augment target op value))
  | .branch test body orelse => throw (.unencodable (.branch test body orelse))
  | .ret value => throw (.unencodable (.ret value))
  | .block body => throw (.unencodable (.block body))

/-- Encodes operands. -/
def exprs (s : Scope) : List Node → Encoder (List Operand)
  | [] => return []
  | n :: ns => do
    let first ← expr s none n
    let others ← exprs s ns
    return first :: others

/-- Encodes operands of a junction. -/
def truths (s : Scope) : List Node → Encoder (List Term)
  | [] => return []
  | n :: ns => do
    let first ← lift (← expr s (some .bool) n).toTerm
    let others ← truths s ns
    return first :: others

end

/-- Encodes an expression that has to be a term. -/
def term (s : Scope) (hint : Option TermSort) (n : Node) : Encoder Term := do
  lift (← c.expr s hint n).toTerm

end Context

end HybridStep
