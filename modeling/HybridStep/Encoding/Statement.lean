import HybridStep.Body.Flow
import HybridStep.Encoding.Expression

/-! # Encoding of statements

Each path through a body becomes a list of equations. A fork becomes one choice between the
conjunctions of its arms. At the end of a path every port that the body writes is closed: its
post-step variable is equated with its last version on the path. -/

namespace HybridStep

open Encoder (lift onTable pass)

namespace Context

variable (c : Context)

/-! ### Assignments -/

/-- A value as one of the sort of a handle. -/
def bind (handle : Term) (key : VarKey) : Operand → Except EncodingError Term
  | .tag tag => tagOfSort tag handle.sort
  | .opaqueText text => .error (.unencodable (.unsupported text))
  | .term t =>
    match handle.sort, t.sort with
    | .real, .int => checked t.mkToReal
    | .int, .real => .error (.narrowing (c.keyName key))
    | _, _ => .ok t

/-- The equation of a handle with a value. -/
def equate (handle : Term) (key : VarKey) (value : Operand) : Except EncodingError Term := do
  checked (Term.mkEq handle (← c.bind handle key value))

/-- The handles that the targets of an assignment make. -/
def targetHandles (s : Scope) : List Node → Encoder (List (VarKey × Term))
  | [] => return []
  | target :: targets => do
    let key ← c.keyOf target
    let handle ← c.writeKey s key
    let others ← targetHandles s targets
    return (key, handle) :: others

/-- The equations of several handles with a value. -/
def equateAll (value : Operand) : List (VarKey × Term) → Except EncodingError (List Term)
  | [] => .ok []
  | (key, handle) :: rest => do
    let first ← c.equate handle key value
    let others ← equateAll value rest
    return first :: others

/-- Encodes a statement that is neither a block nor an `if` nor a return. A value that was passed
through leaves the targets of its assignment free. -/
def statement (s : Scope) : Node → Encoder (List Term)
  | .assign targets value => do
    let handles ← c.targetHandles s targets
    match ← c.expr s (handles.head?.map fun h => h.2.sort) value with
    | .opaqueText _ => return []
    | value => lift (c.equateAll value handles)
  | .augment target op value => do
    let key ← c.keyOf target
    let current ← c.readKey s key
    let operand ← c.term s none value
    let combined ← lift (encodeBinary op current operand)
    let handle ← c.writeKey s key
    let equation ← lift (c.equate handle key (.term combined))
    return [equation]
  | .unsupported text => do
    pass text
    return []
  | n => throw (.unencodable n)

/-! ### Ends of paths -/

/-- The equation of a post-step variable with a last version, unless they are the same. -/
def closing (current latest : Term) : Except EncodingError (List Term) :=
  if current = latest then .ok [] else (checked (current.mkEq latest)).map fun e => [e]

/-- Equates the post-step variables of ports with their last versions. -/
def closePorts (s : Scope) : List PortId → Encoder (List Term)
  | [] => return []
  | p :: ps => do
    let current ← onTable (·.port c.model p .current)
    let latest ← c.readKey s (.port p)
    let first ← lift (closing current latest)
    let others ← closePorts s ps
    return first ++ others

/-- Closes a path at the end of the body. -/
def close (s : Scope) : Encoder (List Term) := c.closePorts s c.writtenPorts.toList

/-- Closes a path before a return, which itself writes the target. -/
def closeBeforeReturn (s : Scope) : Encoder (List Term) :=
  c.closePorts s (c.writtenPorts.toList.filter fun p => some p ≠ c.target)

/-- Encodes a return. A value that was passed through leaves the target free. -/
def returned (s : Scope) (value : Option Node) : Encoder (List Term) :=
  match c.target, value with
  | none, _ => throw (.returnWithoutTarget c.modifierName)
  | some _, none => throw (.emptyReturn c.modifierName)
  | some target, some value => do
    let handle ← onTable (·.port c.model target .current)
    match ← c.expr s (some handle.sort) value with
    | .opaqueText _ => return []
    | value => return [← lift (c.equate handle (.port target) value)]

/-! ### Paths -/

/-- The choice between two lists of constraints. -/
def forked (cond : Term) (yes no : List Term) : Except EncodingError Term := do
  let yes ← checked (Term.mkAnd yes)
  let no ← checked (Term.mkAnd no)
  checked (Term.mkIte cond yes no)

/-- Encodes a flow from a position on. -/
def paths : Flow → Scope → Encoder (List Term)
  | .done, s => c.close s
  | .step statement rest, s => do
    let here ← c.statement s statement
    let there ← paths rest { s with position := s.position + 1 }
    return here ++ there
  | .ret value, s => do
    let closed ← c.closeBeforeReturn s
    let written ← c.returned s value
    return closed ++ written
  | .fork test whole yes no, s => do
    let cond ← c.term s (some .bool) test
    if !whole && c.options.missingElse = .reject then throw (.missingElse c.modifierName)
    let yes ← paths yes (c.scope yes.straight s.versions)
    let no ← paths no (c.scope no.straight s.versions)
    let choice ← lift (forked cond yes no)
    return [choice]

/-- Encodes statements from given counts of writes. -/
def sequence (statements : List Node) (base : Versions) : Encoder (List Term) :=
  let flow := Flow.ofBody statements
  c.paths flow (c.scope flow.straight base)

end Context

/-! ### Bodies -/

/-- The constraints of a body, and the texts that were passed through. -/
structure BodyConstraints where
  constraints : List Term
  passthrough : List String

/-- What one node becomes by itself. -/
inductive Rendering where
  | value (t : Term)
  | tag (t : String)
  | constraints (ts : List Term)
  | passthrough (text : String)

namespace Context

/-- Encodes a whole body. The ports that it writes are noted in the table. -/
def encodeBody (c : Context) (body : List Node) : Encoder BodyConstraints := do
  let c := c.forBody body
  let constraints ← c.sequence body .empty
  modify fun s => { s with table := c.writtenPorts.toList.foldl SymbolTable.markWritten s.table }
  return ⟨constraints, (← get).passed.toList⟩

/-- Encodes an expression by itself. -/
def encodeExpr (c : Context) (n : Node) : Encoder Rendering := do
  match ← c.expr (c.scope [n] .empty) none n with
  | .term t => return .value t
  | .tag t => return .tag t
  | .opaqueText text => return .passthrough text

/-- Encodes one node by itself. -/
def encodeNode (c : Context) : Node → Encoder Rendering
  | .unsupported text => do
    pass text
    return .passthrough text
  | .assign targets value => .constraints <$> c.sequence [.assign targets value] .empty
  | .augment target op value => .constraints <$> c.sequence [.augment target op value] .empty
  | .branch test body orelse => .constraints <$> c.sequence [.branch test body orelse] .empty
  | .ret value => .constraints <$> c.sequence [.ret value] .empty
  | .block body => .constraints <$> c.sequence [.block body] .empty
  | n => c.encodeExpr n

end Context

end HybridStep
