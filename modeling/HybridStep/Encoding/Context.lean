import HybridStep.Encoding.LocalSorts
import HybridStep.Encoding.Operand
import HybridStep.Encoding.SymbolTable
import HybridStep.Encoding.Version

/-! # The context of an encoding

What stays the same while the body of one modifier is encoded, and what changes: the table of
symbols and the texts that were passed through. Both are kept when the encoding fails. -/

namespace HybridStep

/-- What becomes of an `if` statement without its other arm: it is refused, or the arm is empty. -/
inductive MissingElse where
  | reject | empty
  deriving DecidableEq, Inhabited

/-- Settings of an encoding: the name of the time step, the sort of locals for which none can be
told, and what becomes of a missing arm. -/
structure Options where
  stepName : String := "dt"
  localSort : TermSort := .real
  missingElse : MissingElse := .reject
  deriving Inhabited

/-- The setting of one encoding.

* `entity` is where port paths start, `modifier` owns the locals, a return writes `target`;
* `receiver`, `stepParam` and `declared` come from the parameters and bindings of the body;
* `localSorts` are the sorts of the locals, `writtenPorts` the ports that the body writes. -/
structure Context where
  model : Model
  options : Options
  entity : EntityId
  modifier : Modifier
  target : Option PortId := none
  receiver : Option String := none
  stepParam : Option String := none
  declared : OrderedMap String TermSort := .empty
  localSorts : OrderedMap String TermSort := .empty
  writtenPorts : OrderedSet PortId := .empty
  deriving Inhabited

namespace Context

/-- The context with the parameters and declared sorts of a body. -/
def withFunction (c : Context) (f : UpdateFunction) : Context :=
  { c with receiver := f.receiver, stepParam := f.stepParam, declared := f.declared }

/-- The name of the modifier. -/
def modifierName (c : Context) : String := c.model.modifierName c.modifier

/-- The key of a name or a chain of names. -/
def key? (c : Context) (n : Node) : Option VarKey :=
  (resolve? c.model c.entity c.receiver n).map Reference.key

/-- The name of a key in a message. -/
def keyName (c : Context) : VarKey → String
  | .port p => c.model.portLabel c.entity p
  | .local name => name

/-- Whether a node is the name of the time step. -/
def isStep (c : Context) : Node → Bool
  | .name name => some name = c.stepParam
  | _ => false

/-- What a node stands for in the inference of sorts. The time step is a real. -/
def leaf (c : Context) (n : Node) : Leaf :=
  if c.isStep n then .sort .real
  else match c.key? n with
    | some (.port p) => .sort (c.model.sortOfPort p)
    | some (.local name) => .local name
    | none => .unknown

/-- The port that a key is. -/
def portOfKey? : VarKey → Option PortId
  | .port p => some p
  | .local _ => none

/-- The ports that a body writes: those it assigns, and the target if it has a return. -/
def portsWritten (c : Context) (body : List Node) : OrderedSet PortId :=
  let assigned := OrderedSet.ofList ((Node.writesOfList c.key? body).filterMap portOfKey?)
  match c.target with
  | some target => if Node.hasReturnInList body then assigned.insert target else assigned
  | none => assigned

/-- The sorts of the locals of a body. A declared sort counts more than an inferred one. -/
def sortsOfLocals (c : Context) (body : List Node) : OrderedMap String TermSort :=
  let target := c.target.map c.model.sortOfPort
  c.declared.entries.foldl (fun sorts (name, sort) => sorts.insert name sort)
    (LocalSorts.ofBody c.leaf target body)

/-- The context for a whole body. -/
def forBody (c : Context) (body : List Node) : Context :=
  { c with localSorts := c.sortsOfLocals body, writtenPorts := c.portsWritten body }

/-- The sort of a local. -/
def sortOfLocal (c : Context) (name : String) : TermSort :=
  (c.localSorts.get? name).getD c.options.localSort

/-- The keys that a statement writes. -/
def writtenKeys (c : Context) (n : Node) : OrderedSet VarKey := n.writtenKeys c.key?

/-- The start of a sequence of statements. -/
def scope (c : Context) (statements : List Node) (base : Versions) : Scope :=
  ⟨.ofWrites (statements.map c.writtenKeys), 0, base⟩

end Context

/-- What an encoding has made so far. -/
structure Progress where
  table : SymbolTable
  passed : OrderedSet String := .empty
  deriving Inhabited

/-- An encoding, which keeps its progress when it fails. -/
abbrev Encoder := EStateM EncodingError Progress

namespace Encoder

/-- A result as an encoding without progress. -/
def lift {α : Type} : Except EncodingError α → Encoder α
  | .ok a => pure a
  | .error e => throw e

/-- Runs a function on the table of symbols. A failure leaves the table as it was. -/
def onTable {α : Type} (f : SymbolTable → Except EncodingError (α × SymbolTable)) :
    Encoder α :=
  fun s => match f s.table with
    | .ok (a, table) => .ok a { s with table := table }
    | .error e => .error e s

/-- Notes a text that is passed through, once however often it is met. -/
def pass (text : String) : Encoder Unit :=
  modify fun s => { s with passed := s.passed.insert text }

end Encoder

end HybridStep
