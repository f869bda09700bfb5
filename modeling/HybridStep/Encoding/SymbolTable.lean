import HybridStep.Model.Query
import HybridStep.Ordered.Map
import HybridStep.Ordered.Set
import HybridStep.Encoding.Error

/-! # Symbols of a step

All modifiers of a step share one table of symbols. A port has its post-step variable, a variable
for each version, and for version zero the constant that is its prior value; a local has variables
that carry the number of the modifier that owns it. A handle is made on first use and then stays. -/

namespace HybridStep

/-- What a handle belongs to: the time step, a port, or a local of a modifier. -/
inductive SymbolKey where
  | step
  | port (p : PortId)
  | local (name : String) (owner : Modifier)
  deriving DecidableEq, Inhabited

/-- The version of a handle: the unversioned name, or a number. -/
inductive Version where
  | current
  | index (k : Nat)
  deriving DecidableEq, Inhabited

/-- The version of a port that is its value before the step. -/
def Version.prior : Version := .index 0

/-- A name with its version and the number of its owner. -/
def symbolName (name : String) (version : Version) (owner : String) : String :=
  match version with
  | .current => name ++ "_" ++ owner
  | .index k => name ++ "_" ++ toString k ++ "_" ++ owner

namespace Model

/-- The sort of a port, from the domain of its resource. -/
def sortOfPort (m : Model) (p : PortId) : TermSort :=
  let r := m.resource (m.port p).resource
  match r.domain with
  | .integer => .int
  | .real => .real
  | .boolean => .bool
  | .enumeration tags => .enum ⟨r.name, tags⟩

end Model

/-- A value as a constant of a sort, if it is one. -/
def Value.constant? : Value → TermSort → Option Term
  | .int n, .int => some (.int n)
  | .int n, .real => some (.real n.val)
  | .real q, .real => some (.real q)
  | .bool b, .bool => some (.bool b)
  | .tag t, .enum e => (e.indexOf? t).map (Term.tag e)
  | _, _ => none

/-- The handles of a step and the ports that its modifiers have written. -/
structure SymbolTable where
  stepName : String
  handles : OrderedMap SymbolKey (OrderedMap Version Term)
  written : OrderedSet PortId
  deriving Inhabited

namespace SymbolTable

/-- The variable of the time step. -/
def step (t : SymbolTable) : Term := .var ⟨t.stepName, .real⟩

/-- A handle of the table. -/
def get? (t : SymbolTable) (key : SymbolKey) (version : Version) : Option Term :=
  (t.handles.get? key).bind (·.get? version)

/-- Adds a handle. -/
def add (t : SymbolTable) (key : SymbolKey) (version : Version) (term : Term) : SymbolTable :=
  { t with handles :=
      t.handles.insert key (((t.handles.get? key).getD .empty).insert version term) }

/-- The table that holds only the variable of the time step. -/
def fresh (stepName : String) : SymbolTable :=
  let t : SymbolTable := ⟨stepName, .empty, .empty⟩
  t.add .step .current t.step

/-- The number of handles. -/
def size (t : SymbolTable) : Nat :=
  (t.handles.values.map OrderedMap.size).foldl Nat.add 0

/-- All handles, by key and version. -/
def symbols (t : SymbolTable) : List (SymbolKey × Version × Term) :=
  t.handles.entries.flatMap fun (key, versions) =>
    versions.entries.map fun (version, term) => (key, version, term)

/-! ### Ports -/

/-- The constant that is the value of a port before the step. -/
def priorTerm (m : Model) (p : PortId) : Except EncodingError Term :=
  let record := m.port p
  let sort := m.sortOfPort p
  match record.value.constant? sort with
  | some term => .ok term
  | none => .error (.priorValue record.name record.value.text sort.text)

/-- What a version of a port stands for. -/
def portTerm (m : Model) (p : PortId) (version : Version) : Except EncodingError Term :=
  if version = .prior then priorTerm m p
  else .ok (.var ⟨symbolName (m.port p).name version p.text, m.sortOfPort p⟩)

/-- The handle of a version of a port. -/
def port (t : SymbolTable) (m : Model) (p : PortId) (version : Version) :
    Except EncodingError (Term × SymbolTable) :=
  match t.get? (.port p) version with
  | some term => .ok (term, t)
  | none => (portTerm m p version).map fun term => (term, t.add (.port p) version term)

/-- Notes that a modifier has written a port. -/
def markWritten (t : SymbolTable) (p : PortId) : SymbolTable :=
  { t with written := t.written.insert p }

/-- The value of a port on entry to a modifier: its post-step variable if an earlier modifier has
written it, and its prior value otherwise. -/
def entryValue (t : SymbolTable) (m : Model) (p : PortId) :
    Except EncodingError (Term × SymbolTable) :=
  t.port m p (if p ∈ t.written then .current else .prior)

/-! ### Locals -/

/-- The handle of a version of a local. A new handle gets the given sort. -/
def ofLocal (t : SymbolTable) (name : String) (owner : Modifier) (version : Version)
    (sort : TermSort) : Term × SymbolTable :=
  match t.get? (.local name owner) version with
  | some term => (term, t)
  | none =>
    let term := .var ⟨symbolName name version owner.text, sort⟩
    (term, t.add (.local name owner) version term)

end SymbolTable

/-- A computation on a table that keeps the table when it fails. -/
abbrev Tabled := EStateM EncodingError SymbolTable

namespace Tabled

/-- Runs a function on the table. A failure leaves the table as it was. -/
def lift {α : Type} (f : SymbolTable → Except EncodingError (α × SymbolTable)) : Tabled α :=
  fun t => match f t with
    | .ok (a, t) => .ok a t
    | .error e => .error e t

/-- Makes the current and the prior handle of ports. -/
def seedPorts (m : Model) : List PortId → Tabled Unit
  | [] => pure ()
  | p :: ps => do
    let _ ← lift (·.port m p .current)
    let _ ← lift (·.port m p .prior)
    seedPorts m ps

/-- Makes the current and the prior handle of every port of an entity and of all entities inside
it. -/
def seed (m : Model) (e : EntityId) : Tabled Unit :=
  seedPorts m ((m.subtree e).flatMap fun a => (m.entity a).ports)

end Tabled

end HybridStep
