import HybridStep.Json.Reader
import HybridStep.Model.Definition.Basic

/-! # Reading descriptions of models

Each part of a description is a record of named fields in the order in which they are written. Lists
of components may be missing, the unit and the current state may be missing or null. -/

namespace HybridStep

open Json

namespace DomainDefinition

/-- The strings of a list that holds nothing else. -/
def strings? : List Json → Option (List String)
  | [] => some []
  | .string s :: rest => (strings? rest).map (s :: ·)
  | _ :: _ => none

/-- The domain that a value describes. -/
def ofJson? : Json → Option DomainDefinition
  | .string name => some (.named name)
  | .array elements => (strings? elements).map enumeration
  | _ => none

/-- Reads a domain. The whole value is read before its form counts. -/
def read (depth : Nat) : Reading DomainDefinition := do
  match ofJson? (← readValue depth) with
  | some d => return d
  | none => throw .mismatched

end DomainDefinition

namespace ResourceDefinition

/-- What has been read of a resource. -/
structure Parts where
  name : Option String := none
  unit : Option (Option String) := none
  domain : Option DomainDefinition := none

/-- The fields of a resource. -/
def fields (depth : Nat) : List (RecordField Parts) :=
  [field "name" (·.name) (fun x r => { r with name := some x }) readString,
    field "unit" (·.unit) (fun x r => { r with unit := some x }) (readOptional readString),
    field "domain" (·.domain) (fun x r => { r with domain := some x })
      (DomainDefinition.read depth)]

/-- The resource with the parts, if the required ones are there. -/
def ofParts? (r : Parts) : Option ResourceDefinition := do
  return ⟨← r.name, r.unit.getD none, ← r.domain⟩

/-- Reads a resource. -/
def read (depth : Nat) : Reading ResourceDefinition :=
  readRecord depth {} fields ofParts?

end ResourceDefinition

/-- The port kind of a name. -/
def PortKind.ofText? (name : String) : Option PortKind :=
  [PortKind.input, PortKind.output, PortKind.internal].find? (·.text = name)

namespace PortDefinition

/-- What has been read of a port. -/
structure Parts where
  name : Option String := none
  kind : Option PortKind := none
  resource : Option String := none
  value : Option Json := none

/-- The fields of a port. -/
def fields (depth : Nat) : List (RecordField Parts) :=
  [field "name" (·.name) (fun x r => { r with name := some x }) readString,
    field "kind" (·.kind) (fun x r => { r with kind := some x }) (readWord depth PortKind.ofText?),
    field "resource" (·.resource) (fun x r => { r with resource := some x }) readString,
    field "value" (·.value) (fun x r => { r with value := some x }) (readValue depth)]

/-- The port with the parts, if all are there. -/
def ofParts? (r : Parts) : Option PortDefinition := do
  return ⟨← r.name, ← r.kind, ← r.resource, ← r.value⟩

/-- Reads a port. -/
def read (depth : Nat) : Reading PortDefinition := readRecord depth {} fields ofParts?

end PortDefinition

namespace UpdateDefinition

/-- What has been read of an update. -/
structure Parts where
  name : Option String := none
  state : Option String := none
  target : Option String := none
  function : Option String := none

/-- The fields of an update. -/
def fields (_depth : Nat) : List (RecordField Parts) :=
  [field "name" (·.name) (fun x r => { r with name := some x }) readString,
    field "state" (·.state) (fun x r => { r with state := some x }) readString,
    field "target" (·.target) (fun x r => { r with target := some x }) readString,
    field "function" (·.function) (fun x r => { r with function := some x }) readString]

/-- The update with the parts, if all are there. -/
def ofParts? (r : Parts) : Option UpdateDefinition := do
  return ⟨← r.name, ← r.state, ← r.target, ← r.function⟩

/-- Reads an update. -/
def read (depth : Nat) : Reading UpdateDefinition := readRecord depth {} fields ofParts?

end UpdateDefinition

namespace InfluenceDefinition

/-- What has been read of an influence. -/
structure Parts where
  name : Option String := none
  source : Option String := none
  target : Option String := none

/-- The fields of an influence. -/
def fields (_depth : Nat) : List (RecordField Parts) :=
  [field "name" (·.name) (fun x r => { r with name := some x }) readString,
    field "source" (·.source) (fun x r => { r with source := some x }) readString,
    field "target" (·.target) (fun x r => { r with target := some x }) readString]

/-- The influence with the parts, if all are there. -/
def ofParts? (r : Parts) : Option InfluenceDefinition := do
  return ⟨← r.name, ← r.source, ← r.target⟩

/-- Reads an influence. -/
def read (depth : Nat) : Reading InfluenceDefinition := readRecord depth {} fields ofParts?

end InfluenceDefinition

namespace EntityDefinition

/-- What has been read of an entity. -/
structure Parts where
  name : Option String := none
  ports : Option (List PortDefinition) := none
  states : Option (List String) := none
  current : Option (Option String) := none
  updates : Option (List UpdateDefinition) := none
  influences : Option (List InfluenceDefinition) := none
  subentities : Option (List EntityDefinition) := none

/-- The entity with the parts, if its name is there. -/
def ofParts? (r : Parts) : Option EntityDefinition := do
  return .mk (← r.name) (r.ports.getD []) (r.states.getD []) (r.current.getD none)
    (r.updates.getD []) (r.influences.getD []) (r.subentities.getD [])

/-- The fields of an entity, with a reader for the list of its subentities. -/
def fields (subentities : Reading (List EntityDefinition)) (depth : Nat) :
    List (RecordField Parts) :=
  [field "name" (·.name) (fun x r => { r with name := some x }) readString,
    field "ports" (·.ports) (fun x r => { r with ports := some x })
      (readList depth PortDefinition.read),
    field "states" (·.states) (fun x r => { r with states := some x })
      (readList depth fun _ => readString),
    field "current" (·.current) (fun x r => { r with current := some x })
      (readOptional readString),
    field "updates" (·.updates) (fun x r => { r with updates := some x })
      (readList depth UpdateDefinition.read),
    field "influences" (·.influences) (fun x r => { r with influences := some x })
      (readList depth InfluenceDefinition.read),
    field "subentities" (·.subentities) (fun x r => { r with subentities := some x })
      subentities]

/-- Reads an entity. Its subentities are two levels deeper. -/
def read : Nat → Reading EntityDefinition
  | depth + 2 =>
    readRecord (depth + 2) {} (fields (readList (depth + 1) fun _ => read depth)) ofParts?
  | depth => readRecord depth {} (fields refuse) ofParts?

end EntityDefinition

namespace ModelDefinition

/-- What has been read of a model. -/
structure Parts where
  resources : Option (List ResourceDefinition) := none
  entity : Option EntityDefinition := none

/-- The fields of a model. -/
def fields (depth : Nat) : List (RecordField Parts) :=
  [field "resources" (·.resources) (fun x r => { r with resources := some x })
      (readList depth ResourceDefinition.read),
    field "entity" (·.entity) (fun x r => { r with entity := some x })
      (EntityDefinition.read depth)]

/-- The model with the parts, if its entity is there. -/
def ofParts? (r : Parts) : Option ModelDefinition := do
  return ⟨r.resources.getD [], ← r.entity⟩

/-- Reads the text of a description. -/
def ofText (text : String) : Except JsonFault ModelDefinition :=
  readAll (readRecord · {} fields ofParts?) text

end ModelDefinition

end HybridStep
