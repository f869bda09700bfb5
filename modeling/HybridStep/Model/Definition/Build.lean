import HybridStep.Model.Builder
import HybridStep.Model.Definition.Basic
import HybridStep.Number.Decimal
import HybridStep.Ordered.Map

/-! # Models from their descriptions

Resources first, then entities from the outside in. Of an entity come its ports, its states, its
current state, its subentities, its updates and its influences. -/

namespace HybridStep

/-- The domain of a name that stands for one, or of tags. -/
def DomainDefinition.domain (resource : String) : DomainDefinition → Except ModelError Domain
  | enumeration tags => .ok (.enumeration tags)
  | named name =>
    if name = "integer" ∨ name = "int" then .ok .integer
    else if name = "real" ∨ name = "float" then .ok .real
    else if name = "boolean" ∨ name = "bool" then .ok .boolean
    else .error (.unsupportedDomain resource name)

/-- The value of a port that a JSON value stands for. A number that is not a 64-bit integer stands
for the real number that its text denotes. -/
def Json.portValue? : Json → Option Value
  | .bool b => some (.bool b)
  | .string s => some (.tag s)
  | .number (.int n) =>
    match Word.ofInt? n with
    | some w => some (.int w)
    | none => some (.real n)
  | .number n => (Decimal.read? (Json.numberText n)).map Value.real
  | _ => none

/-- A model that is being built, with the latest resource of each name. -/
structure Draft where
  model : Model := {}
  resources : OrderedMap String ResourceId := .empty
  deriving Inhabited

/-- The construction of a model. -/
abbrev Drafting := StateT Draft (Except ModelError)

namespace Drafting

/-- Adds a component to the model. -/
def build {α : Type} (add : Model → Except ModelError (Model × α)) : Drafting α := do
  let (model, a) ← liftM (add (← get).model)
  modify fun d => { d with model := model }
  return a

/-- Adds resources. -/
def addResources : List ResourceDefinition → Drafting Unit
  | [] => pure ()
  | r :: rs => do
    let domain ← liftM (r.domain.domain r.name)
    let id ← build (·.addResource r.name r.unit domain)
    modify fun d => { d with resources := d.resources.insert r.name id }
    addResources rs

/-- What is found, or the error that there is none of that name. -/
def found {α : Type} (kind : ComponentKind) (name entity : String) : Option α → Drafting α
  | some a => pure a
  | none => throw (.unknown kind name entity)

/-- Adds the ports of an entity. -/
def addPorts (entity : String) (e : EntityId) : List PortDefinition → Drafting Unit
  | [] => pure ()
  | p :: ps => do
    let d ← get
    let resource ← found .resource p.resource entity (d.resources.get? p.resource)
    match p.value.portValue? with
    | none =>
      throw (.domainMismatch p.name p.value.compact (d.model.resource resource).domain)
    | some value => do
      let _ ← build (·.addPort e p.name p.kind resource value)
      addPorts entity e ps

/-- Adds the states of an entity. -/
def addStates (e : EntityId) : List String → Drafting Unit
  | [] => pure ()
  | s :: ss => do
    let _ ← build (·.addState e s)
    addStates e ss

/-- Sets the current state of an entity, if one is given. -/
def setCurrent (entity : String) (e : EntityId) : Option String → Drafting Unit
  | none => pure ()
  | some name => do
    let state ← found .state name entity ((← get).model.findState e name)
    build fun m => (m.setCurrentState e state).map fun m => (m, ())

/-- Adds the updates of an entity. -/
def addUpdates (entity : String) (e : EntityId) : List UpdateDefinition → Drafting Unit
  | [] => pure ()
  | u :: us => do
    let m := (← get).model
    let state ← found .state u.state entity (m.findState e u.state)
    let target ← found .port u.target entity (m.findPort e u.target)
    let _ ← build (·.addUpdate e u.name state target u.function)
    addUpdates entity e us

/-- Adds the influences of an entity. -/
def addInfluences (entity : String) (e : EntityId) : List InfluenceDefinition → Drafting Unit
  | [] => pure ()
  | i :: is => do
    let m := (← get).model
    let source ← found .port i.source entity (m.resolvePortPath e i.source)
    let target ← found .port i.target entity (m.resolvePortPath e i.target)
    let _ ← build (·.addInfluence e i.name source target)
    addInfluences entity e is

mutual

/-- Adds an entity with everything inside it. -/
def addEntity (parent : Option EntityId) : EntityDefinition → Drafting EntityId
  | .mk name ports states current updates influences subentities => do
    let e ← build (·.addEntity name parent)
    addPorts name e ports
    addStates e states
    setCurrent name e current
    addSubentities e subentities
    addUpdates name e updates
    addInfluences name e influences
    return e

/-- Adds the subentities of an entity. -/
def addSubentities (e : EntityId) : List EntityDefinition → Drafting Unit
  | [] => pure ()
  | s :: ss => do
    let _ ← addEntity (some e) s
    addSubentities e ss

end

end Drafting

/-- The described model with its outermost entity. -/
def ModelDefinition.build (d : ModelDefinition) : Except ModelError (Model × EntityId) := do
  let (root, draft) ← (do
    Drafting.addResources d.resources
    Drafting.addEntity none d.entity : Drafting EntityId).run {}
  return (draft.model, root)

end HybridStep
