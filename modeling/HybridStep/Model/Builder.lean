import HybridStep.Model.Query

/-! # Building models

Each function adds one component to a model and gives it with its number, or says why it cannot be
added. Names are different within their kind and entity, values fit their domains, and updates and
influences only use what their entity reaches. -/

namespace HybridStep

/-- What a name in a model names. -/
inductive ComponentKind where
  | resource | subentity | port | state | update | influence | influenceSource | influenceTarget
  deriving DecidableEq

/-- The name of a component kind. -/
def ComponentKind.text : ComponentKind → String
  | resource => "resource"
  | subentity => "subentity"
  | port => "port"
  | state => "state"
  | update => "update"
  | influence => "influence"
  | influenceSource => "influence source"
  | influenceTarget => "influence target"

/-- Why a component cannot be added.

* `duplicate`: the entity has one of that name;
* `unknown`: there is none of that name;
* `foreign`: it belongs to another entity;
* `domainMismatch`: the value of a port is not in the domain of its resource;
* `emptyEnumeration`: a resource without any value;
* `unsupportedDomain`: a domain of no known name. -/
inductive ModelError where
  | duplicate (kind : ComponentKind) (name entity : String)
  | unknown (kind : ComponentKind) (name entity : String)
  | foreign (kind : ComponentKind) (name entity : String)
  | domainMismatch (port value : String) (domain : Domain)
  | emptyEnumeration (resource : String)
  | unsupportedDomain (resource domain : String)
  deriving DecidableEq

/-- The text of the error. -/
def ModelError.message : ModelError → String
  | duplicate kind name entity =>
    kind.text ++ " `" ++ name ++ "` is already declared in entity `" ++ entity ++ "`"
  | unknown kind name entity =>
    "unknown " ++ kind.text ++ " `" ++ name ++ "` in entity `" ++ entity ++ "`"
  | foreign kind name entity =>
    kind.text ++ " `" ++ name ++ "` does not belong to entity `" ++ entity ++ "`"
  | domainMismatch port value domain =>
    "value " ++ value ++ " of port `" ++ port ++ "` is outside its domain " ++ domain.text
  | emptyEnumeration resource => "resource `" ++ resource ++ "` declares an empty enumeration"
  | unsupportedDomain resource domain =>
    "unsupported resource domain `" ++ domain ++ "` for resource `" ++ resource ++ "`"

namespace Model

/-- Changes the entity of a number. -/
def modifyEntity (m : Model) (e : EntityId) (f : Entity → Entity) : Model :=
  { m with entities := m.entities.modify e.index f }

/-- The error for a name that the entity has already. -/
def duplicate (m : Model) (kind : ComponentKind) (name : String) (e : EntityId) : ModelError :=
  .duplicate kind name (m.entity e).name

/-- The error for something of another entity. -/
def foreign (m : Model) (kind : ComponentKind) (name : String) (e : EntityId) : ModelError :=
  .foreign kind name (m.entity e).name

/-- Adds a resource. -/
def addResource (m : Model) (name : String) (unit : Option String) (domain : Domain) :
    Except ModelError (Model × ResourceId) :=
  if domain = .enumeration [] then .error (.emptyEnumeration name)
  else .ok ({ m with resources := m.resources ++ [⟨name, unit, domain⟩] }, ⟨m.resources.length⟩)

/-- Adds an entity, as a subentity of a parent if there is one. -/
def addEntity (m : Model) (name : String) (parent : Option EntityId) :
    Except ModelError (Model × EntityId) :=
  let id : EntityId := ⟨m.entities.length⟩
  let added : Model := { m with entities := m.entities ++ [{ name := name, parent := parent }] }
  match parent with
  | none => .ok (added, id)
  | some p =>
    if (m.findSubentity p name).isSome then .error (m.duplicate .subentity name p)
    else .ok (added.modifyEntity p fun r => { r with subentities := r.subentities ++ [id] }, id)

/-- Adds a port. The model keeps the value as its domain admits it. -/
def addPort (m : Model) (e : EntityId) (name : String) (kind : PortKind) (resource : ResourceId)
    (value : Value) : Except ModelError (Model × PortId) :=
  let domain := (m.resource resource).domain
  if (m.findPort e name).isSome then .error (m.duplicate .port name e)
  else match domain.admit? value with
    | none => .error (.domainMismatch name value.text domain)
    | some value =>
      let id : PortId := ⟨m.ports.length⟩
      let added : Model := { m with ports := m.ports ++ [⟨name, kind, resource, value, e⟩] }
      .ok (added.modifyEntity e fun r => { r with ports := r.ports ++ [id] }, id)

/-- Adds a state. The first state of an entity is its current one. -/
def addState (m : Model) (e : EntityId) (name : String) : Except ModelError (Model × StateId) :=
  if (m.findState e name).isSome then .error (m.duplicate .state name e)
  else
    let id : StateId := ⟨m.states.length⟩
    let added : Model := { m with states := m.states ++ [⟨name, e⟩] }
    .ok (added.modifyEntity e fun r =>
      { r with states := r.states ++ [id], current := r.current.or (some id) }, id)

/-- Makes a state of an entity its current one. -/
def setCurrentState (m : Model) (e : EntityId) (s : StateId) : Except ModelError Model :=
  if (m.state s).entity ≠ e then .error (m.foreign .state (m.state s).name e)
  else .ok (m.modifyEntity e fun r => { r with current := some s })

/-- Adds an update. Its state and its target belong to its entity. -/
def addUpdate (m : Model) (e : EntityId) (name : String) (state : StateId) (target : PortId)
    (function : String) : Except ModelError (Model × UpdateId) :=
  if (m.entity e).updates.any (fun u => (m.update u).name = name) then
    .error (m.duplicate .update name e)
  else if (m.state state).entity ≠ e then .error (m.foreign .state (m.state state).name e)
  else if (m.port target).entity ≠ e then .error (m.foreign .port (m.port target).name e)
  else
    let id : UpdateId := ⟨m.updates.length⟩
    let added : Model := { m with updates := m.updates ++ [⟨name, e, state, target, function⟩] }
    .ok (added.modifyEntity e fun r => { r with updates := r.updates ++ [id] }, id)

/-- Adds an influence between a source and a target of its entity. -/
def addInfluence (m : Model) (e : EntityId) (name : String) (source target : PortId) :
    Except ModelError (Model × InfluenceId) :=
  if (m.entity e).influences.any (fun i => (m.influence i).name = name) then
    .error (m.duplicate .influence name e)
  else if !(m.sources e).contains source then
    .error (m.foreign .influenceSource (m.port source).name e)
  else if !(m.targets e).contains target then
    .error (m.foreign .influenceTarget (m.port target).name e)
  else
    let id : InfluenceId := ⟨m.influences.length⟩
    let added : Model := { m with influences := m.influences ++ [⟨name, e, source, target⟩] }
    .ok (added.modifyEntity e fun r => { r with influences := r.influences ++ [id] }, id)

end Model

end HybridStep
