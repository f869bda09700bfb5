import HybridStep.Model.Builder

/-! # Building in a session

A model is built by calls, one after the other, each on the model at hand. A call checks, then puts
what it adds at the end of its kind and then lists it with its owner. What it has written by then
stays when it fails. Calls give out the numbers of what they add, and later calls use these
numbers. -/

namespace HybridStep

/-- The number of a component of any kind. -/
inductive ComponentId where
  | resource (r : ResourceId)
  | entity (e : EntityId)
  | port (p : PortId)
  | state (s : StateId)
  | update (u : UpdateId)
  | influence (i : InfluenceId)
  deriving DecidableEq

/-- A call. All but `setCurrent`, which finished models take too, add a component. -/
inductive BuilderCall where
  | resource (name : String) (unit : Option String) (domain : Domain)
  | entity (name : String) (parent : Option EntityId)
  | port (e : EntityId) (name : String) (kind : PortKind) (resource : ResourceId) (value : Value)
  | state (e : EntityId) (name : String)
  | setCurrent (e : EntityId) (s : StateId)
  | update (e : EntityId) (name : String) (state : StateId) (target : PortId) (function : String)
  | influence (e : EntityId) (name : String) (source target : PortId)

/-- Building on the model at hand, which keeps what has been written before a failure. -/
abbrev Building := EStateM ModelError Model

namespace Building

/-- Fails if something is wrong with the model at hand. -/
def reject (wrong : Model → Bool) (why : Model → ModelError) : Building Unit := do
  let m ← get
  if wrong m then throw (why m)

/-- Lists something new with its owner. -/
def list (e : EntityId) (f : Entity → Entity) : Building Unit := modify (·.modifyEntity e f)

/-- Makes a resource without a unit. -/
def resource (name : String) (domain : Domain) : Building ResourceId := do
  reject (fun _ => domain = .enumeration []) fun _ => .emptyEnumeration name
  modify fun m => { m with resources := m.resources ++ [⟨name, none, domain⟩] }
  return ⟨(← get).resources.length - 1⟩

/-- Makes a resource and then gives it a unit. -/
def resourceWithUnit (name unit : String) (domain : Domain) : Building ResourceId := do
  let id ← resource name domain
  modify fun m => { m with
    resources := m.resources.modify id.index fun r => { r with unit := some unit } }
  return id

/-- Makes an entity, as a subentity of a parent if there is one. -/
def entity (name : String) (parent : Option EntityId) : Building EntityId := do
  parent.forM fun p =>
    reject (fun m => (m.findSubentity p name).isSome) (·.duplicate .subentity name p)
  let id : EntityId := ⟨(← get).entities.length⟩
  modify fun m => { m with entities := m.entities ++ [{ name := name, parent := parent }] }
  parent.forM fun p => list p fun r => { r with subentities := r.subentities ++ [id] }
  return id

/-- Makes a port, with the value that its domain admits. -/
def port (e : EntityId) (name : String) (kind : PortKind) (resource : ResourceId) (value : Value) :
    Building PortId := do
  reject (fun m => (m.findPort e name).isSome) (·.duplicate .port name e)
  let domain := ((← get).resource resource).domain
  match domain.admit? value with
  | none => throw (.domainMismatch name value.text domain)
  | some value =>
    let id : PortId := ⟨(← get).ports.length⟩
    modify fun m => { m with ports := m.ports ++ [⟨name, kind, resource, value, e⟩] }
    list e fun r => { r with ports := r.ports ++ [id] }
    return id

/-- Makes a state, the current one if it is the first. -/
def state (e : EntityId) (name : String) : Building StateId := do
  reject (fun m => (m.findState e name).isSome) (·.duplicate .state name e)
  let id : StateId := ⟨(← get).states.length⟩
  modify fun m => { m with states := m.states ++ [⟨name, e⟩] }
  list e fun r => { r with states := r.states ++ [id] }
  list e fun r => if r.current.isNone then { r with current := some id } else r
  return id

/-- Makes a state of an entity its current one. -/
def setCurrent (e : EntityId) (s : StateId) : Building Unit := do
  reject (fun m => (m.state s).entity ≠ e) fun m => m.foreign .state (m.state s).name e
  list e fun r => { r with current := some s }

/-- Makes an update of a port in a state of its entity. -/
def update (e : EntityId) (name : String) (state : StateId) (target : PortId)
    (function : String) : Building UpdateId := do
  reject (fun m => (m.entity e).updates.any fun u => (m.update u).name = name)
    (·.duplicate .update name e)
  reject (fun m => (m.state state).entity ≠ e) fun m => m.foreign .state (m.state state).name e
  reject (fun m => (m.port target).entity ≠ e) fun m => m.foreign .port (m.port target).name e
  let id : UpdateId := ⟨(← get).updates.length⟩
  modify fun m => { m with updates := m.updates ++ [⟨name, e, state, target, function⟩] }
  list e fun r => { r with updates := r.updates ++ [id] }
  return id

/-- Makes an influence between a source and a target of its entity. -/
def influence (e : EntityId) (name : String) (source target : PortId) : Building InfluenceId := do
  reject (fun m => (m.entity e).influences.any fun i => (m.influence i).name = name)
    (·.duplicate .influence name e)
  reject (fun m => !(m.sources e).contains source)
    fun m => m.foreign .influenceSource (m.port source).name e
  reject (fun m => !(m.targets e).contains target)
    fun m => m.foreign .influenceTarget (m.port target).name e
  let id : InfluenceId := ⟨(← get).influences.length⟩
  modify fun m => { m with influences := m.influences ++ [⟨name, e, source, target⟩] }
  list e fun r => { r with influences := r.influences ++ [id] }
  return id

end Building

namespace BuilderCall

/-- Makes a call, and gives the number of what it adds. -/
def perform : BuilderCall → Building (Option ComponentId)
  | resource name none domain => return some (.resource (← Building.resource name domain))
  | resource name (some unit) domain =>
    return some (.resource (← Building.resourceWithUnit name unit domain))
  | entity name parent => return some (.entity (← Building.entity name parent))
  | port e name kind r value => return some (.port (← Building.port e name kind r value))
  | state e name => return some (.state (← Building.state e name))
  | setCurrent e s => do
    Building.setCurrent e s
    return none
  | update e name s target function =>
    return some (.update (← Building.update e name s target function))
  | influence e name source target =>
    return some (.influence (← Building.influence e name source target))

/-- The numbers that a call uses. -/
def uses : BuilderCall → List ComponentId
  | resource .. => []
  | entity _ parent => (parent.map .entity).toList
  | port e _ _ r _ => [.entity e, .resource r]
  | state e _ => [.entity e]
  | setCurrent e s => [.entity e, .state s]
  | update e _ s target _ => [.entity e, .state s, .port target]
  | influence e _ source target => [.entity e, .port source, .port target]

end BuilderCall

/-- The model at hand, and the numbers that have been given out. -/
structure Session where
  model : Model := {}
  issued : List ComponentId := []

namespace Session

/-- The session after a call. -/
def after (s : Session) (c : BuilderCall) : Session :=
  match c.perform s.model with
  | .ok id m => ⟨m, s.issued ++ id.toList⟩
  | .error _ m => ⟨m, s.issued⟩

/-- The session after some calls. -/
def run (s : Session) (calls : List BuilderCall) : Session := calls.foldl after s

/-- Each call uses only numbers that have been given out before it. -/
def Honest (s : Session) : List BuilderCall → Prop
  | [] => True
  | c :: cs => (∀ id ∈ c.uses, id ∈ s.issued) ∧ (s.after c).Honest cs

/-- Decides whether all numbers have been given out before they are used. -/
def decideHonest (s : Session) : (calls : List BuilderCall) → Decidable (s.Honest calls)
  | [] => isTrue trivial
  | c :: cs =>
    have := decideHonest (s.after c) cs
    inferInstanceAs (Decidable ((∀ id ∈ c.uses, id ∈ s.issued) ∧ (s.after c).Honest cs))

instance (s : Session) (calls : List BuilderCall) : Decidable (s.Honest calls) :=
  decideHonest s calls

end Session

end HybridStep
