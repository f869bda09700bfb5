import HybridStep.Model.Basic
import HybridStep.Text.Path

/-! # Questions about a model

The components of a model, what each entity owns, and the paths by which ports and entities are
named. A path leads from an entity down through subentities. -/

namespace HybridStep.Model

variable (m : Model)

/-! ### Components -/

/-- The resource of a number. -/
def resource (r : ResourceId) : Resource := m.resources[r.index]?.getD default

/-- The port of a number. -/
def port (p : PortId) : Port := m.ports[p.index]?.getD default

/-- The entity of a number. -/
def entity (e : EntityId) : Entity := m.entities[e.index]?.getD default

/-- The state of a number. -/
def state (s : StateId) : State := m.states[s.index]?.getD default

/-- The update of a number. -/
def update (u : UpdateId) : Update := m.updates[u.index]?.getD default

/-- The influence of a number. -/
def influence (i : InfluenceId) : Influence := m.influences[i.index]?.getD default

/-- The entities without a parent. -/
def roots : List EntityId :=
  ((List.range m.entities.length).map EntityId.mk).filter fun e => (m.entity e).parent.isNone

/-! ### What an entity owns -/

/-- The ports of an entity on one side. -/
def portsOfKind (e : EntityId) (k : PortKind) : List PortId :=
  (m.entity e).ports.filter fun p => (m.port p).kind = k

/-- The ports through which an entity is fed. -/
def inputs (e : EntityId) : List PortId := m.portsOfKind e .input

/-- The ports through which an entity feeds others. -/
def outputs (e : EntityId) : List PortId := m.portsOfKind e .output

/-- The ports that only the entity itself uses. -/
def locals (e : EntityId) : List PortId := m.portsOfKind e .internal

/-- The ports that an influence of an entity may read. -/
def sources (e : EntityId) : List PortId :=
  m.inputs e ++ m.locals e ++ (m.entity e).subentities.flatMap m.outputs

/-- The ports that an influence of an entity may write. -/
def targets (e : EntityId) : List PortId :=
  m.outputs e ++ m.locals e ++ (m.entity e).subentities.flatMap m.inputs

/-- The updates of the current state of an entity. -/
def activeUpdates (e : EntityId) : List UpdateId :=
  (m.entity e).updates.filter fun u => some (m.update u).state = (m.entity e).current

/-- The state of an entity with a name. -/
def findState (e : EntityId) (name : String) : Option StateId :=
  (m.entity e).states.find? fun s => (m.state s).name = name

/-- The port of an entity with a name. -/
def findPort (e : EntityId) (name : String) : Option PortId :=
  (m.entity e).ports.find? fun p => (m.port p).name = name

/-- The subentity of an entity with a name. -/
def findSubentity (e : EntityId) (name : String) : Option EntityId :=
  (m.entity e).subentities.find? fun s => (m.entity s).name = name

/-- An entity and all entities inside it, each before those inside it. A subentity has a greater
number than its parent. -/
def subtree (e : EntityId) : List EntityId :=
  e :: (m.entity e).subentities.flatMap fun s =>
    if e.index < s.index ∧ s.index < m.entities.length then subtree s else []
termination_by m.entities.length - e.index

/-! ### Paths -/

/-- The port at the end of a path from an entity. -/
def resolvePort (e : EntityId) : List String → Option PortId
  | [] => none
  | [name] => m.findPort e name
  | name :: names => (m.findSubentity e name).bind (resolvePort · names)

/-- The port that the text of a path names, from an entity. -/
def resolvePortPath (e : EntityId) (path : String) : Option PortId :=
  m.resolvePort e (Path.ofText path)

/-- The entity at the end of a path down from an entity. -/
def resolveSubentity (e : EntityId) : List String → Option EntityId
  | [] => some e
  | name :: names => (m.findSubentity e name).bind (resolveSubentity · names)

/-- The entity that the text of a full path names. -/
def resolveEntityPath (path : String) : Option EntityId :=
  match Path.ofText path with
  | [] => none
  | name :: names =>
    (m.roots.find? fun e => (m.entity e).name = name).bind (m.resolveSubentity · names)

/-- An entity and those that enclose it, from the inside out. A parent has a smaller number. -/
def chain (e : EntityId) : List EntityId :=
  match (m.entity e).parent with
  | none => [e]
  | some p => if p.index < e.index then e :: chain p else [e]
termination_by e.index

/-- The names on the full path of an entity. -/
def entityNames (e : EntityId) : List String := ((m.chain e).map fun a => (m.entity a).name).reverse

/-- The full path of an entity. -/
def entityPath (e : EntityId) : String := Path.text (m.entityNames e)

/-- The path of a port from an entity, if the port lies in it. -/
def pathToPort (e : EntityId) (p : PortId) : Option String :=
  let chain := m.chain (m.port p).entity
  if chain.contains e then
    let inner := (chain.takeWhile (· ≠ e)).map fun a => (m.entity a).name
    some (Path.text (inner.reverse ++ [(m.port p).name]))
  else none

/-- The path of a port from an entity, and its bare name if it does not lie in it. -/
def portLabel (e : EntityId) (p : PortId) : String := (m.pathToPort e p).getD (m.port p).name

/-- The full name of a modifier. -/
def modifierName : Modifier → String
  | .update u => m.entityPath (m.update u).entity ++ "." ++ (m.update u).name
  | .influence i => m.entityPath (m.influence i).entity ++ "." ++ (m.influence i).name
  | .subentity e => m.entityPath e

end HybridStep.Model
