import HybridStep.Body.Cache
import HybridStep.Body.Footprint
import HybridStep.Schedule.Graph

/-! # The order of modifiers

The order of an entity is read off its dependency graph, in which ports stand between the modifiers
that write them and those that read them. An influence writes its target and reads its source, a
subentity writes its outputs and reads its inputs. An update writes its target and reads what its
body reads besides; the graph has no edge to other ports that its body assigns, so these order
nothing. -/

namespace HybridStep

/-- Why an entity has no order: its modifiers depend on each other in a circle, or the body of an
update cannot be read. -/
inductive ScheduleError where
  | cycle (entity : String) (involved : List String)
  | updateBody (update : String) (source : BodyError)
  deriving DecidableEq

/-- The text of the error. -/
def ScheduleError.message : ScheduleError → String
  | cycle entity involved =>
    "dependency graph of `" ++ entity ++ "` is not acyclic (involved: " ++
      ", ".intercalate involved ++ ")"
  | updateBody update source =>
    "cannot read the body of update `" ++ update ++ "`: " ++ source.message

/-- A computation that reads bodies through a cache, which it keeps when it fails. -/
abbrev Scheduling := EStateM ScheduleError BodyCache

namespace Model

variable (m : Model)

/-- The ports that the body of an update reads. -/
def readPorts (u : UpdateId) : Scheduling (List PortId) := fun cache =>
  let record := m.update u
  match cache.read record.function with
  | (.ok f, cache) => .ok (accessedPorts m record.entity f).toList cache
  | (.error e, cache) => .error (.updateBody (m.modifierName (.update u)) e) cache

/-- Adds an influence with the ports that it reads and writes. -/
def addInfluenceEdges (g : DependencyGraph) (i : InfluenceId) : DependencyGraph :=
  let record := m.influence i
  let node := GraphNode.modifier (.influence i)
  (g.addEdge (.port record.source) node).addEdge node (.port record.target)

/-- Adds an update with its target and the ports that it reads. Reading its own target is no
dependency. -/
def addUpdateEdges (g : DependencyGraph) (u : UpdateId) (reads : List PortId) : DependencyGraph :=
  let target := (m.update u).target
  let node := GraphNode.modifier (.update u)
  (reads.filter (· ≠ target)).foldl (fun g p => g.addEdge (.port p) node)
    (g.addEdge node (.port target))

/-- Adds updates one after the other. -/
def addUpdates (g : DependencyGraph) : List UpdateId → Scheduling DependencyGraph
  | [] => pure g
  | u :: us => do
    let reads ← m.readPorts u
    addUpdates (m.addUpdateEdges g u reads) us

/-- Adds a subentity with its inputs and outputs. -/
def addSubentityEdges (g : DependencyGraph) (s : EntityId) : DependencyGraph :=
  let node := GraphNode.modifier (.subentity s)
  let g := (m.inputs s).foldl (fun g p => g.addEdge (.port p) node) (g.addNode node)
  (m.outputs s).foldl (fun g p => g.addEdge node (.port p)) g

/-- The dependency graph of an entity, with the updates of its current state only. -/
def dependencyGraph (e : EntityId) : Scheduling DependencyGraph := do
  let g := (m.entity e).influences.foldl m.addInfluenceEdges .empty
  let g ← m.addUpdates g (m.activeUpdates e)
  return (m.entity e).subentities.foldl m.addSubentityEdges g

/-- The name of a node in a message about an entity. -/
def nodeName (e : EntityId) : GraphNode → String
  | .port p => m.portLabel e p
  | .modifier x => m.modifierName x

/-- The modifier that a node is. -/
def modifierOfNode? : GraphNode → Option Modifier
  | .modifier x => some x
  | .port _ => none

/-- The modifiers of a dependency graph in order. -/
def orderOfGraph (e : EntityId) (g : DependencyGraph) : Except ScheduleError (List Modifier) :=
  match g.topologicalOrder with
  | .ok nodes => .ok (nodes.filterMap modifierOfNode?)
  | .error blocked => .error (.cycle (m.entityPath e) (blocked.map (m.nodeName e)))

/-- The modifiers of an entity in order. -/
def order (e : EntityId) : Scheduling (List Modifier) := do
  match m.orderOfGraph e (← m.dependencyGraph e) with
  | .ok modifiers => return modifiers
  | .error e => throw e

end Model

end HybridStep
