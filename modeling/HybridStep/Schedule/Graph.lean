import HybridStep.Model.Basic
import HybridStep.Ordered.Map
import HybridStep.Ordered.Set

/-! # Dependency graphs

Directed graphs on ports and modifiers that keep their nodes and edges in the order in which they
were added, and the order of their nodes in which every edge leads forward. -/

namespace HybridStep

/-- A port or a modifier. -/
inductive GraphNode where
  | port (p : PortId)
  | modifier (m : Modifier)
  deriving DecidableEq, Inhabited

/-- The written form of the number of a node. -/
def GraphNode.text : GraphNode → String
  | port p => p.text
  | modifier m => m.text

/-- A directed graph: each node with its successors. -/
structure DependencyGraph where
  adjacency : OrderedMap GraphNode (OrderedSet GraphNode)
  deriving Inhabited

namespace DependencyGraph

/-- The graph without nodes. -/
def empty : DependencyGraph := ⟨.empty⟩

/-- Adds a node. -/
def addNode (g : DependencyGraph) (n : GraphNode) : DependencyGraph :=
  ⟨g.adjacency.insertNew n .empty⟩

/-- The successors of a node. -/
def successors (g : DependencyGraph) (n : GraphNode) : OrderedSet GraphNode :=
  (g.adjacency.get? n).getD .empty

/-- Adds an edge and its nodes, its end before its start. -/
def addEdge (g : DependencyGraph) (start stop : GraphNode) : DependencyGraph :=
  let g := g.addNode stop
  ⟨g.adjacency.insert start ((g.successors start).insert stop)⟩

/-- The nodes in the order in which they were added. -/
def nodes (g : DependencyGraph) : List GraphNode := g.adjacency.keys

/-- The number of nodes. -/
def size (g : DependencyGraph) : Nat := g.adjacency.size

/-- Whether there is an edge. -/
def hasEdge (g : DependencyGraph) (start stop : GraphNode) : Bool := stop ∈ g.successors start

/-! ### Ordering -/

/-- For each node the number of edges into it that are left. -/
abbrev Degrees := OrderedMap GraphNode Nat

/-- Counts an edge into a node. -/
def countEdge (degrees : Degrees) (stop : GraphNode) : Degrees :=
  match degrees.get? stop with
  | some d => degrees.insert stop (d + 1)
  | none => degrees

/-- The number of edges into each node. -/
def degrees (g : DependencyGraph) : Degrees :=
  (g.adjacency.values.flatMap OrderedSet.toList).foldl countEdge
    (.ofList (g.nodes.map fun n => (n, 0)))

/-- Takes an edge into a node away. A node without edges left is ready. -/
def dropEdge (s : Degrees × List GraphNode) (stop : GraphNode) : Degrees × List GraphNode :=
  match s.1.get? stop with
  | some (d + 1) => (s.1.insert stop d, if d = 0 then s.2 ++ [stop] else s.2)
  | _ => s

/-- Takes nodes that are ready out of the graph, the one that has been ready longest first, at most
a given number of them. Gives them with the degrees that are left. -/
def settle (g : DependencyGraph) : Nat → Degrees → List GraphNode → List GraphNode × Degrees
  | fuel + 1, degrees, n :: ready =>
    let (degrees, ready) := (g.successors n).toList.foldl dropEdge (degrees, ready)
    let (order, degrees) := g.settle fuel degrees ready
    (n :: order, degrees)
  | _, degrees, _ => ([], degrees)

/-- The nodes with no edge left into them. -/
def readyNodes (degrees : Degrees) : List GraphNode :=
  (degrees.entries.filter fun d => d.2 = 0).map Prod.fst

/-- The nodes with an edge left into them. -/
def blockedNodes (degrees : Degrees) : List GraphNode :=
  (degrees.entries.filter fun d => 0 < d.2).map Prod.fst

/-- An order of all nodes in which every edge leads forward, or the nodes for which
there is none. -/
def topologicalOrder (g : DependencyGraph) : Except (List GraphNode) (List GraphNode) :=
  let (order, degrees) := g.settle g.size g.degrees (readyNodes g.degrees)
  if order.length = g.size then .ok order else .error (blockedNodes degrees)

end DependencyGraph

end HybridStep
