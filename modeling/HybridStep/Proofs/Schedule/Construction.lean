import HybridStep.Proofs.Schedule.Cycles
import HybridStep.Proofs.Schedule.Dependencies

/-! # Graphs made by calls

A graph is made by adding nodes and edges in any order, also twice and from a node to itself. The
calls tell what the graph is: its nodes are those that are named, in the order in which they are
named first, and its edges are those that are added. So what is said of its order speaks of the
calls alone. -/

namespace HybridStep

/-- A call that adds to a graph. -/
inductive GraphCall where
  | node (n : GraphNode)
  | edge (start stop : GraphNode)
  deriving DecidableEq

namespace GraphCall

/-- The nodes that a call names. The end of an edge comes before its start. -/
def names : GraphCall → List GraphNode
  | node n => [n]
  | edge start stop => [stop, start]

/-- The nodes that calls name, in the order in which they are named first. -/
def named (calls : List GraphCall) : OrderedSet GraphNode := .ofList (calls.flatMap names)

/-- A call adds an edge from one node to another. -/
def Joins (calls : List GraphCall) (a b : GraphNode) : Prop := edge a b ∈ calls

end GraphCall

namespace DependencyGraph

open GraphCall (named Joins)
open Relation

/-! ### What calls make -/

/-- The graph after a call. -/
def perform (g : DependencyGraph) : GraphCall → DependencyGraph
  | .node n => g.addNode n
  | .edge start stop => g.addEdge start stop

/-- The graph that calls make, one after the other. -/
def ofCalls (calls : List GraphCall) : DependencyGraph := calls.foldl perform empty

variable {g : DependencyGraph} {s : OrderedSet GraphNode} {n a b : GraphNode}

theorem nodes_addNode (h : g.nodes = s.toList) : (g.addNode n).nodes = (s.insert n).toList := by
  rw [OrderedSet.toList_insert, ← h, addNode, OrderedMap.insertNew]
  simp only [OrderedMap.isSome_get?]
  split_ifs with hn hn' hn'
  · rfl
  · exact absurd hn hn'
  · exact absurd hn' hn
  · rw [nodes, OrderedMap.keys_insert, if_neg hn]
    rfl

theorem nodes_addEdge (h : g.nodes = s.toList) :
    (g.addEdge a b).nodes = ((s.insert b).insert a).toList := by
  rw [OrderedSet.toList_insert, ← nodes_addNode h, addEdge, nodes, OrderedMap.keys_insert]
  rfl

theorem nodes_performs : ∀ (calls : List GraphCall) {g : DependencyGraph}
    {s : OrderedSet GraphNode}, g.nodes = s.toList →
      (calls.foldl perform g).nodes = (s.insertAll (calls.flatMap GraphCall.names)).toList
  | [], _, _, h => h
  | .node _ :: calls, _, _, h => nodes_performs calls (nodes_addNode h)
  | .edge _ _ :: calls, _, _, h => nodes_performs calls (nodes_addEdge h)

/-- The nodes are those that are named, in the order in which they are named first. -/
theorem nodes_ofCalls (calls : List GraphCall) : (ofCalls calls).nodes = (named calls).toList :=
  nodes_performs calls rfl

theorem edge_performs : ∀ (calls : List GraphCall) {g : DependencyGraph},
    (calls.foldl perform g).Edge a b ↔ g.Edge a b ∨ Joins calls a b
  | [], _ => by simp [Joins]
  | .node n :: calls, g => by
    rw [List.foldl_cons, edge_performs calls, perform, Edge, successors_addNode]
    simp [Joins, Edge]
  | .edge x y :: calls, g => by
    rw [List.foldl_cons, edge_performs calls, perform, Edge, mem_successors_addEdge]
    simp [Joins, Edge, or_assoc]

/-- The edges are those that are added. -/
theorem edge_ofCalls (calls : List GraphCall) : (ofCalls calls).Edge a b ↔ Joins calls a b :=
  (edge_performs calls).trans (or_iff_right (OrderedSet.not_mem_empty b))

theorem closed_performs : ∀ (calls : List GraphCall) {g : DependencyGraph}, g.Closed →
    (calls.foldl perform g).Closed
  | [], _, h => h
  | .node _ :: calls, _, h => closed_performs calls h.addNode
  | .edge _ _ :: calls, _, h => closed_performs calls h.addEdge

theorem closed_ofCalls (calls : List GraphCall) : (ofCalls calls).Closed :=
  closed_performs calls fun _ b hb => absurd hb (OrderedSet.not_mem_empty b)

/-! ### Counts that never run out -/

/-- Takes an edge into a node away. Where a node has no edge left to take away, the run stops. -/
def dropEdge? (s : Degrees × List GraphNode) (stop : GraphNode) :
    Option (Degrees × List GraphNode) :=
  if s.1.get? stop = some 0 then none else some (dropEdge s stop)

/-- Takes nodes that are ready out of the graph, as long as every edge that is taken away is
left. -/
def settle? (g : DependencyGraph) : Nat → Degrees → List GraphNode →
    Option (List GraphNode × Degrees)
  | fuel + 1, degrees, n :: ready => do
    let s ← (g.successors n).toList.foldlM dropEdge? (degrees, ready)
    let rest ← g.settle? fuel s.1 s.2
    return (n :: rest.1, rest.2)
  | _, degrees, _ => some ([], degrees)

/-- The topological order, as long as no count of edges falls below zero on the way. -/
def topologicalOrder? (g : DependencyGraph) :
    Option (Except (List GraphNode) (List GraphNode)) := do
  let (order, degrees) ← g.settle? g.size g.degrees (readyNodes g.degrees)
  return if order.length = g.size then .ok order else .error (blockedNodes degrees)

variable {done ready : List GraphNode} {degrees : Degrees}

/-- Edges into different nodes that each have an edge left can all be taken away. -/
theorem dropEdges?_eq : ∀ {edges : List GraphNode} {s : Degrees × List GraphNode}, edges.Nodup →
    (∀ b ∈ edges, s.1.get? b ≠ some 0) →
      edges.foldlM dropEdge? s = some (edges.foldl dropEdge s)
  | [], _, _, _ => rfl
  | b :: edges, s, hnodup, hleft => by
    rw [List.nodup_cons] at hnodup
    have hfirst : dropEdge? s b = some (dropEdge s b) := if_neg (hleft b List.mem_cons_self)
    have hrest : ∀ n ∈ edges, (dropEdge s b).1.get? n ≠ some 0 := fun n hn => by
      have hother : n ≠ b := fun he => hnodup.1 (he ▸ hn)
      have hsame : (dropEdge s b).1.get? n = s.1.get? n := by
        unfold dropEdge
        split
        · rw [OrderedMap.get?_insert, if_neg hother]
        · rfl
      rw [hsame]
      exact hleft n (List.mem_cons_of_mem b hn)
    rw [List.foldlM_cons, hfirst, List.foldl_cons]
    exact dropEdges?_eq hnodup.2 hrest

/-- Every edge from a node that is taken is left: it is counted, as the node is not listed yet. -/
theorem Settling.successors_left (h : g.Settling done (n :: ready) degrees) (hg : g.Closed) :
    ∀ b ∈ (g.successors n).toList, degrees.get? b ≠ some 0 := fun b hb => by
  obtain ⟨hn, hnew, -⟩ := h.ready List.mem_cons_self
  rw [h.degrees (hg n b hb)]
  intro hzero
  exact hnew (pending_eq_zero.1 (Option.some.inj hzero) n hb)

theorem settle?_eq (hg : g.Closed) : ∀ (fuel : Nat) {done ready : List GraphNode}
    {degrees : Degrees}, g.Settling done ready degrees →
      g.settle? fuel degrees ready = some (g.settle fuel degrees ready)
  | 0, _, _, _, _ => rfl
  | _ + 1, _, [], _, _ => rfl
  | fuel + 1, done, n :: ready, degrees, h => by
    have hdrop : (g.successors n).toList.foldlM dropEdge? (degrees, ready) =
        some ((g.successors n).toList.foldl dropEdge (degrees, ready)) :=
      dropEdges?_eq (g.successors n).nodup (h.successors_left hg)
    rw [settle?, hdrop, Option.bind_eq_bind, Option.bind_some, settle?_eq hg fuel (h.next hg)]
    rfl

/-- No count of edges ever falls below zero. -/
theorem topologicalOrder?_eq (hg : g.Closed) : g.topologicalOrder? = some g.topologicalOrder := by
  rw [topologicalOrder?, settle?_eq hg g.size g.settling_start]
  rfl

/-! ### The order -/

theorem sorts_perm {order : List GraphNode} (h : g.Sorts order) : order.Perm g.nodes :=
  (List.perm_ext_iff_of_nodup h.nodup g.adjacency.nodup).2 fun _ => h.mem

/-- **The order of a graph is correct and complete.** Whatever calls make a graph, it has an order
if and only if no chain of edges leads from a node to itself. The order lists the nodes that are
named, each once, and the start of every edge before its end. Otherwise the nodes on a cycle and
those that a cycle leads to are given, each once and in the order in which they are named first. No
count of edges falls below zero on the way. -/
theorem topologicalOrder_ofCalls (calls : List GraphCall) :
    ((∃ order, (ofCalls calls).topologicalOrder = .ok order) ↔
      ∀ n, ¬ TransGen (Joins calls) n n) ∧
    (∀ order, (ofCalls calls).topologicalOrder = .ok order →
      order.Perm (named calls).toList ∧
        ∀ a b, Joins calls a b → order.idxOf a < order.idxOf b) ∧
    (∀ blocked, (ofCalls calls).topologicalOrder = .error blocked →
      blocked.Nodup ∧ blocked.Sublist (named calls).toList ∧
        ∀ n, n ∈ blocked ↔ ∃ c, TransGen (Joins calls) c c ∧ ReflTransGen (Joins calls) c n) ∧
    (ofCalls calls).topologicalOrder? = some (ofCalls calls).topologicalOrder := by
  have hg := closed_ofCalls calls
  have hedge : (ofCalls calls).Edge = Joins calls :=
    funext fun a => funext fun b => propext (edge_ofCalls calls)
  have hcases := topologicalOrder_cases hg
  simp only [Acyclic, Trapped, hedge, nodes_ofCalls] at hcases
  refine ⟨?_, fun order h => ?_, fun blocked h => ?_, topologicalOrder?_eq hg⟩
  · rcases hcases with ⟨hnone, order, horder, -⟩ | ⟨hcycle, blocked, hblocked, -⟩
    · exact ⟨fun _ => hnone, fun _ => ⟨order, horder⟩⟩
    · refine ⟨fun ⟨order, horder⟩ => ?_, fun hnone => absurd hnone hcycle⟩
      cases hblocked.symm.trans horder
  · have hsorts := sorts_of_topologicalOrder hg h
    rw [← nodes_ofCalls]
    refine ⟨sorts_perm hsorts, fun a b hab => ?_⟩
    have he : (ofCalls calls).Edge a b := (edge_ofCalls calls).2 hab
    exact hsorts.settled.idxOf_lt (hsorts.mem.2 (hg a b he)) he
  · rcases hcases with ⟨-, order, horder, -⟩ | ⟨-, blocked', hblocked, hsub, hmem⟩
    · cases horder.symm.trans h
    · obtain rfl := Except.error.inj (hblocked.symm.trans h)
      exact ⟨(named calls).nodup.sublist hsub, hsub, hmem⟩

end DependencyGraph

end HybridStep
