import HybridStep.Proofs.Schedule.Topological
import HybridStep.Proofs.Success

/-! # Dependencies of an entity

The dependency graph of an entity has its influences, its active updates and its subentities as
modifiers, and an edge for every port that one of them declares to read or to write. So in the order
of the entity a modifier that declares to write a port stands before every other one that declares
to read it. What the body of an update assigns besides its target is not declared. -/

namespace HybridStep

namespace DependencyGraph

variable {g : DependencyGraph} {a b n x y : GraphNode}

theorem mem_nodes_addNode : x ∈ (g.addNode n).nodes ↔ x ∈ g.nodes ∨ x = n := by
  unfold addNode OrderedMap.insertNew nodes
  split_ifs with h
  · rw [OrderedMap.isSome_get?] at h
    exact ⟨.inl, fun hx => hx.elim id fun he => he ▸ h⟩
  · simp only [OrderedMap.keys_insert]
    split_ifs <;> grind

theorem successors_addNode : (g.addNode n).successors x = g.successors x := by
  unfold addNode OrderedMap.insertNew successors
  split_ifs with h
  · rfl
  · simp only [OrderedMap.get?_insert]
    split_ifs with hx
    · rw [hx, Option.not_isSome_iff_eq_none.1 h]
      rfl
    · rfl

theorem mem_nodes_addEdge : x ∈ (g.addEdge a b).nodes ↔ x ∈ g.nodes ∨ x = a ∨ x = b := by
  have hinsert : x ∈ (g.addEdge a b).nodes ↔ x ∈ (g.addNode b).nodes ∨ x = a := by
    simp only [addEdge, nodes, OrderedMap.keys_insert]
    split_ifs <;> grind
  rw [hinsert, mem_nodes_addNode]
  tauto

theorem mem_successors_addEdge :
    y ∈ (g.addEdge a b).successors x ↔ y ∈ g.successors x ∨ x = a ∧ y = b := by
  have hget : (g.addEdge a b).successors x =
      if x = a then (g.successors a).insert b else g.successors x := by
    rw [addEdge, successors, OrderedMap.get?_insert, successors_addNode]
    split_ifs with hx
    · rfl
    · exact successors_addNode
  rw [hget]
  split_ifs with hx
  · subst hx
    simp
  · simp [hx]

theorem Closed.addNode (h : g.Closed) : (g.addNode n).Closed := fun x y hy => by
  rw [successors_addNode] at hy
  exact mem_nodes_addNode.2 (.inl (h x y hy))

theorem Closed.addEdge (h : g.Closed) : (g.addEdge a b).Closed := fun x y hy => by
  rw [mem_nodes_addEdge]
  rcases mem_successors_addEdge.1 hy with hy | ⟨-, rfl⟩
  · exact .inl (h x y hy)
  · exact .inr (.inr rfl)

/-- The graph with edges that several values stand for. -/
def addEdges {α : Type} (edge : α → GraphNode × GraphNode) (l : List α) (g : DependencyGraph) :
    DependencyGraph := l.foldl (fun g i => g.addEdge (edge i).1 (edge i).2) g

section

variable {α : Type} {edge : α → GraphNode × GraphNode} {l : List α}

theorem mem_nodes_addEdges :
    x ∈ (addEdges edge l g).nodes ↔ x ∈ g.nodes ∨ ∃ i ∈ l, x = (edge i).1 ∨ x = (edge i).2 := by
  induction l generalizing g with
  | nil => simp [addEdges]
  | cons i l ih =>
    rw [addEdges, List.foldl_cons, ← addEdges, ih, mem_nodes_addEdge]
    simp only [List.mem_cons, exists_eq_or_imp, or_assoc]

theorem mem_successors_addEdges : y ∈ (addEdges edge l g).successors x ↔
    y ∈ g.successors x ∨ ∃ i ∈ l, x = (edge i).1 ∧ y = (edge i).2 := by
  induction l generalizing g with
  | nil => simp [addEdges]
  | cons i l ih =>
    rw [addEdges, List.foldl_cons, ← addEdges, ih, mem_successors_addEdge]
    simp only [List.mem_cons, exists_eq_or_imp, or_assoc]

theorem Closed.addEdges (h : g.Closed) : (addEdges edge l g).Closed := by
  induction l generalizing g with
  | nil => exact h
  | cons i l ih => exact ih h.addEdge

end

end DependencyGraph

namespace Model

open DependencyGraph

variable {m : Model} {reads : UpdateId → List PortId} {e : EntityId}

/-- What is ordered in an entity. -/
def parts (m : Model) (e : EntityId) : List Modifier :=
  (m.entity e).influences.map .influence ++ (m.activeUpdates e).map .update ++
    (m.entity e).subentities.map .subentity

/-- The ports that a modifier declares to write: the target of an update or an influence, and the
outputs of a subentity. -/
def declaredWrites (m : Model) : Modifier → List PortId
  | .update u => [(m.update u).target]
  | .influence i => [(m.influence i).target]
  | .subentity s => m.outputs s

/-- The ports that a modifier declares to read: what the body of an update reads besides its target,
the source of an influence, and the inputs of a subentity. -/
def declaredReads (m : Model) (reads : UpdateId → List PortId) : Modifier → List PortId
  | .update u => (reads u).filter (· ≠ (m.update u).target)
  | .influence i => [(m.influence i).source]
  | .subentity s => m.inputs s

/-- The dependency graph of an entity whose updates read given ports. -/
def graphWith (m : Model) (reads : UpdateId → List PortId) (e : EntityId) : DependencyGraph :=
  (m.entity e).subentities.foldl m.addSubentityEdges <|
    (m.activeUpdates e).foldl (fun g u => m.addUpdateEdges g u (reads u)) <|
      (m.entity e).influences.foldl m.addInfluenceEdges .empty

/-- A graph of some modifiers with an edge for every port that one of them declares. -/
structure Spans (m : Model) (reads : UpdateId → List PortId) (xs : List Modifier)
    (g : DependencyGraph) : Prop where
  closed : g.Closed
  modifiers (x : Modifier) : .modifier x ∈ g.nodes ↔ x ∈ xs
  read {x : Modifier} {p : PortId} :
    x ∈ xs → p ∈ m.declaredReads reads x → .modifier x ∈ g.successors (.port p)
  written {x : Modifier} {p : PortId} :
    x ∈ xs → p ∈ m.declaredWrites x → .port p ∈ g.successors (.modifier x)

theorem spans_empty (m : Model) (reads : UpdateId → List PortId) : m.Spans reads [] .empty where
  closed := fun _ b hb => absurd hb (OrderedSet.not_mem_empty b)
  modifiers := by simp [DependencyGraph.empty, nodes, OrderedMap.keys, OrderedMap.empty]
  read := fun hx => absurd hx List.not_mem_nil
  written := fun hx => absurd hx List.not_mem_nil

/-- What it takes to add a modifier. -/
theorem Spans.add {xs : List Modifier} {g g' : DependencyGraph} {x : Modifier}
    (h : m.Spans reads xs g) (hclosed : g'.Closed)
    (hnodes : ∀ y, .modifier y ∈ g'.nodes ↔ .modifier y ∈ g.nodes ∨ y = x)
    (hold : ∀ a b, b ∈ g.successors a → b ∈ g'.successors a)
    (hread : ∀ p ∈ m.declaredReads reads x, .modifier x ∈ g'.successors (.port p))
    (hwritten : ∀ p ∈ m.declaredWrites x, .port p ∈ g'.successors (.modifier x)) :
    m.Spans reads (xs ++ [x]) g' := by
  refine ⟨hclosed, fun y => ?_, fun {y p} hy hp => ?_, fun {y p} hy hp => ?_⟩
  · rw [hnodes, h.modifiers, List.mem_append, List.mem_singleton]
  · rcases List.mem_append.1 hy with hy | hy
    · exact hold _ _ (h.read hy hp)
    · rw [List.mem_singleton.1 hy] at hp ⊢
      exact hread p hp
  · rcases List.mem_append.1 hy with hy | hy
    · exact hold _ _ (h.written hy hp)
    · rw [List.mem_singleton.1 hy] at hp ⊢
      exact hwritten p hp

theorem Spans.addInfluence {xs : List Modifier} {g : DependencyGraph} (h : m.Spans reads xs g)
    (i : InfluenceId) : m.Spans reads (xs ++ [.influence i]) (m.addInfluenceEdges g i) := by
  refine h.add h.closed.addEdge.addEdge ?_ ?_ ?_ ?_
  · intro y
    simp [addInfluenceEdges, mem_nodes_addEdge]
  · intro a b hb
    simp only [addInfluenceEdges, mem_successors_addEdge]
    exact .inl (.inl hb)
  · simp [declaredReads, addInfluenceEdges, mem_successors_addEdge]
  · simp [declaredWrites, addInfluenceEdges, mem_successors_addEdge]

theorem Spans.addUpdate {xs : List Modifier} {g : DependencyGraph} (h : m.Spans reads xs g)
    (u : UpdateId) : m.Spans reads (xs ++ [.update u]) (m.addUpdateEdges g u (reads u)) := by
  have heq : m.addUpdateEdges g u (reads u) =
      addEdges (fun p => (.port p, .modifier (.update u)))
        ((reads u).filter (· ≠ (m.update u).target))
        (g.addEdge (.modifier (.update u)) (.port (m.update u).target)) := rfl
  rw [heq]
  refine h.add h.closed.addEdge.addEdges ?_ ?_ ?_ ?_
  · intro y
    simp only [mem_nodes_addEdges, mem_nodes_addEdge, reduceCtorEq, false_or, or_false,
      GraphNode.modifier.injEq, or_assoc]
    grind
  · intro a b hb
    simp only [mem_successors_addEdges, mem_successors_addEdge]
    exact .inl (.inl hb)
  · intro p hp
    exact mem_successors_addEdges.2 (.inr ⟨p, hp, rfl, rfl⟩)
  · intro p hp
    rw [List.mem_singleton.1 hp]
    exact mem_successors_addEdges.2 (.inl (mem_successors_addEdge.2 (.inr ⟨rfl, rfl⟩)))

theorem Spans.addSubentity {xs : List Modifier} {g : DependencyGraph} (h : m.Spans reads xs g)
    (s : EntityId) : m.Spans reads (xs ++ [.subentity s]) (m.addSubentityEdges g s) := by
  have heq : m.addSubentityEdges g s =
      addEdges (fun p => (.modifier (.subentity s), .port p)) (m.outputs s)
        (addEdges (fun p => (.port p, .modifier (.subentity s))) (m.inputs s)
          (g.addNode (.modifier (.subentity s)))) := rfl
  rw [heq]
  refine h.add h.closed.addNode.addEdges.addEdges ?_ ?_ ?_ ?_
  · intro y
    simp only [mem_nodes_addEdges, mem_nodes_addNode, reduceCtorEq, false_or, or_false,
      GraphNode.modifier.injEq]
    grind
  · intro a b hb
    simp only [mem_successors_addEdges, successors_addNode]
    exact .inl (.inl hb)
  · intro p hp
    exact mem_successors_addEdges.2 (.inl (mem_successors_addEdges.2 (.inr ⟨p, hp, rfl, rfl⟩)))
  · intro p hp
    exact mem_successors_addEdges.2 (.inr ⟨p, hp, rfl, rfl⟩)

theorem Spans.foldl {ι : Type} {add : DependencyGraph → ι → DependencyGraph} (part : ι → Modifier)
    (hadd : ∀ {xs : List Modifier} {g : DependencyGraph}, m.Spans reads xs g →
      ∀ i, m.Spans reads (xs ++ [part i]) (add g i)) :
    ∀ (l : List ι) {xs : List Modifier} {g : DependencyGraph}, m.Spans reads xs g →
      m.Spans reads (xs ++ l.map part) (l.foldl add g)
  | [], xs, g, h => by simpa using h
  | i :: l, xs, g, h => by
    simpa using Spans.foldl part hadd l (hadd h i)

/-- The dependency graph of an entity. -/
theorem spans_graphWith (m : Model) (reads : UpdateId → List PortId) (e : EntityId) :
    m.Spans reads (m.parts e) (m.graphWith reads e) := by
  have hinfluences := Spans.foldl .influence Spans.addInfluence (m.entity e).influences
    (spans_empty m reads)
  have hupdates := Spans.foldl .update Spans.addUpdate (m.activeUpdates e) hinfluences
  exact Spans.foldl .subentity Spans.addSubentity (m.entity e).subentities hupdates

end Model

end HybridStep
