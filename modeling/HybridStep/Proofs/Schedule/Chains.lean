import HybridStep.Proofs.Schedule.Cycles
import HybridStep.Proofs.Schedule.Order

/-! # Chains of modifiers

The edges of a dependency graph are the declared reads and writes of the parts of an entity and
nothing else. So a cycle of the graph is a chain of parts, each of which declares to write a port
that the next one declares to read, and the last of which feeds the first. -/

namespace HybridStep.Model

open DependencyGraph Relation

variable {m : Model} {reads : UpdateId → List PortId} {e : EntityId} {xs : List Modifier}
variable {g : DependencyGraph} {a b : GraphNode} {x y : Modifier} {p : PortId}

/-- The edges that declared reads and writes of some modifiers stand for. -/
inductive Dependence (m : Model) (reads : UpdateId → List PortId) (xs : List Modifier) :
    GraphNode → GraphNode → Prop
  | read {x : Modifier} {p : PortId} : x ∈ xs → p ∈ m.declaredReads reads x →
    Dependence m reads xs (.port p) (.modifier x)
  | written {x : Modifier} {p : PortId} : x ∈ xs → p ∈ m.declaredWrites x →
    Dependence m reads xs (.modifier x) (.port p)

theorem dependence_append {ys : List Modifier} : m.Dependence reads (xs ++ ys) a b ↔
    m.Dependence reads xs a b ∨ m.Dependence reads ys a b := by
  constructor
  · rintro (⟨hx, hp⟩ | ⟨hx, hp⟩)
    · exact (List.mem_append.1 hx).imp (.read · hp) (.read · hp)
    · exact (List.mem_append.1 hx).imp (.written · hp) (.written · hp)
  · rintro ((⟨hx, hp⟩ | ⟨hx, hp⟩) | (⟨hx, hp⟩ | ⟨hx, hp⟩))
    · exact .read (List.mem_append_left _ hx) hp
    · exact .written (List.mem_append_left _ hx) hp
    · exact .read (List.mem_append_right _ hx) hp
    · exact .written (List.mem_append_right _ hx) hp

theorem dependence_singleton : m.Dependence reads [x] a b ↔
    (∃ p ∈ m.declaredReads reads x, a = .port p ∧ b = .modifier x) ∨
      ∃ p ∈ m.declaredWrites x, a = .modifier x ∧ b = .port p := by
  constructor
  · rintro (⟨hx, hp⟩ | ⟨hx, hp⟩) <;> obtain rfl := List.mem_singleton.1 hx
    · exact .inl ⟨_, hp, rfl, rfl⟩
    · exact .inr ⟨_, hp, rfl, rfl⟩
  · rintro (⟨p, hp, rfl, rfl⟩ | ⟨p, hp, rfl, rfl⟩)
    · exact .read List.mem_cons_self hp
    · exact .written List.mem_cons_self hp

/-! ### Edges -/

theorem edge_addInfluence (reads : UpdateId → List PortId) (g : DependencyGraph)
    (i : InfluenceId) : (m.addInfluenceEdges g i).Edge a b ↔
      g.Edge a b ∨ m.Dependence reads [.influence i] a b := by
  rw [dependence_singleton]
  simp [Edge, addInfluenceEdges, mem_successors_addEdge, declaredReads, declaredWrites, or_assoc]

theorem edge_addUpdate (reads : UpdateId → List PortId) (g : DependencyGraph) (u : UpdateId) :
    (m.addUpdateEdges g u (reads u)).Edge a b ↔
      g.Edge a b ∨ m.Dependence reads [.update u] a b := by
  have heq : m.addUpdateEdges g u (reads u) =
      addEdges (fun p => (.port p, .modifier (.update u)))
        (m.declaredReads reads (.update u))
        (g.addEdge (.modifier (.update u)) (.port (m.update u).target)) := rfl
  rw [dependence_singleton, Edge, heq, mem_successors_addEdges, mem_successors_addEdge]
  simp only [declaredWrites, List.mem_singleton, exists_eq_left]
  rw [or_assoc]
  exact or_congr Iff.rfl or_comm

theorem edge_addSubentity (reads : UpdateId → List PortId) (g : DependencyGraph) (s : EntityId) :
    (m.addSubentityEdges g s).Edge a b ↔
      g.Edge a b ∨ m.Dependence reads [.subentity s] a b := by
  have heq : m.addSubentityEdges g s =
      addEdges (fun p => (.modifier (.subentity s), .port p)) (m.declaredWrites (.subentity s))
        (addEdges (fun p => (.port p, .modifier (.subentity s)))
          (m.declaredReads reads (.subentity s)) (g.addNode (.modifier (.subentity s)))) := rfl
  rw [dependence_singleton, Edge, heq, mem_successors_addEdges, mem_successors_addEdges,
    successors_addNode, Edge, or_assoc]

theorem edge_foldl {ι : Type} {add : DependencyGraph → ι → DependencyGraph} (part : ι → Modifier)
    (hadd : ∀ g i, (add g i).Edge a b ↔ g.Edge a b ∨ m.Dependence reads [part i] a b) :
    ∀ (l : List ι) {g : DependencyGraph},
      (l.foldl add g).Edge a b ↔ g.Edge a b ∨ m.Dependence reads (l.map part) a b
  | [], g => by
    have hnone : ¬ m.Dependence reads [] a b := by rintro (⟨hx, -⟩ | ⟨hx, -⟩) <;> cases hx
    simp [hnone]
  | i :: l, g => by
    have hcons : (i :: l).map part = [part i] ++ l.map part := rfl
    rw [List.foldl_cons, edge_foldl part hadd l, hadd, hcons, dependence_append, or_assoc]

/-- **The edges of a dependency graph** are the declared reads and writes of its parts. -/
theorem edge_graphWith : (m.graphWith reads e).Edge a b ↔ m.Dependence reads (m.parts e) a b := by
  have hempty : ¬ DependencyGraph.empty.Edge a b := OrderedSet.not_mem_empty b
  rw [graphWith, edge_foldl .subentity (edge_addSubentity reads),
    edge_foldl .update (edge_addUpdate reads), edge_foldl .influence (edge_addInfluence reads),
    parts, dependence_append, dependence_append]
  simp only [hempty, false_or]

/-! ### Chains -/

/-- One part of an entity declares to write a port that another one declares to read. -/
def Feeds (m : Model) (reads : UpdateId → List PortId) (e : EntityId) (x y : Modifier) : Prop :=
  x ∈ m.parts e ∧ y ∈ m.parts e ∧ ∃ p ∈ m.declaredWrites x, p ∈ m.declaredReads reads y

theorem Feeds.chain (h : m.Feeds reads e x y) :
    TransGen (m.graphWith reads e).Edge (.modifier x) (.modifier y) := by
  obtain ⟨hx, hy, p, hwrite, hread⟩ := h
  exact .tail (.single (edge_graphWith.2 (.written hx hwrite))) (edge_graphWith.2 (.read hy hread))

end HybridStep.Model
