import HybridStep.Proofs.Schedule.Chains
import HybridStep.Proofs.Step.Listing
import HybridStep.Proofs.Step.Unfolding

/-! # What is scheduled

An entity whose bodies can be read has an order if and only if none of its parts feeds itself
through others. The order has every part once, and without one the parts and ports are named that
a circle leads to. So a step lists every influence and every active update of the entity and of all
entities inside it, each of them once. -/

namespace HybridStep

open DependencyGraph Relation

namespace Model

variable {m : Model} {options : Options} {C : BodyCache} {e a : EntityId} {xs : List Modifier}

/-! ### Reading the bodies -/

/-- The bodies of the active updates of an entity can be read. -/
def Readable (m : Model) (e : EntityId) : Prop :=
  ∀ u ∈ m.activeUpdates e, ∃ f, UpdateFunction.read (m.update u).function = .ok f

theorem readPorts_total {u : UpdateId} {f : UpdateFunction} (c : BodyCache)
    (hf : UpdateFunction.read (m.update u).function = .ok f) :
    ∃ ps c', m.readPorts u c = .ok ps c' := by
  have hread : ∃ f' c', c.read (m.update u).function = (.ok f', c') := by
    unfold BodyCache.read
    split
    · exact ⟨_, _, rfl⟩
    · rw [hf]
      exact ⟨_, _, rfl⟩
  obtain ⟨f', c', hread⟩ := hread
  refine ⟨(accessedPorts m (m.update u).entity f').toList, c', ?_⟩
  simp only [readPorts, hread]

theorem addUpdates_total : ∀ (us : List UpdateId) (g : DependencyGraph) (c : BodyCache),
    (∀ u ∈ us, ∃ f, UpdateFunction.read (m.update u).function = .ok f) →
      ∃ g' c', m.addUpdates g us c = .ok g' c'
  | [], g, c, _ => ⟨g, c, rfl⟩
  | u :: us, g, c, h => by
    obtain ⟨f, hf⟩ := h u List.mem_cons_self
    obtain ⟨ps, c₁, hread⟩ := readPorts_total c hf
    obtain ⟨g', c', hrest⟩ := addUpdates_total us (m.addUpdateEdges g u ps) c₁
      fun v hv => h v (List.mem_cons_of_mem _ hv)
    exact ⟨g', c', Stateful.bind_ok.2 ⟨ps, c₁, hread, hrest⟩⟩

theorem Readable.graph (h : m.Readable e) (c : BodyCache) :
    ∃ g c', m.dependencyGraph e c = .ok g c' := by
  obtain ⟨g, c', hupdates⟩ := addUpdates_total (m.activeUpdates e)
    ((m.entity e).influences.foldl m.addInfluenceEdges .empty) c h
  exact ⟨_, c', Stateful.bind_ok.2 ⟨g, c', hupdates, rfl⟩⟩

/-- The order is that of the graph. -/
theorem order_of_graph {g : DependencyGraph} {c c' : BodyCache}
    (h : m.dependencyGraph e c = .ok g c') : m.order e c =
      match m.orderOfGraph e g with
      | .ok ms => .ok ms c'
      | .error err => .error err c' := by
  unfold order
  simp only [bind, EStateM.bind, h]
  cases m.orderOfGraph e g <;> rfl

/-! ### The modifiers of a step -/

/-- The influences and the active updates of an entity. -/
def leaves (m : Model) (e : EntityId) : List Modifier :=
  (m.entity e).influences.map .influence ++ (m.activeUpdates e).map .update

theorem mem_parts {x : Modifier} : x ∈ m.parts e ↔
    x ∈ m.leaves e ∨ ∃ s ∈ (m.entity e).subentities, x = .subentity s := by
  rw [parts, List.mem_append, ← leaves, List.mem_map]
  simp only [eq_comm]

theorem mem_subtree (hm : m.WellFormed) : a ∈ m.subtree e ↔
    a = e ∨ ∃ s ∈ (m.entity e).subentities, a ∈ m.subtree s := by
  rw [subtree, List.mem_cons, List.mem_flatMap]
  refine or_congr Iff.rfl (exists_congr fun s => and_congr_right fun hs => ?_)
  obtain ⟨hlt, hparent⟩ := hm.subentities.owned hs
  rw [if_pos ⟨hm.below hparent, hlt⟩]

end Model

end HybridStep
