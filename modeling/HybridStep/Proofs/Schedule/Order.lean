import HybridStep.Proofs.Body.Cache
import HybridStep.Proofs.Schedule.Dependencies

/-! # The order of an entity

The order that is computed with a cache is that of the graph whose updates read what the bodies in
the cache read, whatever else the cache comes to hold. In it every influence, active update and
subentity of the entity stands once, and one that declares to write a port stands before every one
that declares to read it. -/

namespace HybridStep.Model

variable {m : Model} {e : EntityId} {C : BodyCache} {ms : List Modifier}

/-- The ports that an update reads, with the bodies of a cache. -/
def readsIn (m : Model) (C : BodyCache) (u : UpdateId) : List PortId :=
  match C.body? (m.update u).function with
  | some f => (accessedPorts m (m.update u).entity f).toList
  | none => []

/-- The order of an entity, with the bodies of a cache. -/
def Orders (m : Model) (C : BodyCache) (e : EntityId) (ms : List Modifier) : Prop :=
  ∃ nodes, (m.graphWith (m.readsIn C) e).topologicalOrder = .ok nodes ∧
    nodes.filterMap modifierOfNode? = ms

/-! ### Computing it -/

theorem readPorts_ok {u : UpdateId} {c c' : BodyCache} {ps : List PortId}
    (h : m.readPorts u c = .ok ps c') : c.Extends c' ∧ ∀ C, c'.Extends C → m.readsIn C u = ps := by
  unfold readPorts at h
  simp only at h
  split at h
  · next f c₁ hread =>
    cases h
    obtain ⟨hext, hf⟩ := BodyCache.read_ok hread
    refine ⟨hext, fun C hC => ?_⟩
    rw [readsIn, hC.body? hf]
  · cases h

theorem addUpdates_ok : ∀ {us : List UpdateId} {g g' : DependencyGraph} {c c' : BodyCache},
    m.addUpdates g us c = .ok g' c' → c.Extends c' ∧ ∀ C, c'.Extends C →
      us.foldl (fun g u => m.addUpdateEdges g u (m.readsIn C u)) g = g'
  | [], g, g', c, c', h => by
    obtain ⟨rfl, rfl⟩ := Stateful.pure_ok.1 h
    exact ⟨.refl c, fun C _ => rfl⟩
  | u :: us, g, g', c, c', h => by
    obtain ⟨ps, c₁, hread, h⟩ := Stateful.bind_ok.1 h
    obtain ⟨hext, hps⟩ := readPorts_ok hread
    obtain ⟨hext', hg⟩ := addUpdates_ok h
    refine ⟨hext.trans hext', fun C hC => ?_⟩
    rw [List.foldl_cons, hps C (hext'.trans hC)]
    exact hg C hC

theorem dependencyGraph_ok {g : DependencyGraph} {c c' : BodyCache}
    (h : m.dependencyGraph e c = .ok g c') :
    c.Extends c' ∧ ∀ C, c'.Extends C → m.graphWith (m.readsIn C) e = g := by
  obtain ⟨g₁, c₁, hupdates, h⟩ := Stateful.bind_ok.1 h
  obtain ⟨rfl, rfl⟩ := Stateful.pure_ok.1 h
  obtain ⟨hext, hg⟩ := addUpdates_ok hupdates
  exact ⟨hext, fun C hC => by rw [graphWith, hg C hC]⟩

theorem order_ok {c c' : BodyCache} (h : m.order e c = .ok ms c') :
    c.Extends c' ∧ ∀ C, c'.Extends C → m.Orders C e ms := by
  obtain ⟨g, c₁, hgraph, h⟩ := Stateful.bind_ok.1 h
  obtain ⟨hext, hg⟩ := dependencyGraph_ok hgraph
  unfold orderOfGraph at h
  cases horder : g.topologicalOrder with
  | error blocked =>
    rw [horder] at h
    exact (Stateful.throw_ok h).elim
  | ok nodes =>
    rw [horder] at h
    obtain ⟨rfl, rfl⟩ := Stateful.pure_ok.1 h
    exact ⟨hext, fun C hC => ⟨nodes, by rw [hg C hC, horder], rfl⟩⟩

/-! ### What it says -/

theorem mem_filterMap_modifier {nodes : List GraphNode} {x : Modifier} :
    x ∈ nodes.filterMap modifierOfNode? ↔ .modifier x ∈ nodes := by
  rw [List.mem_filterMap]
  constructor
  · rintro ⟨n, hn, hx⟩
    cases n with
    | port p => cases hx
    | modifier y =>
      cases hx
      exact hn
  · exact fun hx => ⟨_, hx, rfl⟩

theorem Orders.mem (h : m.Orders C e ms) {x : Modifier} : x ∈ ms ↔ x ∈ m.parts e := by
  obtain ⟨nodes, hnodes, rfl⟩ := h
  have hs := m.spans_graphWith (m.readsIn C) e
  rw [mem_filterMap_modifier, (DependencyGraph.topologicalOrder_spec hs.closed hnodes).2.1,
    hs.modifiers]

theorem Orders.nodup (h : m.Orders C e ms) : ms.Nodup := by
  obtain ⟨nodes, hnodes, rfl⟩ := h
  have hs := m.spans_graphWith (m.readsIn C) e
  refine (DependencyGraph.topologicalOrder_spec hs.closed hnodes).1.filterMap fun a b x ha hb => ?_
  cases a <;> cases b <;> simp_all [modifierOfNode?]

/-- **Declared writers stand before declared readers.** -/
theorem Orders.writer_before (h : m.Orders C e ms) {x y : Modifier} {p : PortId} (hx : x ∈ ms)
    (hy : y ∈ ms) (hw : p ∈ m.declaredWrites x) (hr : p ∈ m.declaredReads (m.readsIn C) y) :
    ∃ l r, ms = l ++ y :: r ∧ x ∈ l := by
  have hxparts := h.mem.1 hx
  have hyparts := h.mem.1 hy
  obtain ⟨nodes, hnodes, rfl⟩ := h
  have hs := m.spans_graphWith (m.readsIn C) e
  obtain ⟨-, -, hafter⟩ := DependencyGraph.topologicalOrder_spec hs.closed hnodes
  obtain ⟨l, r, rfl⟩ := List.append_of_mem (mem_filterMap_modifier.1 hy)
  have hport := hafter l _ r rfl _ (hs.read hyparts hr)
  obtain ⟨l₁, r₁, rfl⟩ := List.append_of_mem hport
  have hmodifier := hafter l₁ _ (r₁ ++ .modifier y :: r) (by simp) _ (hs.written hxparts hw)
  refine ⟨(l₁ ++ .port p :: r₁).filterMap modifierOfNode?, r.filterMap modifierOfNode?, ?_, ?_⟩
  · rw [List.filterMap_append, List.filterMap_cons]
    rfl
  · exact mem_filterMap_modifier.2 (List.mem_append_left _ hmodifier)

end HybridStep.Model
