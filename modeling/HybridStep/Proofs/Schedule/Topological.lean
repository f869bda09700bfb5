import HybridStep.Proofs.Ordered.Bindings
import HybridStep.Schedule.Graph
import Mathlib.Data.List.Nodup
import Mathlib.Data.List.Perm.Subperm
import Mathlib.Tactic.SplitIfs

/-! # Topological orders

The order of a graph lists each of its nodes once, and every edge leads forward in it. The invariant
of the loop is that the degree of a node is the number of edges into it from nodes that are not
listed yet, and that the nodes that are ready are different, not listed, and of degree zero. -/

namespace HybridStep.DependencyGraph

open OrderedMap

/-- The ends of edges are nodes. -/
def Closed (g : DependencyGraph) : Prop := ∀ a, ∀ b ∈ g.successors a, b ∈ g.nodes

variable {g : DependencyGraph} {done ready order : List GraphNode} {degrees : Degrees}
variable {a b n : GraphNode}

theorem mem_nodes_of_successor (h : b ∈ g.successors a) : a ∈ g.nodes := by
  by_contra hn
  rw [successors, get?_eq_none_iff.2 hn] at h
  exact OrderedSet.not_mem_empty b h

/-- The number of edges into a node from nodes that are not listed yet. -/
def pending (g : DependencyGraph) (done : List GraphNode) (b : GraphNode) : Nat :=
  g.nodes.countP fun a => a ∉ done ∧ b ∈ g.successors a

theorem pending_eq_zero : g.pending done b = 0 ↔ ∀ a, b ∈ g.successors a → a ∈ done := by
  rw [pending, List.countP_eq_zero]
  constructor
  · intro h a hb
    by_contra ha
    simpa [ha, hb] using h a (mem_nodes_of_successor hb)
  · intro h a _
    simpa using fun ha hb => ha (h a hb)

theorem countP_and_ne {α : Type} [DecidableEq α] {p : α → Bool} {x : α} :
    ∀ {l : List α}, l.Nodup → x ∈ l → p x = true →
      l.countP p = l.countP (fun y => p y && decide (y ≠ x)) + 1
  | [], _, hx, _ => by cases hx
  | y :: l, hl, hx, hp => by
    rw [List.nodup_cons] at hl
    rw [List.countP_cons, List.countP_cons]
    by_cases he : y = x
    · subst he
      have hsame : l.countP p = l.countP fun z => p z && decide (z ≠ y) :=
        List.countP_congr fun z hz => by
          have : z ≠ y := fun h => hl.1 (h ▸ hz)
          simp [this]
      simp [hp, hsame]
    · have ih := countP_and_ne hl.2 ((List.mem_cons.1 hx).resolve_left (Ne.symm he)) hp
      rw [ih]
      simp [he]
      omega

/-- Listing a node takes its edges away. -/
theorem pending_append (ha : a ∈ g.nodes) (hd : a ∉ done) :
    g.pending done b = g.pending (done ++ [a]) b + if b ∈ g.successors a then 1 else 0 := by
  by_cases hb : b ∈ g.successors a
  · have hnodup : g.nodes.Nodup := g.adjacency.nodup
    rw [if_pos hb, pending, countP_and_ne hnodup ha (by simpa using ⟨hd, hb⟩), pending]
    congr 1
    refine List.countP_congr fun x _ => ?_
    simp only [List.mem_append, List.mem_singleton, Bool.and_eq_true, decide_eq_true_eq]
    tauto
  · rw [if_neg hb, Nat.add_zero, pending, pending]
    refine List.countP_congr fun x _ => ?_
    simp only [List.mem_append, List.mem_singleton, decide_eq_true_eq, not_or]
    constructor
    · exact fun h => ⟨⟨h.1, fun he => hb (he ▸ h.2)⟩, h.2⟩
    · exact fun h => ⟨h.1.1, h.2⟩

/-! ### Degrees -/

theorem get?_countEdge : (countEdge degrees b).get? n =
    (degrees.get? n).map fun d => if n = b then d + 1 else d := by
  unfold countEdge
  cases hb : degrees.get? b with
  | none =>
    by_cases hn : n = b
    · subst hn
      simp [hb]
    · simp [hn]
  | some d =>
    by_cases hn : n = b
    · subst hn
      simp [hb]
    · simp [hn]

theorem get?_countEdges : ∀ {edges : List GraphNode} {degrees : Degrees},
    (edges.foldl countEdge degrees).get? n = (degrees.get? n).map fun d => d + edges.count n
  | [], degrees => by simp
  | b :: edges, degrees => by
    rw [List.foldl_cons, get?_countEdges, get?_countEdge, Option.map_map]
    congr 1
    funext d
    by_cases hn : n = b
    · subst hn
      simp
      omega
    · simp [hn, Ne.symm hn]

theorem get?_zeros {nodes : List GraphNode} :
    (OrderedMap.ofList (nodes.map fun n => (n, 0))).get? n =
      if n ∈ nodes then some 0 else none := by
  have hfold : ∀ (l : List GraphNode) (m : Degrees),
      ((l.map fun n => (n, 0)).foldl (fun m p => m.insert p.1 p.2) m).get? n =
        if n ∈ l then some 0 else m.get? n := by
    intro l
    induction l with
    | nil => simp
    | cons x l ih =>
      intro m
      rw [List.map_cons, List.foldl_cons, ih]
      by_cases hx : n ∈ l <;> by_cases he : n = x <;> simp [hx, he]
  rw [OrderedMap.ofList, hfold, get?_empty]

theorem count_toList (s : OrderedSet GraphNode) : s.toList.count b = if b ∈ s then 1 else 0 := by
  split_ifs with h
  · exact List.count_eq_one_of_mem s.nodup h
  · exact List.count_eq_zero.2 h

/-- At first all edges are left. -/
theorem get?_degrees (h : n ∈ g.nodes) : g.degrees.get? n = some (g.pending [] n) := by
  have hsum : ∀ l : List (GraphNode × OrderedSet GraphNode), l ⊆ g.adjacency.entries →
      ((l.map Prod.snd).flatMap OrderedSet.toList).count n =
        (l.map Prod.fst).countP fun a => decide (n ∈ g.successors a) := by
    intro l
    induction l with
    | nil => simp
    | cons p l ih =>
      intro hl
      rw [List.cons_subset] at hl
      have hp : g.successors p.1 = p.2 := by
        rw [successors, mem_entries.1 (show (p.1, p.2) ∈ g.adjacency.entries from hl.1)]
        rfl
      rw [List.map_cons, List.flatMap_cons, List.count_append, ih hl.2, List.map_cons,
        List.countP_cons, hp, count_toList, Nat.add_comm]
      simp
  rw [degrees, get?_countEdges, get?_zeros, if_pos h, Option.map_some, Nat.zero_add, values,
    hsum _ (List.Subset.refl _), pending]
  simp [nodes, keys]

/-! ### The loop -/

/-- What holds whenever a node is taken. -/
structure Settling (g : DependencyGraph) (done ready : List GraphNode) (degrees : Degrees) :
    Prop where
  degrees {n : GraphNode} : n ∈ g.nodes → degrees.get? n = some (g.pending done n)
  ready_nodup : ready.Nodup
  ready {n : GraphNode} : n ∈ ready → n ∈ g.nodes ∧ n ∉ done ∧ g.pending done n = 0
  done {n : GraphNode} : n ∈ done → g.pending done n = 0

/-- Edges into different nodes that each have an edge left are taken away. -/
theorem dropEdges_eq : ∀ {edges : List GraphNode} (ready : List GraphNode) {degrees : Degrees},
    edges.Nodup →
    (∀ b ∈ edges, ∃ d, degrees.get? b = some (d + 1)) →
      (∀ n, (edges.foldl dropEdge (degrees, ready)).1.get? n =
        if n ∈ edges then (degrees.get? n).map Nat.pred else degrees.get? n) ∧
      (edges.foldl dropEdge (degrees, ready)).2 =
        ready ++ edges.filter fun b => degrees.get? b = some 1
  | [], ready, degrees, _, _ => by simp
  | b :: edges, ready, degrees, hnodup, hleft => by
    rw [List.nodup_cons] at hnodup
    obtain ⟨d, hd⟩ := hleft b List.mem_cons_self
    have hstep : dropEdge (degrees, ready) b =
        (degrees.insert b d, if d = 0 then ready ++ [b] else ready) := by
      simp [dropEdge, hd]
    have hother : ∀ n ∈ edges, (degrees.insert b d).get? n = degrees.get? n := fun n hn => by
      have he : n ≠ b := fun he => hnodup.1 (he ▸ hn)
      rw [get?_insert, if_neg he]
    have hrest : ∀ n ∈ edges, ∃ k, (degrees.insert b d).get? n = some (k + 1) := fun n hn => by
      rw [hother n hn]
      exact hleft n (List.mem_cons_of_mem _ hn)
    obtain ⟨h1, h2⟩ := dropEdges_eq (if d = 0 then ready ++ [b] else ready) hnodup.2 hrest
    rw [List.foldl_cons, hstep]
    refine ⟨fun n => ?_, ?_⟩
    · rw [h1]
      by_cases hn : n ∈ edges
      · simp [hn, hother n hn]
      · by_cases he : n = b
        · subst he
          simp [hn, hd]
        · simp [hn, he]
    · rw [h2, List.filter_cons, List.filter_congr fun n hn => by rw [hother n hn]]
      by_cases h0 : d = 0 <;> simp [h0, hd]

theorem Settling.next (h : g.Settling done (n :: ready) degrees) (hg : g.Closed) :
    g.Settling (done ++ [n]) ((g.successors n).toList.foldl dropEdge (degrees, ready)).2
      ((g.successors n).toList.foldl dropEdge (degrees, ready)).1 := by
  obtain ⟨hn, hdone, hzero⟩ := h.ready List.mem_cons_self
  have hready := List.nodup_cons.1 h.ready_nodup
  have hstep : ∀ b, g.pending done b =
      g.pending (done ++ [n]) b + if b ∈ g.successors n then 1 else 0 :=
    fun b => pending_append hn hdone
  have hleft : ∀ b ∈ (g.successors n).toList, degrees.get? b =
      some (g.pending (done ++ [n]) b + 1) := fun b hb => by
    rw [h.degrees (hg n b hb), hstep b, if_pos (show b ∈ g.successors n from hb)]
  obtain ⟨hdegrees, hnew⟩ := dropEdges_eq ready (g.successors n).nodup
    fun b hb => ⟨_, hleft b hb⟩
  -- a node that becomes ready has had an edge left until now
  have hfresh : ∀ b ∈ (g.successors n).toList, b ∉ n :: ready ∧ b ∉ done := fun b hb => by
    have hpos : g.pending done b ≠ 0 := by
      rw [hstep b, if_pos (show b ∈ g.successors n from hb)]
      omega
    exact ⟨fun hr => hpos (h.ready hr).2.2, fun hd => hpos (h.done hd)⟩
  have hle : ∀ b, g.pending done b = 0 → g.pending (done ++ [n]) b = 0 := fun b hb => by
    have := hstep b
    omega
  refine ⟨fun {b} hb => ?_, ?_, fun {b} hb => ?_, fun {b} hb => ?_⟩
  · rw [hdegrees, h.degrees hb, hstep b]
    by_cases hs : b ∈ g.successors n
    · rw [if_pos hs, if_pos (show b ∈ (g.successors n).toList from hs)]
      simp
    · rw [if_neg hs, if_neg (show b ∉ (g.successors n).toList from hs), Nat.add_zero]
  · rw [hnew]
    refine List.nodup_append.2 ⟨hready.2, (g.successors n).nodup.filter _, fun a ha b hb hab => ?_⟩
    subst hab
    exact (hfresh a (List.mem_of_mem_filter hb)).1 (List.mem_cons_of_mem _ ha)
  · rw [hnew, List.mem_append, List.mem_filter] at hb
    rw [List.mem_append, List.mem_singleton, not_or]
    rcases hb with hb | ⟨hb, hone⟩
    · obtain ⟨hnode, hnd, hz⟩ := h.ready (List.mem_cons_of_mem _ hb)
      exact ⟨hnode, ⟨hnd, fun he => hready.1 (he ▸ hb)⟩, hle b hz⟩
    · obtain ⟨hnr, hnd⟩ := hfresh b hb
      rw [hleft b hb] at hone
      refine ⟨hg n b hb, ⟨hnd, fun he => hnr (he ▸ List.mem_cons_self)⟩, ?_⟩
      simpa using hone
  · rcases List.mem_append.1 hb with hb | hb
    · exact hle b (h.done hb)
    · rw [List.mem_singleton.1 hb]
      exact hle n hzero

/-- What is listed from a state of the loop on: different nodes, none of them listed before, and
each after all nodes with an edge to it. -/
theorem settle_spec (hg : g.Closed) : ∀ (fuel : Nat) {done ready : List GraphNode}
    {degrees : Degrees}, g.Settling done ready degrees →
      (g.settle fuel degrees ready).1.Nodup ∧
      (∀ n ∈ (g.settle fuel degrees ready).1, n ∈ g.nodes ∧ n ∉ done) ∧
      ∀ l n r, (g.settle fuel degrees ready).1 = l ++ n :: r →
        ∀ a, n ∈ g.successors a → a ∈ done ++ l
  | 0, done, ready, degrees, _ => by simp [settle]
  | fuel + 1, done, [], degrees, _ => by simp [settle]
  | fuel + 1, done, x :: ready, degrees, h => by
    have hnext := h.next hg
    obtain ⟨hx, hdone, hzero⟩ := h.ready List.mem_cons_self
    obtain ⟨hnodup, hmem, hafter⟩ := settle_spec hg fuel hnext
    have hsettle : (g.settle (fuel + 1) degrees (x :: ready)).1 =
        x :: (g.settle fuel ((g.successors x).toList.foldl dropEdge (degrees, ready)).1
          ((g.successors x).toList.foldl dropEdge (degrees, ready)).2).1 := rfl
    rw [hsettle]
    refine ⟨List.nodup_cons.2 ⟨fun hin => (hmem x hin).2 (by simp), hnodup⟩, fun n hn => ?_, ?_⟩
    · rcases List.mem_cons.1 hn with rfl | hn
      · exact ⟨hx, hdone⟩
      · obtain ⟨hnode, hnd⟩ := hmem n hn
        exact ⟨hnode, fun hd => hnd (List.mem_append_left _ hd)⟩
    · intro l n r heq a ha
      cases l with
      | nil =>
        obtain ⟨rfl, -⟩ := List.cons.inj heq
        exact List.mem_append_left _ (pending_eq_zero.1 hzero a ha)
      | cons y l =>
        obtain ⟨rfl, htail⟩ := List.cons.inj heq
        simpa using hafter l n r htail a ha

theorem settling_start (g : DependencyGraph) :
    g.Settling [] (readyNodes g.degrees) g.degrees := by
  refine ⟨get?_degrees, ?_, fun {n} hn => ?_, fun hn => by cases hn⟩
  · exact List.Nodup.sublist (List.filter_sublist.map _) g.degrees.nodup
  · obtain ⟨⟨b, d⟩, hmem, rfl⟩ := List.mem_map.1 hn
    obtain ⟨hmem, hzero⟩ := List.mem_filter.1 hmem
    obtain rfl : d = 0 := by simpa using hzero
    have hget := mem_entries.1 hmem
    have hb : b ∈ g.nodes := by
      by_contra hb
      rw [degrees, get?_countEdges, get?_zeros, if_neg hb] at hget
      cases hget
    rw [get?_degrees hb] at hget
    exact ⟨hb, List.not_mem_nil, Option.some.inj hget⟩

/-- **The order of a graph** lists its nodes, each once and after all nodes with an edge to it. -/
theorem topologicalOrder_spec (hg : g.Closed) (h : g.topologicalOrder = .ok order) :
    order.Nodup ∧ (∀ n, n ∈ order ↔ n ∈ g.nodes) ∧
      ∀ l n r, order = l ++ n :: r → ∀ a, n ∈ g.successors a → a ∈ l := by
  obtain ⟨hnodup, hmem, hafter⟩ := settle_spec hg g.size g.settling_start
  unfold topologicalOrder at h
  simp only at h
  split_ifs at h with hlength
  cases h
  have hsubset : (g.settle g.size g.degrees (readyNodes g.degrees)).1 ⊆ g.nodes :=
    fun n hn => (hmem n hn).1
  have hperm := (List.subperm_of_subset hnodup hsubset).perm_of_length_le
    (Nat.le_of_eq (by rw [hlength, nodes, keys, List.length_map, size, OrderedMap.size]))
  exact ⟨hnodup, fun n => hperm.mem_iff, fun l n r heq a ha => by simpa using hafter l n r heq a ha⟩

end HybridStep.DependencyGraph
