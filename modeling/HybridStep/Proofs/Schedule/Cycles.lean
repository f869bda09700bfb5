import HybridStep.Proofs.Schedule.Topological
import Mathlib.Data.Fintype.Card
import Mathlib.Data.Set.Finite.List
import Mathlib.Logic.Relation
import Mathlib.Order.WellFounded

/-! # Cycles

A graph has a topological order if and only if it has no cycle, and otherwise the nodes that are
left are those on a cycle and those that a cycle leads to. The loop stops only when no node is
ready, and then every node that is left has an edge from another one that is left. -/

namespace HybridStep.DependencyGraph

open OrderedMap Relation

/-- There is an edge. -/
def Edge (g : DependencyGraph) (a b : GraphNode) : Prop := b ∈ g.successors a

instance (g : DependencyGraph) : DecidableRel g.Edge := fun a b =>
  inferInstanceAs (Decidable (b ∈ g.successors a))

/-- No chain of edges leads from a node to itself. -/
def Acyclic (g : DependencyGraph) : Prop := ∀ n, ¬ TransGen g.Edge n n

/-- The node lies on a cycle, or a cycle leads to it. -/
def Trapped (g : DependencyGraph) (n : GraphNode) : Prop :=
  ∃ c, TransGen g.Edge c c ∧ ReflTransGen g.Edge c n

/-- All nodes, each once and after all nodes with an edge to it. -/
structure Sorts (g : DependencyGraph) (order : List GraphNode) : Prop where
  nodup : order.Nodup
  mem {n : GraphNode} : n ∈ order ↔ n ∈ g.nodes
  before {l r : List GraphNode} {n a : GraphNode} : order = l ++ n :: r → g.Edge a n → a ∈ l

variable {g : DependencyGraph} {done ready order : List GraphNode} {degrees : Degrees}
variable {a b n : GraphNode}

theorem sorts_of_topologicalOrder (hg : g.Closed) (h : g.topologicalOrder = .ok order) :
    g.Sorts order := by
  obtain ⟨hnodup, hmem, hbefore⟩ := topologicalOrder_spec hg h
  exact ⟨hnodup, hmem _, fun heq he => hbefore _ _ _ heq _ he⟩

theorem mem_nodes_of_transGen (h : TransGen g.Edge a b) : a ∈ g.nodes := by
  cases h using TransGen.head_induction_on with
  | single h => exact mem_nodes_of_successor h
  | head h _ => exact mem_nodes_of_successor h

theorem Trapped.mem_nodes (hg : g.Closed) (h : g.Trapped n) : n ∈ g.nodes := by
  obtain ⟨c, hc, hn⟩ := h
  cases hn with
  | refl => exact mem_nodes_of_transGen hc
  | tail _ hn => exact hg _ _ hn

theorem not_acyclic_of_trapped (h : g.Trapped n) : ¬ g.Acyclic := fun ha =>
  let ⟨c, hc, _⟩ := h
  ha c hc

/-! ### Where every edge comes from before -/

/-- The predecessors of every node in the list stand before it. -/
def Settled (g : DependencyGraph) (l : List GraphNode) : Prop :=
  l.Nodup ∧ ∀ {before after : List GraphNode} {n a : GraphNode},
    l = before ++ n :: after → g.Edge a n → a ∈ before

theorem Settled.mem_of_edge (h : g.Settled done) (hb : b ∈ done) (he : g.Edge a b) : a ∈ done := by
  obtain ⟨l, r, rfl⟩ := List.append_of_mem hb
  exact List.mem_append_left _ (h.2 rfl he)

theorem Settled.idxOf_lt (h : g.Settled done) (hb : b ∈ done) (he : g.Edge a b) :
    done.idxOf a < done.idxOf b := by
  obtain ⟨hnodup, hbefore⟩ := h
  obtain ⟨l, r, rfl⟩ := List.append_of_mem hb
  have ha : a ∈ l := hbefore rfl he
  have hnot : b ∉ l := fun hin =>
    (List.nodup_append.1 hnodup).2.2 b hin b List.mem_cons_self rfl
  rw [List.idxOf_append_of_mem ha, List.idxOf_append_of_notMem hnot, List.idxOf_cons_self,
    Nat.add_zero]
  exact List.idxOf_lt_length_of_mem ha

theorem Settled.idxOf_lt_of_chain (h : g.Settled done) (hb : b ∈ done) (he : TransGen g.Edge a b) :
    done.idxOf a < done.idxOf b := by
  induction he with
  | single he => exact h.idxOf_lt hb he
  | tail _ he ih => exact (ih (h.mem_of_edge hb he)).trans (h.idxOf_lt hb he)

/-- No cycle leads to a node that is listed after all its predecessors. -/
theorem Settled.not_trapped (h : g.Settled done) (hn : n ∈ done) : ¬ g.Trapped n := by
  rintro ⟨c, hc, hcn⟩
  have hin : c ∈ done := by
    clear hc
    induction hcn using ReflTransGen.head_induction_on with
    | refl => exact hn
    | head he _ ih => exact h.mem_of_edge ih he
  exact Nat.lt_irrefl _ (h.idxOf_lt_of_chain hin hc)

theorem Sorts.settled (h : g.Sorts order) : g.Settled order :=
  ⟨h.nodup, fun heq he => h.before heq he⟩

/-- A chain of edges leads forward. -/
theorem Sorts.chain_before (h : g.Sorts order) {l r : List GraphNode} (heq : order = l ++ n :: r)
    (he : TransGen g.Edge a n) : a ∈ l := by
  have hn : n ∈ order := heq ▸ List.mem_append_right _ List.mem_cons_self
  have hlt := h.settled.idxOf_lt_of_chain hn he
  have hnodup := h.nodup
  subst heq
  have hnot : n ∉ l := fun hin =>
    (List.nodup_append.1 hnodup).2.2 n hin n List.mem_cons_self rfl
  rw [List.idxOf_append_of_notMem hnot, List.idxOf_cons_self, Nat.add_zero] at hlt
  by_contra ha
  rw [List.idxOf_append_of_notMem ha] at hlt
  omega

/-! ### When no node is ready -/

/-- A node that no cycle leads to is listed once all nodes without pending edges are. By induction
along the edges into the node: there are finitely many nodes before it, and none of them before
itself. -/
theorem mem_of_not_trapped (hdone : ∀ x ∈ g.nodes, g.pending done x = 0 → x ∈ done)
    (hn : n ∈ g.nodes) (ht : ¬ g.Trapped n) : n ∈ done := by
  let before := {x // x ∈ g.nodes ∧ ReflTransGen g.Edge x n}
  let lt : before → before → Prop := fun x y => TransGen g.Edge x.1 y.1
  have : Finite before :=
    Set.Finite.to_subtype (g.nodes.finite_toSet.subset fun x hx => hx.1)
  have : IsTrans before lt := ⟨fun _ _ _ hxy hyz => hxy.trans hyz⟩
  have : Std.Irrefl lt := ⟨fun x hx => ht ⟨x.1, hx, x.2.2⟩⟩
  have hwf : WellFounded lt := Finite.wellFounded_of_trans_of_irrefl lt
  have hall : ∀ x : before, x.1 ∈ done := fun x => by
    induction x using hwf.induction with
    | _ x ih =>
      refine hdone x.1 x.2.1 (pending_eq_zero.2 fun a ha => ?_)
      exact ih ⟨a, mem_nodes_of_successor ha, .head ha x.2.2⟩ (.single ha)
  exact hall ⟨n, hn, .refl⟩

/-- What else holds whenever a node is taken: the nodes that stand ready are all that could be
listed next. -/
structure Draining (g : DependencyGraph) (done ready : List GraphNode) (degrees : Degrees) :
    Prop where
  settling : g.Settling done ready degrees
  keys : degrees.keys = g.nodes
  within : done ⊆ g.nodes
  settled : g.Settled done
  ready {n : GraphNode} : n ∈ g.nodes → n ∉ done → g.pending done n = 0 → n ∈ ready

theorem keys_dropEdge (s : Degrees × List GraphNode) (stop : GraphNode) :
    (dropEdge s stop).1.keys = s.1.keys := by
  unfold dropEdge
  split
  · next d hd =>
    rw [keys_insert, if_pos (isSome_get?.1 (by rw [hd]; rfl))]
  · rfl

theorem keys_dropEdges : ∀ (edges : List GraphNode) (s : Degrees × List GraphNode),
    (edges.foldl dropEdge s).1.keys = s.1.keys
  | [], _ => rfl
  | b :: edges, s => by rw [List.foldl_cons, keys_dropEdges edges, keys_dropEdge]

theorem keys_countEdges : ∀ (edges : List GraphNode) (degrees : Degrees),
    (edges.foldl countEdge degrees).keys = degrees.keys
  | [], _ => rfl
  | b :: edges, degrees => by
    rw [List.foldl_cons, keys_countEdges edges, countEdge]
    split
    · next d hd => rw [keys_insert, if_pos (isSome_get?.1 (by rw [hd]; rfl))]
    · rfl

theorem keys_ofList_of_nodup {l : List (GraphNode × Nat)} (h : (l.map Prod.fst).Nodup) :
    (OrderedMap.ofList l).keys = l.map Prod.fst := by
  have hfold : ∀ (l : List (GraphNode × Nat)) (m : Degrees), (m.keys ++ l.map Prod.fst).Nodup →
      (l.foldl (fun m p => m.insert p.1 p.2) m).keys = m.keys ++ l.map Prod.fst := by
    intro l
    induction l with
    | nil => simp
    | cons p l ih =>
      intro m hm
      have hp : p.1 ∉ m.keys := fun hp =>
        (List.nodup_append.1 hm).2.2 p.1 hp p.1 List.mem_cons_self rfl
      have hkeys : (m.insert p.1 p.2).keys = m.keys ++ [p.1] := by rw [keys_insert, if_neg hp]
      rw [List.foldl_cons, ih _ (by rw [hkeys]; simpa using hm), hkeys]
      simp
  simpa [OrderedMap.ofList, OrderedMap.empty, OrderedMap.keys] using
    hfold l .empty (by simpa [OrderedMap.empty, OrderedMap.keys] using h)

theorem keys_degrees (g : DependencyGraph) : g.degrees.keys = g.nodes := by
  have hfst : (g.nodes.map fun n => (n, 0)).map Prod.fst = g.nodes := by
    simp [Function.comp_def]
  rw [degrees, keys_countEdges, keys_ofList_of_nodup (by rw [hfst]; exact g.adjacency.nodup), hfst]

theorem draining_start (g : DependencyGraph) :
    g.Draining [] (readyNodes g.degrees) g.degrees where
  settling := g.settling_start
  keys := keys_degrees g
  within := List.nil_subset _
  settled := ⟨List.nodup_nil, fun h => by simp at h⟩
  ready := fun {n} hn _ hzero => by
    have hget := get?_degrees hn
    rw [hzero] at hget
    exact List.mem_map.2 ⟨(n, 0), List.mem_filter.2 ⟨mem_entries.2 hget, by simp⟩, rfl⟩

theorem Settled.snoc (h : g.Settled done) (hn : n ∉ done) (hpreds : ∀ a, g.Edge a n → a ∈ done) :
    g.Settled (done ++ [n]) := by
  refine ⟨List.nodup_append.2 ⟨h.1, List.nodup_singleton n, fun a ha b hb hab =>
    hn (List.mem_singleton.1 hb ▸ hab ▸ ha)⟩, fun {l r x a} heq he => ?_⟩
  rcases List.eq_nil_or_concat r with rfl | ⟨r, y, rfl⟩
  · obtain ⟨rfl, hx⟩ := List.append_inj' heq rfl
    obtain rfl : n = x := by simpa using hx
    exact hpreds a he
  · have heq' : done ++ [n] = (l ++ x :: r) ++ [y] := by simpa using heq
    exact h.2 (List.append_inj' heq' rfl).1 he

theorem Draining.next (h : g.Draining done (n :: ready) degrees) (hg : g.Closed) :
    g.Draining (done ++ [n]) ((g.successors n).toList.foldl dropEdge (degrees, ready)).2
      ((g.successors n).toList.foldl dropEdge (degrees, ready)).1 := by
  obtain ⟨hn, hnd, hzero⟩ := h.settling.ready List.mem_cons_self
  have hstep : ∀ b, g.pending done b =
      g.pending (done ++ [n]) b + if b ∈ g.successors n then 1 else 0 :=
    fun b => pending_append hn hnd
  have hleft : ∀ b ∈ (g.successors n).toList, degrees.get? b =
      some (g.pending (done ++ [n]) b + 1) := fun b hb => by
    rw [h.settling.degrees (hg n b hb), hstep b, if_pos (show b ∈ g.successors n from hb)]
  obtain ⟨-, hnew⟩ := dropEdges_eq ready (g.successors n).nodup fun b hb => ⟨_, hleft b hb⟩
  refine ⟨h.settling.next hg, (keys_dropEdges _ _).trans h.keys, ?_,
    h.settled.snoc hnd (pending_eq_zero.1 hzero), fun {b} hb hdone hb0 => ?_⟩
  · exact List.append_subset.2 ⟨h.within, List.cons_subset.2 ⟨hn, List.nil_subset _⟩⟩
  · rw [List.mem_append, List.mem_singleton, not_or] at hdone
    rw [hnew, List.mem_append, List.mem_filter]
    by_cases hs : b ∈ g.successors n
    · refine .inr ⟨hs, ?_⟩
      rw [hleft b hs, hb0]
      simp
    · have hb0' : g.pending done b = 0 := by rw [hstep b, hb0, if_neg hs]
      exact .inl ((List.mem_cons.1 (h.ready hb hdone.1 hb0')).resolve_left hdone.2)

theorem length_nodes (g : DependencyGraph) : g.nodes.length = g.size := List.length_map _

theorem Draining.length_lt (h : g.Draining done (n :: ready) degrees) : done.length < g.size := by
  obtain ⟨hn, hnd, -⟩ := h.settling.ready List.mem_cons_self
  have hnodup : (n :: done).Nodup := List.nodup_cons.2 ⟨hnd, h.settled.1⟩
  have hle := (List.subperm_of_subset hnodup (List.cons_subset.2 ⟨hn, h.within⟩)).length_le
  rwa [length_nodes] at hle

/-- Where the loop ends, no node stands ready. -/
theorem settle_drains (hg : g.Closed) : ∀ (fuel : Nat) {done ready : List GraphNode}
    {degrees : Degrees}, g.Draining done ready degrees → g.size ≤ done.length + fuel →
      g.Draining (done ++ (g.settle fuel degrees ready).1) [] (g.settle fuel degrees ready).2
  | fuel, done, [], degrees, h, _ => by
    cases fuel <;> simpa [settle] using h
  | 0, done, n :: ready, degrees, h, hfuel => by
    have := h.length_lt
    omega
  | fuel + 1, done, n :: ready, degrees, h, hfuel => by
    have hrest := settle_drains hg fuel (h.next hg) (by
      rw [List.length_append, List.length_singleton]
      omega)
    rwa [List.append_assoc] at hrest

/-! ### What is listed and what is left -/

theorem Draining.mem_iff (h : g.Draining done [] degrees) :
    n ∈ done ↔ n ∈ g.nodes ∧ ¬ g.Trapped n := by
  have hdone : ∀ x ∈ g.nodes, g.pending done x = 0 → x ∈ done := fun x hx hzero => by
    by_contra hnot
    exact List.not_mem_nil (h.ready hx hnot hzero)
  exact ⟨fun hn => ⟨h.within hn, h.settled.not_trapped hn⟩,
    fun ⟨hn, ht⟩ => mem_of_not_trapped hdone hn ht⟩

/-- The nodes with an edge left into them, in the order of the graph. -/
theorem Draining.blocked (h : g.Draining done [] degrees) (hg : g.Closed) :
    (blockedNodes degrees).Sublist g.nodes ∧
      ∀ n, n ∈ blockedNodes degrees ↔ g.Trapped n := by
  refine ⟨h.keys ▸ List.filter_sublist.map _, fun n => ?_⟩
  have hmem : n ∈ blockedNodes degrees ↔ n ∈ g.nodes ∧ g.pending done n ≠ 0 := by
    simp only [blockedNodes, List.mem_map, List.mem_filter, decide_eq_true_eq, Prod.exists,
      exists_and_right, exists_eq_right]
    constructor
    · rintro ⟨d, hd, hpos⟩
      have hn : n ∈ g.nodes := h.keys ▸ List.mem_map.2 ⟨(n, d), hd, rfl⟩
      have hget := mem_entries.1 hd
      rw [h.settling.degrees hn] at hget
      exact ⟨hn, by rw [Option.some.inj hget]; omega⟩
    · rintro ⟨hn, hpos⟩
      exact ⟨_, mem_entries.2 (h.settling.degrees hn), Nat.pos_of_ne_zero hpos⟩
  have hlisted : n ∈ g.nodes → (g.pending done n ≠ 0 ↔ n ∉ done) := fun hn =>
    ⟨fun hpos hd => hpos (h.settling.done hd), fun hnot hzero =>
      List.not_mem_nil (h.ready hn hnot hzero)⟩
  rw [hmem]
  constructor
  · rintro ⟨hn, hpos⟩
    by_contra ht
    exact (hlisted hn).1 hpos (h.mem_iff.2 ⟨hn, ht⟩)
  · intro ht
    have hn := ht.mem_nodes hg
    exact ⟨hn, (hlisted hn).2 fun hd => (h.mem_iff.1 hd).2 ht⟩

theorem acyclic_iff : g.Acyclic ↔ ∀ n ∈ g.nodes, ¬ g.Trapped n :=
  ⟨fun h _ _ ht => not_acyclic_of_trapped ht h,
    fun h n hn => h n (mem_nodes_of_transGen hn) ⟨n, hn, .refl⟩⟩

/-- The last state of the loop. -/
theorem drained (hg : g.Closed) :
    g.Draining (g.settle g.size g.degrees (readyNodes g.degrees)).1 []
      (g.settle g.size g.degrees (readyNodes g.degrees)).2 := by
  simpa using settle_drains hg g.size g.draining_start (Nat.le_add_left _ _)

theorem Draining.length_eq_iff (h : g.Draining done [] degrees) :
    done.length = g.size ↔ g.Acyclic := by
  have hsubperm := List.subperm_of_subset h.settled.1 h.within
  have hsize := g.length_nodes
  rw [acyclic_iff]
  constructor
  · intro hlength n hn
    have hperm := hsubperm.perm_of_length_le (by omega)
    exact (h.mem_iff.1 (hperm.mem_iff.2 hn)).2
  · intro hnone
    have hback : g.nodes ⊆ done := fun n hn => h.mem_iff.2 ⟨hn, hnone n hn⟩
    have hnodup : g.nodes.Nodup := g.adjacency.nodup
    have hle := (List.subperm_of_subset hnodup hback).length_le
    have hle' := hsubperm.length_le
    omega

/-- **A graph has a topological order if and only if it has no cycle.** Otherwise the nodes on a
cycle and those that a cycle leads to are given, in the order in which they were added. -/
theorem topologicalOrder_cases (hg : g.Closed) :
    (g.Acyclic ∧ ∃ order, g.topologicalOrder = .ok order ∧ g.Sorts order) ∨
    (¬ g.Acyclic ∧ ∃ blocked, g.topologicalOrder = .error blocked ∧ blocked.Sublist g.nodes ∧
      ∀ n, n ∈ blocked ↔ g.Trapped n) := by
  have h := drained hg
  by_cases hlength : (g.settle g.size g.degrees (readyNodes g.degrees)).1.length = g.size
  · have hok : g.topologicalOrder =
        .ok (g.settle g.size g.degrees (readyNodes g.degrees)).1 := if_pos hlength
    exact .inl ⟨h.length_eq_iff.1 hlength, _, hok, sorts_of_topologicalOrder hg hok⟩
  · have herror : g.topologicalOrder =
        .error (blockedNodes (g.settle g.size g.degrees (readyNodes g.degrees)).2) :=
      if_neg hlength
    exact .inr ⟨fun ha => hlength (h.length_eq_iff.2 ha), _, herror, h.blocked hg⟩

end HybridStep.DependencyGraph
