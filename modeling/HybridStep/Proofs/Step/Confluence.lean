import HybridStep.Proofs.Step.Locality

/-! # Any topological order

A part of an entity sees of the parts before it only the ports that both use and one of them writes.
If the dependency graph joins any two parts that conflict in this way, then the same conflicting
parts stand before a part in every topological order, so it is encoded alike in all of them: they
succeed together, every modifier gets the same constraints, and the same ports are noted. -/

namespace HybridStep

open DependencyGraph Relation

/-! ### Seeding -/

namespace Model

variable {m : Model} {e : EntityId} {t : SymbolTable}

theorem WellFormed.exists_priorTerm (hm : m.WellFormed) {q : PortId}
    (hq : q.index < m.ports.length) : ∃ term, SymbolTable.priorTerm m q = .ok term := by
  obtain ⟨term, hterm⟩ := hm.exists_constant? hq
  exact ⟨term, by simp only [SymbolTable.priorTerm, hterm]⟩

theorem seedPorts_total (hm : m.WellFormed) : ∀ {ports : List PortId} {t : SymbolTable},
    (∀ q ∈ ports, q.index < m.ports.length) → t.Canonical m →
      ∃ t', Tabled.seedPorts m ports t = .ok () t'
  | [], t, _, _ => ⟨t, rfl⟩
  | q :: ports, t, hports, hc => by
    rw [List.forall_mem_cons] at hports
    have hgrow : ∀ {t₁ t₂ : SymbolTable} {v term}, t₁.Canonical m →
        t₁.port m q v = .ok (term, t₂) → t₂.Canonical m := fun hc h =>
      hc.grow (SymbolTable.port_ok h).1 fun _ _ _ => fits_of_portHandle
    obtain ⟨t₁, hcurrent⟩ := hc.port_iff.2 (SymbolTable.portTerm_of_ne (p := q)
      (show Version.current ≠ .prior by simp [Version.prior]))
    obtain ⟨term, hterm⟩ := hm.exists_priorTerm hports.1
    have hprior : SymbolTable.portTerm m q .prior = .ok term := by
      rw [SymbolTable.portTerm, if_pos rfl, hterm]
    obtain ⟨t₂, hprior⟩ := (hgrow hc hcurrent).port_iff.2 hprior
    obtain ⟨t', hrest⟩ := seedPorts_total hm hports.2 (hgrow (hgrow hc hcurrent) hprior)
    exact ⟨t', Stateful.bind_ok.2 ⟨_, t₁, Tabled.lift_ok.2 hcurrent,
      Stateful.bind_ok.2 ⟨_, t₂, Tabled.lift_ok.2 hprior, hrest⟩⟩⟩

/-- A fresh table can be seeded. -/
theorem seed_total (hm : m.WellFormed) (e : EntityId) (stepName : String) :
    ∃ t, Tabled.seed m e (.fresh stepName) = .ok () t := by
  refine seedPorts_total hm (fun q hq => ?_) (SymbolTable.canonical_fresh m stepName)
  obtain ⟨a, -, hq⟩ := List.mem_flatMap.1 hq
  exact (hm.ports.owned hq).1

end Model

/-! ### Positions in topological orders -/

namespace DependencyGraph

variable {g : DependencyGraph} {nodes nodes' : List GraphNode} {a n : GraphNode}
variable {x y : Modifier} {l r l' r' : List Modifier}

/-- No chain of edges leads back. -/
theorem Sorts.not_chain_back (h : g.Sorts nodes) {before after : List GraphNode}
    (heq : nodes = before ++ n :: after) (ha : a ∈ before) : ¬ TransGen g.Edge n a := by
  intro hchain
  obtain ⟨first, second, rfl⟩ := List.append_of_mem ha
  have hn : n ∈ first := h.chain_before (r := second ++ n :: after) (by simp [heq]) hchain
  have hnodup := heq ▸ h.nodup
  exact (List.nodup_append.1 hnodup).2.2 n (List.mem_append_left _ hn) n List.mem_cons_self rfl

/-- The modifiers of an order of nodes. -/
def modifiersOf (nodes : List GraphNode) : List Modifier := nodes.filterMap Model.modifierOfNode?

theorem mem_modifiersOf : x ∈ modifiersOf nodes ↔ .modifier x ∈ nodes :=
  Model.mem_filterMap_modifier

theorem Sorts.modifiers_nodup (h : g.Sorts nodes) : (modifiersOf nodes).Nodup :=
  h.nodup.filterMap fun a b x ha hb => by
    cases a <;> cases b <;> simp_all [Model.modifierOfNode?]

theorem modifiersOf_split (h : modifiersOf nodes = l ++ x :: r) :
    ∃ before after, nodes = before ++ .modifier x :: after ∧ modifiersOf before = l := by
  obtain ⟨first, rest, rfl, hfirst, hrest⟩ := List.filterMap_eq_append_iff.1 h
  obtain ⟨skipped, n, after, rfl, hskipped, hn, -⟩ := List.filterMap_eq_cons_iff.1 hrest
  cases n with
  | port q => cases hn
  | modifier y =>
    cases hn
    refine ⟨first ++ skipped, after, by simp, ?_⟩
    rw [modifiersOf, List.filterMap_append, hfirst, List.filterMap_eq_nil_iff.2 hskipped,
      List.append_nil]

/-- **Two modifiers that a chain joins stand alike in all topological orders.** -/
theorem Sorts.before_of_before (h : g.Sorts nodes) (h' : g.Sorts nodes')
    (heq : modifiersOf nodes = l ++ x :: r) (heq' : modifiersOf nodes' = l' ++ x :: r')
    (hjoined : TransGen g.Edge (.modifier y) (.modifier x) ∨
      TransGen g.Edge (.modifier x) (.modifier y)) (hy : y ∈ l) : y ∈ l' := by
  obtain ⟨before, after, hnodes, rfl⟩ := modifiersOf_split heq
  obtain ⟨before', after', hnodes', rfl⟩ := modifiersOf_split heq'
  rw [mem_modifiersOf] at hy ⊢
  rcases hjoined with hchain | hchain
  · exact h'.chain_before hnodes' hchain
  · exact absurd hchain (h.not_chain_back hnodes hy)

end DependencyGraph

namespace Model

variable {m : Model} {options : Options} {U : UpdateId → Prop} {F : PortId → Prop}
variable {B : UpdateId → Except BodyError UpdateFunction} {e : EntityId} {g : DependencyGraph}
variable {p p' p₁ p₂ : StepProgress} {x y : Modifier} {l r ms : List Modifier}
variable {xs ys zs : List ModifierConstraints} {nodes nodes' : List GraphNode}

/-! ### Parts one after the other -/

theorem encodeModifiers_append (hm : m.WellFormed) (r : List Modifier) : ∀ {l : List Modifier},
    (∀ x ∈ l, x ∈ m.parts e) → m.encodeModifiers options e (l ++ r) = do
      let first ← m.encodeModifiers options e l
      let others ← m.encodeModifiers options e r
      return first ++ others
  | [], _ => by simp [encodeModifiers]
  | x :: l, hl => by
    rw [List.forall_mem_cons] at hl
    rw [List.cons_append, encodeModifiers_cons hm hl.1, encodeModifiers_cons hm hl.1,
      encodeModifiers_append hm r hl.2]
    simp only [bind_assoc, pure_bind, List.append_assoc]

/-- What parts contribute is what each of them contributes in the state that those before leave. -/
theorem encodeModifiers_split (hm : m.WellFormed) (hparts : ∀ y ∈ l ++ x :: r, y ∈ m.parts e)
    (h : m.encodeModifiers options e (l ++ x :: r) p = .ok xs p') : ∃ zs p₁ ys p₂,
      m.encodeModifiers options e l p = .ok zs p₁ ∧ m.encodePart options x p₁ = .ok ys p₂ := by
  rw [List.forall_mem_append] at hparts
  rw [encodeModifiers_append hm _ hparts.1,
    encodeModifiers_cons hm (hparts.2 x List.mem_cons_self)] at h
  obtain ⟨zs, p₁, hzs, h⟩ := Stateful.bind_ok.1 h
  obtain ⟨_, _, hrest, -⟩ := Stateful.bind_ok.1 h
  obtain ⟨ys, p₂, hys, -⟩ := Stateful.bind_ok.1 hrest
  exact ⟨zs, p₁, ys, p₂, hzs, hys⟩

theorem encodeModifiers_snoc (hm : m.WellFormed) (hl : ∀ y ∈ l, y ∈ m.parts e)
    (hx : x ∈ m.parts e) (h : m.encodeModifiers options e l p = .ok zs p₁)
    (hpart : m.encodePart options x p₁ = .ok ys p₂) :
    m.encodeModifiers options e (l ++ [x]) p = .ok (zs ++ ys) p₂ := by
  rw [encodeModifiers_append hm _ hl, encodeModifiers_cons hm hx]
  refine Stateful.bind_ok.2 ⟨zs, p₁, h, Stateful.bind_ok.2 ⟨ys, p₂, ?_, rfl⟩⟩
  refine Stateful.bind_ok.2 ⟨ys, p₂, hpart, Stateful.bind_ok.2 ⟨[], p₂, ?_, ?_⟩⟩
  · rw [encodeModifiers]
    rfl
  · rw [List.append_nil]
    rfl

/-! ### Conflicts -/

/-- One part writes a port that another one reads or writes. -/
def Disturbs (m : Model) (options : Options) (B : UpdateId → Except BodyError UpdateFunction)
    (x y : Modifier) : Prop :=
  ∃ r, m.PartWrites options B x r ∧ (m.PartReads B y r ∨ m.PartWrites options B y r)

/-- Any two parts of which one disturbs the other are joined by a chain of edges. -/
def Joined (m : Model) (options : Options) (B : UpdateId → Except BodyError UpdateFunction)
    (e : EntityId) (g : DependencyGraph) : Prop :=
  ∀ x ∈ m.parts e, ∀ y ∈ m.parts e, x ≠ y → m.Disturbs options B x y →
    TransGen g.Edge (.modifier x) (.modifier y) ∨ TransGen g.Edge (.modifier y) (.modifier x)

/-- The updates that a step of an entity encodes. -/
def ActiveInside (m : Model) (e : EntityId) (u : UpdateId) : Prop :=
  ∃ a ∈ m.subtree e, u ∈ m.activeUpdates a

theorem active_of_mem_inside {u : UpdateId} (hm : m.WellFormed) (hx : x ∈ m.parts e)
    (hu : .update u ∈ m.inside x) : m.ActiveInside e u := by
  obtain ⟨a, ha, hua⟩ := List.mem_flatMap.1 ((mem_inside_subentity hm).2 ⟨x, hx, hu⟩)
  rcases List.mem_append.1 hua with hua | hua
  · obtain ⟨i, -, hi⟩ := List.mem_map.1 hua
    cases hi
  · obtain ⟨w, hw, hwu⟩ := List.mem_map.1 hua
    cases hwu
    exact ⟨a, ha, hw⟩

theorem covered_part (hm : m.WellFormed) (hx : x ∈ m.parts e) :
    m.Covered options (m.ActiveInside e)
      (fun r => m.PartReads B x r ∨ m.PartWrites options B x r) B x where
  updates := active_of_mem_inside hm hx
  reads := .inl
  writes := .inr

/-! ### Runs along topological orders -/

/-- What a run along parts leaves: the handles are right, and what the parts write is noted. -/
theorem Ready.run (hm : m.WellFormed) (hU : m.DigestsApart (m.ActiveInside e) B)
    (h : m.Ready options (m.ActiveInside e) B p) (hl : ∀ x ∈ l, x ∈ m.parts e)
    (hrun : m.encodeModifiers options e l p = .ok xs p') :
    m.Ready options (m.ActiveInside e) B p' ∧ ∀ r, r ∈ p'.table.written ↔
      r ∈ p.table.written ∨ ∃ x ∈ l, m.PartWrites options B x r := by
  have hcovered : ∀ x ∈ l, m.Covered options (m.ActiveInside e) (fun _ => True) B x := fun x hx =>
    ⟨active_of_mem_inside hm (hl x hx), fun _ => trivial, fun _ => trivial⟩
  have hself : m.Alike options (m.ActiveInside e) (fun _ => True) B p p := ⟨h, h, fun _ => Iff.rfl⟩
  obtain ⟨_, -, halike, hwritten⟩ := carries_parts hm hU e l hl hcovered hself hrun
  exact ⟨halike.left, hwritten⟩

/-- A graph of the parts of an entity that joins the parts that conflict, and a state from which
they can be encoded. -/
structure Prepared (m : Model) (options : Options) (B : UpdateId → Except BodyError UpdateFunction)
    (e : EntityId) (g : DependencyGraph) (p : StepProgress) : Prop where
  wellFormed : m.WellFormed
  apart : m.DigestsApart (m.ActiveInside e) B
  ready : m.Ready options (m.ActiveInside e) B p
  nodes {x : Modifier} : .modifier x ∈ g.nodes ↔ x ∈ m.parts e
  joined : m.Joined options B e g

theorem Prepared.mem (hs : m.Prepared options B e g p) (h : g.Sorts nodes) :
    x ∈ modifiersOf nodes ↔ x ∈ m.parts e := by
  rw [mem_modifiersOf, h.mem, hs.nodes]

theorem Prepared.parts (hs : m.Prepared options B e g p) (h : g.Sorts nodes)
    (heq : modifiersOf nodes = l ++ x :: r) : x ∈ m.parts e ∧ ∀ y ∈ l, y ∈ m.parts e := by
  have hall : ∀ y ∈ l ++ x :: r, y ∈ m.parts e := fun y hy => (hs.mem h).1 (heq ▸ hy)
  exact ⟨hall x (by simp), fun y hy => hall y (List.mem_append_left _ hy)⟩

/-- A writer of what a part uses that stands before it in one order does so in every order. -/
theorem Prepared.writer_before (hs : m.Prepared options B e g p) (h : g.Sorts nodes)
    (h' : g.Sorts nodes') {l' r' : List Modifier} (heq : modifiersOf nodes = l ++ x :: r)
    (heq' : modifiersOf nodes' = l' ++ x :: r') {q : PortId}
    (hq : m.PartReads B x q ∨ m.PartWrites options B x q)
    (hwriter : ∃ y ∈ l, m.PartWrites options B y q) : ∃ y ∈ l', m.PartWrites options B y q := by
  obtain ⟨y, hy, hwrites⟩ := hwriter
  obtain ⟨hpart, hfirst⟩ := hs.parts h heq
  have hne : y ≠ x := by
    rintro rfl
    have hnodup := heq ▸ h.modifiers_nodup
    exact (List.nodup_append.1 hnodup).2.2 y hy y List.mem_cons_self rfl
  have hjoined := hs.joined y (hfirst y hy) x hpart hne ⟨q, hwrites, hq⟩
  exact ⟨y, h.before_of_before h' heq heq' hjoined hy, hwrites⟩

/-- **A part is encoded alike in two topological orders.** -/
theorem Prepared.part (hs : m.Prepared options B e g p) (h : g.Sorts nodes) (h' : g.Sorts nodes')
    {l' r' : List Modifier} (heq : modifiersOf nodes = l ++ x :: r)
    (heq' : modifiersOf nodes' = l' ++ x :: r') (hl : m.encodeModifiers options e l p = .ok zs p₁)
    (hx : m.encodePart options x p₁ = .ok ys p₂) {zs' : List ModifierConstraints}
    {p₁' : StepProgress} (hl' : m.encodeModifiers options e l' p = .ok zs' p₁') :
    ∃ p₂', m.encodePart options x p₁' = .ok ys p₂' := by
  obtain ⟨hpart, hfirst⟩ := hs.parts h heq
  obtain ⟨-, hfirst'⟩ := hs.parts h' heq'
  obtain ⟨hready, hwritten⟩ := hs.ready.run hs.wellFormed hs.apart hfirst hl
  obtain ⟨hready', hwritten'⟩ := hs.ready.run hs.wellFormed hs.apart hfirst' hl'
  have halike : m.Alike options (m.ActiveInside e)
      (fun q => m.PartReads B x q ∨ m.PartWrites options B x q) B p₁ p₁' := by
    refine ⟨hready, hready', fun {q} hq => ?_⟩
    rw [hwritten, hwritten']
    exact or_congr_right ⟨hs.writer_before h h' heq heq' hq, hs.writer_before h' h heq' heq hq⟩
  obtain ⟨p₂', hx', -⟩ := carries_part hs.wellFormed hs.apart e x hpart
    (covered_part hs.wellFormed hpart) halike hx
  exact ⟨p₂', hx'⟩

/-- **A run along one topological order gives a run along every other one**, in which every part
contributes the same. -/
theorem Prepared.run (hs : m.Prepared options B e g p) (h : g.Sorts nodes)
    (hrun : m.encodeModifiers options e (modifiersOf nodes) p = .ok xs p') :
    ∃ given : Modifier → List ModifierConstraints, ∀ nodes', g.Sorts nodes' →
      ∃ p', m.encodeModifiers options e (modifiersOf nodes') p =
        .ok ((modifiersOf nodes').flatMap given) p' := by
  have hgiven : ∀ x, ∃ ys, x ∈ modifiersOf nodes → ∃ l r zs p₁ p₂,
      modifiersOf nodes = l ++ x :: r ∧ m.encodeModifiers options e l p = .ok zs p₁ ∧
        m.encodePart options x p₁ = .ok ys p₂ := fun x => by
    by_cases hx : x ∈ modifiersOf nodes
    · obtain ⟨l, r, heq⟩ := List.append_of_mem hx
      obtain ⟨zs, p₁, ys, p₂, hl, hpart⟩ := encodeModifiers_split hs.wellFormed
        (fun y hy => (hs.mem h).1 (heq ▸ hy)) (heq ▸ hrun)
      exact ⟨ys, fun _ => ⟨l, r, zs, p₁, p₂, heq, hl, hpart⟩⟩
    · exact ⟨[], fun hin => absurd hin hx⟩
  choose given hgiven using hgiven
  refine ⟨given, fun nodes' h' => ?_⟩
  -- by induction on what has been encoded, from the left
  have hprefix : ∀ l' r', modifiersOf nodes' = l' ++ r' →
      ∃ p', m.encodeModifiers options e l' p = .ok (l'.flatMap given) p' := by
    intro l'
    induction l' using List.reverseRecOn with
    | nil =>
      intro r' _
      rw [encodeModifiers]
      exact ⟨p, rfl⟩
    | append_singleton l' x ih =>
      intro r' heq'
      rw [List.append_assoc, List.singleton_append] at heq'
      obtain ⟨p₁', hl'⟩ := ih _ heq'
      obtain ⟨hpart, hfirst'⟩ := hs.parts h' heq'
      obtain ⟨l, r, zs, p₁, p₂, heq, hl, hx⟩ := hgiven x ((hs.mem h).2 hpart)
      obtain ⟨p₂', hx'⟩ := hs.part h h' heq heq' hl hx hl'
      rw [List.flatMap_append, List.flatMap_singleton]
      exact ⟨p₂', encodeModifiers_snoc hs.wellFormed hfirst' hpart hl' hx'⟩
  exact hprefix _ [] (by simp)

/-! ### Confluence -/

/-- What the topological orders of a graph have in common with one order of the parts of an entity.

* `succeeds`: the parts can be encoded in all of them or in none;
* `once`: no modifier is listed twice;
* `same`: the same is listed for every modifier, and the same ports are noted. -/
structure Confluent (m : Model) (options : Options) (e : EntityId) (g : DependencyGraph)
    (p : StepProgress) (ms : List Modifier) : Prop where
  succeeds {nodes : List GraphNode} : g.Sorts nodes →
    ((∃ ys q, m.encodeModifiers options e (modifiersOf nodes) p = .ok ys q) ↔
      ∃ xs p', m.encodeModifiers options e ms p = .ok xs p')
  once {xs : List ModifierConstraints} {p' : StepProgress} :
    m.encodeModifiers options e ms p = .ok xs p' → (xs.map (·.modifier)).Nodup
  same {nodes : List GraphNode} {xs ys : List ModifierConstraints} {p' q : StepProgress} :
    g.Sorts nodes → m.encodeModifiers options e ms p = .ok xs p' →
      m.encodeModifiers options e (modifiersOf nodes) p = .ok ys q →
        ys.Perm xs ∧ ∀ r, r ∈ q.table.written ↔ r ∈ p'.table.written

/-- Along any two topological orders the same is listed, and the same ports are noted. -/
theorem Prepared.same (hs : m.Prepared options B e g p) (h : g.Sorts nodes) (h' : g.Sorts nodes')
    {q : StepProgress} (hrun : m.encodeModifiers options e (modifiersOf nodes) p = .ok xs p')
    (hrun' : m.encodeModifiers options e (modifiersOf nodes') p = .ok ys q) :
    ys.Perm xs ∧ ∀ r, r ∈ q.table.written ↔ r ∈ p'.table.written := by
  obtain ⟨given, hgiven⟩ := hs.run h hrun
  obtain ⟨_, hxs⟩ := hgiven nodes h
  obtain ⟨_, hys⟩ := hgiven nodes' h'
  obtain rfl := (EStateM.Result.ok.inj (hrun.symm.trans hxs)).1
  obtain rfl := (EStateM.Result.ok.inj (hrun'.symm.trans hys)).1
  have hmem : ∀ x, x ∈ modifiersOf nodes' ↔ x ∈ modifiersOf nodes := fun x => by
    rw [hs.mem h, hs.mem h']
  have hperm : (modifiersOf nodes').Perm (modifiersOf nodes) :=
    (List.perm_ext_iff_of_nodup h'.modifiers_nodup h.modifiers_nodup).2 hmem
  obtain ⟨-, hwritten⟩ := hs.ready.run hs.wellFormed hs.apart (fun x => (hs.mem h).1) hrun
  obtain ⟨-, hwritten'⟩ := hs.ready.run hs.wellFormed hs.apart (fun x => (hs.mem h').1) hrun'
  refine ⟨hperm.flatMap_right given, fun r => ?_⟩
  simp only [hwritten, hwritten', hmem]

/-- A seeded table is right, and a cache gives the bodies that it gives. -/
theorem ready_of_seed {t : SymbolTable} {cache c : BodyCache}
    (hseed : Tabled.seed m e (.fresh options.stepName) = .ok () t)
    (hc : m.Answers U (m.bodiesOf cache) c) :
    m.Ready options U (m.bodiesOf cache) ⟨t, c⟩ := by
  obtain ⟨hcanonical, htidy, -⟩ := seeded hseed
  have hgrows : SymbolTable.GrowsBy (SymbolTable.PortHandle m) _ t := seedPorts_grows hseed
  refine ⟨hcanonical, hgrows.stepName, fun {u f} _ _ => ?_, hc⟩
  exact (htidy (.update u)).settled.sorted

/-- **Confluence of the schedule.** In a built model let the dependency graph of an entity have no
cycle and join all parts that conflict, and let no two texts of different bodies have one digest.
Then from a seeded table its parts are encoded alike in every topological order: like in the order
in which a step encodes them, every modifier gets the same constraints and the same ports are
noted. -/
theorem schedule_confluent (hm : m.Built) (cache : BodyCache)
    (hdigests : m.DigestsApart (m.ActiveInside e) (m.bodiesOf cache)) {c : BodyCache}
    (hgraph : m.dependencyGraph e cache = .ok g c) (hacyclic : g.Acyclic)
    (hjoined : m.Joined options (m.bodiesOf cache) e g) :
    ∃ t ms, Tabled.seed m e (.fresh options.stepName) = .ok () t ∧ m.order e cache = .ok ms c ∧
      m.encodeEntity options e ⟨t, cache⟩ = m.encodeModifiers options e ms ⟨t, c⟩ ∧
        m.Confluent options e g ⟨t, c⟩ ms := by
  obtain ⟨t, hseed⟩ := seed_total hm.wellFormed e options.stepName
  have hspans : m.Spans (m.readsIn c) (m.parts e) g :=
    (dependencyGraph_ok hgraph).2 c (.refl c) ▸ spans_graphWith m (m.readsIn c) e
  obtain ⟨-, order, horder, hsorts⟩ := (topologicalOrder_cases hspans.closed).resolve_right
    fun h => h.1 hacyclic
  have hms : m.order e cache = .ok (modifiersOf order) c := by
    rw [order_of_graph hgraph, orderOfGraph, horder]
    rfl
  have hentity : m.encodeEntity options e ⟨t, cache⟩ =
      m.encodeModifiers options e (modifiersOf order) ⟨t, c⟩ := by
    rw [encodeEntity]
    simp only [bind, EStateM.bind, Stepping.onCache, hms]
  have hanswers : m.Answers (m.ActiveInside e) (m.bodiesOf cache) c := by
    have hcache : m.Answers (m.ActiveInside e) (m.bodiesOf cache) cache :=
      fun _ _ => rfl
    obtain ⟨_, -, hc, -⟩ := dependencyGraph_agree hcache hcache hdigests
      (fun u hu => ⟨e, (mem_subtree hm.wellFormed).2 (.inl rfl), hu⟩) hgraph
    exact hc
  have hs : m.Prepared options (m.bodiesOf cache) e g ⟨t, c⟩ :=
    ⟨hm.wellFormed, hdigests, ready_of_seed hseed hanswers, fun {x} => hspans.modifiers x, hjoined⟩
  refine ⟨t, modifiersOf order, hseed, hms, hentity, fun {nodes} h => ?_, fun {xs p'} hrun => ?_,
    fun {nodes xs ys p' q} h hrun hrun' => hs.same hsorts h hrun hrun'⟩
  · constructor
    · rintro ⟨ys, q, hrun⟩
      obtain ⟨given, hgiven⟩ := hs.run h hrun
      exact ⟨_, hgiven order hsorts⟩
    · rintro ⟨xs, p', hrun⟩
      obtain ⟨given, hgiven⟩ := hs.run hsorts hrun
      exact ⟨_, hgiven nodes h⟩
  · rw [← hentity] at hrun
    exact nodup_of_opens hm.wellFormed ((encodeEntity_ok hm.wellFormed e hrun).lists (.refl _))

/-- Parts that stand on one chain of edges are joined. -/
theorem joined_of_chain {u : UpdateId} {i : InfluenceId} {s : EntityId} {q q' : PortId}
    (hparts : m.parts e = [.influence i, .update u, .subentity s])
    (hu : g.Edge (.modifier (.update u)) (.port q))
    (hi : g.Edge (.port q) (.modifier (.influence i)))
    (hi' : g.Edge (.modifier (.influence i)) (.port q'))
    (hs : g.Edge (.port q') (.modifier (.subentity s))) : m.Joined options B e g := by
  have hfirst : TransGen g.Edge (.modifier (.update u)) (.modifier (.influence i)) :=
    .tail (.single hu) hi
  have hsecond : TransGen g.Edge (.modifier (.influence i)) (.modifier (.subentity s)) :=
    .tail (.single hi') hs
  have hboth := hfirst.trans hsecond
  intro x hx y hy hne _
  simp only [hparts, List.mem_cons, List.not_mem_nil, or_false] at hx hy
  rcases hx with rfl | rfl | rfl <;> rcases hy with rfl | rfl | rfl <;>
    first | exact absurd rfl hne | exact .inl ‹_› | exact .inr ‹_›

/-- The tank is encoded alike in every topological order. -/
theorem tank_schedule_confluent : ∃ m e g c, tankDefinition.build = .ok (m, e) ∧
    m.DigestsApart (m.ActiveInside e) (m.bodiesOf {}) ∧ m.dependencyGraph e {} = .ok g c ∧
    g.Acyclic ∧ m.Joined {} (m.bodiesOf {}) e g ∧
    ∃ t ms, Tabled.seed m e (.fresh "dt") = .ok () t ∧ m.order e {} = .ok ms c ∧
      m.encodeEntity {} e ⟨t, {}⟩ = m.encodeModifiers {} e ms ⟨t, c⟩ ∧
        m.Confluent {} e g ⟨t, c⟩ ms := by
  have h : Attempt.succeeds (fun (m, e) => Stateful.succeeds (fun g _ =>
      (∀ u ∈ (m.subtree e).flatMap m.activeUpdates, ∀ w ∈ (m.subtree e).flatMap m.activeUpdates,
        BodyCache.key (m.update u).function = BodyCache.key (m.update w).function →
          (m.update u).function = (m.update w).function) ∧
      Attempt.succeeds (fun _ => true) g.topologicalOrder ∧
      m.parts e = [.influence ⟨0⟩, .update ⟨1⟩, .subentity ⟨1⟩] ∧
      g.Edge (.modifier (.update ⟨1⟩)) (.port ⟨1⟩) ∧
      g.Edge (.port ⟨1⟩) (.modifier (.influence ⟨0⟩)) ∧
      g.Edge (.modifier (.influence ⟨0⟩)) (.port ⟨2⟩) ∧
      g.Edge (.port ⟨2⟩) (.modifier (.subentity ⟨1⟩)))
      (m.dependencyGraph e {})) tankDefinition.build := by decide +kernel
  obtain ⟨⟨m, e⟩, hbuild, h⟩ := Attempt.exists_of_succeeds h
  obtain ⟨g, c, hgraph, h⟩ := Stateful.exists_of_succeeds h
  obtain ⟨hdigests, horder, hparts, hu, hi, hi', hs⟩ := of_decide_eq_true h
  have hapart : m.DigestsApart (m.ActiveInside e) (m.bodiesOf {}) := by
    rintro u w ⟨a, ha, hua⟩ ⟨b, hb, hwb⟩ hkey
    rw [bodiesOf, bodiesOf, hdigests u (List.mem_flatMap.2 ⟨a, ha, hua⟩) w
      (List.mem_flatMap.2 ⟨b, hb, hwb⟩) hkey]
  have hclosed : g.Closed :=
    (dependencyGraph_ok hgraph).2 c (.refl c) ▸ (spans_graphWith m (m.readsIn c) e).closed
  have hacyclic : g.Acyclic := by
    obtain ⟨nodes, hnodes, -⟩ := Attempt.exists_of_succeeds horder
    rcases topologicalOrder_cases hclosed with ⟨ha, -⟩ | ⟨-, blocked, hblocked, -⟩
    · exact ha
    · cases hnodes.symm.trans hblocked
  have hjoined : m.Joined {} (m.bodiesOf {}) e g :=
    joined_of_chain hparts hu hi hi' hs
  exact ⟨m, e, g, c, hbuild, hapart, hgraph, hacyclic, hjoined, schedule_confluent
    (ModelDefinition.build_built hbuild).1 {} hapart hgraph hacyclic hjoined⟩

end Model

end HybridStep
