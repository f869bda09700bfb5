import HybridStep.Proofs.Encoding.Locality
import HybridStep.Proofs.Step.Coverage

/-! # What a part of an entity sees of the parts before it

A part of an entity is encoded alike in two states in which the same is noted for the ports that it
uses, if in both the handles are right and all texts give the same bodies. This is kept by every
part, and so passes on to entities inside: they are ordered by their bodies alone. A cache tells
texts apart by their digests, so reading a text changes what another text gives only if both have
one digest and different bodies. -/

namespace HybridStep

/-! ### Bodies -/

namespace BodyCache

/-- What a text gives that is read through the cache. -/
def answer (c : BodyCache) (source : String) : Except BodyError UpdateFunction := (c.read source).1

theorem answer_eq (c : BodyCache) (source : String) : c.answer source =
    match c.functions.get? (key source) with
    | some f => .ok f
    | none => UpdateFunction.read source := by
  unfold answer read
  cases c.functions.get? (key source) with
  | some f => rfl
  | none => cases UpdateFunction.read source <;> rfl

/-- Texts are read independently unless they have one digest and different bodies. -/
theorem answer_read {source source' : String} (c : BodyCache)
    (h : key source = key source' → c.answer source = c.answer source') :
    (c.read source).2.answer source' = c.answer source' := by
  rw [answer_eq, answer_eq]
  unfold read
  cases hget : c.functions.get? (key source) with
  | some f => rfl
  | none =>
    cases hread : UpdateFunction.read source with
    | error e => rfl
    | ok f =>
      simp only [OrderedMap.get?_insert]
      by_cases hkey : key source' = key source
      · have hsame := h hkey.symm
        simp only [answer_eq, hkey, hget, hread] at hsame
        simp only [hkey, if_true, hget, hsame]
      · rw [if_neg hkey]

end BodyCache

namespace Model

/-- The bodies of the updates, read through a cache. -/
def bodiesOf (m : Model) (c : BodyCache) (u : UpdateId) : Except BodyError UpdateFunction :=
  c.answer (m.update u).function

theorem read_body (m : Model) (c : BodyCache) (u : UpdateId) : c.read (m.update u).function =
    (m.bodiesOf c u, (c.read (m.update u).function).2) := rfl

/-- Of some updates, no two that have different bodies have texts of one digest. -/
def DigestsApart (m : Model) (U : UpdateId → Prop)
    (B : UpdateId → Except BodyError UpdateFunction) : Prop :=
  ∀ u w, U u → U w → BodyCache.key (m.update u).function = BodyCache.key (m.update w).function →
    B u = B w

/-- The texts of some updates give given bodies. -/
def Answers (m : Model) (U : UpdateId → Prop) (B : UpdateId → Except BodyError UpdateFunction)
    (c : BodyCache) : Prop := ∀ u, U u → m.bodiesOf c u = B u

/-! ### Ports that modifiers use -/

/-- The ports that an update or an influence reads, with given bodies. -/
def leafReads (m : Model) (B : UpdateId → Except BodyError UpdateFunction) :
    Modifier → List PortId
  | .update u =>
    match B u with
    | .ok f => (accessedPorts m (m.update u).entity f).toList
    | .error _ => []
  | .influence i => [(m.influence i).source]
  | .subentity _ => []

/-- The ports that an update or an influence writes, with given bodies. -/
def leafWrites (m : Model) (options : Options) (B : UpdateId → Except BodyError UpdateFunction) :
    Modifier → List PortId
  | .update u =>
    match B u with
    | .ok f => (bodyContext m options u f).writtenPorts.toList
    | .error _ => []
  | .influence i => [(m.influence i).target]
  | .subentity _ => []

/-- The updates and influences that a part stands for: those of all entities inside a subentity. -/
def inside (m : Model) : Modifier → List Modifier
  | .subentity s => (m.subtree s).flatMap m.leaves
  | x => [x]

/-- A part reads what the updates and influences inside it read. -/
def PartReads (m : Model) (B : UpdateId → Except BodyError UpdateFunction) (x : Modifier)
    (q : PortId) : Prop := ∃ z ∈ m.inside x, q ∈ m.leafReads B z

/-- A part writes what the updates and influences inside it write. -/
def PartWrites (m : Model) (options : Options) (B : UpdateId → Except BodyError UpdateFunction)
    (x : Modifier) (q : PortId) : Prop := ∃ z ∈ m.inside x, q ∈ m.leafWrites options B z

variable {m : Model} {options : Options} {U : UpdateId → Prop} {F : PortId → Prop}
variable {B : UpdateId → Except BodyError UpdateFunction}
variable {e : EntityId} {p p' q q' : StepProgress} {x z : Modifier} {u : UpdateId}
variable {f : UpdateFunction} {c c' c₁ : BodyCache}

theorem inside_leaf (hx : x ∈ m.leaves e) : m.inside x = [x] := by
  rcases List.mem_append.1 hx with hx | hx <;> obtain ⟨i, -, rfl⟩ := List.mem_map.1 hx <;> rfl

/-- What is inside an entity is inside one of its parts. -/
theorem mem_inside_subentity (hm : m.WellFormed) :
    z ∈ m.inside (.subentity e) ↔ ∃ x ∈ m.parts e, z ∈ m.inside x := by
  rw [inside, List.mem_flatMap]
  constructor
  · rintro ⟨a, ha, hz⟩
    rcases (mem_subtree hm).1 ha with rfl | ⟨s, hs, ha⟩
    · exact ⟨z, mem_parts.2 (.inl hz), by rw [inside_leaf hz, List.mem_singleton]⟩
    · exact ⟨.subentity s, mem_parts.2 (.inr ⟨s, hs, rfl⟩), List.mem_flatMap.2 ⟨a, ha, hz⟩⟩
  · rintro ⟨x, hx, hz⟩
    rcases mem_parts.1 hx with hleaf | ⟨s, hs, rfl⟩
    · rw [inside_leaf hleaf, List.mem_singleton] at hz
      exact ⟨e, (mem_subtree hm).2 (.inl rfl), hz ▸ hleaf⟩
    · obtain ⟨a, ha, hz⟩ := List.mem_flatMap.1 hz
      exact ⟨a, (mem_subtree hm).2 (.inr ⟨s, hs, ha⟩), hz⟩

theorem partWrites_subentity (hm : m.WellFormed) {r : PortId} :
    m.PartWrites options B (.subentity e) r ↔ ∃ x ∈ m.parts e, m.PartWrites options B x r := by
  simp only [PartWrites, mem_inside_subentity hm]
  constructor
  · rintro ⟨z, ⟨x, hx, hz⟩, hr⟩
    exact ⟨x, hx, z, hz, hr⟩
  · rintro ⟨x, hx, z, hz, hr⟩
    exact ⟨z, ⟨x, hx, hz⟩, hr⟩

/-- A part is about some updates and ports: those of which it reads the bodies, and those that it
reads or writes. -/
structure Covered (m : Model) (options : Options) (U : UpdateId → Prop) (F : PortId → Prop)
    (B : UpdateId → Except BodyError UpdateFunction) (x : Modifier) : Prop where
  updates {u : UpdateId} : .update u ∈ m.inside x → U u
  reads {r : PortId} : m.PartReads B x r → F r
  writes {r : PortId} : m.PartWrites options B x r → F r

theorem Covered.part (hm : m.WellFormed) (h : m.Covered options U F B (.subentity e))
    (hx : x ∈ m.parts e) : m.Covered options U F B x where
  updates := fun hu => h.updates ((mem_inside_subentity hm).2 ⟨x, hx, hu⟩)
  reads := fun ⟨z, hz, hr⟩ => h.reads ⟨z, (mem_inside_subentity hm).2 ⟨x, hx, hz⟩, hr⟩
  writes := fun hr => h.writes ((partWrites_subentity hm).2 ⟨x, hx, hr⟩)

/-! ### States -/

/-- The handles are what their keys and versions say, and the texts of some updates give given
bodies. -/
structure Ready (m : Model) (options : Options) (U : UpdateId → Prop)
    (B : UpdateId → Except BodyError UpdateFunction) (p : StepProgress) : Prop where
  canonical : p.table.Canonical m
  stepName : p.table.stepName = options.stepName
  sorted {u : UpdateId} {f : UpdateFunction} : U u → B u = .ok f →
    (bodyContext m options u f).SortedTable p.table
  answers : m.Answers U B p.cache

/-- Two states in which the same is noted for some ports. -/
structure Alike (m : Model) (options : Options) (U : UpdateId → Prop) (F : PortId → Prop)
    (B : UpdateId → Except BodyError UpdateFunction) (p q : StepProgress) : Prop where
  left : m.Ready options U B p
  right : m.Ready options U B q
  written {r : PortId} : F r → (r ∈ p.table.written ↔ r ∈ q.table.written)

/-- What is encoded from one state is encoded from every state that is alike, the states are alike
afterwards, and some ports are noted. -/
def Carries (m : Model) (options : Options) (U : UpdateId → Prop) (F : PortId → Prop)
    (B : UpdateId → Except BodyError UpdateFunction) (x : Stepping (List ModifierConstraints))
    (W : PortId → Prop) : Prop :=
  ∀ ⦃p q xs p'⦄, m.Alike options U F B p q → x p = .ok xs p' →
    ∃ q', x q = .ok xs q' ∧ m.Alike options U F B p' q' ∧
      ∀ r, r ∈ p'.table.written ↔ r ∈ p.table.written ∨ W r

theorem Ready.settled (h : m.Ready options U B p) (hu : U u) (hf : B u = .ok f) :
    (bodyContext m options u f).Settled p.table.entry { table := p.table } :=
  ⟨h.canonical, h.sorted hu hf, rfl⟩

/-! ### Parts -/

/-- What a part of an entity contributes. -/
def encodePart (m : Model) (options : Options) : Modifier → Stepping (List ModifierConstraints)
  | .update u => (fun y => [y]) <$> m.encodeUpdate options u
  | .influence i => (fun y => [y]) <$> m.encodeInfluence i
  | .subentity s => m.encodeEntity options s

/-- The parts of an entity are encoded one after the other. -/
theorem encodeModifiers_cons (hm : m.WellFormed) (hx : x ∈ m.parts e) (rest : List Modifier) :
    m.encodeModifiers options e (x :: rest) = do
      let first ← m.encodePart options x
      let others ← m.encodeModifiers options e rest
      return first ++ others := by
  cases x with
  | update u => rw [encodeModifiers, encodePart, bind_map_left]; rfl
  | influence i => rw [encodeModifiers, encodePart, bind_map_left]; rfl
  | subentity s =>
    obtain ⟨hlt, hparent⟩ := hm.subentities.owned (mem_parts_subentity.1 hx)
    rw [encodeModifiers, if_pos ⟨hm.below hparent, hlt⟩, encodePart]

theorem Carries.nothing : m.Carries options U F B (pure []) fun _ => False := by
  intro p q xs p' h hx
  obtain ⟨rfl, rfl⟩ := Stateful.pure_ok.1 hx
  exact ⟨q, rfl, h, by simp⟩

theorem Carries.append {x y : Stepping (List ModifierConstraints)} {W W' : PortId → Prop}
    (hx : m.Carries options U F B x W) (hy : m.Carries options U F B y W') :
    m.Carries options U F B (do
      let first ← x
      let others ← y
      return first ++ others) fun r => W r ∨ W' r := by
  intro p q xs p' h hrun
  obtain ⟨ys, p₁, hys, hrun⟩ := Stateful.bind_ok.1 hrun
  obtain ⟨zs, p₂, hzs, hrun⟩ := Stateful.bind_ok.1 hrun
  obtain ⟨rfl, rfl⟩ := Stateful.pure_ok.1 hrun
  obtain ⟨q₁, hys', h₁, hfirst⟩ := hx h hys
  obtain ⟨q₂, hzs', h₂, hrest⟩ := hy h₁ hzs
  refine ⟨q₂, Stateful.bind_ok.2 ⟨ys, q₁, hys', Stateful.bind_ok.2 ⟨zs, q₂, hzs', rfl⟩⟩, h₂,
    fun r => ?_⟩
  rw [hrest r, hfirst r, or_assoc]

/-! ### Updates and influences -/

theorem Answers.read (h : m.Answers U B c) (hU : m.DigestsApart U B) (hu : U u) :
    m.Answers U B (c.read (m.update u).function).2 := fun w hw => by
  rw [bodiesOf, BodyCache.answer_read c fun hkey => ?_]
  · exact h w hw
  · exact (h u hu).trans ((hU u w hu hw hkey).trans (h w hw).symm)

theorem Ready.update {r : BodyConstraints} {t : SymbolTable} (h : m.Ready options U B p)
    (hU : m.DigestsApart U B) (hu : U u) (hf : B u = .ok f)
    (he : HybridStep.encodeUpdate m options u f p.table = .ok r t) :
    m.Ready options U B ⟨t, (p.cache.read (m.update u).function).2⟩ := by
  have hcanonical := encodeUpdate_canonical h.canonical he
  refine ⟨hcanonical, (encodeUpdate_extends he).stepName.trans h.stepName,
    fun {w g} hw hg key v term hget => ?_, h.answers.read hU hu⟩
  obtain ⟨t₁, hgrows, rfl⟩ := encodeUpdate_grows he
  cases key with
  | port q => exact SymbolTable.sort_of_portTerm (hcanonical.fits hget)
  | «local» name =>
    rw [SymbolTable.get?_markAll] at hget
    rcases hgrows.fresh hget with hold | ⟨howner, rfl⟩
    · exact h.sorted hw hg hold
    · obtain rfl : w = u := Modifier.update.inj howner
      obtain rfl := Except.ok.inj (hf.symm.trans hg)
      rfl

theorem Ready.influence {i : InfluenceId} {equation : Term} {t : SymbolTable}
    (h : m.Ready options U B p)
    (he : HybridStep.encodeInfluence m i p.table = .ok equation t) :
    m.Ready options U B ⟨t, p.cache⟩ := by
  have hcanonical := encodeInfluence_canonical h.canonical he
  refine ⟨hcanonical, (encodeInfluence_extends he).stepName.trans h.stepName,
    fun {w g} hw hg key v term hget => ?_, h.answers⟩
  obtain ⟨t₁, hgrows, rfl⟩ := encodeInfluence_grows he
  cases key with
  | port q => exact SymbolTable.sort_of_portTerm (hcanonical.fits hget)
  | «local» name =>
    rcases hgrows.fresh hget with hold | hnew
    · exact h.sorted hw hg hold
    · exact hnew.elim

/-- An update is encoded alike, and notes the ports that it writes. -/
theorem carries_update (hU : m.DigestsApart U B) (hc : m.Covered options U F B (.update u)) :
    m.Carries options U F B (m.encodePart options (.update u))
      (m.PartWrites options B (.update u)) := by
  intro p q xs p' h hx
  obtain ⟨y, hy, rfl⟩ := Stateful.map_ok.1 hx
  have hinside : Modifier.update u ∈ m.inside (.update u) := List.mem_singleton_self _
  have hu : U u := hc.updates hinside
  obtain ⟨f, p₁, hread, hy⟩ := Stateful.bind_ok.1 hy
  obtain ⟨r, p₂, hencode, hy⟩ := Stateful.bind_ok.1 hy
  obtain ⟨rfl, rfl⟩ := Stateful.pure_ok.1 hy
  obtain ⟨c, hcache, rfl⟩ := Stepping.readBody_ok.1 hread
  obtain ⟨t, ht, rfl⟩ := Stepping.onTable_ok.1 hencode
  obtain ⟨hanswer, rfl⟩ := Prod.mk.inj ((m.read_body p.cache u).symm.trans hcache)
  have hf : B u = .ok f := (h.left.answers u hu).symm.trans hanswer
  have hwrites : ∀ r, m.PartWrites options B (.update u) r ↔
      r ∈ (bodyContext m options u f).writtenPorts.toList := fun r => by
    simp [PartWrites, inside, leafWrites, hf]
  have hreads : ∀ r, m.PartReads B (.update u) r ↔
      r ∈ (accessedPorts m (m.update u).entity f).toList := fun r => by
    simp [PartReads, inside, leafReads, hf]
  have hports : ∀ r, UsesPort m options u f r → (r ∈ p.table.written ↔ r ∈ q.table.written) :=
    fun r hr => h.written <| hr.elim (fun hr => hc.reads ((hreads r).2 hr))
      fun hr => hc.writes ((hwrites r).2 hr)
  obtain ⟨t', ht'⟩ := encodeUpdate_agree (h.left.settled hu hf) (h.right.settled hu hf)
    (h.left.stepName.trans h.right.stepName.symm) hports ht
  have hread' : q.cache.read (m.update u).function =
      (.ok f, (q.cache.read (m.update u).function).2) := by
    rw [read_body, h.right.answers u hu, hf]
  refine ⟨⟨t', (q.cache.read (m.update u).function).2⟩, ?_,
    ⟨h.left.update hU hu hf ht, h.right.update hU hu hf ht', fun {s} hs => ?_⟩, fun s => ?_⟩
  · exact Stateful.map_ok.2 ⟨_, Stateful.bind_ok.2 ⟨f, _, Stepping.readBody_ok.2 ⟨_, hread', rfl⟩,
      Stateful.bind_ok.2 ⟨r, _, Stepping.onTable_ok.2 ⟨t', ht', rfl⟩, rfl⟩⟩, rfl⟩
  · rw [encodeUpdate_written ht, encodeUpdate_written ht', h.written hs]
  · rw [encodeUpdate_written ht, hwrites]
    rfl

/-- An influence is encoded alike, and notes its target. -/
theorem carries_influence {i : InfluenceId} (hc : m.Covered options U F B (.influence i)) :
    m.Carries options U F B (m.encodePart options (.influence i))
      (m.PartWrites options B (.influence i)) := by
  intro p q xs p' h hx
  obtain ⟨y, hy, rfl⟩ := Stateful.map_ok.1 hx
  have hsource : F (m.influence i).source :=
    hc.reads ⟨.influence i, List.mem_singleton_self _, List.mem_singleton_self _⟩
  obtain ⟨equation, p₁, hencode, hy⟩ := Stateful.bind_ok.1 hy
  obtain ⟨rfl, rfl⟩ := Stateful.pure_ok.1 hy
  obtain ⟨t, ht, rfl⟩ := Stepping.onTable_ok.1 hencode
  obtain ⟨t', ht'⟩ := encodeInfluence_agree h.left.canonical h.right.canonical
    (h.written hsource) ht
  refine ⟨⟨t', q.cache⟩, Stateful.map_ok.2 ⟨_, Stateful.bind_ok.2
      ⟨equation, _, Stepping.onTable_ok.2 ⟨t', ht', rfl⟩, rfl⟩, rfl⟩,
    ⟨h.left.influence ht, h.right.influence ht', fun {s} hs => ?_⟩, fun s => ?_⟩
  · rw [encodeInfluence_written ht, encodeInfluence_written ht', h.written hs]
  · rw [encodeInfluence_written ht]
    simp [PartWrites, inside, leafWrites]

/-! ### Orders -/

theorem readPorts_eq (h : m.Answers U B c) (hu : U u) : m.readPorts u c =
    match B u with
    | .ok f =>
      .ok (accessedPorts m (m.update u).entity f).toList (c.read (m.update u).function).2
    | .error err =>
      .error (.updateBody (m.modifierName (.update u)) err) (c.read (m.update u).function).2 := by
  simp only [readPorts]
  rw [read_body, h u hu]
  cases B u <;> rfl

theorem readPorts_agree {ps : List PortId} (h : m.Answers U B c) (h' : m.Answers U B c')
    (hU : m.DigestsApart U B) (hu : U u) (hread : m.readPorts u c = .ok ps c₁) :
    ∃ c₁', m.readPorts u c' = .ok ps c₁' ∧ m.Answers U B c₁ ∧ m.Answers U B c₁' := by
  rw [readPorts_eq h hu] at hread
  rw [readPorts_eq h' hu]
  cases hf : B u with
  | error err =>
    rw [hf] at hread
    cases hread
  | ok f =>
    rw [hf] at hread
    cases hread
    exact ⟨_, rfl, h.read hU hu, h'.read hU hu⟩

theorem addUpdates_agree (hU : m.DigestsApart U B) : ∀ {us : List UpdateId}
    {g g' : DependencyGraph} {c c' c₁ : BodyCache}, m.Answers U B c → m.Answers U B c' →
      (∀ u ∈ us, U u) → m.addUpdates g us c = .ok g' c₁ →
        ∃ c₁', m.addUpdates g us c' = .ok g' c₁' ∧ m.Answers U B c₁ ∧ m.Answers U B c₁'
  | [], g, g', c, c', c₁, h, h', _, hadd => by
    obtain ⟨rfl, rfl⟩ := Stateful.pure_ok.1 hadd
    exact ⟨c', rfl, h, h'⟩
  | u :: us, g, g', c, c', c₁, h, h', hus, hadd => by
    rw [List.forall_mem_cons] at hus
    obtain ⟨ps, c₂, hread, hadd⟩ := Stateful.bind_ok.1 hadd
    obtain ⟨c₂', hread', h₂, h₂'⟩ := readPorts_agree h h' hU hus.1 hread
    obtain ⟨c₁', hadd', h₁, h₁'⟩ := addUpdates_agree hU h₂ h₂' hus.2 hadd
    exact ⟨c₁', Stateful.bind_ok.2 ⟨ps, c₂', hread', hadd'⟩, h₁, h₁'⟩

theorem dependencyGraph_agree {g : DependencyGraph} (h : m.Answers U B c) (h' : m.Answers U B c')
    (hU : m.DigestsApart U B) (he : ∀ u ∈ m.activeUpdates e, U u)
    (hgraph : m.dependencyGraph e c = .ok g c₁) :
    ∃ c₁', m.dependencyGraph e c' = .ok g c₁' ∧ m.Answers U B c₁ ∧ m.Answers U B c₁' := by
  obtain ⟨g₁, c₂, hupdates, hgraph⟩ := Stateful.bind_ok.1 hgraph
  obtain ⟨rfl, rfl⟩ := Stateful.pure_ok.1 hgraph
  obtain ⟨c₂', hupdates', h₂, h₂'⟩ := addUpdates_agree hU h h' he hupdates
  exact ⟨c₂', Stateful.bind_ok.2 ⟨g₁, c₂', hupdates', rfl⟩, h₂, h₂'⟩

/-- The order of an entity depends on its bodies alone. -/
theorem order_agree {ms : List Modifier} (h : m.Answers U B c) (h' : m.Answers U B c')
    (hU : m.DigestsApart U B) (he : ∀ u ∈ m.activeUpdates e, U u)
    (horder : m.order e c = .ok ms c₁) :
    ∃ c₁', m.order e c' = .ok ms c₁' ∧ m.Answers U B c₁ ∧ m.Answers U B c₁' := by
  obtain ⟨g, c₂, hgraph, -⟩ := Stateful.bind_ok.1 horder
  obtain ⟨c₂', hgraph', h₂, h₂'⟩ := dependencyGraph_agree h h' hU he hgraph
  rw [order_of_graph hgraph] at horder
  rw [order_of_graph hgraph']
  cases hnodes : m.orderOfGraph e g with
  | error err =>
    rw [hnodes] at horder
    cases horder
  | ok ms' =>
    rw [hnodes] at horder
    cases horder
    exact ⟨c₂', rfl, h₂, h₂'⟩

theorem mem_parts_of_order {ms : List Modifier} (horder : m.order e c = .ok ms c₁) :
    x ∈ ms ↔ x ∈ m.parts e := ((order_ok horder).2 c₁ (.refl c₁)).mem

/-! ### Entities inside -/

/-- The order of an entity changes nothing that its parts see. -/
theorem Alike.order {ms : List Modifier} (h : m.Alike options U F B p q) (hU : m.DigestsApart U B)
    (hm : m.WellFormed) (hc : m.Covered options U F B (.subentity e))
    (horder : m.order e p.cache = .ok ms c) : ∃ c', m.order e q.cache = .ok ms c' ∧
      m.Alike options U F B { p with cache := c } { q with cache := c' } := by
  have hactive : ∀ u ∈ m.activeUpdates e, U u := fun u hu =>
    hc.updates (List.mem_flatMap.2 ⟨e, (mem_subtree hm).2 (.inl rfl),
      List.mem_append_right _ (List.mem_map_of_mem hu)⟩)
  obtain ⟨c', horder', hc, hc'⟩ := order_agree h.left.answers h.right.answers hU hactive horder
  exact ⟨c', horder', ⟨h.left.canonical, h.left.stepName, h.left.sorted, hc⟩,
    ⟨h.right.canonical, h.right.stepName, h.right.sorted, hc'⟩, h.written⟩

mutual

/-- **An entity is encoded alike**, and notes the ports that are written inside it. -/
theorem carries_entity (hm : m.WellFormed) (hU : m.DigestsApart U B) (e : EntityId)
    (hc : m.Covered options U F B (.subentity e)) :
    m.Carries options U F B (m.encodeEntity options e)
      (m.PartWrites options B (.subentity e)) := by
  intro p q xs p' h hx
  rw [encodeEntity] at hx ⊢
  obtain ⟨ms, p₁, horder, hx⟩ := Stateful.bind_ok.1 hx
  obtain ⟨c, hcache, rfl⟩ := Stepping.onCache_ok.1 horder
  obtain ⟨c', hcache', h₁⟩ := h.order hU hm hc hcache
  have hparts : ∀ x ∈ ms, x ∈ m.parts e := fun x => (mem_parts_of_order hcache).1
  obtain ⟨q', hq', h', hwritten⟩ := carries_parts hm hU e ms hparts
    (fun x hx => hc.part hm (hparts x hx)) h₁ hx
  refine ⟨q', Stateful.bind_ok.2 ⟨ms, _, Stepping.onCache_ok.2 ⟨c', hcache', rfl⟩, hq'⟩, h',
    fun r => ?_⟩
  simp only [hwritten r, partWrites_subentity hm, mem_parts_of_order hcache]
termination_by (m.entities.length - e.index, 2, 0)

/-- Parts are encoded alike, and note the ports that one of them writes. -/
theorem carries_parts (hm : m.WellFormed) (hU : m.DigestsApart U B) (e : EntityId) :
    (ms : List Modifier) → (∀ x ∈ ms, x ∈ m.parts e) → (∀ x ∈ ms, m.Covered options U F B x) →
      m.Carries options U F B (m.encodeModifiers options e ms)
        fun r => ∃ x ∈ ms, m.PartWrites options B x r
  | [], _, _ => by
    simp only [encodeModifiers, List.not_mem_nil, false_and, exists_false]
    exact .nothing
  | x :: rest, hparts, hc => by
    rw [List.forall_mem_cons] at hparts hc
    simp only [encodeModifiers_cons hm hparts.1, List.exists_mem_cons_iff]
    exact (carries_part hm hU e x hparts.1 hc.1).append
      (carries_parts hm hU e rest hparts.2 hc.2)
termination_by ms => (m.entities.length - e.index, 1, ms.length)

/-- A part is encoded alike, and notes the ports that it writes. -/
theorem carries_part (hm : m.WellFormed) (hU : m.DigestsApart U B) (e : EntityId) (x : Modifier)
    (hx : x ∈ m.parts e) (hc : m.Covered options U F B x) :
    m.Carries options U F B (m.encodePart options x) (m.PartWrites options B x) := by
  cases x with
  | update u => exact carries_update hU hc
  | influence i => exact carries_influence hc
  | subentity s =>
    obtain ⟨hlt, hparent⟩ := hm.subentities.owned (mem_parts_subentity.1 hx)
    have hdeeper := hm.below hparent
    exact carries_entity hm hU s hc
termination_by (m.entities.length - e.index, 0, 0)

end

end Model

end HybridStep
