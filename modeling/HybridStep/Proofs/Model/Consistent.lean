import HybridStep.Proofs.Model.Additions

/-! # Consistent models

Everything that later parts rely on in a model: whatever is listed is listed once and by its owner
only, whatever is there is listed, names tell apart what one entity lists, the current state is one
of the states, updates and influences use what their entity reaches, and values are those of their
domains. -/

namespace HybridStep

/-- The current state is one of the states, and there is one as soon as there are states. -/
structure Entity.Poised (a : Entity) : Prop where
  mem {s : StateId} : a.current = some s → s ∈ a.states
  isSome : a.states ≠ [] → a.current.isSome

theorem Entity.Poised.of_eq {a b : Entity} (h : a.Poised) (hstates : b.states = a.states)
    (hcurrent : b.current = a.current) : b.Poised :=
  ⟨fun hs => hstates ▸ h.mem (hcurrent ▸ hs), fun hs => hcurrent ▸ h.isSome (hstates ▸ hs)⟩

theorem Entity.poised_of_none {a : Entity} (hstates : a.states = []) (hcurrent : a.current = none) :
    a.Poised := ⟨fun hs => by simp [hcurrent] at hs, fun hs => absurd hstates hs⟩

/-- The first state becomes the current one. -/
theorem Entity.Poised.addState {a : Entity} (h : a.Poised) (s : StateId) :
    Entity.Poised { a with states := a.states ++ [s], current := a.current.or (some s) } where
  mem {t} ht := by
    cases hc : a.current with
    | none =>
      obtain rfl : s = t := by simpa [hc] using ht
      exact List.mem_append_right _ List.mem_cons_self
    | some c =>
      obtain rfl : c = t := by simpa [hc] using ht
      exact List.mem_append_left _ (h.mem hc)
  isSome _ := by simp

/-- An update uses a state and a port of its entity. -/
def Update.Fits (m : Model) (u : Update) : Prop :=
  u.state ∈ (m.entity u.entity).states ∧ u.target ∈ (m.entity u.entity).ports

/-- An influence leads from a source of its entity to a target of it. -/
def Influence.Fits (m : Model) (i : Influence) : Prop :=
  i.source ∈ m.sources i.entity ∧ i.target ∈ m.targets i.entity

namespace Model

variable {m m' : Model} {e a : EntityId} {name : String}

/-! ### Every component has its place -/

/-- The components of one kind: entities list exactly those that they own, each once, and no entity
lists two of one name. -/
structure Registry {ι : Type} (index : ι → Nat) (bound : Nat) (owner : ι → Option EntityId)
    (name : ι → String) (listed : EntityId → List ι) : Prop where
  mem_iff {e : EntityId} {i : ι} : i ∈ listed e ↔ index i < bound ∧ owner i = some e
  nodup (e : EntityId) : (listed e).Nodup
  named {e : EntityId} {i j : ι} : i ∈ listed e → j ∈ listed e → name i = name j → i = j

/-- Every component of a model has its place. -/
structure Registered (m : Model) : Prop where
  ports : Registry PortId.index m.ports.length (fun p => some (m.port p).entity)
    (fun p => (m.port p).name) fun e => (m.entity e).ports
  states : Registry StateId.index m.states.length (fun s => some (m.state s).entity)
    (fun s => (m.state s).name) fun e => (m.entity e).states
  updates : Registry UpdateId.index m.updates.length (fun u => some (m.update u).entity)
    (fun u => (m.update u).name) fun e => (m.entity e).updates
  influences : Registry InfluenceId.index m.influences.length
    (fun i => some (m.influence i).entity) (fun i => (m.influence i).name)
    fun e => (m.entity e).influences
  subentities : Registry EntityId.index m.entities.length (fun s => (m.entity s).parent)
    (fun s => (m.entity s).name) fun e => (m.entity e).subentities

section

variable {ι : Type} {index : ι → Nat} {bound : Nat} {owner owner' : ι → Option EntityId}
variable {label label' : ι → String} {listed listed' : EntityId → List ι} {new : ι}

theorem Registry.same (h : Registry index bound owner label listed)
    (howner : ∀ i, index i < bound → owner' i = owner i)
    (hlabel : ∀ i, index i < bound → label' i = label i) (hlisted : ∀ a, listed' a = listed a) :
    Registry index bound owner' label' listed' := by
  obtain rfl : listed' = listed := funext hlisted
  refine ⟨fun {e i} => ?_, h.nodup, fun {e i j} hi hj hij => ?_⟩
  · rw [h.mem_iff]
    exact and_congr_right fun hlt => by rw [howner i hlt]
  · rw [hlabel i (h.mem_iff.1 hi).1, hlabel j (h.mem_iff.1 hj).1] at hij
    exact h.named hi hj hij

/-- A new component is listed by its owner, if it has one. -/
theorem Registry.add {κ : Type} [Inhabited κ] {l : List κ} {x : κ} (own : κ → Option EntityId)
    (text : κ → String) (new : ι)
    (h : Registry index l.length (fun i => own (l[index i]?.getD default))
      (fun i => text (l[index i]?.getD default)) listed)
    (hnew : ∀ i, index i = l.length ↔ i = new)
    (hfresh : ∀ a, own x = some a → ∀ i ∈ listed a, text (l[index i]?.getD default) ≠ text x)
    (hlisted : ∀ a, listed' a = if own x = some a then listed a ++ [new] else listed a) :
    Registry index (l ++ [x]).length (fun i => own ((l ++ [x])[index i]?.getD default))
      (fun i => text ((l ++ [x])[index i]?.getD default)) listed' := by
  have hold : ∀ {i}, index i < l.length → (l ++ [x])[index i]?.getD default =
      l[index i]?.getD default := fun hi => getD_of_prefix (List.prefix_append _ _) hi
  have hx : (l ++ [x])[index new]?.getD default = x := by
    rw [(hnew new).2 rfl]
    simp
  have hmem : ∀ {a i}, i ∈ listed' a ↔ i ∈ listed a ∨ own x = some a ∧ i = new := by
    intro a i
    rw [hlisted]
    split_ifs with ha <;> simp [ha]
  have hnot : ∀ a, new ∉ listed a := fun a hin =>
    Nat.ne_of_lt (h.mem_iff.1 hin).1 ((hnew new).2 rfl)
  refine ⟨fun {a i} => ?_, fun a => ?_, fun {a i j} hi hj hij => ?_⟩
  · rw [hmem, h.mem_iff, List.length_append, List.length_singleton, Nat.lt_succ_iff_lt_or_eq]
    constructor
    · rintro (⟨hlt, ho⟩ | ⟨ho, rfl⟩)
      · exact ⟨.inl hlt, (congrArg own (hold hlt)).trans ho⟩
      · exact ⟨.inr ((hnew i).2 rfl), (congrArg own hx).trans ho⟩
    · rintro ⟨hlt | heq, ho⟩
      · exact .inl ⟨hlt, (congrArg own (hold hlt)).symm.trans ho⟩
      · obtain rfl := (hnew i).1 heq
        exact .inr ⟨(congrArg own hx).symm.trans ho, rfl⟩
  · rw [hlisted]
    split_ifs
    · refine List.nodup_append.2 ⟨h.nodup a, by simp, fun i hi j hj hij => hnot a ?_⟩
      rwa [← List.mem_singleton.1 hj, ← hij]
    · exact h.nodup a
  · have hlabel : ∀ {i}, i ∈ listed a → text ((l ++ [x])[index i]?.getD default) =
        text (l[index i]?.getD default) := fun hi => congrArg text (hold (h.mem_iff.1 hi).1)
    rcases hmem.1 hi with hi | ⟨ha, rfl⟩ <;> rcases hmem.1 hj with hj | ⟨hb, rfl⟩
    · exact h.named hi hj ((hlabel hi).symm.trans (hij.trans (hlabel hj)))
    · exact absurd ((hlabel hi).symm.trans (hij.trans (congrArg text hx))) (hfresh a hb i hi)
    · exact absurd ((hlabel hj).symm.trans (hij.symm.trans (congrArg text hx))) (hfresh a ha j hj)
    · rfl

end

theorem listed_modifyEntity {ι : Type} {list : Entity → List ι} {f : Entity → Entity} {new : ι}
    (he : e.index < m.entities.length) (hf : ∀ r, list (f r) = list r ++ [new]) :
    list ((m.modifyEntity e f).entity a) =
      if some e = some a then list (m.entity a) ++ [new] else list (m.entity a) := by
  rw [entity_modifyEntity]
  by_cases ha : a = e
  · subst ha
    rw [if_pos ⟨rfl, he⟩, if_pos rfl, hf]
  · rw [if_neg fun h => ha h.1, if_neg fun h => ha (Option.some.inj h).symm]

/-- A list that the change of an entity leaves as it was. -/
theorem Registry.modifyEntity {ι : Type} {index : ι → Nat} {bound : Nat}
    {owner : ι → Option EntityId} {label : ι → String} {list : Entity → List ι}
    {f : Entity → Entity} (h : Registry index bound owner label fun a => list (m.entity a))
    (hf : ∀ r, list (f r) = list r) :
    Registry index bound owner label fun a => list ((m.modifyEntity e f).entity a) :=
  h.same (fun _ _ => rfl) (fun _ _ => rfl) fun _ => apply_modifyEntity hf

/-- The subentities after the change of an entity that keeps its name, its parent and its
subentities. -/
theorem Registered.subentities_modifyEntity (h : m.Registered) {f : Entity → Entity}
    (hname : ∀ r, (f r).name = r.name) (hparent : ∀ r, (f r).parent = r.parent)
    (hf : ∀ r, (f r).subentities = r.subentities) :
    Registry EntityId.index (m.modifyEntity e f).entities.length
      (fun s => ((m.modifyEntity e f).entity s).parent)
      (fun s => ((m.modifyEntity e f).entity s).name)
      fun a => ((m.modifyEntity e f).entity a).subentities := by
  rw [length_modifyEntity]
  exact h.subentities.same (fun _ _ => apply_modifyEntity hparent)
    (fun _ _ => apply_modifyEntity hname) fun _ => apply_modifyEntity hf

theorem registered_empty : Registered {} := by
  constructor
  all_goals exact
    ⟨⟨fun h => absurd h List.not_mem_nil, fun h => absurd h.1 (Nat.not_lt_zero _)⟩,
      fun _ => List.nodup_nil, fun h => absurd h List.not_mem_nil⟩

theorem Registered.addResource (h : m.Registered) {unit : Option String} {domain : Domain}
    {r : ResourceId} (hm : m.addResource name unit domain = .ok (m', r)) : m'.Registered := by
  obtain ⟨-, rfl⟩ := addResource_ok hm
  exact ⟨h.ports, h.states, h.updates, h.influences, h.subentities⟩

theorem Registered.addPort (h : m.Registered) {kind : PortKind} {r : ResourceId} {value : Value}
    {p : PortId} (he : e.index < m.entities.length)
    (hm : m.addPort e name kind r value = .ok (m', p)) : m'.Registered := by
  obtain ⟨rfl, hfind, v, rfl⟩ := addPort_ok hm
  exact ⟨.add (fun x => some x.entity) Port.name _ h.ports (fun q => by cases q; simp)
      (fun a ha q hq => by
        cases ha
        exact fun hx => List.find?_eq_none.1 hfind q hq (decide_eq_true hx))
      fun a => listed_modifyEntity he fun _ => rfl,
    h.states.modifyEntity fun _ => rfl, h.updates.modifyEntity fun _ => rfl,
    h.influences.modifyEntity fun _ => rfl, h.subentities_modifyEntity (fun _ => rfl)
    (fun _ => rfl) fun _ => rfl⟩

theorem Registered.addState (h : m.Registered) {s : StateId} (he : e.index < m.entities.length)
    (hm : m.addState e name = .ok (m', s)) : m'.Registered := by
  obtain ⟨rfl, hfind, rfl⟩ := addState_ok hm
  exact ⟨h.ports.modifyEntity fun _ => rfl,
    .add (fun x => some x.entity) State.name _ h.states (fun t => by cases t; simp)
      (fun a ha t ht => by
        cases ha
        exact fun hx => List.find?_eq_none.1 hfind t ht (decide_eq_true hx))
      fun a => listed_modifyEntity he fun _ => rfl,
    h.updates.modifyEntity fun _ => rfl, h.influences.modifyEntity fun _ => rfl,
    h.subentities_modifyEntity (fun _ => rfl) (fun _ => rfl) fun _ => rfl⟩

theorem Registered.setCurrentState (h : m.Registered) {s : StateId}
    (hm : m.setCurrentState e s = .ok m') : m'.Registered := by
  obtain ⟨-, rfl⟩ := setCurrentState_ok hm
  exact ⟨h.ports.modifyEntity fun _ => rfl, h.states.modifyEntity fun _ => rfl,
    h.updates.modifyEntity fun _ => rfl, h.influences.modifyEntity fun _ => rfl,
    h.subentities_modifyEntity (fun _ => rfl) (fun _ => rfl) fun _ => rfl⟩

theorem Registered.addUpdate (h : m.Registered) {function : String} {state : StateId}
    {target : PortId} {u : UpdateId} (he : e.index < m.entities.length)
    (hm : m.addUpdate e name state target function = .ok (m', u)) : m'.Registered := by
  obtain ⟨rfl, hname, -, -, rfl⟩ := addUpdate_ok hm
  exact ⟨h.ports.modifyEntity fun _ => rfl, h.states.modifyEntity fun _ => rfl,
    .add (fun x => some x.entity) Update.name _ h.updates (fun v => by cases v; simp)
      (fun a ha => by cases ha; exact hname) fun a => listed_modifyEntity he fun _ => rfl,
    h.influences.modifyEntity fun _ => rfl, h.subentities_modifyEntity (fun _ => rfl)
    (fun _ => rfl) fun _ => rfl⟩

theorem Registered.addInfluence (h : m.Registered) {source target : PortId} {i : InfluenceId}
    (he : e.index < m.entities.length)
    (hm : m.addInfluence e name source target = .ok (m', i)) : m'.Registered := by
  obtain ⟨rfl, hname, -, -, rfl⟩ := addInfluence_ok hm
  exact ⟨h.ports.modifyEntity fun _ => rfl, h.states.modifyEntity fun _ => rfl,
    h.updates.modifyEntity fun _ => rfl,
    .add (fun x => some x.entity) Influence.name _ h.influences (fun j => by cases j; simp)
      (fun a ha => by cases ha; exact hname) fun a => listed_modifyEntity he fun _ => rfl,
    h.subentities_modifyEntity (fun _ => rfl) (fun _ => rfl) fun _ => rfl⟩

/-- A new entity lists nothing yet. -/
theorem listed_snoc {ι : Type} (list : Entity → List ι) (name : String) (parent : Option EntityId)
    (hlist : list default = []) (hnew : list { name := name, parent := parent } = []) :
    list (entity { m with entities := m.entities ++ [{ name := name, parent := parent }] } a) =
      list (m.entity a) := by
  rw [entity, getElem?_snoc]
  split_ifs with ha
  · rw [hnew, entity, List.getElem?_eq_none (Nat.le_of_eq ha.symm)]
    exact hlist.symm
  · rfl

theorem Registered.addEntity (h : m.Registered) {parent : Option EntityId}
    (hp : ∀ p, parent = some p → p.index < m.entities.length)
    (hm : m.addEntity name parent = .ok (m', e)) : m'.Registered := by
  obtain ⟨rfl, hfind, rfl⟩ := addEntity_ok hm
  have hports := h.ports.same (fun _ _ => rfl) (fun _ _ => rfl) fun _ =>
    listed_snoc Entity.ports name parent rfl rfl
  have hstates := h.states.same (fun _ _ => rfl) (fun _ _ => rfl) fun _ =>
    listed_snoc Entity.states name parent rfl rfl
  have hupdates := h.updates.same (fun _ _ => rfl) (fun _ _ => rfl) fun _ =>
    listed_snoc Entity.updates name parent rfl rfl
  have hinfluences := h.influences.same (fun _ _ => rfl) (fun _ _ => rfl) fun _ =>
    listed_snoc Entity.influences name parent rfl rfl
  have hlisted := fun a => listed_snoc (m := m) (a := a) Entity.subentities name parent rfl rfl
  have hindex : ∀ s : EntityId, s.index = m.entities.length ↔ s = ⟨m.entities.length⟩ :=
    fun s => by cases s; simp
  cases parent with
  | none =>
    exact ⟨hports, hstates, hupdates, hinfluences,
      .add Entity.parent Entity.name _ h.subentities hindex nofun hlisted⟩
  | some p =>
    refine ⟨hports.modifyEntity fun _ => rfl, hstates.modifyEntity fun _ => rfl,
      hupdates.modifyEntity fun _ => rfl, hinfluences.modifyEntity fun _ => rfl, ?_⟩
    rw [Option.elim, length_modifyEntity]
    refine Registry.same (.add (x := { name := name, parent := some p }) Entity.parent Entity.name _
      h.subentities hindex (fun a ha s hs hx => ?_) fun a => ?_)
      (fun _ _ => apply_modifyEntity fun _ => rfl) (fun _ _ => apply_modifyEntity fun _ => rfl)
      fun _ => rfl
    · cases ha
      exact List.find?_eq_none.1 (hfind p rfl) s hs (decide_eq_true hx)
    · rw [← hlisted a]
      exact listed_modifyEntity (by simpa using Nat.lt_succ_of_lt (hp p rfl)) fun _ => rfl

/-- **Every component of a built model has its place.** -/
theorem Built.registered (h : m.Built) : m.Registered := by
  induction h with
  | empty => exact registered_empty
  | resource _ hm ih => exact ih.addResource hm
  | entity _ hp hm ih => exact ih.addEntity hp hm
  | port _ he _ hm ih => exact ih.addPort he hm
  | state _ he hm ih => exact ih.addState he hm
  | current _ _ _ hm ih => exact ih.setCurrentState hm
  | update _ he _ _ hm ih => exact ih.addUpdate he hm
  | influence _ he _ _ hm ih => exact ih.addInfluence he hm

/-! ### Current states -/

theorem poised_modifyEntity {f : Entity → Entity} (h : ∀ a, (m.entity a).Poised)
    (hf : (f (m.entity e)).Poised) : ((m.modifyEntity e f).entity a).Poised := by
  rw [entity_modifyEntity]
  split_ifs with ha
  · exact ha.1 ▸ hf
  · exact h a

theorem poised_modifyEntity_of_eq {f : Entity → Entity} (h : ∀ a, (m.entity a).Poised)
    (hstates : ∀ r, (f r).states = r.states) (hcurrent : ∀ r, (f r).current = r.current) :
    ((m.modifyEntity e f).entity a).Poised :=
  poised_modifyEntity h ((h e).of_eq (hstates _) (hcurrent _))

theorem Built.poised (h : m.Built) (a : EntityId) : (m.entity a).Poised := by
  induction h generalizing a with
  | empty => exact Entity.poised_of_none rfl rfl
  | resource _ hm ih =>
    obtain ⟨-, rfl⟩ := addResource_ok hm
    exact ih a
  | @entity m _ name parent _ _ _ hm ih =>
    obtain ⟨rfl, -, rfl⟩ := addEntity_ok hm
    have hadded : ∀ a, (Model.entity { m with entities :=
        m.entities ++ [{ name := name, parent := parent }] } a).Poised := fun a => by
      rw [Model.entity, getElem?_snoc]
      split_ifs
      · exact Entity.poised_of_none rfl rfl
      · exact ih a
    cases parent with
    | none => exact hadded a
    | some p => exact poised_modifyEntity_of_eq hadded (fun _ => rfl) fun _ => rfl
  | port _ _ _ hm ih =>
    obtain ⟨rfl, -, v, rfl⟩ := addPort_ok hm
    exact poised_modifyEntity_of_eq ih (fun _ => rfl) fun _ => rfl
  | @state m _ e _ _ _ _ hm ih =>
    obtain ⟨rfl, -, rfl⟩ := addState_ok hm
    exact poised_modifyEntity ih ((ih e).addState _)
  | @current m _ e s hb _ hs hm ih =>
    obtain ⟨howner, rfl⟩ := setCurrentState_ok hm
    have hmem : s ∈ (m.entity e).states :=
      hb.registered.states.mem_iff.2 ⟨hs, congrArg some howner⟩
    exact poised_modifyEntity ih ⟨fun hc => Option.some.inj hc ▸ hmem, fun _ => rfl⟩
  | update _ _ _ _ hm ih =>
    obtain ⟨rfl, -, -, -, rfl⟩ := addUpdate_ok hm
    exact poised_modifyEntity_of_eq ih (fun _ => rfl) fun _ => rfl
  | influence _ _ _ _ hm ih =>
    obtain ⟨rfl, -, -, -, rfl⟩ := addInfluence_ok hm
    exact poised_modifyEntity_of_eq ih (fun _ => rfl) fun _ => rfl

/-! ### What updates and influences use -/

/-- What lists something is there. -/
theorem lt_of_mem_listed {ι : Type} (list : Entity → List ι) (hlist : list default = []) {i : ι}
    (h : i ∈ list (m.entity e)) : e.index < m.entities.length := by
  refine Nat.lt_of_not_le fun he => ?_
  rw [entity, List.getElem?_eq_none he, Option.getD_none, hlist] at h
  cases h

theorem Grown.mem_portsOfKind (hg : m.Grown m') (hm : m.Registered) {k : PortKind} {p : PortId}
    (h : p ∈ m.portsOfKind e k) : p ∈ m'.portsOfKind e k := by
  obtain ⟨hp, hk⟩ := List.mem_filter.1 h
  have he := lt_of_mem_listed Entity.ports (Eq.refl _) hp
  refine List.mem_filter.2 ⟨(hg.entity he).ports.subset hp, ?_⟩
  rwa [hg.port (hm.ports.mem_iff.1 hp).1]

theorem Grown.mem_subentities (hg : m.Grown m') {s : EntityId}
    (h : s ∈ (m.entity e).subentities) : s ∈ (m'.entity e).subentities :=
  (hg.entity (lt_of_mem_listed Entity.subentities (Eq.refl _) h)).subentities.subset h

/-- Sources stay sources. -/
theorem Grown.mem_sources (hg : m.Grown m') (hm : m.Registered) {p : PortId}
    (h : p ∈ m.sources e) : p ∈ m'.sources e := by
  simp only [sources, List.mem_append, List.mem_flatMap] at h ⊢
  refine h.imp (Or.imp (hg.mem_portsOfKind hm) (hg.mem_portsOfKind hm)) ?_
  exact fun ⟨s, hs, hp⟩ => ⟨s, hg.mem_subentities hs, hg.mem_portsOfKind hm hp⟩

/-- Targets stay targets. -/
theorem Grown.mem_targets (hg : m.Grown m') (hm : m.Registered) {p : PortId}
    (h : p ∈ m.targets e) : p ∈ m'.targets e := by
  simp only [targets, List.mem_append, List.mem_flatMap] at h ⊢
  refine h.imp (Or.imp (hg.mem_portsOfKind hm) (hg.mem_portsOfKind hm)) ?_
  exact fun ⟨s, hs, hp⟩ => ⟨s, hg.mem_subentities hs, hg.mem_portsOfKind hm hp⟩

theorem Grown.fits_update (hg : m.Grown m') {u : Update} (h : u.Fits m) : u.Fits m' :=
  have he := lt_of_mem_listed Entity.ports (Eq.refl _) h.2
  ⟨(hg.entity he).states.subset h.1, (hg.entity he).ports.subset h.2⟩

theorem Grown.fits_influence (hg : m.Grown m') (hm : m.Registered) {i : Influence}
    (h : i.Fits m) : i.Fits m' := ⟨hg.mem_sources hm h.1, hg.mem_targets hm h.2⟩

/-- Updates and influences use what their entity reaches. -/
structure Linked (m : Model) : Prop where
  updates : ∀ u ∈ m.updates, u.Fits m
  influences : ∀ i ∈ m.influences, i.Fits m

/-- An addition of anything else than updates and influences. -/
theorem Linked.grow (h : m.Linked) (hg : m.Grown m') (hm : m.Registered)
    (hu : m'.updates = m.updates) (hi : m'.influences = m.influences) : m'.Linked :=
  ⟨fun u hmem => hg.fits_update (h.updates u (hu ▸ hmem)),
    fun i hmem => hg.fits_influence hm (h.influences i (hi ▸ hmem))⟩

theorem Built.linked (h : m.Built) : m.Linked := by
  induction h with
  | empty => exact ⟨List.forall_mem_nil _, List.forall_mem_nil _⟩
  | resource hb hm ih =>
    have hg := grown_addResource hm
    obtain ⟨-, rfl⟩ := addResource_ok hm
    exact ih.grow hg hb.registered rfl rfl
  | @entity _ _ _ parent _ hb _ hm ih =>
    have hg := grown_addEntity hm
    obtain ⟨-, -, rfl⟩ := addEntity_ok hm
    cases parent <;> exact ih.grow hg hb.registered rfl rfl
  | port hb _ _ hm ih =>
    have hg := grown_addPort hm
    obtain ⟨-, -, v, rfl⟩ := addPort_ok hm
    exact ih.grow hg hb.registered rfl rfl
  | state hb _ hm ih =>
    have hg := grown_addState hm
    obtain ⟨-, -, rfl⟩ := addState_ok hm
    exact ih.grow hg hb.registered rfl rfl
  | current hb _ _ hm ih =>
    have hg := grown_setCurrentState hm
    obtain ⟨-, rfl⟩ := setCurrentState_ok hm
    exact ih.grow hg hb.registered rfl rfl
  | @update m _ e name state target function _ hb _ hs ht hm ih =>
    have hg := grown_addUpdate hm
    obtain ⟨-, -, hstate, htarget, rfl⟩ := addUpdate_ok hm
    have hnew : Update.Fits m ⟨name, e, state, target, function⟩ :=
      ⟨hb.registered.states.mem_iff.2 ⟨hs, congrArg some hstate⟩,
        hb.registered.ports.mem_iff.2 ⟨ht, congrArg some htarget⟩⟩
    refine ⟨List.forall_mem_append.2 ⟨fun u hu => hg.fits_update (ih.updates u hu), ?_⟩,
      fun i hi => hg.fits_influence hb.registered (ih.influences i hi)⟩
    exact List.forall_mem_singleton.2 (hg.fits_update hnew)
  | @influence m _ e name source target _ hb _ _ _ hm ih =>
    have hg := grown_addInfluence hm
    obtain ⟨-, -, hsource, htarget, rfl⟩ := addInfluence_ok hm
    refine ⟨fun u hu => hg.fits_update (ih.updates u hu), List.forall_mem_append.2
      ⟨fun i hi => hg.fits_influence hb.registered (ih.influences i hi), ?_⟩⟩
    exact List.forall_mem_singleton.2 (hg.fits_influence hb.registered ⟨hsource, htarget⟩)

/-! ### Consistency -/

/-- What holds of every built model, in full.

* `below`: a parent has a smaller number;
* `current_mem`, `current_isSome`: the current state of an entity is one of its states, and there is
  one as soon as it has states;
* `update`, `influence`: what an update and an influence use;
* `admitted`: the value of a port is one of its domain. -/
structure Consistent (m : Model) : Prop extends m.Registered where
  below {s p : EntityId} : (m.entity s).parent = some p → p.index < s.index
  current_mem {e : EntityId} {s : StateId} : (m.entity e).current = some s →
    s ∈ (m.entity e).states
  current_isSome {e : EntityId} : (m.entity e).states ≠ [] → (m.entity e).current.isSome
  update {u : UpdateId} : u.index < m.updates.length → (m.update u).Fits m
  influence {i : InfluenceId} : i.index < m.influences.length → (m.influence i).Fits m
  admitted {p : PortId} : p.index < m.ports.length →
    (m.port p).resource.index < m.resources.length ∧
      (m.resource (m.port p).resource).domain.admit? (m.port p).value = some (m.port p).value

/-- **Built models are consistent.** -/
theorem Built.consistent (h : m.Built) : m.Consistent where
  toRegistered := h.registered
  below := h.wellFormed.below
  current_mem := (h.poised _).mem
  current_isSome := (h.poised _).isSome
  update {u} hu := h.linked.updates _ (by
    rw [Model.update, List.getElem?_eq_getElem hu]
    exact List.getElem_mem hu)
  influence {i} hi := h.linked.influences _ (by
    rw [Model.influence, List.getElem?_eq_getElem hi]
    exact List.getElem_mem hi)
  admitted := h.wellFormed.admitted

end Model

end HybridStep
