import HybridStep.Proofs.Model.Built

/-! # What additions change

An addition puts one component at the end of its kind and, where it has an owner, at the end of one
list of its owner. What has been there stays as it was: a model only grows. -/

namespace HybridStep

/-- An entity after additions to its lists. -/
structure Entity.Grown (a b : Entity) : Prop where
  name : b.name = a.name
  parent : b.parent = a.parent
  ports : a.ports <+: b.ports
  states : a.states <+: b.states
  subentities : a.subentities <+: b.subentities

theorem Entity.Grown.rfl {a : Entity} : a.Grown a :=
  ⟨Eq.refl _, Eq.refl _, List.prefix_rfl, List.prefix_rfl, List.prefix_rfl⟩

namespace Model

/-- A model after additions. -/
structure Grown (m m' : Model) : Prop where
  resources : m.resources <+: m'.resources
  ports : m.ports <+: m'.ports
  states : m.states <+: m'.states
  updates : m.updates <+: m'.updates
  influences : m.influences <+: m'.influences
  entities : m.entities.length ≤ m'.entities.length
  entity {e : EntityId} : e.index < m.entities.length → (m.entity e).Grown (m'.entity e)

variable {m m' : Model} {e a : EntityId} {name : String}

theorem getD_of_prefix {α : Type} [Inhabited α] {l l' : List α} (h : l <+: l') {n : Nat}
    (hn : n < l.length) : l'[n]?.getD default = l[n]?.getD default := by
  obtain ⟨r, rfl⟩ := h
  rw [List.getElem?_append_left hn]

theorem Grown.port (h : m.Grown m') {p : PortId} (hp : p.index < m.ports.length) :
    m'.port p = m.port p := getD_of_prefix h.ports hp

theorem grown_modifyEntity {f : Entity → Entity} (hf : ∀ r : Entity, r.Grown (f r)) :
    m.Grown (m.modifyEntity e f) where
  resources := List.prefix_rfl
  ports := List.prefix_rfl
  states := List.prefix_rfl
  updates := List.prefix_rfl
  influences := List.prefix_rfl
  entities := Nat.le_of_eq (length_modifyEntity f).symm
  entity {a} _ := by
    rw [entity_modifyEntity]
    split_ifs
    · exact hf _
    · exact .rfl

theorem Grown.trans {m'' : Model} (h : m.Grown m') (h' : m'.Grown m'') : m.Grown m'' where
  resources := h.resources.trans h'.resources
  ports := h.ports.trans h'.ports
  states := h.states.trans h'.states
  updates := h.updates.trans h'.updates
  influences := h.influences.trans h'.influences
  entities := Nat.le_trans h.entities h'.entities
  entity ha :=
    have g := h.entity ha
    have g' := h'.entity (Nat.lt_of_lt_of_le ha h.entities)
    ⟨g'.name.trans g.name, g'.parent.trans g.parent, g.ports.trans g'.ports,
      g.states.trans g'.states, g.subentities.trans g'.subentities⟩

/-! ### What the additions do -/

theorem addResource_ok {unit : Option String} {domain : Domain} {r : ResourceId}
    (h : m.addResource name unit domain = .ok (m', r)) : r = ⟨m.resources.length⟩ ∧
      m' = { m with resources := m.resources ++ [⟨name, unit, domain⟩] } := by
  unfold addResource at h
  split_ifs at h
  cases h
  exact ⟨rfl, rfl⟩

theorem addEntity_ok {parent : Option EntityId} (h : m.addEntity name parent = .ok (m', e)) :
    e = ⟨m.entities.length⟩ ∧ (∀ p, parent = some p → m.findSubentity p name = none) ∧
      m' = parent.elim
        { m with entities := m.entities ++ [{ name := name, parent := parent }] } fun p =>
          modifyEntity { m with entities := m.entities ++ [{ name := name, parent := parent }] } p
            fun r => { r with subentities := r.subentities ++ [e] } := by
  cases parent with
  | none =>
    cases h
    exact ⟨rfl, nofun, rfl⟩
  | some p =>
    simp only [addEntity] at h
    split_ifs at h with hfind
    cases h
    exact ⟨rfl, fun q hq => by cases hq; simpa using hfind, rfl⟩

theorem addPort_ok {kind : PortKind} {r : ResourceId} {value : Value} {p : PortId}
    (h : m.addPort e name kind r value = .ok (m', p)) : p = ⟨m.ports.length⟩ ∧
      m.findPort e name = none ∧ ∃ v, m' =
        modifyEntity { m with ports := m.ports ++ [⟨name, kind, r, v, e⟩] } e
          fun x => { x with ports := x.ports ++ [p] } := by
  unfold addPort at h
  simp only at h
  split_ifs at h with hfind
  split at h
  · cases h
  · next v hv =>
    cases h
    exact ⟨rfl, by simpa using hfind, v, rfl⟩

theorem addState_ok {s : StateId} (h : m.addState e name = .ok (m', s)) :
    s = ⟨m.states.length⟩ ∧ m.findState e name = none ∧ m' =
      modifyEntity { m with states := m.states ++ [⟨name, e⟩] } e fun x =>
        { x with states := x.states ++ [s], current := x.current.or (some s) } := by
  unfold addState at h
  split_ifs at h with hfind
  cases h
  exact ⟨rfl, by simpa using hfind, rfl⟩

theorem setCurrentState_ok {s : StateId} (h : m.setCurrentState e s = .ok m') :
    (m.state s).entity = e ∧ m' = m.modifyEntity e fun x => { x with current := some s } := by
  unfold setCurrentState at h
  split_ifs at h with hs
  cases h
  exact ⟨Decidable.not_not.1 hs, rfl⟩

theorem addUpdate_ok {state : StateId} {target : PortId} {function : String} {u : UpdateId}
    (h : m.addUpdate e name state target function = .ok (m', u)) : u = ⟨m.updates.length⟩ ∧
      (∀ v ∈ (m.entity e).updates, (m.update v).name ≠ name) ∧ (m.state state).entity = e ∧
      (m.port target).entity = e ∧ m' =
        modifyEntity { m with updates := m.updates ++ [⟨name, e, state, target, function⟩] } e
          fun x => { x with updates := x.updates ++ [u] } := by
  unfold addUpdate at h
  split_ifs at h with hname hstate htarget
  cases h
  exact ⟨rfl, by simpa using hname, Decidable.not_not.1 hstate, Decidable.not_not.1 htarget, rfl⟩

theorem addInfluence_ok {source target : PortId} {i : InfluenceId}
    (h : m.addInfluence e name source target = .ok (m', i)) : i = ⟨m.influences.length⟩ ∧
      (∀ j ∈ (m.entity e).influences, (m.influence j).name ≠ name) ∧ source ∈ m.sources e ∧
      target ∈ m.targets e ∧ m' =
        modifyEntity { m with influences := m.influences ++ [⟨name, e, source, target⟩] } e
          fun x => { x with influences := x.influences ++ [i] } := by
  unfold addInfluence at h
  split_ifs at h with hname hsource htarget
  cases h
  exact ⟨rfl, by simpa using hname, by simpa using hsource, by simpa using htarget, rfl⟩

/-! ### Additions leave the rest as it was -/

theorem Grown.rfl : m.Grown m :=
  ⟨List.prefix_rfl, List.prefix_rfl, List.prefix_rfl, List.prefix_rfl, List.prefix_rfl,
    Nat.le_refl _, fun _ => .rfl⟩

/-- One more port, state or subentity in the lists of an entity, or another change of it. -/
theorem Grown.modifyEntity {f : Entity → Entity} (h : m.Grown m')
    (hf : ∀ r : Entity, r.Grown (f r)) :
    m.Grown (m'.modifyEntity e f) := h.trans (grown_modifyEntity hf)

theorem grown_addResource {unit : Option String} {domain : Domain} {r : ResourceId}
    (hm : m.addResource name unit domain = .ok (m', r)) : m.Grown m' := by
  obtain ⟨-, rfl⟩ := addResource_ok hm
  exact { Grown.rfl (m := m) with resources := List.prefix_append _ _ }

theorem grown_addEntity {parent : Option EntityId} (hm : m.addEntity name parent = .ok (m', e)) :
    m.Grown m' := by
  obtain ⟨-, -, rfl⟩ := addEntity_ok hm
  have hadded : m.Grown { m with entities := m.entities ++ [{ name := name, parent := parent }] } :=
    { Grown.rfl (m := m) with
      entities := by simp
      entity := fun {a} ha => by
        rw [entity, entity, getD_of_prefix (List.prefix_append _ _) ha]
        exact .rfl }
  cases parent with
  | none => exact hadded
  | some p =>
    exact hadded.modifyEntity fun _ => { Entity.Grown.rfl with
      subentities := List.prefix_append _ _ }

theorem grown_addPort {kind : PortKind} {r : ResourceId} {value : Value} {p : PortId}
    (hm : m.addPort e name kind r value = .ok (m', p)) : m.Grown m' := by
  obtain ⟨-, -, v, rfl⟩ := addPort_ok hm
  exact { Grown.rfl (m := m) with ports := List.prefix_append _ _ : m.Grown
    { m with ports := m.ports ++ [⟨name, kind, r, v, e⟩] } }.modifyEntity fun _ =>
      { Entity.Grown.rfl with ports := List.prefix_append _ _ }

theorem grown_addState {s : StateId} (hm : m.addState e name = .ok (m', s)) : m.Grown m' := by
  obtain ⟨-, -, rfl⟩ := addState_ok hm
  exact { Grown.rfl (m := m) with states := List.prefix_append _ _ : m.Grown
    { m with states := m.states ++ [⟨name, e⟩] } }.modifyEntity fun _ =>
      { Entity.Grown.rfl with states := List.prefix_append _ _ }

theorem grown_setCurrentState {s : StateId} (hm : m.setCurrentState e s = .ok m') :
    m.Grown m' := by
  obtain ⟨-, rfl⟩ := setCurrentState_ok hm
  exact Grown.rfl.modifyEntity fun _ => { Entity.Grown.rfl with }

theorem grown_addUpdate {state : StateId} {target : PortId} {function : String} {u : UpdateId}
    (hm : m.addUpdate e name state target function = .ok (m', u)) : m.Grown m' := by
  obtain ⟨-, -, -, -, rfl⟩ := addUpdate_ok hm
  exact { Grown.rfl (m := m) with updates := List.prefix_append _ _ : m.Grown
    { m with updates := m.updates ++ [⟨name, e, state, target, function⟩] } }.modifyEntity fun _ =>
      { Entity.Grown.rfl with }

theorem grown_addInfluence {source target : PortId} {i : InfluenceId}
    (hm : m.addInfluence e name source target = .ok (m', i)) : m.Grown m' := by
  obtain ⟨-, -, -, -, rfl⟩ := addInfluence_ok hm
  exact { Grown.rfl (m := m) with influences := List.prefix_append _ _ : m.Grown
    { m with influences := m.influences ++ [⟨name, e, source, target⟩] } }.modifyEntity fun _ =>
      { Entity.Grown.rfl with }

end Model

end HybridStep
