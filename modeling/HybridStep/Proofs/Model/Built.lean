import HybridStep.Model.Builder
import Mathlib.Tactic.SplitIfs

/-! # Built models

The models that a sequence of additions gives. In such a model what an entity lists belongs to that
entity and is listed once, the entities form a forest in which a subentity has a greater number than
its parent, and the value of a port is one of its domain. -/

namespace HybridStep.Model

/-- The models that additions can give. Numbers are those of components that are there. -/
inductive Built : Model → Prop
  | empty : Built {}
  | resource {m m' : Model} {name : String} {unit : Option String} {domain : Domain}
    {r : ResourceId} : Built m → m.addResource name unit domain = .ok (m', r) → Built m'
  | entity {m m' : Model} {name : String} {parent : Option EntityId} {e : EntityId} : Built m →
    (∀ p, parent = some p → p.index < m.entities.length) →
      m.addEntity name parent = .ok (m', e) → Built m'
  | port {m m' : Model} {e : EntityId} {name : String} {kind : PortKind} {r : ResourceId}
    {value : Value} {p : PortId} : Built m → e.index < m.entities.length →
      r.index < m.resources.length → m.addPort e name kind r value = .ok (m', p) → Built m'
  | state {m m' : Model} {e : EntityId} {name : String} {s : StateId} : Built m →
    e.index < m.entities.length → m.addState e name = .ok (m', s) → Built m'
  | current {m m' : Model} {e : EntityId} {s : StateId} : Built m →
    e.index < m.entities.length → s.index < m.states.length → m.setCurrentState e s = .ok m' →
      Built m'
  | update {m m' : Model} {e : EntityId} {name : String} {state : StateId} {target : PortId}
    {function : String} {u : UpdateId} : Built m → e.index < m.entities.length →
      state.index < m.states.length → target.index < m.ports.length →
        m.addUpdate e name state target function = .ok (m', u) → Built m'
  | influence {m m' : Model} {e : EntityId} {name : String} {source target : PortId}
    {i : InfluenceId} : Built m → e.index < m.entities.length → source.index < m.ports.length →
      target.index < m.ports.length → m.addInfluence e name source target = .ok (m', i) → Built m'

/-- Entities list components that belong to them, each once. -/
structure Listing {ι : Type} (index : ι → Nat) (bound : Nat) (owner : ι → Option EntityId)
    (listed : EntityId → List ι) : Prop where
  owned {e : EntityId} {i : ι} : i ∈ listed e → index i < bound ∧ owner i = some e
  nodup (e : EntityId) : (listed e).Nodup

/-- What holds of every built model. -/
structure WellFormed (m : Model) : Prop where
  ports : Listing PortId.index m.ports.length (fun p => some (m.port p).entity)
    fun e => (m.entity e).ports
  states : Listing StateId.index m.states.length (fun s => some (m.state s).entity)
    fun e => (m.entity e).states
  updates : Listing UpdateId.index m.updates.length (fun u => some (m.update u).entity)
    fun e => (m.entity e).updates
  influences : Listing InfluenceId.index m.influences.length
    (fun i => some (m.influence i).entity) fun e => (m.entity e).influences
  subentities : Listing EntityId.index m.entities.length (fun s => (m.entity s).parent)
    fun e => (m.entity e).subentities
  below {s p : EntityId} : (m.entity s).parent = some p → p.index < s.index
  admitted {p : PortId} : p.index < m.ports.length →
    (m.port p).resource.index < m.resources.length ∧
      (m.resource (m.port p).resource).domain.admit? (m.port p).value = some (m.port p).value

variable {m m' : Model} {e a : EntityId}

/-! ### What an addition changes -/

theorem entity_modifyEntity (f : Entity → Entity) : (m.modifyEntity e f).entity a =
    if a = e ∧ a.index < m.entities.length then f (m.entity a) else m.entity a := by
  simp only [entity, modifyEntity, List.getElem?_modify]
  by_cases hlt : a.index < m.entities.length
  · by_cases hae : a = e
    · subst hae
      simp [hlt]
    · have hne : e.index ≠ a.index := fun h => hae (by cases a; cases e; simp_all)
      simp [hae, hne]
  · rw [if_neg fun h => hlt h.2, List.getElem?_eq_none (by omega)]
    split <;> rfl

theorem length_modifyEntity (f : Entity → Entity) :
    (m.modifyEntity e f).entities.length = m.entities.length := List.length_modify ..

/-- What a change of one entity leaves as it was. -/
theorem apply_modifyEntity {α : Type} {g : Entity → α} {f : Entity → Entity}
    (hf : ∀ r, g (f r) = g r) : g ((m.modifyEntity e f).entity a) = g (m.entity a) := by
  rw [entity_modifyEntity]
  split_ifs
  · exact hf _
  · rfl

/-- An element of a list that one more was added to. -/
theorem getElem?_snoc {α : Type} [Inhabited α] (l : List α) (x : α) (n : Nat) :
    (l ++ [x])[n]?.getD default = if n = l.length then x else l[n]?.getD default := by
  rcases Nat.lt_trichotomy n l.length with h | h | h
  · rw [List.getElem?_append_left h, if_neg (by omega)]
  · subst h
    simp
  · rw [List.getElem?_eq_none (by simp; omega), List.getElem?_eq_none (by omega), if_neg (by omega)]

theorem admit?_idem {d : Domain} {v w : Value} (h : d.admit? v = some w) : d.admit? w = some w := by
  unfold Domain.admit? at h
  split at h
  · cases h; rfl
  · cases h; rfl
  · cases h; rfl
  · cases h; rfl
  · split_ifs at h with ht
    cases h
    exact if_pos ht
  · cases h

section

variable {ι : Type} {index : ι → Nat} {bound bound' : Nat} {owner owner' : ι → Option EntityId}
variable {list : Entity → List ι} {f : Entity → Entity} {new : ι}

/-- Components can be added that are not listed yet. -/
theorem Listing.grow {listed : EntityId → List ι} (h : Listing index bound owner listed)
    (hbound : bound ≤ bound') (howner : ∀ i, index i < bound → owner' i = owner i) :
    Listing index bound' owner' listed :=
  ⟨fun hi =>
    have ⟨hlt, hown⟩ := h.owned hi
    ⟨Nat.lt_of_lt_of_le hlt hbound, (howner _ hlt).trans hown⟩, h.nodup⟩

theorem Listing.same (h : Listing index bound owner fun a => list (m.entity a))
    (hf : ∀ r, list (f r) = list r) :
    Listing index bound owner fun a => list ((m.modifyEntity e f).entity a) := by
  have hsame : (fun a => list ((m.modifyEntity e f).entity a)) = fun a => list (m.entity a) :=
    funext fun a => apply_modifyEntity hf
  rwa [hsame]

/-- An entity lists a component that it has not listed. -/
theorem Listing.append (h : Listing index bound owner fun a => list (m.entity a))
    (he : e.index < m.entities.length) (hlt : index new < bound) (hown : owner new = some e)
    (hnew : new ∉ list (m.entity e)) (hf : ∀ r, list (f r) = list r ++ [new]) :
    Listing index bound owner fun a => list ((m.modifyEntity e f).entity a) := by
  refine ⟨fun {a i} hi => ?_, fun a => ?_⟩
  · rw [entity_modifyEntity] at hi
    split_ifs at hi with ha
    · rw [hf, List.mem_append, List.mem_singleton] at hi
      rcases hi with hi | rfl
      · exact h.owned hi
      · exact ⟨hlt, ha.1 ▸ hown⟩
    · exact h.owned hi
  · rw [entity_modifyEntity]
    split_ifs with ha
    · obtain ⟨rfl, -⟩ := ha
      rw [hf]
      refine List.nodup_append.2 ⟨h.nodup a, by simp, fun i hi j hj hij => hnew ?_⟩
      rwa [← List.mem_singleton.1 hj, ← hij]
    · exact h.nodup a

theorem Listing.not_mem {listed : EntityId → List ι} (h : Listing index bound owner listed) {i : ι}
    (hi : bound ≤ index i) : i ∉ listed e := fun hmem => by
  have := (h.owned hmem).1
  omega

end

/-- A change of one entity that keeps its parent and its lists as they should be. -/
theorem WellFormed.modifyEntity (h : m.WellFormed) {f : Entity → Entity}
    (hparent : ∀ r, (f r).parent = r.parent)
    (hports : Listing PortId.index m.ports.length (fun p => some (m.port p).entity)
      fun a => ((m.modifyEntity e f).entity a).ports)
    (hstates : Listing StateId.index m.states.length (fun s => some (m.state s).entity)
      fun a => ((m.modifyEntity e f).entity a).states)
    (hupdates : Listing UpdateId.index m.updates.length (fun u => some (m.update u).entity)
      fun a => ((m.modifyEntity e f).entity a).updates)
    (hinfluences : Listing InfluenceId.index m.influences.length
      (fun i => some (m.influence i).entity) fun a => ((m.modifyEntity e f).entity a).influences)
    (hsubentities : Listing EntityId.index m.entities.length (fun s => (m.entity s).parent)
      fun a => ((m.modifyEntity e f).entity a).subentities) : (m.modifyEntity e f).WellFormed where
  ports := hports
  states := hstates
  updates := hupdates
  influences := hinfluences
  subentities := hsubentities.grow (Nat.le_of_eq (length_modifyEntity f).symm) fun _ _ =>
    apply_modifyEntity hparent
  below := fun hp => h.below ((apply_modifyEntity hparent).symm.trans hp)
  admitted := h.admitted

/-! ### Every addition keeps a model well-formed -/

theorem WellFormed.addResource (h : m.WellFormed) {name : String} {unit : Option String}
    {domain : Domain} {r : ResourceId} (hm : m.addResource name unit domain = .ok (m', r)) :
    m'.WellFormed := by
  unfold Model.addResource at hm
  split_ifs at hm
  cases hm
  refine { h with admitted := fun {p} hp => ?_ }
  obtain ⟨hlt, hv⟩ := h.admitted hp
  have hres : resource { m with resources := m.resources ++ [⟨name, unit, domain⟩] }
      (m.port p).resource = m.resource (m.port p).resource := by
    rw [resource, getElem?_snoc, if_neg (Nat.ne_of_lt hlt), resource]
  exact ⟨Nat.lt_of_lt_of_le hlt (by simp),
    (congrArg (·.domain.admit? (m.port p).value) hres).trans hv⟩

theorem WellFormed.addState (h : m.WellFormed) {name : String} {s : StateId}
    (he : e.index < m.entities.length) (hm : m.addState e name = .ok (m', s)) :
    m'.WellFormed := by
  unfold Model.addState at hm
  split_ifs at hm
  cases hm
  have hstate : ∀ t, state { m with states := m.states ++ [⟨name, e⟩] } t =
      if t.index = m.states.length then ⟨name, e⟩ else m.state t := fun t => getElem?_snoc ..
  have hstates : WellFormed { m with states := m.states ++ [⟨name, e⟩] } := by
    refine { h with states := h.states.grow (by simp) fun t ht => ?_ }
    rw [hstate, if_neg (Nat.ne_of_lt ht)]
  refine hstates.modifyEntity (fun _ => rfl) (hstates.ports.same fun _ => rfl)
    (hstates.states.append he (by simp) ?_ (h.states.not_mem (Nat.le_refl _)) fun _ => rfl)
    (hstates.updates.same fun _ => rfl) (hstates.influences.same fun _ => rfl)
    (hstates.subentities.same fun _ => rfl)
  rw [hstate, if_pos rfl]

theorem WellFormed.setCurrentState (h : m.WellFormed) {s : StateId}
    (hm : m.setCurrentState e s = .ok m') : m'.WellFormed := by
  unfold Model.setCurrentState at hm
  split_ifs at hm
  cases hm
  exact h.modifyEntity (fun _ => rfl) (h.ports.same fun _ => rfl) (h.states.same fun _ => rfl)
    (h.updates.same fun _ => rfl)
    (h.influences.same fun _ => rfl) (h.subentities.same fun _ => rfl)

theorem WellFormed.addPort (h : m.WellFormed) {name : String} {kind : PortKind} {r : ResourceId}
    {value : Value} {p : PortId} (he : e.index < m.entities.length)
    (hr : r.index < m.resources.length) (hm : m.addPort e name kind r value = .ok (m', p)) :
    m'.WellFormed := by
  unfold Model.addPort at hm
  simp only at hm
  split_ifs at hm
  split at hm
  · cases hm
  next value' hvalue =>
  cases hm
  have hport : ∀ q, port { m with ports := m.ports ++ [⟨name, kind, r, value', e⟩] } q =
      if q.index = m.ports.length then ⟨name, kind, r, value', e⟩ else m.port q :=
    fun q => getElem?_snoc ..
  have hports : WellFormed { m with ports := m.ports ++ [⟨name, kind, r, value', e⟩] } := by
    refine { h with ports := h.ports.grow (by simp) fun q hq => ?_, admitted := fun {q} hq => ?_ }
    · rw [hport, if_neg (Nat.ne_of_lt hq)]
    · rw [hport]
      split_ifs with heq
      · exact ⟨hr, admit?_idem hvalue⟩
      · refine h.admitted ?_
        rw [List.length_append, List.length_singleton] at hq
        omega
  refine hports.modifyEntity (fun _ => rfl)
    (hports.ports.append he (by simp) ?_ (h.ports.not_mem (Nat.le_refl _)) fun _ => rfl)
    (hports.states.same fun _ => rfl)
    (hports.updates.same fun _ => rfl) (hports.influences.same fun _ => rfl)
    (hports.subentities.same fun _ => rfl)
  rw [hport, if_pos rfl]

theorem WellFormed.addUpdate (h : m.WellFormed) {name function : String} {state : StateId}
    {target : PortId} {u : UpdateId} (he : e.index < m.entities.length)
    (hm : m.addUpdate e name state target function = .ok (m', u)) : m'.WellFormed := by
  unfold Model.addUpdate at hm
  split_ifs at hm
  cases hm
  have hupdate : ∀ v, update { m with updates := m.updates ++ [⟨name, e, state, target, function⟩] }
      v = if v.index = m.updates.length then ⟨name, e, state, target, function⟩ else m.update v :=
    fun v => getElem?_snoc ..
  have hupdates :
      WellFormed { m with updates := m.updates ++ [⟨name, e, state, target, function⟩] } := by
    refine { h with updates := h.updates.grow (by simp) fun v hv => ?_ }
    rw [hupdate, if_neg (Nat.ne_of_lt hv)]
  refine hupdates.modifyEntity (fun _ => rfl) (hupdates.ports.same fun _ => rfl)
    (hupdates.states.same fun _ => rfl)
    (hupdates.updates.append he (by simp) ?_ (h.updates.not_mem (Nat.le_refl _)) fun _ => rfl)
    (hupdates.influences.same fun _ => rfl) (hupdates.subentities.same fun _ => rfl)
  rw [hupdate, if_pos rfl]

theorem WellFormed.addInfluence (h : m.WellFormed) {name : String} {source target : PortId}
    {i : InfluenceId} (he : e.index < m.entities.length)
    (hm : m.addInfluence e name source target = .ok (m', i)) : m'.WellFormed := by
  unfold Model.addInfluence at hm
  split_ifs at hm
  cases hm
  have hinfluence : ∀ j,
      influence { m with influences := m.influences ++ [⟨name, e, source, target⟩] }
      j = if j.index = m.influences.length then ⟨name, e, source, target⟩ else m.influence j :=
    fun j => getElem?_snoc ..
  have hinfluences :
      WellFormed { m with influences := m.influences ++ [⟨name, e, source, target⟩] } := by
    refine { h with influences := h.influences.grow (by simp) fun j hj => ?_ }
    rw [hinfluence, if_neg (Nat.ne_of_lt hj)]
  refine hinfluences.modifyEntity (fun _ => rfl) (hinfluences.ports.same fun _ => rfl)
    (hinfluences.states.same fun _ => rfl)
    (hinfluences.updates.same fun _ => rfl)
    (hinfluences.influences.append he (by simp) ?_ (h.influences.not_mem (Nat.le_refl _))
      fun _ => rfl) (hinfluences.subentities.same fun _ => rfl)
  rw [hinfluence, if_pos rfl]

/-- A new entity has no lists yet. -/
theorem WellFormed.snocEntity (h : m.WellFormed) (name : String) {parent : Option EntityId}
    (hp : ∀ p, parent = some p → p.index < m.entities.length) :
    WellFormed { m with entities := m.entities ++ [{ name := name, parent := parent }] } := by
  have hentity : ∀ a,
      entity { m with entities := m.entities ++ [{ name := name, parent := parent }] } a =
        if a.index = m.entities.length then { name := name, parent := parent } else m.entity a :=
    fun a => getElem?_snoc ..
  have hnew : ∀ {a : EntityId}, a.index = m.entities.length → m.entity a = default := fun ha => by
    rw [entity, List.getElem?_eq_none (Nat.le_of_eq ha.symm)]
    rfl
  have hlists : ∀ {ι : Type} (list : Entity → List ι), list default = [] →
      list { name := name, parent := parent } = [] →
      (fun a => list
        (entity { m with entities := m.entities ++ [{ name := name, parent := parent }] } a)) =
        fun a => list (m.entity a) := fun list hold hempty => by
    funext a
    rw [hentity]
    split_ifs with ha
    · rw [hnew ha, hold, hempty]
    · rfl
  refine ⟨?_, ?_, ?_, ?_, ?_, fun {s p} hs => ?_, h.admitted⟩
  · rw [hlists Entity.ports rfl rfl]
    exact h.ports
  · rw [hlists Entity.states rfl rfl]
    exact h.states
  · rw [hlists Entity.updates rfl rfl]
    exact h.updates
  · rw [hlists Entity.influences rfl rfl]
    exact h.influences
  · rw [hlists Entity.subentities rfl rfl]
    refine h.subentities.grow (by simp) fun s hs => ?_
    rw [hentity, if_neg (Nat.ne_of_lt hs)]
  · rw [hentity] at hs
    split_ifs at hs with ha
    · exact ha ▸ hp p hs
    · exact h.below hs

theorem WellFormed.addEntity (h : m.WellFormed) {name : String} {parent : Option EntityId}
    {s : EntityId} (hp : ∀ p, parent = some p → p.index < m.entities.length)
    (hm : m.addEntity name parent = .ok (m', s)) : m'.WellFormed := by
  have hadded := h.snocEntity name hp
  unfold Model.addEntity at hm
  simp only at hm
  split at hm
  · cases hm
    exact hadded
  · next p =>
    split_ifs at hm
    cases hm
    have hlt := hp p rfl
    refine hadded.modifyEntity (fun _ => rfl) (hadded.ports.same fun _ => rfl)
      (hadded.states.same fun _ => rfl) (hadded.updates.same fun _ => rfl)
      (hadded.influences.same fun _ => rfl)
      (hadded.subentities.append (by simpa using Nat.lt_succ_of_lt hlt) (by simp) ?_ ?_
        fun _ => rfl)
    · simp [entity]
    · rw [entity, getElem?_snoc, if_neg (Nat.ne_of_lt hlt)]
      exact h.subentities.not_mem (Nat.le_refl _)

theorem wellFormed_empty : WellFormed {} := by
  constructor
  case below =>
    intro s p hp
    cases hp
  case admitted =>
    intro p hp
    cases hp
  all_goals exact ⟨fun hi => absurd hi List.not_mem_nil, fun _ => List.nodup_nil⟩

/-- **Built models are well-formed.** -/
theorem Built.wellFormed (h : m.Built) : m.WellFormed := by
  induction h with
  | empty => exact wellFormed_empty
  | resource _ hm ih => exact ih.addResource hm
  | entity _ hp hm ih => exact ih.addEntity hp hm
  | port _ he hr hm ih => exact ih.addPort he hr hm
  | state _ he hm ih => exact ih.addState he hm
  | current _ _ _ hm ih => exact ih.setCurrentState hm
  | update _ he _ _ hm ih => exact ih.addUpdate he hm
  | influence _ he _ _ hm ih => exact ih.addInfluence he hm

end HybridStep.Model
