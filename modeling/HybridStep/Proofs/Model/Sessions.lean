import HybridStep.Encoding.SymbolTable
import HybridStep.Proofs.Model.Calls
import HybridStep.Proofs.Model.Consistent

/-! # Models of sessions

A session builds its model by additions of what is there, so its model is consistent, whichever of
its calls fail. On a consistent model nothing that walks it can fail: handles of ports are found or
made, and climbing from parent to parent ends. -/

namespace HybridStep

/-! ### Sessions build models -/

/-- A number is that of a component that is there. -/
def ComponentId.In (m : Model) : ComponentId → Prop
  | resource r => r.index < m.resources.length
  | entity e => e.index < m.entities.length
  | port p => p.index < m.ports.length
  | state s => s.index < m.states.length
  | update u => u.index < m.updates.length
  | influence i => i.index < m.influences.length

theorem ComponentId.In.grow {m m' : Model} {id : ComponentId} (h : id.In m) (hg : m.Grown m') :
    id.In m' := by
  cases id with
  | resource r => exact Nat.lt_of_lt_of_le h hg.resources.length_le
  | entity e => exact Nat.lt_of_lt_of_le h hg.entities
  | port p => exact Nat.lt_of_lt_of_le h hg.ports.length_le
  | state s => exact Nat.lt_of_lt_of_le h hg.states.length_le
  | update u => exact Nat.lt_of_lt_of_le h hg.updates.length_le
  | influence i => exact Nat.lt_of_lt_of_le h hg.influences.length_le

namespace BuilderCall

variable {m m' : Model} {c : BuilderCall}

/-- A call builds on a model, and what it gives out is the number of what it has added. -/
theorem perform_ok {r : Option ComponentId} (hb : m.Built) (hin : ∀ id ∈ c.uses, id.In m)
    (h : c.perform m = .ok r m') : m'.Built ∧ m.Grown m' ∧ ∀ id ∈ r, id.In m' := by
  rw [perform_eq_addition] at h
  cases c with
  | resource name unit domain =>
    obtain ⟨k, hm, rfl⟩ := Building.map_add_ok h
    refine ⟨hb.resource hm, Model.grown_addResource hm, fun id hid => ?_⟩
    obtain ⟨rfl, rfl⟩ := Model.addResource_ok hm
    cases hid
    simp [ComponentId.In]
  | entity name parent =>
    obtain ⟨k, hm, rfl⟩ := Building.map_add_ok h
    refine ⟨hb.entity (fun p hp => hin (.entity p) (by simp [uses, hp])) hm,
      Model.grown_addEntity hm, fun id hid => ?_⟩
    obtain ⟨rfl, -, rfl⟩ := Model.addEntity_ok hm
    cases hid
    cases parent <;> simp [ComponentId.In, Model.length_modifyEntity]
  | port e name kind r value =>
    obtain ⟨k, hm, rfl⟩ := Building.map_add_ok h
    refine ⟨hb.port (hin (.entity e) (by simp [uses])) (hin (.resource r) (by simp [uses])) hm,
      Model.grown_addPort hm, fun id hid => ?_⟩
    obtain ⟨rfl, -, v, rfl⟩ := Model.addPort_ok hm
    cases hid
    simp [ComponentId.In, Model.modifyEntity]
  | state e name =>
    obtain ⟨k, hm, rfl⟩ := Building.map_add_ok h
    refine ⟨hb.state (hin (.entity e) (by simp [uses])) hm, Model.grown_addState hm,
      fun id hid => ?_⟩
    obtain ⟨rfl, -, rfl⟩ := Model.addState_ok hm
    cases hid
    simp [ComponentId.In, Model.modifyEntity]
  | setCurrent e s =>
    obtain ⟨_, hm, rfl⟩ := Building.map_add_ok h
    obtain ⟨m₁, hset, hpair⟩ := Attempt.map_ok.1 hm
    cases hpair
    exact ⟨hb.current (hin (.entity e) (by simp [uses])) (hin (.state s) (by simp [uses])) hset,
      Model.grown_setCurrentState hset, fun _ hid => by cases hid⟩
  | update e name s target function =>
    obtain ⟨k, hm, rfl⟩ := Building.map_add_ok h
    refine ⟨hb.update (hin (.entity e) (by simp [uses])) (hin (.state s) (by simp [uses]))
      (hin (.port target) (by simp [uses])) hm, Model.grown_addUpdate hm, fun id hid => ?_⟩
    obtain ⟨rfl, -, -, -, rfl⟩ := Model.addUpdate_ok hm
    cases hid
    simp [ComponentId.In, Model.modifyEntity]
  | influence e name source target =>
    obtain ⟨k, hm, rfl⟩ := Building.map_add_ok h
    refine ⟨hb.influence (hin (.entity e) (by simp [uses])) (hin (.port source) (by simp [uses]))
      (hin (.port target) (by simp [uses])) hm, Model.grown_addInfluence hm, fun id hid => ?_⟩
    obtain ⟨rfl, -, -, -, rfl⟩ := Model.addInfluence_ok hm
    cases hid
    simp [ComponentId.In, Model.modifyEntity]

end BuilderCall

namespace Session

variable {s : Session} {c : BuilderCall}

theorem after_error {e : ModelError} {m : Model} (h : c.perform s.model = .error e m) :
    s.after c = s := by
  rw [after, h, BuilderCall.perform_error h]

/-- A session has built its model, and the numbers it has given out are those of components. -/
structure Sound (s : Session) : Prop where
  built : s.model.Built
  issued : ∀ id ∈ s.issued, id.In s.model

/-- One call keeps a session sound, whether it fails or not. -/
theorem Sound.after (h : s.Sound) (hc : ∀ id ∈ c.uses, id ∈ s.issued) : (s.after c).Sound := by
  cases hp : c.perform s.model with
  | error e m =>
    rw [after_error hp]
    exact h
  | ok r m =>
    obtain ⟨hb, hg, hr⟩ := BuilderCall.perform_ok h.built (fun id hid => h.issued id (hc id hid)) hp
    rw [Session.after, hp]
    refine ⟨hb, fun id hid => ?_⟩
    rcases List.mem_append.1 hid with hid | hid
    · exact (h.issued id hid).grow hg
    · exact hr id (Option.mem_toList.1 hid)

/-- **A session stays sound over all its calls.** -/
theorem Sound.run (h : s.Sound) {calls : List BuilderCall} (hc : s.Honest calls) :
    (s.run calls).Sound := by
  induction calls generalizing s with
  | nil => exact h
  | cons c cs ih => exact ih (h.after hc.1) hc.2

theorem sound_empty : Sound {} := ⟨.empty, List.forall_mem_nil _⟩

end Session

/-! ### Handles of ports can always be made -/

namespace Model

variable {m : Model} {e a : EntityId} {p : PortId} {t : SymbolTable}

/-- A value of the domain of a port is a constant of its sort. -/
theorem constant?_of_admit? {v : Value}
    (h : (m.resource (m.port p).resource).domain.admit? v = some v) :
    ∃ term, v.constant? (m.sortOfPort p) = some term := by
  cases hd : (m.resource (m.port p).resource).domain with
  | integer | real | boolean =>
    rw [hd] at h
    cases v <;> first | exact ⟨_, by simp only [sortOfPort, hd]; rfl⟩ | cases h
  | enumeration tags =>
    rw [hd] at h
    cases v with
    | tag text =>
      have htag : text ∈ tags := by
        by_cases htag : text ∈ tags
        · exact htag
        · simp [Domain.admit?, htag] at h
      have hsome : (tags.findIdx? (· == text)).isSome := by simpa using htag
      obtain ⟨i, hi⟩ := Option.isSome_iff_exists.1 hsome
      exact ⟨.tag ⟨(m.resource (m.port p).resource).name, tags⟩ i, by
        simp only [sortOfPort, hd, Value.constant?, EnumSort.indexOf?, hi, Option.map_some]⟩
    | int | real | bool => cases h

theorem Consistent.priorTerm (hm : m.Consistent) (hp : p.index < m.ports.length) :
    ∃ term, SymbolTable.priorTerm m p = .ok term := by
  obtain ⟨term, hterm⟩ := constant?_of_admit? (hm.admitted hp).2
  exact ⟨term, by simp [SymbolTable.priorTerm, hterm]⟩

/-- Every version of a port has a handle. -/
theorem Consistent.port (hm : m.Consistent) (hp : p.index < m.ports.length) (t : SymbolTable)
    (v : Version) : ∃ r, t.port m p v = .ok r := by
  unfold SymbolTable.port
  split
  · exact ⟨_, rfl⟩
  · unfold SymbolTable.portTerm
    split_ifs
    · obtain ⟨term, hterm⟩ := hm.priorTerm hp
      exact ⟨_, by rw [hterm]; rfl⟩
    · exact ⟨_, rfl⟩

theorem Consistent.seedPorts (hm : m.Consistent) : ∀ (ps : List PortId)
    (_ : ∀ p ∈ ps, p.index < m.ports.length) (t : SymbolTable),
    ∃ t', Tabled.seedPorts m ps t = .ok () t'
  | [], _, t => ⟨t, rfl⟩
  | p :: ps, hps, t => by
    obtain ⟨⟨x, t₁⟩, h₁⟩ := hm.port (hps p List.mem_cons_self) t .current
    obtain ⟨⟨y, t₂⟩, h₂⟩ := hm.port (hps p List.mem_cons_self) t₁ .prior
    obtain ⟨t₃, h₃⟩ := Consistent.seedPorts hm ps (fun q hq => hps q (List.mem_cons_of_mem p hq)) t₂
    refine ⟨t₃, Stateful.bind_ok.2 ⟨x, t₁, Tabled.lift_ok.2 h₁, ?_⟩⟩
    exact Stateful.bind_ok.2 ⟨y, t₂, Tabled.lift_ok.2 h₂, h₃⟩

/-- Seeding the handles of an entity and of all entities inside it cannot fail. -/
theorem Consistent.seed (hm : m.Consistent) (e : EntityId) (t : SymbolTable) :
    ∃ t', Tabled.seed m e t = .ok () t' := by
  refine hm.seedPorts _ (fun p hp => ?_) t
  obtain ⟨a, -, hp⟩ := List.mem_flatMap.1 hp
  exact (hm.ports.mem_iff.1 hp).1

/-! ### Climbing from parent to parent -/

/-- Climbing from an entity to its parent, and on, ends at an entity without one; the list has the
entities on the way. -/
inductive Climbs (m : Model) : EntityId → List EntityId → Prop
  | root {e : EntityId} : (m.entity e).parent = none → Climbs m e [e]
  | up {e p : EntityId} {es : List EntityId} : (m.entity e).parent = some p → Climbs m p es →
    Climbs m e (e :: es)

/-- Climbing until a given entity is met ends there, with the entities passed on the way, or at an
entity without a parent, with nothing. -/
inductive ClimbsTo (m : Model) (e : EntityId) : EntityId → Option (List EntityId) → Prop
  | met : ClimbsTo m e e (some [])
  | missed {a : EntityId} : a ≠ e → (m.entity a).parent = none → ClimbsTo m e a none
  | up {a p : EntityId} {r : Option (List EntityId)} : a ≠ e → (m.entity a).parent = some p →
    ClimbsTo m e p r → ClimbsTo m e a (r.map (a :: ·))

theorem Consistent.climbs (hm : m.Consistent) (e : EntityId) : m.Climbs e (m.chain e) := by
  induction h : e.index using Nat.strongRecOn generalizing e with
  | _ n ih =>
    rw [chain]
    cases hp : (m.entity e).parent with
    | none => exact .root hp
    | some p =>
      have hlt := hm.below hp
      simp only [if_pos hlt]
      exact .up hp (ih p.index (h ▸ hlt) p rfl)

theorem Climbs.climbsTo {es : List EntityId} (h : m.Climbs a es) :
    m.ClimbsTo e a (if es.contains e then some (es.takeWhile (· ≠ e)) else none) := by
  induction h with
  | @root a hp =>
    by_cases ha : a = e
    · subst ha
      simpa using ClimbsTo.met
    · simpa [ha, Ne.symm ha] using ClimbsTo.missed ha hp
  | @up a p es hp _ ih =>
    by_cases ha : a = e
    · subst ha
      simpa using ClimbsTo.met
    · have hstep := ClimbsTo.up ha hp ih
      by_cases hes : e ∈ es
      · simpa [ha, Ne.symm ha, hes] using hstep
      · simpa [ha, Ne.symm ha, hes] using hstep

/-! ### Walks never fail -/

/-- On a consistent model the bound that ends the walk of a subtree is never met. -/
theorem Consistent.subtree_eq (hm : m.Consistent) (e : EntityId) :
    m.subtree e = e :: (m.entity e).subentities.flatMap m.subtree := by
  rw [subtree]
  refine congrArg (e :: List.flatten ·) (List.map_congr_left fun s hs => ?_)
  obtain ⟨hlt, hp⟩ := hm.subentities.mem_iff.1 hs
  exact if_pos ⟨hm.below hp, hlt⟩

/-- Nothing that walks the model, or makes handles for its ports, fails.

* `seed`, `port`, `entryValue`: handles are found or made on every table;
* `priorTerm`: the value of a port is a constant of its sort;
* `subtree`: walking down visits all that lies inside, with no bound;
* `entityPath`: climbing up ends, and the names on the way are the full path;
* `pathToPort`: climbing from a port to an entity ends, and the names on the way are the path. -/
structure Walkable (m : Model) : Prop where
  seed (e : EntityId) (t : SymbolTable) : ∃ t', Tabled.seed m e t = .ok () t'
  port {p : PortId} (t : SymbolTable) (v : Version) : p.index < m.ports.length →
    ∃ r, t.port m p v = .ok r
  entryValue {p : PortId} (t : SymbolTable) : p.index < m.ports.length →
    ∃ r, t.entryValue m p = .ok r
  priorTerm {p : PortId} : p.index < m.ports.length → ∃ term, SymbolTable.priorTerm m p = .ok term
  subtree (e : EntityId) : m.subtree e = e :: (m.entity e).subentities.flatMap m.subtree
  entityPath (e : EntityId) : ∃ es, m.Climbs e es ∧
    m.entityPath e = Path.text (es.map fun a => (m.entity a).name).reverse
  pathToPort (e : EntityId) (p : PortId) : ∃ r, m.ClimbsTo e (m.port p).entity r ∧
    m.pathToPort e p = r.map fun es =>
      Path.text ((es.map fun a => (m.entity a).name).reverse ++ [(m.port p).name])

theorem Consistent.walkable (hm : m.Consistent) : m.Walkable where
  seed := hm.seed
  port t v hp := hm.port hp t v
  entryValue t hp := hm.port hp t _
  priorTerm := hm.priorTerm
  subtree := hm.subtree_eq
  entityPath e := ⟨m.chain e, hm.climbs e, rfl⟩
  pathToPort e p := ⟨_, (hm.climbs _).climbsTo, by
    rw [Model.pathToPort]
    split_ifs <;> rfl⟩

end Model

/-! ### All sessions -/

/-- **Models of sessions are consistent and can be walked.** Whatever calls are made from the start,
as long as they use numbers that have been given out, the model at the end is consistent, nothing
that walks it fails, and a call that fails changes neither it nor the numbers given out. -/
theorem Session.run_consistent {calls : List BuilderCall} (h : Honest {} calls) :
    (run {} calls).model.Consistent ∧ (run {} calls).model.Walkable ∧
      ∀ (c : BuilderCall) (e : ModelError) (m : Model),
        c.perform (run {} calls).model = .error e m →
          m = (run {} calls).model ∧ (run {} calls).after c = run {} calls :=
  have hm := (sound_empty.run h).built.consistent
  ⟨hm, hm.walkable, fun _ _ _ hc => ⟨BuilderCall.perform_error hc, after_error hc⟩⟩

/-- The calls that make a lamp with a switch on it, two of which fail. -/
def lampCalls : List BuilderCall :=
  [.resource "mode" none (.enumeration ["on", "off"]), .resource "none" none (.enumeration []),
    .entity "lamp" none, .entity "switch" (some ⟨0⟩),
    .port ⟨0⟩ "light" .internal ⟨0⟩ (.tag "off"), .port ⟨1⟩ "signal" .output ⟨0⟩ (.tag "on"),
    .port ⟨1⟩ "signal" .output ⟨0⟩ (.tag "off"), .state ⟨0⟩ "lit", .state ⟨0⟩ "broken",
    .setCurrent ⟨0⟩ ⟨1⟩, .update ⟨0⟩ "fade" ⟨0⟩ ⟨0⟩ "|s| s.light.value",
    .influence ⟨0⟩ "wire" ⟨1⟩ ⟨0⟩]

/-- The calls that make a lamp are honest, the model has what they add, and a second subentity of
one name is refused. -/
theorem Session.run_lampCalls : Honest {} lampCalls ∧ (run {} lampCalls).model.Consistent ∧
    (run {} lampCalls).model.ports.length = 2 ∧ (run {} lampCalls).model.influences.length = 1 ∧
    (run {} lampCalls).after (.entity "switch" (some ⟨0⟩)) = run {} lampCalls := by
  have hhonest : Honest {} lampCalls := by decide +kernel
  obtain ⟨hm, -, hfail⟩ := run_consistent hhonest
  refine ⟨hhonest, hm, by decide +kernel, by decide +kernel, ?_⟩
  exact (hfail _ (.duplicate .subentity "switch" "lamp") _ rfl).2

end HybridStep
