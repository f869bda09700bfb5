import HybridStep.Model.Definition.Build
import HybridStep.Proofs.Model.Built
import HybridStep.Proofs.Success

/-! # Described models are built

The model of a description is put together by the same additions as any other model, and every
number that goes into an addition is that of a component that has been added before. -/

namespace HybridStep

/-! ### What additions leave behind -/

namespace Model

variable {m m' : Model} {e : EntityId}

theorem addResource_lengths {name : String} {unit : Option String} {domain : Domain}
    {r : ResourceId} (h : m.addResource name unit domain = .ok (m', r)) : m'.entities = m.entities ∧
      m.resources.length ≤ m'.resources.length ∧ r.index < m'.resources.length := by
  unfold addResource at h
  split_ifs at h
  cases h
  exact ⟨rfl, by simp, by simp⟩

theorem addEntity_lengths {name : String} {parent : Option EntityId}
    (h : m.addEntity name parent = .ok (m', e)) : m'.resources = m.resources ∧
      m.entities.length ≤ m'.entities.length ∧ e.index < m'.entities.length := by
  unfold addEntity at h
  simp only at h
  split at h
  · cases h
    exact ⟨rfl, by simp, by simp⟩
  · split_ifs at h
    cases h
    exact ⟨rfl, by simp [length_modifyEntity], by simp [length_modifyEntity]⟩

theorem addPort_lengths {name : String} {kind : PortKind} {r : ResourceId} {value : Value}
    {p : PortId} (h : m.addPort e name kind r value = .ok (m', p)) :
    m'.resources = m.resources ∧ m'.entities.length = m.entities.length := by
  unfold addPort at h
  simp only at h
  split_ifs at h
  split at h
  · cases h
  · cases h
    exact ⟨rfl, length_modifyEntity _⟩

theorem addState_lengths {name : String} {s : StateId} (h : m.addState e name = .ok (m', s)) :
    m'.resources = m.resources ∧ m'.entities.length = m.entities.length := by
  unfold addState at h
  split_ifs at h
  cases h
  exact ⟨rfl, length_modifyEntity _⟩

theorem setCurrentState_lengths {s : StateId} (h : m.setCurrentState e s = .ok m') :
    m'.resources = m.resources ∧ m'.entities.length = m.entities.length := by
  unfold setCurrentState at h
  split_ifs at h
  cases h
  exact ⟨rfl, length_modifyEntity _⟩

theorem addUpdate_lengths {name function : String} {state : StateId} {target : PortId}
    {u : UpdateId} (h : m.addUpdate e name state target function = .ok (m', u)) :
    m'.resources = m.resources ∧ m'.entities.length = m.entities.length := by
  unfold addUpdate at h
  split_ifs at h
  cases h
  exact ⟨rfl, length_modifyEntity _⟩

theorem addInfluence_lengths {name : String} {source target : PortId} {i : InfluenceId}
    (h : m.addInfluence e name source target = .ok (m', i)) :
    m'.resources = m.resources ∧ m'.entities.length = m.entities.length := by
  unfold addInfluence at h
  split_ifs at h
  cases h
  exact ⟨rfl, length_modifyEntity _⟩

/-! ### What is found is there -/

theorem WellFormed.of_findPort (h : m.WellFormed) {name : String} {p : PortId}
    (hp : m.findPort e name = some p) : p.index < m.ports.length :=
  (h.ports.owned (List.mem_of_find?_eq_some hp)).1

theorem WellFormed.of_findState (h : m.WellFormed) {name : String} {s : StateId}
    (hs : m.findState e name = some s) : s.index < m.states.length :=
  (h.states.owned (List.mem_of_find?_eq_some hs)).1

theorem WellFormed.of_resolvePort (h : m.WellFormed) : ∀ {path : List String} {e : EntityId}
    {p : PortId}, m.resolvePort e path = some p → p.index < m.ports.length
  | [], _, _, hp => by cases hp
  | [_], _, _, hp => h.of_findPort hp
  | _ :: _ :: _, _, _, hp => by
    obtain ⟨_, -, hp⟩ := Option.bind_eq_some_iff.1 hp
    exact h.of_resolvePort hp

end Model

/-! ### Drafts -/

/-- A draft of a built model, whose resource names stand for its resources. -/
structure Draft.Sound (d : Draft) : Prop where
  built : d.model.Built
  resources {name : String} {r : ResourceId} :
    d.resources.get? name = some r → r.index < d.model.resources.length

namespace Drafting

variable {α β : Type} {d d' : Draft} {a : α}

theorem bind_ok {x : Drafting α} {f : α → Drafting β} {b : β} : (x >>= f) d = .ok (b, d') ↔
    ∃ a d₁, x d = .ok (a, d₁) ∧ f a d₁ = .ok (b, d') := by
  change (x d).bind _ = _ ↔ _
  cases x d with
  | error => simp [Except.bind]
  | ok r =>
    obtain ⟨a, d₁⟩ := r
    exact ⟨fun h => ⟨a, d₁, rfl, h⟩, fun ⟨_, _, hr, h⟩ => by cases hr; exact h⟩

theorem pure_ok {b : α} : (pure a : Drafting α) d = .ok (b, d') ↔ a = b ∧ d = d' := by
  change Except.ok (a, d) = .ok (b, d') ↔ _
  simp

theorem get_ok {d₁ : Draft} : (get : Drafting Draft) d = .ok (d₁, d') ↔ d = d₁ ∧ d = d' := by
  change Except.ok (d, d) = .ok (d₁, d') ↔ _
  simp

theorem modify_ok {f : Draft → Draft} {u : Unit} :
    (modify f : Drafting Unit) d = .ok (u, d') ↔ f d = d' := by
  change Except.ok ((), f d) = .ok (u, d') ↔ _
  simp

theorem liftM_ok {x : Except ModelError α} :
    (liftM x : Drafting α) d = .ok (a, d') ↔ x = .ok a ∧ d = d' := by
  change x.bind (fun a => .ok (a, d)) = .ok (a, d') ↔ _
  cases x <;> simp [Except.bind]

theorem build_ok {add : Model → Except ModelError (Model × α)} (h : build add d = .ok (a, d')) :
    ∃ m, add d.model = .ok (m, a) ∧ d' = { d with model := m } := by
  obtain ⟨d₁, d₂, hget, h⟩ := bind_ok.1 h
  obtain ⟨rfl, rfl⟩ := get_ok.1 hget
  obtain ⟨⟨m, b⟩, d₃, hlift, h⟩ := bind_ok.1 h
  obtain ⟨hadd, rfl⟩ := liftM_ok.1 hlift
  obtain ⟨_, d₄, hmodify, h⟩ := bind_ok.1 h
  obtain rfl := modify_ok.1 hmodify
  obtain ⟨rfl, rfl⟩ := pure_ok.1 h
  exact ⟨m, hadd, rfl⟩

theorem found_ok {kind : ComponentKind} {name entity : String} {o : Option α}
    (h : found kind name entity o d = .ok (a, d')) : o = some a ∧ d = d' := by
  cases o with
  | none => cases h
  | some b =>
    obtain ⟨rfl, rfl⟩ := pure_ok.1 h
    exact ⟨rfl, rfl⟩

/-! ### Drafts stay sound -/

/-- What a part of a description keeps: the draft stays sound and no entity goes away. -/
structure Keeps (d d' : Draft) : Prop where
  sound : d'.Sound
  entities : d.model.entities.length ≤ d'.model.entities.length

variable {e : EntityId}

theorem Keeps.refl (h : d.Sound) : Keeps d d := ⟨h, Nat.le_refl _⟩

theorem Keeps.trans {d'' : Draft} (h : Keeps d d') (h' : Keeps d' d'') : Keeps d d'' :=
  ⟨h'.sound, Nat.le_trans h.entities h'.entities⟩

/-- An addition that leaves the resources as they are. -/
theorem Keeps.added {m : Model} (h : d.Sound) (hm : m.Built)
    (hr : m.resources = d.model.resources) (he : d.model.entities.length ≤ m.entities.length) :
    Keeps d { d with model := m } :=
  ⟨⟨hm, fun hname => by rw [hr]; exact h.resources hname⟩, he⟩

theorem addResources_keeps : ∀ {rs : List ResourceDefinition} {d d' : Draft} {u : Unit},
    d.Sound → addResources rs d = .ok (u, d') → Keeps d d'
  | [], d, d', u, hd, h => by
    obtain ⟨-, rfl⟩ := pure_ok.1 h
    exact .refl hd
  | r :: rs, d, d', u, hd, h => by
    obtain ⟨domain, d₁, hdomain, h⟩ := bind_ok.1 h
    obtain ⟨-, rfl⟩ := liftM_ok.1 hdomain
    obtain ⟨id, d₂, hbuild, h⟩ := bind_ok.1 h
    obtain ⟨m, hm, rfl⟩ := build_ok hbuild
    obtain ⟨_, d₃, hmodify, h⟩ := bind_ok.1 h
    obtain rfl := modify_ok.1 hmodify
    obtain ⟨hentities, hle, hlt⟩ := Model.addResource_lengths hm
    refine Keeps.trans ⟨⟨hd.built.resource hm, fun {name k} hk => ?_⟩,
      Nat.le_of_eq (congrArg _ hentities.symm)⟩
      (addResources_keeps ⟨hd.built.resource hm, fun {name k} hk => ?_⟩ h)
    all_goals
      simp only [OrderedMap.get?_insert] at hk
      split_ifs at hk
      · cases hk
        exact hlt
      · exact Nat.lt_of_lt_of_le (hd.resources hk) hle

theorem addPorts_keeps {entity : String} : ∀ {ps : List PortDefinition} {d d' : Draft} {u : Unit},
    d.Sound → e.index < d.model.entities.length → addPorts entity e ps d = .ok (u, d') → Keeps d d'
  | [], d, d', u, hd, _, h => by
    obtain ⟨-, rfl⟩ := pure_ok.1 h
    exact .refl hd
  | p :: ps, d, d', u, hd, he, h => by
    obtain ⟨d₁, d₂, hget, h⟩ := bind_ok.1 h
    obtain ⟨rfl, rfl⟩ := get_ok.1 hget
    obtain ⟨r, d₃, hfound, h⟩ := bind_ok.1 h
    obtain ⟨hr, rfl⟩ := found_ok hfound
    cases hvalue : p.value.portValue? with
    | none =>
      rw [hvalue] at h
      cases h
    | some value =>
    rw [hvalue] at h
    obtain ⟨id, d₄, hbuild, h⟩ := bind_ok.1 h
    obtain ⟨m, hm, rfl⟩ := build_ok hbuild
    obtain ⟨hres, hlen⟩ := Model.addPort_lengths hm
    have hkeeps := Keeps.added hd (hd.built.port he (hd.resources hr) hm) hres
      (Nat.le_of_eq hlen.symm)
    exact hkeeps.trans (addPorts_keeps hkeeps.sound (Nat.lt_of_lt_of_le he hkeeps.entities) h)

theorem addStates_keeps : ∀ {ss : List String} {d d' : Draft} {u : Unit},
    d.Sound → e.index < d.model.entities.length → addStates e ss d = .ok (u, d') → Keeps d d'
  | [], d, d', u, hd, _, h => by
    obtain ⟨-, rfl⟩ := pure_ok.1 h
    exact .refl hd
  | s :: ss, d, d', u, hd, he, h => by
    obtain ⟨id, d₁, hbuild, h⟩ := bind_ok.1 h
    obtain ⟨m, hm, rfl⟩ := build_ok hbuild
    obtain ⟨hres, hlen⟩ := Model.addState_lengths hm
    have hkeeps := Keeps.added hd (hd.built.state he hm) hres (Nat.le_of_eq hlen.symm)
    exact hkeeps.trans (addStates_keeps hkeeps.sound (Nat.lt_of_lt_of_le he hkeeps.entities) h)

theorem setCurrent_keeps {entity : String} {current : Option String} {u : Unit} (hd : d.Sound)
    (he : e.index < d.model.entities.length) (h : setCurrent entity e current d = .ok (u, d')) :
    Keeps d d' := by
  cases current with
  | none =>
    obtain ⟨-, rfl⟩ := pure_ok.1 h
    exact .refl hd
  | some name =>
    obtain ⟨d₁, d₂, hget, h⟩ := bind_ok.1 h
    obtain ⟨rfl, rfl⟩ := get_ok.1 hget
    obtain ⟨s, d₃, hfound, h⟩ := bind_ok.1 h
    obtain ⟨hs, rfl⟩ := found_ok hfound
    obtain ⟨m, hm, rfl⟩ := build_ok h
    obtain ⟨m', hset, hpair⟩ := Attempt.map_ok.1 hm
    cases hpair
    obtain ⟨hres, hlen⟩ := Model.setCurrentState_lengths hset
    exact .added hd (hd.built.current he (hd.built.wellFormed.of_findState hs) hset) hres
      (Nat.le_of_eq hlen.symm)

theorem addUpdates_keeps {entity : String} : ∀ {us : List UpdateDefinition} {d d' : Draft}
    {u : Unit}, d.Sound → e.index < d.model.entities.length →
      addUpdates entity e us d = .ok (u, d') → Keeps d d'
  | [], d, d', u, hd, _, h => by
    obtain ⟨-, rfl⟩ := pure_ok.1 h
    exact .refl hd
  | x :: us, d, d', u, hd, he, h => by
    obtain ⟨d₁, d₂, hget, h⟩ := bind_ok.1 h
    obtain ⟨rfl, rfl⟩ := get_ok.1 hget
    obtain ⟨s, d₃, hstate, h⟩ := bind_ok.1 h
    obtain ⟨hs, rfl⟩ := found_ok hstate
    obtain ⟨p, d₄, hport, h⟩ := bind_ok.1 h
    obtain ⟨hp, rfl⟩ := found_ok hport
    obtain ⟨id, d₅, hbuild, h⟩ := bind_ok.1 h
    obtain ⟨m, hm, rfl⟩ := build_ok hbuild
    obtain ⟨hres, hlen⟩ := Model.addUpdate_lengths hm
    have hw := hd.built.wellFormed
    have hkeeps := Keeps.added hd (hd.built.update he (hw.of_findState hs) (hw.of_findPort hp) hm)
      hres (Nat.le_of_eq hlen.symm)
    exact hkeeps.trans (addUpdates_keeps hkeeps.sound (Nat.lt_of_lt_of_le he hkeeps.entities) h)

theorem addInfluences_keeps {entity : String} : ∀ {is : List InfluenceDefinition} {d d' : Draft}
    {u : Unit}, d.Sound → e.index < d.model.entities.length →
      addInfluences entity e is d = .ok (u, d') → Keeps d d'
  | [], d, d', u, hd, _, h => by
    obtain ⟨-, rfl⟩ := pure_ok.1 h
    exact .refl hd
  | i :: is, d, d', u, hd, he, h => by
    obtain ⟨d₁, d₂, hget, h⟩ := bind_ok.1 h
    obtain ⟨rfl, rfl⟩ := get_ok.1 hget
    obtain ⟨p, d₃, hsource, h⟩ := bind_ok.1 h
    obtain ⟨hp, rfl⟩ := found_ok hsource
    obtain ⟨q, d₄, htarget, h⟩ := bind_ok.1 h
    obtain ⟨hq, rfl⟩ := found_ok htarget
    obtain ⟨id, d₅, hbuild, h⟩ := bind_ok.1 h
    obtain ⟨m, hm, rfl⟩ := build_ok hbuild
    obtain ⟨hres, hlen⟩ := Model.addInfluence_lengths hm
    have hw := hd.built.wellFormed
    have hkeeps := Keeps.added hd
      (hd.built.influence he (hw.of_resolvePort hp) (hw.of_resolvePort hq) hm) hres
      (Nat.le_of_eq hlen.symm)
    exact hkeeps.trans (addInfluences_keeps hkeeps.sound (Nat.lt_of_lt_of_le he hkeeps.entities) h)

mutual

theorem addEntity_keeps : (x : EntityDefinition) → ∀ {parent : Option EntityId} {d d' : Draft}
    {e : EntityId}, d.Sound → (∀ p, parent = some p → p.index < d.model.entities.length) →
      addEntity parent x d = .ok (e, d') → Keeps d d' ∧ e.index < d'.model.entities.length
  | .mk name ports states current updates influences subentities, parent, d, d', e, hd, hp, h => by
    obtain ⟨e', d₁, hbuild, h⟩ := bind_ok.1 h
    obtain ⟨m, hm, rfl⟩ := build_ok hbuild
    obtain ⟨hres, hle, hlt⟩ := Model.addEntity_lengths hm
    have k₁ := Keeps.added hd (hd.built.entity hp hm) hres hle
    obtain ⟨_, d₂, hports, h⟩ := bind_ok.1 h
    have k₂ := addPorts_keeps k₁.sound hlt hports
    have hlt := Nat.lt_of_lt_of_le hlt k₂.entities
    obtain ⟨_, d₃, hstates, h⟩ := bind_ok.1 h
    have k₃ := addStates_keeps k₂.sound hlt hstates
    have hlt := Nat.lt_of_lt_of_le hlt k₃.entities
    obtain ⟨_, d₄, hcurrent, h⟩ := bind_ok.1 h
    have k₄ := setCurrent_keeps k₃.sound hlt hcurrent
    have hlt := Nat.lt_of_lt_of_le hlt k₄.entities
    obtain ⟨_, d₅, hsubentities, h⟩ := bind_ok.1 h
    have k₅ := addSubentities_keeps subentities k₄.sound hlt hsubentities
    have hlt := Nat.lt_of_lt_of_le hlt k₅.entities
    obtain ⟨_, d₆, hupdates, h⟩ := bind_ok.1 h
    have k₆ := addUpdates_keeps k₅.sound hlt hupdates
    have hlt := Nat.lt_of_lt_of_le hlt k₆.entities
    obtain ⟨_, d₇, hinfluences, h⟩ := bind_ok.1 h
    have k₇ := addInfluences_keeps k₆.sound hlt hinfluences
    obtain ⟨rfl, rfl⟩ := pure_ok.1 h
    exact ⟨((((((k₁.trans k₂).trans k₃).trans k₄).trans k₅).trans k₆).trans k₇),
      Nat.lt_of_lt_of_le hlt k₇.entities⟩

theorem addSubentities_keeps : (xs : List EntityDefinition) → ∀ {e : EntityId} {d d' : Draft}
    {u : Unit}, d.Sound → e.index < d.model.entities.length →
      addSubentities e xs d = .ok (u, d') → Keeps d d'
  | [], e, d, d', u, hd, _, h => by
    obtain ⟨-, rfl⟩ := pure_ok.1 h
    exact .refl hd
  | x :: xs, e, d, d', u, hd, he, h => by
    obtain ⟨_, d₁, hentity, h⟩ := bind_ok.1 h
    obtain ⟨k, -⟩ := addEntity_keeps x hd (fun p hp => Option.some.inj hp ▸ he) hentity
    exact k.trans (addSubentities_keeps xs k.sound (Nat.lt_of_lt_of_le he k.entities) h)

end

end Drafting

/-- **The model of a description is built**, and its outermost entity is one of it. -/
theorem ModelDefinition.build_built {x : ModelDefinition} {m : Model} {e : EntityId}
    (h : x.build = .ok (m, e)) : m.Built ∧ e.index < m.entities.length := by
  obtain ⟨⟨root, d⟩, hrun, h⟩ := Attempt.bind_ok.1 h
  cases h
  obtain ⟨_, d₁, hresources, hentity⟩ := Drafting.bind_ok.1 hrun
  have hempty : Draft.Sound {} := ⟨.empty, fun hname => by cases hname⟩
  have hd₁ := (Drafting.addResources_keeps hempty hresources).sound
  obtain ⟨hkeeps, hlt⟩ := Drafting.addEntity_keeps _ hd₁ (fun p hp => by cases hp) hentity
  exact ⟨hkeeps.sound.built, hlt⟩

/-- A tank that is filled, and a gauge on it that gives an alarm when the level is high. -/
def tankDefinition : ModelDefinition where
  resources := [⟨"height", some "m", .named "real"⟩, ⟨"count", none, .named "integer"⟩,
    ⟨"flag", none, .named "boolean"⟩]
  entity := .mk "tank"
    [⟨"inflow", .input, "height", .number (.int 2)⟩,
      ⟨"level", .internal, "height", .number (.int 5)⟩]
    ["filling"] none
    [⟨"fill", "filling", "level", "|s, dt| s.level.value + s.inflow.value * dt"⟩]
    [⟨"measure", "level", "gauge.reading"⟩]
    [.mk "gauge"
      [⟨"reading", .input, "height", .number (.int 0)⟩,
        ⟨"trips", .internal, "count", .number (.int 0)⟩, ⟨"alarm", .output, "flag", .bool false⟩]
      ["armed"] none
      [⟨"watch", "armed", "alarm", "|s| \x7b let limit = 10; if s.reading.value > limit \x7b " ++
        "s.trips.value += 1; true \x7d else \x7b false \x7d \x7d"⟩] [] []]

end HybridStep
