import HybridStep.Proofs.Model.Tree
import HybridStep.Proofs.Schedule.Order

/-! # The modifiers of a step

A step lists the modifiers of an entity in its order, and in place of each subentity those that the
subentity lists. They are encoded one after the other, each on the table that the one before leaves.
All bodies are those of the cache with which the step ends. -/

namespace HybridStep

open SymbolTable

/-- Puts lists in the place of subentities. -/
def Modifier.opened (inner : EntityId → List Modifier) : Modifier → List Modifier
  | .subentity s => inner s
  | x => [x]

/-- What an entity lists: its order with subentities opened. -/
inductive Opens (m : Model) (C : BodyCache) : EntityId → List Modifier → Prop
  | order {e : EntityId} {ms : List Modifier} {inner : EntityId → List Modifier} :
    m.Orders C e ms → (∀ s, .subentity s ∈ ms → Opens m C s (inner s)) →
      Opens m C e (ms.flatMap (Modifier.opened inner))

/-- Modifiers are encoded one after the other. -/
inductive Encodes (m : Model) (options : Options) (C : BodyCache) :
    SymbolTable → List ModifierConstraints → SymbolTable → Prop
  | nil {t : SymbolTable} : Encodes m options C t [] t
  | update {t t₁ t' : SymbolTable} {u : UpdateId} {f : UpdateFunction} {r : BodyConstraints}
    {xs : List ModifierConstraints} : C.body? (m.update u).function = some f →
      encodeUpdate m options u f t = .ok r t₁ → Encodes m options C t₁ xs t' →
        Encodes m options C t
          (⟨.update u, m.modifierName (.update u), r.constraints, r.passthrough⟩ :: xs) t'
  | influence {t t₁ t' : SymbolTable} {i : InfluenceId} {equation : Term}
    {xs : List ModifierConstraints} : encodeInfluence m i t = .ok equation t₁ →
      Encodes m options C t₁ xs t' →
        Encodes m options C t
          (⟨.influence i, m.modifierName (.influence i), [equation], []⟩ :: xs) t'

variable {m : Model} {options : Options} {C : BodyCache} {t t₁ t' : SymbolTable}

theorem Encodes.append {xs ys : List ModifierConstraints} (h : Encodes m options C t xs t₁)
    (h' : Encodes m options C t₁ ys t') : Encodes m options C t (xs ++ ys) t' := by
  induction h with
  | nil => exact h'
  | update hf he _ ih => exact .update hf he (ih h')
  | influence he _ ih => exact .influence he (ih h')

theorem Encodes.split {ys : List ModifierConstraints} : ∀ {xs : List ModifierConstraints}
    {t : SymbolTable}, Encodes m options C t (xs ++ ys) t' →
      ∃ t₁, Encodes m options C t xs t₁ ∧ Encodes m options C t₁ ys t'
  | [], t, h => ⟨t, .nil, h⟩
  | _ :: xs, t, h => by
    cases h with
    | update hf he h =>
      obtain ⟨t₁, hxs, hys⟩ := h.split
      exact ⟨t₁, .update hf he hxs, hys⟩
    | influence he h =>
      obtain ⟨t₁, hxs, hys⟩ := h.split
      exact ⟨t₁, .influence he hxs, hys⟩

namespace Model

theorem encodeUpdate_ok {u : UpdateId} {x : ModifierConstraints} {p p' : StepProgress}
    (h : m.encodeUpdate options u p = .ok x p') : p.cache.Extends p'.cache ∧
      ∃ f r, p'.cache.body? (m.update u).function = some f ∧
        HybridStep.encodeUpdate m options u f p.table = .ok r p'.table ∧
        x = ⟨.update u, m.modifierName (.update u), r.constraints, r.passthrough⟩ := by
  obtain ⟨f, p₁, hread, h⟩ := Stateful.bind_ok.1 h
  obtain ⟨r, p₂, hencode, h⟩ := Stateful.bind_ok.1 h
  obtain ⟨rfl, rfl⟩ := Stateful.pure_ok.1 h
  obtain ⟨c, hc, rfl⟩ := Stepping.readBody_ok.1 hread
  obtain ⟨t, ht, rfl⟩ := Stepping.onTable_ok.1 hencode
  obtain ⟨hext, hf⟩ := BodyCache.read_ok hc
  exact ⟨hext, f, r, hf, ht, rfl⟩

theorem encodeInfluence_ok {i : InfluenceId} {x : ModifierConstraints} {p p' : StepProgress}
    (h : m.encodeInfluence i p = .ok x p') : p.cache = p'.cache ∧
      ∃ equation, HybridStep.encodeInfluence m i p.table = .ok equation p'.table ∧
        x = ⟨.influence i, m.modifierName (.influence i), [equation], []⟩ := by
  obtain ⟨equation, p₁, hencode, h⟩ := Stateful.bind_ok.1 h
  obtain ⟨rfl, rfl⟩ := Stateful.pure_ok.1 h
  obtain ⟨t, ht, rfl⟩ := Stepping.onTable_ok.1 hencode
  exact ⟨rfl, equation, ht, rfl⟩

/-- What is known of encoded modifiers, whatever else the cache comes to hold. -/
structure Encoded (m : Model) (options : Options) (p p' : StepProgress)
    (xs : List ModifierConstraints) (lists : BodyCache → List Modifier → Prop) : Prop where
  cache : p.cache.Extends p'.cache
  encodes {C : BodyCache} : p'.cache.Extends C → Encodes m options C p.table xs p'.table
  lists {C : BodyCache} : p'.cache.Extends C → lists C (xs.map (·.modifier))

/-- What part of an order lists. -/
def Opening (m : Model) (ms : List Modifier) (C : BodyCache) (xs : List Modifier) : Prop :=
  ∃ inner, (∀ s, .subentity s ∈ ms → Opens m C s (inner s)) ∧
    xs = ms.flatMap (Modifier.opened inner)

theorem Opening.leaf {ms xs : List Modifier} {x : Modifier} (h : m.Opening ms C xs)
    (hx : ∀ inner, Modifier.opened inner x = [x]) (hs : ∀ s, x ≠ .subentity s) :
    m.Opening (x :: ms) C (x :: xs) := by
  obtain ⟨inner, hopens, rfl⟩ := h
  refine ⟨inner, fun s hmem => hopens s ?_, by rw [List.flatMap_cons, hx]; rfl⟩
  exact (List.mem_cons.1 hmem).resolve_left fun he => hs s he.symm

theorem Opening.subentity {ms xs ys : List Modifier} {s : EntityId} (h : m.Opening ms C ys)
    (hs : Opens m C s xs) (hnew : .subentity s ∉ ms) :
    m.Opening (.subentity s :: ms) C (xs ++ ys) := by
  obtain ⟨inner, hopens, rfl⟩ := h
  refine ⟨Function.update inner s xs, fun a ha => ?_, ?_⟩
  · by_cases he : a = s
    · subst he
      rwa [Function.update_self]
    · rw [Function.update_of_ne he]
      exact hopens a ((List.mem_cons.1 ha).resolve_left (by simpa using he))
  · rw [List.flatMap_cons]
    congr 1
    · simp [Modifier.opened]
    · refine List.flatMap_congr fun x hx => ?_
      cases x with
      | update | influence => rfl
      | subentity a =>
        have he : a ≠ s := fun he => hnew (he ▸ hx)
        simp [Modifier.opened, he]

mutual

theorem encodeEntity_ok (hm : m.WellFormed) (e : EntityId) {xs : List ModifierConstraints}
    {p p' : StepProgress} (h : m.encodeEntity options e p = .ok xs p') :
    m.Encoded options p p' xs fun C => Opens m C e := by
  rw [encodeEntity] at h
  obtain ⟨ms, p₁, horder, h⟩ := Stateful.bind_ok.1 h
  obtain ⟨c, hc, rfl⟩ := Stepping.onCache_ok.1 horder
  obtain ⟨hext, horders⟩ := order_ok hc
  have hms := horders c (.refl c)
  have hinner := encodeModifiers_ok hm e ms hms.nodup
    (fun s hs => by
      have := hms.mem.1 hs
      simpa [parts] using this) h
  refine ⟨hext.trans hinner.cache, hinner.encodes, fun {C} hC => ?_⟩
  obtain ⟨inner, hopens, heq⟩ := hinner.lists hC
  rw [heq]
  exact .order (horders C (hinner.cache.trans hC)) hopens
termination_by (m.entities.length - e.index, 1, 0)

theorem encodeModifiers_ok (hm : m.WellFormed) (e : EntityId) : (ms : List Modifier) → ms.Nodup →
    (∀ s, .subentity s ∈ ms → s ∈ (m.entity e).subentities) → ∀ {xs : List ModifierConstraints}
      {p p' : StepProgress}, m.encodeModifiers options e ms p = .ok xs p' →
        m.Encoded options p p' xs (m.Opening ms)
  | [], _, _, xs, p, p', h => by
    rw [encodeModifiers] at h
    obtain ⟨rfl, rfl⟩ := Stateful.pure_ok.1 h
    exact ⟨.refl _, fun _ => .nil, fun _ => ⟨fun _ => [], by simp, rfl⟩⟩
  | .update u :: rest, hnodup, hsub, xs, p, p', h => by
    rw [encodeModifiers] at h
    obtain ⟨x, p₁, hx, h⟩ := Stateful.bind_ok.1 h
    obtain ⟨ys, p₂, hys, h⟩ := Stateful.bind_ok.1 h
    obtain ⟨rfl, rfl⟩ := Stateful.pure_ok.1 h
    obtain ⟨hext, f, r, hf, hr, rfl⟩ := encodeUpdate_ok hx
    have ih := encodeModifiers_ok hm e rest (List.nodup_cons.1 hnodup).2
      (fun s hs => hsub s (List.mem_cons_of_mem _ hs)) hys
    refine ⟨hext.trans ih.cache, fun {C} hC => ?_, fun {C} hC => ?_⟩
    · exact .update ((ih.cache.trans hC).body? hf) hr (ih.encodes hC)
    · exact (ih.lists hC).leaf (fun _ => rfl) fun s => by simp
  | .influence i :: rest, hnodup, hsub, xs, p, p', h => by
    rw [encodeModifiers] at h
    obtain ⟨x, p₁, hx, h⟩ := Stateful.bind_ok.1 h
    obtain ⟨ys, p₂, hys, h⟩ := Stateful.bind_ok.1 h
    obtain ⟨rfl, rfl⟩ := Stateful.pure_ok.1 h
    obtain ⟨hcache, equation, he, rfl⟩ := encodeInfluence_ok hx
    have ih := encodeModifiers_ok hm e rest (List.nodup_cons.1 hnodup).2
      (fun s hs => hsub s (List.mem_cons_of_mem _ hs)) hys
    refine ⟨hcache ▸ ih.cache, fun {C} hC => ?_, fun {C} hC => ?_⟩
    · exact .influence he (ih.encodes hC)
    · exact (ih.lists hC).leaf (fun _ => rfl) fun s => by simp
  | .subentity s :: rest, hnodup, hsub, xs, p, p', h => by
    rw [encodeModifiers] at h
    have hs := hsub s List.mem_cons_self
    obtain ⟨hlt, hparent⟩ := hm.subentities.owned hs
    have hdeeper := hm.below hparent
    rw [if_pos ⟨hdeeper, hlt⟩] at h
    obtain ⟨ys, p₁, hy, h⟩ := Stateful.bind_ok.1 h
    obtain ⟨zs, p₂, hz, h⟩ := Stateful.bind_ok.1 h
    obtain ⟨rfl, rfl⟩ := Stateful.pure_ok.1 h
    have hinner := encodeEntity_ok hm s hy
    obtain ⟨hnew, hrest⟩ := List.nodup_cons.1 hnodup
    have ih := encodeModifiers_ok hm e rest hrest
      (fun s hs => hsub s (List.mem_cons_of_mem _ hs)) hz
    refine ⟨hinner.cache.trans ih.cache, fun {C} hC => ?_, fun {C} hC => ?_⟩
    · exact (hinner.encodes (ih.cache.trans hC)).append (ih.encodes hC)
    · rw [List.map_append]
      exact (ih.lists hC).subentity (hinner.lists (ih.cache.trans hC)) hnew
termination_by ms => (m.entities.length - e.index, 0, ms.length)

end

/-! ### Where a listed modifier belongs -/

variable {e a : EntityId} {xs : List Modifier}

/-- A part belongs to one entity only. -/
theorem eq_of_mem_parts (hm : m.WellFormed) {x : Modifier} (h : x ∈ m.parts e)
    (h' : x ∈ m.parts a) : e = a := by
  have hactive : ∀ {u b}, u ∈ m.activeUpdates b → some (m.update u).entity = some b :=
    fun hu => (hm.updates.owned (List.mem_of_mem_filter hu)).2
  cases x with
  | update u =>
    have hu : u ∈ m.activeUpdates e := by simpa [parts] using h
    have hu' : u ∈ m.activeUpdates a := by simpa [parts] using h'
    exact Option.some.inj ((hactive hu).symm.trans (hactive hu'))
  | influence i =>
    have hi : i ∈ (m.entity e).influences := by simpa [parts] using h
    have hi' : i ∈ (m.entity a).influences := by simpa [parts] using h'
    exact Option.some.inj ((hm.influences.owned hi).2.symm.trans (hm.influences.owned hi').2)
  | subentity s =>
    have hs : s ∈ (m.entity e).subentities := by simpa [parts] using h
    have hs' : s ∈ (m.entity a).subentities := by simpa [parts] using h'
    exact Option.some.inj ((hm.subentities.owned hs).2.symm.trans (hm.subentities.owned hs').2)

theorem mem_parts_subentity {s : EntityId} :
    .subentity s ∈ m.parts e ↔ s ∈ (m.entity e).subentities := by
  simp [parts]

/-- A listed modifier is an update or an influence of the entity or of one inside it. -/
theorem within_of_opens (hm : m.WellFormed) (h : Opens m C e xs) {x : Modifier} (hx : x ∈ xs) :
    ∃ a, m.Within e a ∧ x ∈ m.parts a ∧ ∀ s, x ≠ .subentity s := by
  induction h with
  | @order e ms inner horder hinner ih =>
    obtain ⟨y, hy, hx⟩ := List.mem_flatMap.1 hx
    cases y with
    | update u =>
      rw [Modifier.opened, List.mem_singleton] at hx
      · exact ⟨e, .self, horder.mem.1 (hx ▸ hy), fun s => by simp [hx]⟩
      · simp
    | influence i =>
      rw [Modifier.opened, List.mem_singleton] at hx
      · exact ⟨e, .self, horder.mem.1 (hx ▸ hy), fun s => by simp [hx]⟩
      · simp
    | subentity s =>
      obtain ⟨a, ha, hparts, hleaf⟩ := ih s hy hx
      have hs := mem_parts_subentity.1 (horder.mem.1 hy)
      exact ⟨a, (within_of_subentity hm hs).trans ha, hparts, hleaf⟩

/-- A part of an entity is a modifier, or it is a subentity inside which the modifier belongs. -/
def Holds (m : Model) (x z : Modifier) : Prop :=
  x = z ∨ ∃ s a, x = .subentity s ∧ m.Within s a ∧ z ∈ m.parts a

variable {x y z : Modifier}

/-- A modifier is held by one part of an entity only. -/
theorem eq_of_holds (hm : m.WellFormed) (hx : x ∈ m.parts e) (hy : y ∈ m.parts e)
    (hxz : m.Holds x z) (hyz : m.Holds y z) : x = y := by
  rcases hxz with rfl | ⟨s, a, rfl, ha, hz⟩ <;> rcases hyz with rfl | ⟨s', a', rfl, ha', hz'⟩
  · rfl
  · obtain rfl := eq_of_mem_parts hm hx hz'
    exact absurd ha' (not_within_subentity hm (mem_parts_subentity.1 hy))
  · obtain rfl := eq_of_mem_parts hm hy hz
    exact absurd ha (not_within_subentity hm (mem_parts_subentity.1 hx))
  · obtain rfl := eq_of_mem_parts hm hz hz'
    rw [eq_of_within_subentities hm (mem_parts_subentity.1 hx) (mem_parts_subentity.1 hy) ha ha']

theorem Holds.belongs (hm : m.WellFormed) (h : m.Holds x z) (hx : x ∈ m.parts a) :
    ∃ b, m.Within a b ∧ z ∈ m.parts b := by
  rcases h with rfl | ⟨s, b, rfl, hb, hz⟩
  · exact ⟨a, .self, hx⟩
  · exact ⟨b, (within_of_subentity hm (mem_parts_subentity.1 hx)).trans hb, hz⟩

/-- If a part of an entity holds what is held by a part of an entity inside, then the inner entity
is the same or lies inside the part. -/
theorem eq_or_inside_of_holds (hm : m.WellFormed) (ha : m.Within e a) (hy : y ∈ m.parts e)
    (hyz : m.Holds y z) (hx : x ∈ m.parts a) (hxz : m.Holds x z) :
    e = a ∨ ∃ s, y = .subentity s ∧ m.Within s a := by
  obtain ⟨b, hb, hz⟩ := hxz.belongs hm hx
  rcases hyz with rfl | ⟨s, b', rfl, hb', hz'⟩
  · obtain rfl := eq_of_mem_parts hm hy hz
    exact .inl (ha.antisymm hb hm)
  · obtain rfl := eq_of_mem_parts hm hz hz'
    rcases hb'.comparable hb with hsa | has
    · exact .inr ⟨s, rfl, hsa⟩
    · cases has with
      | self => exact .inr ⟨a, rfl, .self⟩
      | inside hp hin =>
        have howned := (hm.subentities.owned (mem_parts_subentity.1 hy)).2
        obtain rfl := Option.some.inj (howned.symm.trans hp)
        exact .inl (ha.antisymm hin hm)

section

variable {ms : List Modifier} {inner : EntityId → List Modifier}

/-- A part holds what it lists. -/
theorem holds_of_opened (hm : m.WellFormed)
    (hinner : ∀ s, .subentity s ∈ ms → Opens m C s (inner s)) (hx : x ∈ ms)
    (hz : z ∈ Modifier.opened inner x) : m.Holds x z := by
  cases x with
  | update u => exact .inl (List.mem_singleton.1 hz).symm
  | influence i => exact .inl (List.mem_singleton.1 hz).symm
  | subentity s =>
    obtain ⟨a, ha, hparts, -⟩ := within_of_opens hm (hinner s hx) hz
    exact .inr ⟨s, a, rfl, ha, hparts⟩

/-- A part lists what is listed and what it holds. -/
theorem opened_of_holds (hm : m.WellFormed) (horder : m.Orders C e ms)
    (hinner : ∀ s, .subentity s ∈ ms → Opens m C s (inner s)) (hx : x ∈ m.parts e)
    (hxz : m.Holds x z) (hz : z ∈ ms.flatMap (Modifier.opened inner)) :
    z ∈ Modifier.opened inner x := by
  obtain ⟨y, hy, hzy⟩ := List.mem_flatMap.1 hz
  obtain rfl := eq_of_holds hm hx (horder.mem.1 hy) hxz (holds_of_opened hm hinner hy hzy)
  exact hzy

end

/-- **No modifier is listed twice.** -/
theorem nodup_of_opens (hm : m.WellFormed) (h : Opens m C e xs) : xs.Nodup := by
  induction h with
  | @order e ms inner horder hinner ih =>
    rw [List.nodup_flatMap]
    refine ⟨fun x hx => ?_, ?_⟩
    · cases x with
      | update | influence => exact List.nodup_singleton _
      | subentity s => exact ih s hx
    · refine horder.nodup.imp_of_mem fun {x y} hx hy hne z hzx hzy => hne ?_
      exact eq_of_holds hm (horder.mem.1 hx) (horder.mem.1 hy) (holds_of_opened hm hinner hx hzx)
        (holds_of_opened hm hinner hy hzy)

/-! ### Steps -/

/-- How a step with a given size came about. -/
structure Step (m : Model) (options : Options) (e : EntityId) (dt : Option Rat) (C : BodyCache)
    (s : StepConstraints) : Prop where
  encodes : ∃ t, Tabled.seed m e (.fresh options.stepName) = .ok () t ∧
    Encodes m options C t s.modifiers s.table
  opens : Opens m C e (s.modifiers.map (·.modifier))
  size : match dt with
    | none => s.stepSize = none
    | some dt => ∃ equation, stepEquation s.table dt = .ok equation ∧ s.stepSize = some equation

theorem step_ok (hm : m.WellFormed) {e : EntityId} {dt : Option Rat} {cache : BodyCache}
    {s : StepConstraints} (h : m.step options e dt cache = .ok s C) : m.Step options e dt C s := by
  unfold step at h
  split at h
  swap
  · cases h
  next s' p hstep =>
  cases h
  obtain ⟨_, p₁, hseed, hstep⟩ := Stateful.bind_ok.1 hstep
  obtain ⟨t, ht, rfl⟩ := Stepping.onTable_ok.1 hseed
  obtain ⟨xs, p₂, hxs, hstep⟩ := Stateful.bind_ok.1 hstep
  obtain ⟨p₃, p₄, hget, hstep⟩ := Stateful.bind_ok.1 hstep
  obtain ⟨rfl, rfl⟩ := Stateful.get_ok.1 hget
  have hentity := encodeEntity_ok hm e hxs
  cases dt with
  | none =>
    obtain ⟨rfl, rfl⟩ := Stateful.pure_ok.1 hstep
    exact ⟨⟨t, ht, hentity.encodes (.refl _)⟩, hentity.lists (.refl _), rfl⟩
  | some dt =>
    cases hequation : stepEquation p₂.table dt with
    | error err =>
      simp only [hequation] at hstep
      exact (Stateful.throw_ok hstep).elim
    | ok equation =>
      simp only [hequation] at hstep
      obtain ⟨rfl, rfl⟩ := Stateful.pure_ok.1 hstep
      exact ⟨⟨t, ht, hentity.encodes (.refl _)⟩, hentity.lists (.refl _), equation, hequation, rfl⟩

end Model

end HybridStep
