import HybridStep.Proofs.Encoding.Influences
import HybridStep.Proofs.Step.Listing

/-! # The run of a step

The modifiers of a step run one after the other on the values of the ports: an update executes its
body, an influence copies its source to its target. Bodies are those of the cache with which the
step ends. The tables between the modifiers have what the modifiers before have made. -/

namespace HybridStep

open SymbolTable

variable {K : Type}

/-- What a step runs from: the size of the step, the values of the ports, and for every update the
values of the locals that it reads before it writes them. -/
structure StepStart (K : Type) where
  dt : K
  ports : PortId → Val K
  locals : UpdateId → String → Val K

/-- The value of a name where an update starts. -/
def StepStart.value (start : StepStart K) (u : UpdateId) (ports : PortId → Val K) : VarKey → Val K
  | .port q => ports q
  | .local name => start.locals u name

/-- The store from which the body of an update runs. What is passed through leaves names as they
were. -/
def StepStart.store (start : StepStart K) (u : UpdateId) (ports : PortId → Val K) : Store K :=
  ⟨start.dt, start.value u ports, fun _ => start.value u ports⟩

namespace Model

/-- The ports that a modifier writes, with the bodies of a cache. -/
def writtenBy (m : Model) (options : Options) (C : BodyCache) : Modifier → List PortId
  | .update u =>
    match C.body? (m.update u).function with
    | some f => (bodyContext m options u f).writtenPorts.toList
    | none => []
  | .influence i => [(m.influence i).target]
  | .subentity _ => []

/-- The handles to which a modifier gives values. -/
def Touches (m : Model) (options : Options) (C : BodyCache) (x : Modifier) :
    SymbolKey → Version → Prop
  | .step, _ => False
  | .port q, v => q ∈ m.writtenBy options C x ∧ v ≠ .prior
  | .local _ owner, v => owner = x ∧ v ≠ .current

/-- The handles to which some modifiers give values. -/
def TouchedBy (m : Model) (options : Options) (C : BodyCache) (mods : List Modifier)
    (key : SymbolKey) (v : Version) : Prop := ∃ x ∈ mods, m.Touches options C x key v

theorem TouchedBy.mono {m : Model} {options : Options} {C : BodyCache} {mods mods' : List Modifier}
    {key : SymbolKey} {v : Version} (hmods : mods ⊆ mods') :
    m.TouchedBy options C mods key v → m.TouchedBy options C mods' key v :=
  fun ⟨x, hx, htouch⟩ => ⟨x, hmods hx, htouch⟩

/-- No two modifiers write one port. -/
def Apart (m : Model) (options : Options) (C : BodyCache) (mods : List Modifier) : Prop :=
  mods.Pairwise fun x y => ∀ q ∈ m.writtenBy options C x, q ∉ m.writtenBy options C y

instance (m : Model) (options : Options) (C : BodyCache) (mods : List Modifier) :
    Decidable (m.Apart options C mods) := inferInstanceAs (Decidable (List.Pairwise _ _))

/-- The body of a modifier leaves the time step alone. -/
def SparesStep (m : Model) (options : Options) (C : BodyCache) : Modifier → Prop
  | .update u => ∀ f ∈ C.body? (m.update u).function,
    (updateContext m options u f).SparesStepIn f.body
  | .influence _ | .subentity _ => True

instance (m : Model) (options : Options) (C : BodyCache) : DecidablePred (m.SparesStep options C) :=
  fun x => by cases x <;> unfold SparesStep <;> infer_instance

section

variable [Field K] [LinearOrder K]

/-- The values of the ports after a modifier. -/
def runModifier (m : Model) (options : Options) (A : Arith K) (C : BodyCache)
    (start : StepStart K) (ports : PortId → Val K) : Modifier → Option (PortId → Val K)
  | .update u => do
    let f ← C.body? (m.update u).function
    let st ← (bodyContext m options u f).run A (start.store u ports) f.body
    return fun q => st.val (.port q)
  | .influence i => do
    let v ← (ports (m.influence i).source).as? (m.sortOfPort (m.influence i).target)
    return Function.update ports (m.influence i).target v
  | .subentity _ => none

/-- The values of the ports after several modifiers. -/
def runModifiers (m : Model) (options : Options) (A : Arith K) (C : BodyCache)
    (start : StepStart K) : List Modifier → (PortId → Val K) → Option (PortId → Val K)
  | [], ports => some ports
  | x :: xs, ports => do
    runModifiers m options A C start xs (← m.runModifier options A C start ports x)

theorem runModifiers_cons {m : Model} {options : Options} {A : Arith K} {C : BodyCache}
    {start : StepStart K} {x : Modifier} {xs : List Modifier} {ports ports' : PortId → Val K}
    (h : m.runModifier options A C start ports x = some ports') :
    m.runModifiers options A C start (x :: xs) ports =
      m.runModifiers options A C start xs ports' := by
  rw [runModifiers, h]
  rfl

end

end Model

variable {m : Model} {options : Options} {C : BodyCache} {t t' T : SymbolTable}
variable {xs : List ModifierConstraints} {x : Modifier} {u : UpdateId} {f : UpdateFunction}

/-! ### Tables between modifiers -/

/-- A step begins on a canonical table without locals and without written ports. -/
theorem seeded {e : EntityId} (h : Tabled.seed m e (.fresh options.stepName) = .ok () t) :
    t.Canonical m ∧ (∀ x, Tidy m x t) ∧ t.written = .empty := by
  have htidy : ∀ x, Tidy m x t := fun x => by
    have hfresh : Earlier m options x (.fresh options.stepName) := .fresh
    exact (hfresh.seed h).tidy
  have hgrows : GrowsBy (PortHandle m) _ t := seedPorts_grows h
  exact ⟨(htidy default).canonical, htidy, hgrows.written⟩

theorem Model.writtenBy_update (hf : C.body? (m.update u).function = some f) :
    m.writtenBy options C (.update u) = (bodyContext m options u f).writtenPorts.toList := by
  rw [writtenBy, hf]

theorem Encodes.extends (h : Encodes m options C t xs t') : t.Extends t' := by
  induction h with
  | nil => exact .rfl
  | update _ he _ ih => exact (encodeUpdate_extends he).trans ih
  | influence he _ ih => exact (encodeInfluence_extends he).trans ih

/-- Handles of ports are right in a canonical table, so sorts stay right as long as no handle of a
local is new. -/
theorem sortedTable_grow {New : SymbolKey → Version → Term → Prop} {t₁ : SymbolTable}
    (ht : (bodyContext m options u f).SortedTable t) (hc : t₁.Canonical m) (hg : GrowsBy New t t₁)
    (hnew : ∀ name v term, ¬ New (.local name (.update u)) v term) (ports : List PortId) :
    (bodyContext m options u f).SortedTable (ports.foldl SymbolTable.markWritten t₁) := by
  intro key v term hget
  rw [get?_markAll] at hget
  cases key with
  | port q => exact sort_of_portTerm (hc.fits hget)
  | «local» name =>
    rcases hg.fresh hget with hold | hn
    · exact ht hold
    · exact absurd hn (hnew name v term)

theorem Encodes.canonical (h : Encodes m options C t xs t') (hc : t.Canonical m) :
    t'.Canonical m := by
  induction h with
  | nil => exact hc
  | update _ he _ ih => exact ih (encodeUpdate_canonical hc he)
  | influence he _ ih => exact ih (encodeInfluence_canonical hc he)

/-- Sorts of handles stay right while other modifiers are encoded. -/
theorem Encodes.sortedTable (h : Encodes m options C t xs t') (hc : t.Canonical m)
    (ht : (bodyContext m options u f).SortedTable t) (hu : .update u ∉ xs.map (·.modifier)) :
    (bodyContext m options u f).SortedTable t' := by
  induction h with
  | nil => exact ht
  | @update _ _ _ w g _ _ _ he _ ih =>
    rw [List.map_cons, List.mem_cons, not_or] at hu
    have hc' := encodeUpdate_canonical hc he
    obtain ⟨q, hg, rfl⟩ := encodeUpdate_grows he
    refine ih hc' (sortedTable_grow ht (hc.grow hg fun _ _ _ hnew =>
      Context.fits_of_makes (c := bodyContext m options w g) hnew) hg ?_ _) hu.2
    exact fun name v term hnew => hu.1 hnew.1
  | influence he _ ih =>
    rw [List.map_cons, List.mem_cons, not_or] at hu
    have hc' := encodeInfluence_canonical hc he
    obtain ⟨q, hg, rfl⟩ := encodeInfluence_grows he
    refine ih hc' (sortedTable_grow ht (hc.grow hg fun _ _ _ => fits_of_portHandle) hg ?_ [_]) hu.2
    exact fun name v term hnew => hnew

theorem Encodes.sortedTables (h : Encodes m options C t xs t') (hc : t.Canonical m)
    (hnodup : (xs.map (·.modifier)).Nodup) (ht : ∀ x ∈ xs.map (·.modifier), Tidy m x t) :
    ∀ {u f}, .update u ∈ xs.map (·.modifier) → C.body? (m.update u).function = some f →
      (bodyContext m options u f).SortedTable t' := by
  induction h with
  | nil => exact fun hu => absurd hu List.not_mem_nil
  | @update t t₁ t' w g r xs hg he hxs ih =>
    rw [List.map_cons, List.nodup_cons] at hnodup
    rw [List.map_cons, List.forall_mem_cons] at ht
    intro u f hu hf
    have hc' := encodeUpdate_canonical hc he
    rcases List.mem_cons.1 hu with heq | hu
    · cases heq
      obtain rfl := Option.some.inj (hf.symm.trans hg)
      exact hxs.sortedTable hc' (ht.1.sortedTable he) hnodup.1
    · refine ih hc' hnodup.2 (fun x hx => (ht.2 x hx).update ?_ he) hu hf
      rintro rfl
      exact hnodup.1 hx
  | influence he _ ih =>
    rw [List.map_cons, List.nodup_cons] at hnodup
    rw [List.map_cons, List.forall_mem_cons] at ht
    intro u f hu hf
    have hu := (List.mem_cons.1 hu).resolve_left (by simp)
    exact ih (encodeInfluence_canonical hc he) hnodup.2 (fun x hx => (ht.2 x hx).influence he) hu hf

theorem Encodes.body (h : Encodes m options C t xs t') (hu : .update u ∈ xs.map (·.modifier)) :
    ∃ f, C.body? (m.update u).function = some f := by
  induction h with
  | nil => cases hu
  | update hg _ _ ih =>
    rcases List.mem_cons.1 hu with heq | hu
    · cases heq
      exact ⟨_, hg⟩
    · exact ih hu
  | influence _ _ ih => exact ih ((List.mem_cons.1 hu).resolve_left (by simp))

theorem Encodes.written_mono (h : Encodes m options C t xs t') {q : PortId} (hq : q ∈ t.written) :
    q ∈ t'.written := by
  induction h with
  | nil => exact hq
  | update _ he _ ih => exact ih ((encodeUpdate_written he).2 (.inl hq))
  | influence he _ ih => exact ih ((encodeInfluence_written he).2 (.inl hq))

/-- The ports that modifiers write are noted, and have post-step variables. -/
theorem Encodes.present (h : Encodes m options C t xs t') (hx : x ∈ xs.map (·.modifier))
    {q : PortId} (hq : q ∈ m.writtenBy options C x) :
    q ∈ t'.written ∧ ∃ term, t'.get? (.port q) .current = some term := by
  induction h with
  | nil => cases hx
  | @update t t₁ t' u f r xs hf he hxs ih =>
    rcases List.mem_cons.1 hx with rfl | hx
    · rw [Model.writtenBy_update hf] at hq
      obtain ⟨_, -, -, -, hpresent⟩ := encodeUpdate_inside he hxs.extends
      exact ⟨hxs.written_mono ((encodeUpdate_written he).2 (.inr hq)), hpresent q hq⟩
    · exact ih hx
  | influence he hxs ih =>
    rcases List.mem_cons.1 hx with rfl | hx
    · obtain rfl := List.mem_singleton.1 hq
      obtain ⟨target, -, htarget, -, -⟩ := encodeInfluence_inside he hxs.extends
      exact ⟨hxs.written_mono ((encodeInfluence_written he).2 (.inr rfl)), target, htarget⟩
    · exact ih hx

end HybridStep
