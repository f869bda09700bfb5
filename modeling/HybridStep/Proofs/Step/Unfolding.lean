import HybridStep.Proofs.Step.Run
import HybridStep.Proofs.Success

/-! # Unfolding a step

The encoding of an entity calls that of its subentities, which have greater numbers. Unfolded level
by level it can be evaluated: below the innermost entity nothing is called any more. -/

namespace HybridStep

open Stepping (onCache onTable)

namespace Model

variable {m : Model} {options : Options}

/-- What some modifiers of an entity contribute, with a given encoding of subentities. -/
def encodeLevel (m : Model) (options : Options)
    (inner : EntityId → Stepping (List ModifierConstraints)) (e : EntityId) :
    List Modifier → Stepping (List ModifierConstraints)
  | [] => return []
  | .update u :: rest => do
    let first ← m.encodeUpdate options u
    let others ← encodeLevel m options inner e rest
    return first :: others
  | .influence i :: rest => do
    let first ← m.encodeInfluence i
    let others ← encodeLevel m options inner e rest
    return first :: others
  | .subentity s :: rest => do
    let inside ← if e.index < s.index ∧ s.index < m.entities.length then inner s else pure []
    let others ← encodeLevel m options inner e rest
    return inside ++ others

/-- The encoding of an entity, with a number of levels unfolded. -/
def encodeDown (m : Model) (options : Options) :
    Nat → EntityId → Stepping (List ModifierConstraints)
  | 0 => m.encodeEntity options
  | n + 1 => fun e => do encodeLevel m options (encodeDown m options n) e (← onCache (m.order e))

theorem encodeLevel_eq (e : EntityId) : ∀ ms : List Modifier,
    m.encodeLevel options (m.encodeEntity options) e ms = m.encodeModifiers options e ms
  | [] => by rw [encodeLevel, encodeModifiers]
  | .update u :: rest => by
    rw [encodeLevel, encodeModifiers, encodeLevel_eq e rest]
  | .influence i :: rest => by
    rw [encodeLevel, encodeModifiers, encodeLevel_eq e rest]
  | .subentity s :: rest => by
    rw [encodeLevel, encodeModifiers, encodeLevel_eq e rest]

theorem encodeDown_eq : ∀ n, m.encodeDown options n = m.encodeEntity options
  | 0 => rfl
  | n + 1 => by
    funext e
    rw [encodeDown, encodeDown_eq n, encodeEntity]
    simp only [encodeLevel_eq]

/-- One step of an entity, with a number of levels unfolded. -/
def encodeStepDown (m : Model) (options : Options) (n : Nat) (e : EntityId) (dt : Option Rat) :
    Stepping StepConstraints := do
  onTable (Tabled.seed m e)
  let modifiers ← m.encodeDown options n e
  let table := (← get).table
  match dt with
  | none => return ⟨modifiers, none, table⟩
  | some dt =>
    match stepEquation table dt with
    | .ok equation => return ⟨modifiers, some equation, table⟩
    | .error e => throw (.encoding e)

theorem encodeStepDown_eq (n : Nat) (e : EntityId) (dt : Option Rat) :
    m.encodeStepDown options n e dt = m.encodeStep options e dt := by
  rw [encodeStepDown, encodeDown_eq]
  rfl

theorem step_ok_of_down {n : Nat} {e : EntityId} {dt : Option Rat} {cache : BodyCache}
    {s : StepConstraints} {p : StepProgress}
    (h : m.encodeStepDown options n e dt ⟨.fresh options.stepName, cache⟩ = .ok s p) :
    m.step options e dt cache = .ok s p.cache := by
  rw [encodeStepDown_eq] at h
  rw [step, h]

/-! ### A step of the tank -/

/-- What is listed in a step of the tank, and what its parts write and read. -/
structure TankStep (m : Model) (e : EntityId) (s : StepConstraints) (cache : BodyCache) : Prop where
  listed : s.modifiers.map (·.modifier) = [.update ⟨1⟩, .influence ⟨0⟩, .update ⟨0⟩]
  carried : s.script.carried = []
  apart : m.Apart {} cache (s.modifiers.map (·.modifier))
  spares : ∀ x ∈ s.modifiers, m.SparesStep {} cache x.modifier
  names : s.table.NamesDistinct
  parts : m.parts e = [.influence ⟨0⟩, .update ⟨1⟩, .subentity ⟨1⟩]
  gauge : m.parts ⟨1⟩ = [.update ⟨0⟩]
  measures : m.declaredWrites (.influence ⟨0⟩) = [⟨2⟩]
  reading : m.declaredReads (m.readsIn cache) (.subentity ⟨1⟩) = [⟨2⟩]

/-- The tank is filled and measured, then the gauge is watched. -/
theorem tank_step : ∃ m e s cache, tankDefinition.build = .ok (m, e) ∧
    m.step {} e (some 1) {} = .ok s cache ∧ m.TankStep e s cache := by
  have h : Attempt.succeeds (fun (m, e) => Stateful.succeeds (fun s p =>
      s.modifiers.map (·.modifier) = [.update ⟨1⟩, .influence ⟨0⟩, .update ⟨0⟩] ∧
        s.script.carried = [] ∧ m.Apart {} p.cache (s.modifiers.map (·.modifier)) ∧
        (∀ x ∈ s.modifiers, m.SparesStep {} p.cache x.modifier) ∧ s.table.NamesDistinct ∧
        m.parts e = [.influence ⟨0⟩, .update ⟨1⟩, .subentity ⟨1⟩] ∧ m.parts ⟨1⟩ = [.update ⟨0⟩] ∧
        m.declaredWrites (.influence ⟨0⟩) = [⟨2⟩] ∧
        m.declaredReads (m.readsIn p.cache) (.subentity ⟨1⟩) = [⟨2⟩])
      (m.encodeStepDown {} 2 e (some 1) ⟨.fresh "dt", {}⟩))
      tankDefinition.build := by decide +kernel
  obtain ⟨⟨m, e⟩, hbuild, h⟩ := Attempt.exists_of_succeeds h
  obtain ⟨s, p, hdown, h⟩ := Stateful.exists_of_succeeds h
  obtain ⟨hlist, hcarried, hapart, hspares, hnames, hparts, hgauge, hmeasures, hreading⟩ :=
    of_decide_eq_true h
  exact ⟨m, e, s, p.cache, hbuild, step_ok_of_down hdown, hlist, hcarried, hapart, hspares, hnames,
    hparts, hgauge, hmeasures, hreading⟩

end Model

end HybridStep
