import HybridStep.Encoding.Modifier
import HybridStep.Schedule.Order
import HybridStep.Smt.Script

/-! # A whole step

The modifiers of an entity are encoded in order on one table, so that a later one reads what an
earlier one has written. A subentity is encoded in place, by its own order. -/

namespace HybridStep

/-- Why a step cannot be encoded. -/
inductive StepError where
  | schedule (e : ScheduleError)
  | body (e : BodyError)
  | encoding (e : EncodingError)

/-- The text of the error. -/
def StepError.message : StepError → String
  | schedule e => e.message
  | body e => e.message
  | encoding e => e.message

/-- What one update or influence contributes to a step. -/
structure ModifierConstraints where
  modifier : Modifier
  name : String
  constraints : List Term
  passthrough : List String

/-- An encoded step: its modifiers in order with subentities opened, the equation of the time step
if it is fixed, and the table of symbols. -/
structure StepConstraints where
  modifiers : List ModifierConstraints
  stepSize : Option Term
  table : SymbolTable

/-- The script of some modifiers and the equation of the time step. -/
def scriptOf (stepSize : Option Term) (modifiers : List ModifierConstraints) : Script :=
  modifiers.foldl
    (fun script m =>
      m.passthrough.foldl (fun script text => script.passThrough (m.name ++ ": " ++ text))
        (script.addConstraints m.constraints))
    (Script.addConstraints {} stepSize.toList)

/-- The script of a step. -/
def StepConstraints.script (s : StepConstraints) : Script := scriptOf s.stepSize s.modifiers

/-- What a step has made so far: the symbols and the read bodies. -/
structure StepProgress where
  table : SymbolTable
  cache : BodyCache
  deriving Inhabited

/-- The encoding of a step, which keeps its progress when it fails. -/
abbrev Stepping := EStateM StepError StepProgress

namespace Stepping

/-- Runs an encoding on the table. -/
def onTable {α : Type} (x : Tabled α) : Stepping α := fun s =>
  match x s.table with
  | .ok a t => .ok a { s with table := t }
  | .error e t => .error (.encoding e) { s with table := t }

/-- Runs a part of the scheduling on the cache. -/
def onCache {α : Type} (x : Scheduling α) : Stepping α := fun s =>
  match x s.cache with
  | .ok a c => .ok a { s with cache := c }
  | .error e c => .error (.schedule e) { s with cache := c }

/-- Reads a body through the cache. -/
def readBody (source : String) : Stepping UpdateFunction := fun s =>
  match s.cache.read source with
  | (.ok f, c) => .ok f { s with cache := c }
  | (.error e, c) => .error (.body e) { s with cache := c }

end Stepping

open Stepping (onTable onCache readBody)

namespace Model

variable (m : Model) (options : Options)

/-- What an update contributes. -/
def encodeUpdate (u : UpdateId) : Stepping ModifierConstraints := do
  let f ← readBody (m.update u).function
  let t ← onTable (HybridStep.encodeUpdate m options u f)
  return ⟨.update u, m.modifierName (.update u), t.constraints, t.passthrough⟩

/-- What an influence contributes. -/
def encodeInfluence (i : InfluenceId) : Stepping ModifierConstraints := do
  let equation ← onTable (HybridStep.encodeInfluence m i)
  return ⟨.influence i, m.modifierName (.influence i), [equation], []⟩

mutual

/-- What the modifiers of an entity contribute, in order. -/
def encodeEntity (e : EntityId) : Stepping (List ModifierConstraints) := do
  encodeModifiers e (← onCache (m.order e))
termination_by (m.entities.length - e.index, 1, 0)

/-- What some modifiers of an entity contribute. A subentity has a greater number
than its parent. -/
def encodeModifiers (e : EntityId) : List Modifier → Stepping (List ModifierConstraints)
  | [] => return []
  | .update u :: rest => do
    let first ← m.encodeUpdate options u
    let others ← encodeModifiers e rest
    return first :: others
  | .influence i :: rest => do
    let first ← m.encodeInfluence i
    let others ← encodeModifiers e rest
    return first :: others
  | .subentity s :: rest => do
    let inner ← if e.index < s.index ∧ s.index < m.entities.length then encodeEntity s else pure []
    let others ← encodeModifiers e rest
    return inner ++ others
termination_by l => (m.entities.length - e.index, 0, l.length)

end

/-- The equation of the time step with a value. -/
def stepEquation (table : SymbolTable) (dt : Rat) : Except EncodingError Term :=
  checked (table.step.mkEq (.real dt))

/-- Encodes one step of an entity. With `dt` the time step has that value. -/
def encodeStep (e : EntityId) (dt : Option Rat) : Stepping StepConstraints := do
  onTable (Tabled.seed m e)
  let modifiers ← m.encodeEntity options e
  let table := (← get).table
  match dt with
  | none => return ⟨modifiers, none, table⟩
  | some dt =>
    match stepEquation table dt with
    | .ok equation => return ⟨modifiers, some equation, table⟩
    | .error e => throw (.encoding e)

/-- Encodes one step of an entity on a fresh table. -/
def step (e : EntityId) (dt : Option Rat) : EStateM StepError BodyCache StepConstraints :=
  fun cache =>
    match m.encodeStep options e dt ⟨.fresh options.stepName, cache⟩ with
    | .ok s p => .ok s p.cache
    | .error e p => .error e p.cache

end Model

end HybridStep
