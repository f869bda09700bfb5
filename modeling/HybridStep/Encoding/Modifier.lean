import HybridStep.Encoding.Statement

/-! # Encoding of modifiers

An update is the encoding of its body, in which a return writes the target. An influence is the
equation of its target with the value of its source. -/

namespace HybridStep

/-- The context of the body of an update. -/
def updateContext (m : Model) (options : Options) (u : UpdateId) (f : UpdateFunction) : Context :=
  let record := m.update u
  let c : Context :=
    { model := m, options := options, entity := record.entity, modifier := .update u,
      target := some record.target }
  c.withFunction f

/-- Runs an encoding of one modifier on a table. -/
def Encoder.alone {α : Type} (x : Encoder α) : Tabled α := fun t =>
  match x { table := t } with
  | .ok a s => .ok a s.table
  | .error e s => .error e s.table

/-- Encodes an update with the given body. -/
def encodeUpdate (m : Model) (options : Options) (u : UpdateId) (f : UpdateFunction) :
    Tabled BodyConstraints :=
  ((updateContext m options u f).encodeBody f.body).alone

/-- The value of the source of an influence as one of the sort of its target. -/
def influenceValue (m : Model) (i : InfluenceId) (target source : Term) :
    Except EncodingError Term :=
  match target.sort, source.sort with
  | .real, .int => checked source.mkToReal
  | .int, .real => .error (.narrowing (m.modifierName (.influence i)))
  | _, _ => .ok source

/-- The equation of the target of an influence with a value of its source. -/
def influenceEquation (m : Model) (i : InfluenceId) (target source : Term) :
    Except EncodingError Term := do
  checked (target.mkEq (← influenceValue m i target source))

/-- Encodes an influence. Its target is noted in the table. -/
def encodeInfluence (m : Model) (i : InfluenceId) : Tabled Term := do
  let record := m.influence i
  let target ← Tabled.lift (·.port m record.target .current)
  let source ← Tabled.lift (·.entryValue m record.source)
  let equation ← Tabled.lift fun t => (influenceEquation m i target source).map (·, t)
  modify (·.markWritten record.target)
  return equation

end HybridStep
