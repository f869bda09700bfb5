import HybridStep.Command.NameFilter
import HybridStep.Command.Report
import HybridStep.Model.Definition.Build
import HybridStep.Model.Definition.Reader
import HybridStep.Step

/-! # Running a request

The models of all inputs are found first; then each one is read, built, and ordered or encoded. All
of them share one cache of bodies, and the first failure ends the run. The engine for name patterns
and the source of the models are given. -/

namespace HybridStep

/-- Why a request fails.

* `pattern`: a name pattern has no filter;
* `stepSize`: the time step is no decimal;
* `noInput`: an input is neither a file nor a directory;
* `description`: a file holds no description of a model;
* `model`: a description has no model;
* `noEntity`: the model has no entity of that path;
* `order`, `encoding`, `script`: an entity has no order, no encoding or no script. -/
inductive CommandError where
  | pattern (e : PatternError)
  | stepSize (text : String)
  | noInput (path : String)
  | description (file : String) (fault : JsonFault)
  | model (file : String) (e : ModelError)
  | noEntity (path file : String)
  | order (entity : String) (e : ScheduleError)
  | encoding (entity : String) (e : StepError)
  | script (entity : String) (e : CarriedTexts)

/-- The texts of what caused an error. -/
def ScheduleError.causes : ScheduleError → List String
  | cycle _ _ => []
  | updateBody _ e => [e.message]

/-- The texts of what caused an error. -/
def StepError.causes : StepError → List String
  | schedule e => e.causes
  | body _ => []
  | encoding _ => []

namespace CommandError

/-- The texts of an error and of what caused it. -/
def texts : CommandError → List String
  | pattern e => e.texts
  | stepSize text => ["invalid step size `" ++ text ++ "`"]
  | noInput path => ["no such model file or directory: " ++ path]
  | description file fault =>
    ["failed to load " ++ file, "invalid model description `" ++ file ++ "`: " ++ fault.message]
  | model file e => ["invalid model in " ++ file, e.message]
  | noEntity path file => ["no entity `" ++ path ++ "` in " ++ file]
  | order entity e => ["failed to order `" ++ entity ++ "`", e.message] ++ e.causes
  | encoding entity e => ["failed to translate `" ++ entity ++ "`", e.message] ++ e.causes
  | script entity e => ["cannot emit SMT-LIB for `" ++ entity ++ "`", e.message]

/-- The text of an error. -/
def message (e : CommandError) : String := "error: " ++ ": ".intercalate e.texts

end CommandError

/-- A run, with the cache of bodies. -/
abbrev Running := StateT BodyCache (Except CommandError)

namespace Running

/-- Runs a part of the scheduling or encoding on the cache. -/
def onCache {ε α : Type} (refused : ε → CommandError) (x : EStateM ε BodyCache α) : Running α :=
  fun cache => match x cache with
    | .ok a cache => .ok (a, cache)
    | .error e _ => .error (refused e)

end Running

/-- Gives the model files that an input names, with their paths and contents, if there is such an
input. -/
abbrev ModelSource := String → Option (List (String × String))

/-- The paths and contents of all model files of the inputs. -/
def discover (source : ModelSource) : List String → Except CommandError (List (String × String))
  | [] => .ok []
  | input :: inputs =>
    match source input with
    | none => .error (.noInput input)
    | some models => (discover source inputs).map (models ++ ·)

/-- What a file is about: a model and an entity of it. -/
structure Subject where
  model : Model
  entity : EntityId

/-- The model in a file, with the entity of a path or its outermost entity. -/
def load (file contents : String) (entity : Option String) : Except CommandError Subject := do
  let definition ← (ModelDefinition.ofText contents).mapError (.description file)
  let built ← definition.build.mapError (.model file)
  match entity with
  | none => return ⟨built.1, built.2⟩
  | some path =>
    match built.1.resolveEntityPath path with
    | some e => return ⟨built.1, e⟩
    | none => throw (.noEntity path file)

/-- The order of the entity in a file. -/
def orderFile (entity : Option String) (file contents : String) : Running OrderReport := do
  let ⟨m, e⟩ ← liftM (load file contents entity)
  let modifiers ← Running.onCache (.order (m.entityPath e)) (m.order e)
  return ⟨file, m.entityPath e, modifiers.map m.modifierName⟩

/-- What a modifier contributes, as texts. -/
def ModifierConstraints.report (m : ModifierConstraints) : ModifierReport :=
  ⟨m.name, m.constraints.map Term.text, m.passthrough⟩

/-- The script of the shown modifiers, if it is asked for. -/
def scriptText (format : OutputFormat) (entity : String) (stepSize : Option Term)
    (modifiers : List ModifierConstraints) : Except CommandError String :=
  if format = .smtlib then (scriptOf stepSize modifiers).assemble.mapError (.script entity)
  else .ok ""

/-- The encoding of the entity in a file. -/
def encodeFile {engine : RegexEngine} (selection : Selection) (filter : Option (NameFilter engine))
    (dt : Option Rat) (options : Options) (file contents : String) : Running StepReport := do
  let ⟨m, e⟩ ← liftM (load file contents selection.entity)
  let path := m.entityPath e
  let step ← Running.onCache (.encoding path) (m.step options e dt)
  let modifiers := filterByName step.modifiers filter ModifierConstraints.name
  let script ← liftM (scriptText selection.format path step.stepSize modifiers)
  return ⟨file, path, step.stepSize.map Term.text, modifiers.map ModifierConstraints.report,
    script⟩

/-- The filter that a name pattern gives. -/
def readFilter (engine : RegexEngine) :
    Option String → Except CommandError (Option (NameFilter engine))
  | none => .ok none
  | some pattern => ((NameFilter.ofPattern engine pattern).mapError .pattern).map some

/-- The time step that a text gives. -/
def readStepSize : Option String → Except CommandError (Option Rat)
  | none => .ok none
  | some text =>
    match Decimal.read? text with
    | some dt => .ok (some dt)
    | none => .error (.stepSize text)

/-- The options of an encoding. -/
def optionsOf (allowMissingElse : Bool) : Options :=
  { missingElse := if allowMissingElse then .empty else .reject }

/-- The inputs of a request. -/
def Request.inputs : Request → List String
  | .order selection => selection.inputs
  | .translate selection _ _ _ => selection.inputs

/-- The output of a request. -/
def Request.output (engine : RegexEngine) (source : ModelSource) :
    Request → Except CommandError String
  | .order selection => do
    let files ← discover source selection.inputs
    let reports : Running (List OrderReport) :=
      files.mapM fun (file, contents) => orderFile selection.entity file contents
    return OrderReport.render selection.format (← reports.run' {})
  | .translate selection only dt allowMissingElse => do
    let filter ← readFilter engine only
    let dt ← readStepSize dt
    let files ← discover source selection.inputs
    let options := optionsOf allowMissingElse
    let reports : Running (List StepReport) :=
      files.mapM fun (file, contents) => encodeFile selection filter dt options file contents
    return StepReport.render selection.format (← reports.run' {})

/-- How a run ends: with output, with a failure, or with arguments that make no request. -/
inductive Outcome where
  | output (text : String)
  | failure (e : CommandError)
  | usage

/-- Runs the program with arguments on the models of a source, with an engine for name patterns. -/
def runCommand (engine : RegexEngine) (source : ModelSource) (args : List String) : Outcome :=
  match Arguments.request? args with
  | none => .usage
  | some request =>
    match request.output engine source with
    | .ok text => .output text
    | .error e => .failure e

end HybridStep
