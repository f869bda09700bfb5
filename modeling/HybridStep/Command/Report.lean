import HybridStep.Command.Arguments
import HybridStep.Json.Writer

/-! # Reports

What was found for each model file, and its text for people, as JSON, or as scripts. -/

namespace HybridStep

/-- The names of the modifiers of an entity in order. -/
structure OrderReport where
  file : String
  entity : String
  order : List String

/-- The constraints of a modifier, and the texts without constraint. -/
structure ModifierReport where
  name : String
  constraints : List String
  passthrough : List String

/-- The encoding of a step of an entity. The script is there if it was asked for. -/
structure StepReport where
  file : String
  entity : String
  stepSize : Option String
  modifiers : List ModifierReport
  script : String

namespace Report

/-- A line. -/
def line (text : String) : String := text ++ "\n"

/-- The line above what was found for a file. -/
def heading (entity file : String) : String := line (entity ++ " (" ++ file ++ ")")

/-- A position of at least three places. -/
def position (n : Nat) : String :=
  let digits := toString n
  String.ofList (List.replicate (3 - digits.length) ' ') ++ digits

/-- Texts as JSON. -/
def texts (l : List String) : Json := .array (l.map Json.string)

end Report

open Report

namespace OrderReport

/-- The numbered names, from a position on. -/
def numbered (n : Nat) : List String → List String
  | [] => []
  | name :: names => line ("  " ++ position n ++ ". " ++ name) :: numbered (n + 1) names

/-- The text for people. -/
def human (r : OrderReport) : String :=
  heading r.entity r.file ++
    (if r.order.isEmpty then line "  (no modifiers)" else String.join (numbered 1 r.order)) ++
    "\n"

/-- The report as JSON. -/
def json (r : OrderReport) : Json :=
  .object [("file", .string r.file), ("entity", .string r.entity), ("order", texts r.order)]

/-- The text of several reports. Orders have no script and are shown for people instead. -/
def render (format : OutputFormat) (reports : List OrderReport) : String :=
  match format with
  | .json => (Json.array (reports.map json)).pretty 0
  | _ => String.join (reports.map human)

end OrderReport

namespace ModifierReport

/-- The text for people. -/
def human (m : ModifierReport) : String :=
  line ("  " ++ m.name) ++ String.join (m.constraints.map fun c => line ("    " ++ c)) ++
    String.join (m.passthrough.map fun t => line ("    untranslated: " ++ t))

/-- The report as JSON, without a list of texts if there are none. -/
def json (m : ModifierReport) : Json :=
  .object ([("name", .string m.name), ("constraints", texts m.constraints)] ++
    if m.passthrough.isEmpty then [] else [("passthrough", texts m.passthrough)])

end ModifierReport

namespace StepReport

/-- The text for people. -/
def human (r : StepReport) : String :=
  heading r.entity r.file ++ (r.stepSize.elim "" fun s => line ("  step: " ++ s)) ++
    String.join (r.modifiers.map ModifierReport.human) ++ "\n"

/-- The line below all reports. -/
def summary (reports : List StepReport) : String :=
  let modifiers := reports.flatMap (·.modifiers)
  line ("translated " ++ toString reports.length ++ " entities: " ++ toString modifiers.length ++
    " modifiers, " ++ toString (modifiers.flatMap (·.constraints)).length ++ " constraints")

/-- The report as JSON, without the time step if it is not fixed. -/
def json (r : StepReport) : Json :=
  .object ([("file", .string r.file), ("entity", .string r.entity)] ++
    (r.stepSize.elim [] fun s => [("step_size", .string s)]) ++
    [("modifiers", .array (r.modifiers.map ModifierReport.json))])

/-- The script below a comment. -/
def smtlib (r : StepReport) : String :=
  "; " ++ heading r.entity r.file ++ r.script ++ (if r.script.endsWith "\n" then "" else "\n")

/-- The text of several reports. -/
def render (format : OutputFormat) (reports : List StepReport) : String :=
  match format with
  | .human => String.join (reports.map human) ++ summary reports
  | .json => (Json.array (reports.map json)).pretty 0
  | .smtlib => String.join (reports.map smtlib)

end StepReport

end HybridStep
