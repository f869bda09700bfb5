import HybridStep.Ordered.Map
import HybridStep.Ordered.Set
import HybridStep.Smt.Term

/-! # Scripts

A script is a list of constraints, together with texts that have no constraint. Its rendering
declares each enumeration and each variable once, asserts the constraints in order and asks for
satisfiability. A script that carries text cannot be assembled. -/

namespace HybridStep

/-- Constraints, and texts that were passed through. -/
structure Script where
  constraints : List Term := []
  carried : List String := []

/-- The texts that keep a script from being assembled. -/
structure CarriedTexts where
  texts : List String
  deriving DecidableEq

/-- The text of the error. -/
def CarriedTexts.message (e : CarriedTexts) : String :=
  "cannot assemble a script holding untranslated syntax: " ++ "; ".intercalate e.texts

namespace Script

/-- Adds constraints at the end. -/
def addConstraints (s : Script) (ts : List Term) : Script :=
  { s with constraints := s.constraints ++ ts }

/-- Adds a text that has no constraint. -/
def passThrough (s : Script) (text : String) : Script :=
  { s with carried := s.carried ++ [text] }

/-- Whether the script holds neither constraints nor texts. -/
def isEmpty (s : Script) : Bool := s.constraints.isEmpty && s.carried.isEmpty

/-- The enumerations of the constraints in the order of first use. -/
def enums (s : Script) : OrderedSet EnumSort := .ofList (Term.enumsOfList s.constraints)

/-- The variables of the constraints in the order of first use, each name with the sort of its first
use. -/
def vars (s : Script) : OrderedMap String TermSort :=
  (Term.varsOfList s.constraints).foldl (fun m v => m.insertNew v.name v.sort) .empty

/-- The declaration of an enumeration. -/
def declareEnum (e : EnumSort) : Sexp :=
  .list [.atom "declare-datatype", .atom (Symbol.quote e.name),
    .list (e.variants.map fun v => .list [.atom (Symbol.quote v)])]

/-- The written name of a sort. -/
def sortSexp : TermSort → Sexp
  | .enum e => .atom (Symbol.quote e.name)
  | s => .atom s.text

/-- The declaration of a variable. -/
def declareVariable (name : String) (sort : TermSort) : Sexp :=
  .list [.atom "declare-const", .atom (Symbol.quote name), sortSexp sort]

/-- The commands of a script. -/
def commands (s : Script) : List Sexp :=
  s.enums.toList.map declareEnum ++
    s.vars.entries.map (fun (name, sort) => declareVariable name sort) ++
    s.constraints.map (fun t => .list [.atom "assert", t.sexp]) ++
    [.list [.atom "check-sat"]]

/-- The text of a script, one command a line. -/
def render (s : Script) : String :=
  String.join (s.commands.map fun c => c.text ++ "\n")

/-- The text of a script that carries no texts. -/
def assemble (s : Script) : Except CarriedTexts String :=
  if s.carried.isEmpty then .ok s.render else .error ⟨s.carried⟩

end Script

end HybridStep
