/-! # Command line arguments

A command is an action, its inputs and its options in any order. An option with a value is written
`--name value` or `--name=value`; a value that begins with a minus sign needs the second form. After
`--` everything is an input. -/

namespace HybridStep

/-- The form of the output. -/
inductive OutputFormat where
  | human | json | smtlib
  deriving DecidableEq, Inhabited

/-- The format of a name. -/
def OutputFormat.ofText? (name : String) : Option OutputFormat :=
  if name = "human" then some human
  else if name = "json" then some json
  else if name = "smtlib" then some smtlib
  else none

/-- What both actions are told: the inputs, the entity if it is not the outermost
one, the format. -/
structure Selection where
  inputs : List String
  entity : Option String
  format : OutputFormat

/-- What the program is asked to do.

* `order`: list the modifiers in order;
* `translate`: encode a step, and show the modifiers that match `only`, with `dt` as time step. -/
inductive Request where
  | order (selection : Selection)
  | translate (selection : Selection) (only dt : Option String) (allowMissingElse : Bool)

namespace Arguments

/-- The names of the options of an action, with and without a value. -/
structure Names where
  valued : List String
  flags : List String

/-- Arguments that are taken apart. -/
structure Parts where
  inputs : List String := []
  values : List (String × String) := []
  flags : List String := []

namespace Parts

/-- Adds an input in front. -/
def consInput (p : Parts) (input : String) : Parts := { p with inputs := input :: p.inputs }

/-- Adds an option in front. -/
def consValue (p : Parts) (name value : String) : Parts :=
  { p with values := (name, value) :: p.values }

/-- Adds a flag in front. -/
def consFlag (p : Parts) (name : String) : Parts := { p with flags := name :: p.flags }

/-- Whether no option comes twice, and there are inputs, none of them empty. -/
def isValid (p : Parts) : Bool :=
  decide (p.values.map Prod.fst).Nodup && decide p.flags.Nodup && !p.inputs.isEmpty &&
    !p.inputs.contains ""

end Parts

/-- An argument by what it looks like.

* `rest`: the mark after which everything is an input;
* `long`: an option, with the value that is attached to it;
* `short`: a letter, which no action takes. -/
inductive Shape where
  | rest
  | long (name : String) (attached : Option String)
  | short
  | plain

/-- Cuts at the first equals sign. -/
def cutAttached (cs : List Char) : String × Option String :=
  let name := String.ofList (cs.takeWhile (· ≠ '='))
  match cs.dropWhile (· ≠ '=') with
  | [] => (name, none)
  | _ :: value => (name, some (String.ofList value))

/-- What an argument looks like. -/
def shape (arg : String) : Shape :=
  match arg.toList with
  | ['-', '-'] => .rest
  | ['-'] => .plain
  | '-' :: '-' :: cs =>
    let (name, attached) := cutAttached cs
    .long name attached
  | '-' :: _ => .short
  | _ => .plain

/-- Takes arguments apart, if all of them are known. -/
def parts? (names : Names) : List String → Option Parts
  | [] => some {}
  | [arg] =>
    match shape arg with
    | .rest => some {}
    | .short => none
    | .plain => some (Parts.consInput {} arg)
    | .long name (some value) =>
      if names.valued.contains name then some (Parts.consValue {} name value) else none
    | .long name none =>
      if names.flags.contains name then some (Parts.consFlag {} name) else none
  | arg :: next :: args =>
    match shape arg with
    | .rest => some { inputs := next :: args }
    | .short => none
    | .plain => (parts? names (next :: args)).map (·.consInput arg)
    | .long name (some value) =>
      if names.valued.contains name then
        (parts? names (next :: args)).map (·.consValue name value)
      else none
    | .long name none =>
      if names.flags.contains name then (parts? names (next :: args)).map (·.consFlag name)
      else if names.valued.contains name then
        match shape next with
        | .plain => (parts? names args).map (·.consValue name next)
        | _ => none
      else none

/-- The selection of arguments. -/
def selection? (p : Parts) : Option Selection :=
  match p.values.lookup "format" with
  | none => some ⟨p.inputs, p.values.lookup "entity", .human⟩
  | some name => (OutputFormat.ofText? name).map fun f => ⟨p.inputs, p.values.lookup "entity", f⟩

/-- The options of ordering. -/
def orderNames : Names := ⟨["entity", "format"], []⟩

/-- The options of encoding. -/
def translateNames : Names := ⟨["entity", "only", "dt", "format"], ["allow-missing-else"]⟩

/-- The request that arguments make, if they are in order. -/
def request? : List String → Option Request
  | "order" :: args => do
    let p ← parts? orderNames args
    if p.isValid then return .order (← selection? p) else none
  | "translate" :: args => do
    let p ← parts? translateNames args
    if p.isValid then
      return .translate (← selection? p) (p.values.lookup "only") (p.values.lookup "dt")
        (p.flags.contains "allow-missing-else")
    else none
  | _ => none

end Arguments

end HybridStep
