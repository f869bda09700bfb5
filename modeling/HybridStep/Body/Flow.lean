import HybridStep.Body.Node

/-! # The flow of a body

The paths that execution takes through a body, as a tree: blocks are opened, whatever follows an
`if` stands in both of its arms, and a path ends at its first return or at the end of the body. -/

namespace HybridStep

/-- The paths through a body.

* `done`: the end of the body;
* `step`: a statement that is neither a block nor an `if` nor a return, and what follows it;
* `ret`: a return;
* `fork`: an `if` with its test. `whole` tells whether its other arm was written; where it was not,
  that arm holds only what follows the `if`. -/
inductive Flow where
  | done
  | step (statement : Node) (rest : Flow)
  | ret (value : Option Node)
  | fork (test : Node) (whole : Bool) (yes no : Flow)
  deriving Inhabited

namespace Flow

mutual

/-- Puts a statement in front of a flow. -/
def prepend (rest : Flow) : Node → Flow
  | .ret value => ret value
  | .branch test body orelse =>
    fork test orelse.isSome (prependList rest body) (prependElse rest orelse)
  | .block body => prependList rest body
  | .literal v => step (.literal v) rest
  | .name n => step (.name n) rest
  | .access segments => step (.access segments) rest
  | .assign targets value => step (.assign targets value) rest
  | .augment target op value => step (.augment target op value) rest
  | .unary op operand => step (.unary op operand) rest
  | .binary op left right => step (.binary op left right) rest
  | .logical op values => step (.logical op values) rest
  | .compare left ops others => step (.compare left ops others) rest
  | .choice test body orelse => step (.choice test body orelse) rest
  | .unsupported text => step (.unsupported text) rest

/-- Puts several statements in front of a flow. -/
def prependList (rest : Flow) : List Node → Flow
  | [] => rest
  | n :: ns => prepend (prependList rest ns) n

/-- Puts an arm in front of a flow, if it is there. -/
def prependElse (rest : Flow) : Option (List Node) → Flow
  | none => rest
  | some body => prependList rest body

end

/-- The flow of a body. -/
def ofBody (body : List Node) : Flow := prependList done body

/-- The statements of a flow up to its first fork or its end. -/
def straight : Flow → List Node
  | step statement rest => statement :: rest.straight
  | _ => []

end Flow

end HybridStep
