import HybridStep.Body.Function
import HybridStep.Model.Query
import HybridStep.Ordered.Set

/-! # What a body reads and writes

A chain of names reaches a port if it starts with the receiver, ends with `value`, and has at least
one name in between. Reads are listed in the order in which they stand; a branch writes whatever
either of its arms writes. -/

namespace HybridStep

/-- The path of the port that a chain of names reaches. -/
def portPath? (receiver : Option String) : List String → Option String
  | [] => none
  | base :: rest =>
    if some base = receiver ∧ rest.getLast? = some "value" ∧ rest.dropLast ≠ [] then
      some (Path.text rest.dropLast)
    else none

namespace Node

/-! ### Reads -/

mutual

/-- The chains of names that a node reads. The target of a plain assignment is not read. -/
def reads : Node → List (List String)
  | literal _ => []
  | name _ => []
  | unsupported _ => []
  | access segments => [segments]
  | assign _ value => value.reads
  | augment target _ value => target.reads ++ value.reads
  | unary _ operand => operand.reads
  | binary _ left right => left.reads ++ right.reads
  | logical _ values => readsOfList values
  | compare left _ others => left.reads ++ readsOfList others
  | choice test body orelse => test.reads ++ body.reads ++ orelse.reads
  | branch test body orelse => test.reads ++ readsOfList body ++ readsOfElse orelse
  | ret value => readsOfValue value
  | block body => readsOfList body

/-- The chains of names that several nodes read. -/
def readsOfList : List Node → List (List String)
  | [] => []
  | n :: ns => n.reads ++ readsOfList ns

/-- The chains of names that an arm reads, if it is there. -/
def readsOfElse : Option (List Node) → List (List String)
  | none => []
  | some body => readsOfList body

/-- The chains of names that a value reads, if it is there. -/
def readsOfValue : Option Node → List (List String)
  | none => []
  | some value => value.reads

end

/-! ### Writes -/

section

variable {κ : Type} (key : Node → Option κ)

mutual

/-- The keys that a statement writes, with repetitions. -/
def writes : Node → List κ
  | assign targets _ => targets.filterMap key
  | augment target _ _ => (key target).toList
  | branch _ body orelse => writesOfList body ++ writesOfElse orelse
  | block body => writesOfList body
  | literal _ => []
  | name _ => []
  | access _ => []
  | unary _ _ => []
  | binary _ _ _ => []
  | logical _ _ => []
  | compare _ _ _ => []
  | choice _ _ _ => []
  | ret _ => []
  | unsupported _ => []

/-- The keys that several statements write, with repetitions. -/
def writesOfList : List Node → List κ
  | [] => []
  | n :: ns => n.writes ++ writesOfList ns

/-- The keys that an arm writes, if it is there. -/
def writesOfElse : Option (List Node) → List κ
  | none => []
  | some body => writesOfList body

end

/-- The keys that a statement writes, in the order of their first write. -/
def writtenKeys [DecidableEq κ] (n : Node) : OrderedSet κ := .ofList (n.writes key)

end

/-! ### Returns -/

mutual

/-- Whether a statement is a return or has one in an arm or a block. -/
def hasReturn : Node → Bool
  | ret _ => true
  | branch _ body orelse => hasReturnInList body || hasReturnInElse orelse
  | block body => hasReturnInList body
  | literal _ => false
  | name _ => false
  | access _ => false
  | assign _ _ => false
  | augment _ _ _ => false
  | unary _ _ => false
  | binary _ _ _ => false
  | logical _ _ => false
  | compare _ _ _ => false
  | choice _ _ _ => false
  | unsupported _ => false

/-- Whether one of several statements has a return. -/
def hasReturnInList : List Node → Bool
  | [] => false
  | n :: ns => n.hasReturn || hasReturnInList ns

/-- Whether an arm has a return, if it is there. -/
def hasReturnInElse : Option (List Node) → Bool
  | none => false
  | some body => hasReturnInList body

end

end Node

/-- The ports that a body reads, found from an entity. Paths that name no port are left out. -/
def accessedPorts (m : Model) (e : EntityId) (f : UpdateFunction) : OrderedSet PortId :=
  .ofList <| ((Node.readsOfList f.body).filterMap (portPath? f.receiver)).filterMap
    (m.resolvePortPath e)

end HybridStep
