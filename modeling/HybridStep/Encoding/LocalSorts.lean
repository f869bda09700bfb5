import HybridStep.Body.Node
import HybridStep.Ordered.Map
import HybridStep.Smt.Sort

/-! # Sorts of locals

The sort of a local is the join of the sorts of the values assigned to it. Two passes over the body
let a local take its sort from one that is assigned later. A local that still has no sort takes the
one of the place into which it flows: the target of the body for a returned local, or a port to
which it is assigned. -/

namespace HybridStep

/-- What a name stands for in the inference of sorts: something of a known sort, a local, or
neither. -/
inductive Leaf where
  | sort (s : TermSort)
  | local (name : String)
  | unknown
  deriving DecidableEq, Inhabited

namespace LocalSorts

/-- The sorts found for locals, in the order in which they were found. -/
abbrev Table := OrderedMap String TermSort

/-! ### Sorts of expressions -/

/-- The join of two sorts, or the only one that is known. -/
def either : Option TermSort → Option TermSort → Option TermSort
  | some a, some b => a.join? b
  | some a, none => some a
  | none, b => b

/-- The sort of an operation. A quotient is an integer only if both of its operands are. -/
def ofBinary (op : BinaryOp) (left right : Option TermSort) : Option TermSort :=
  match op with
  | .div => if left = some .int ∧ right = some .int then some .int else some .real
  | .mod | .shl | .shr => some .int
  | _ => either left right

/-- The sort of a literal. A text has none by itself. -/
def ofLiteral : Literal → Option TermSort
  | .int _ => some .int
  | .real _ => some .real
  | .bool _ => some .bool
  | .text _ => none

/-- The sort of a name. -/
def ofLeaf (sorts : Table) : Leaf → Option TermSort
  | .sort s => some s
  | .local name => sorts.get? name
  | .unknown => none

/-- The sort of an expression, as far as it can be told without encoding it. -/
def infer (leaf : Node → Leaf) (sorts : Table) : Node → Option TermSort
  | .literal value => ofLiteral value
  | .name n => ofLeaf sorts (leaf (.name n))
  | .access segments => ofLeaf sorts (leaf (.access segments))
  | .unary op operand =>
    let sort := infer leaf sorts operand
    match op with
    | .neg => sort.filter TermSort.isNumeric
    | _ => sort
  | .binary op left right => ofBinary op (infer leaf sorts left) (infer leaf sorts right)
  | .logical _ _ => some .bool
  | .compare _ _ _ => some .bool
  | .choice _ body orelse => either (infer leaf sorts body) (infer leaf sorts orelse)
  | .assign _ _ => none
  | .augment _ _ _ => none
  | .branch _ _ _ => none
  | .ret _ => none
  | .block _ => none
  | .unsupported _ => none

/-! ### Sorts from assigned values -/

/-- Joins a sort to that of a local. Sorts that do not join leave the earlier one. -/
def record (sorts : Table) (name : String) : Option TermSort → Table
  | none => sorts
  | some sort =>
    match sorts.get? name with
    | none => sorts.insert name sort
    | some earlier =>
      match earlier.join? sort with
      | some joined => sorts.insert name joined
      | none => sorts

/-- Joins a sort to that of the local that a target is. -/
def recordTarget (leaf : Node → Leaf) (sort : Option TermSort) (sorts : Table) (target : Node) :
    Table :=
  match leaf target with
  | .local name => record sorts name sort
  | _ => sorts

mutual

/-- Joins the sorts of the values that a statement assigns. -/
def join (leaf : Node → Leaf) (sorts : Table) : Node → Table
  | .assign targets value => targets.foldl (recordTarget leaf (infer leaf sorts value)) sorts
  | .augment target op value =>
    match leaf target with
    | .local name =>
      record sorts name (ofBinary op (sorts.get? name) (infer leaf sorts value))
    | _ => sorts
  | .branch _ body orelse => joinElse leaf (joinList leaf sorts body) orelse
  | .block body => joinList leaf sorts body
  | .literal _ => sorts
  | .name _ => sorts
  | .access _ => sorts
  | .unary _ _ => sorts
  | .binary _ _ _ => sorts
  | .logical _ _ => sorts
  | .compare _ _ _ => sorts
  | .choice _ _ _ => sorts
  | .ret _ => sorts
  | .unsupported _ => sorts

/-- Joins the sorts of the values that several statements assign. -/
def joinList (leaf : Node → Leaf) (sorts : Table) : List Node → Table
  | [] => sorts
  | n :: ns => joinList leaf (join leaf sorts n) ns

/-- Joins the sorts of the values that an arm assigns, if it is there. -/
def joinElse (leaf : Node → Leaf) (sorts : Table) : Option (List Node) → Table
  | none => sorts
  | some body => joinList leaf sorts body

end

/-! ### Sorts from the place of use -/

/-- Gives the sort of a target to a local that has none. -/
def flowInto (leaf : Node → Leaf) (name : String) (sorts : Table) (target : Node) : Table :=
  match leaf target with
  | .sort sort => sorts.insertNew name sort
  | _ => sorts

/-- Gives the sort of the target of the body to a returned local that has none. -/
def flowOut (leaf : Node → Leaf) (target : Option TermSort) (sorts : Table) (value : Node) :
    Table :=
  match target, leaf value with
  | some sort, .local name => sorts.insertNew name sort
  | _, _ => sorts

mutual

/-- Gives locals without a sort the sort of the place into which a statement puts them. -/
def place (leaf : Node → Leaf) (target : Option TermSort) (sorts : Table) : Node → Table
  | .ret (some value) => flowOut leaf target sorts value
  | .ret none => sorts
  | .assign targets value =>
    match leaf value with
    | .local name => targets.foldl (flowInto leaf name) sorts
    | _ => sorts
  | .branch _ body orelse => placeElse leaf target (placeList leaf target sorts body) orelse
  | .block body => placeList leaf target sorts body
  | .literal _ => sorts
  | .name _ => sorts
  | .access _ => sorts
  | .augment _ _ _ => sorts
  | .unary _ _ => sorts
  | .binary _ _ _ => sorts
  | .logical _ _ => sorts
  | .compare _ _ _ => sorts
  | .choice _ _ _ => sorts
  | .unsupported _ => sorts

/-- Gives locals without a sort the sorts of the places into which several statements put them. -/
def placeList (leaf : Node → Leaf) (target : Option TermSort) (sorts : Table) : List Node → Table
  | [] => sorts
  | n :: ns => placeList leaf target (place leaf target sorts n) ns

/-- Gives locals without a sort the sorts of the places into which an arm puts them. -/
def placeElse (leaf : Node → Leaf) (target : Option TermSort) (sorts : Table) :
    Option (List Node) → Table
  | none => sorts
  | some body => placeList leaf target sorts body

end

/-- The sorts of the locals of a body. A local whose sort cannot be told is not in the table. -/
def ofBody (leaf : Node → Leaf) (target : Option TermSort) (body : List Node) : Table :=
  placeList leaf target (joinList leaf (joinList leaf .empty body) body) body

end LocalSorts

end HybridStep
