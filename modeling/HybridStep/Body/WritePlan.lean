import HybridStep.Ordered.Map
import HybridStep.Ordered.Set

/-! # Write plans

For a list of statements, which statements write each key. A plan keeps the ascending positions of
the writers of each key, with the keys in the order of their first write. -/

namespace HybridStep

/-- The writers of each key among a number of statements. -/
structure WritePlan (κ : Type) where
  table : OrderedMap κ (List Nat)
  length : Nat

namespace WritePlan

variable {κ : Type} [DecidableEq κ]

/-- Notes the statement at a position as a writer of a key. -/
def addWriter (position : Nat) (table : OrderedMap κ (List Nat)) (key : κ) :
    OrderedMap κ (List Nat) :=
  table.insert key ((table.get? key).getD [] ++ [position])

/-- The writers of statements with the given write sets, the first one at a position. -/
def tableFrom (position : Nat) (table : OrderedMap κ (List Nat)) :
    List (OrderedSet κ) → OrderedMap κ (List Nat)
  | [] => table
  | written :: rest =>
    tableFrom (position + 1) (written.toList.foldl (addWriter position) table) rest

/-- The plan of statements with the given write sets. -/
def ofWrites (sets : List (OrderedSet κ)) : WritePlan κ := ⟨tableFrom 0 .empty sets, sets.length⟩

/-- The keys that are written at all. -/
def keys (plan : WritePlan κ) : List κ := plan.table.keys

/-- The positions of the statements that write a key. -/
def writers (plan : WritePlan κ) (key : κ) : List Nat := (plan.table.get? key).getD []

/-- Whether a key is written at all. -/
def isWritten (plan : WritePlan κ) (key : κ) : Bool := plan.table.contains key

/-- The number of statements before a position that write a key. -/
def previous (plan : WritePlan κ) (key : κ) (position : Nat) : Nat :=
  ((plan.writers key).takeWhile (· < position)).length

end WritePlan

end HybridStep
