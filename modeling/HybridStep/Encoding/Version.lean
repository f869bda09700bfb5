import HybridStep.Body.Footprint
import HybridStep.Body.WritePlan

/-! # Versions of names

Every write to a name makes a new version of it, numbered by the writes before it on its path, and
every read sees the version of the last write before it. The count of writes at a statement is the
count that its sequence started with and the number of earlier statements of the sequence that write
the name. -/

namespace HybridStep

/-- A name with versions: a port, or a local of the body. -/
inductive VarKey where
  | port (p : PortId)
  | local (name : String)
  deriving DecidableEq, Inhabited

/-- What a name or a chain of names stands for. An unresolved path names no port of the entity. -/
inductive Reference where
  | port (p : PortId)
  | local (name : String)
  | unresolved (path : String)
  deriving DecidableEq, Inhabited

/-- The key of a reference. An unresolved path is a local. -/
def Reference.key : Reference → VarKey
  | .port p => .port p
  | .local name => .local name
  | .unresolved path => .local path

/-- What a node stands for, in an entity with the given receiver. -/
def resolve? (m : Model) (e : EntityId) (receiver : Option String) : Node → Option Reference
  | .name name => some (.local name)
  | .access segments =>
    (portPath? receiver segments).map fun path =>
      match m.resolvePortPath e path with
      | some p => .port p
      | none => .unresolved path
  | _ => none

/-! ### Counting writes -/

/-- The number of writes to each name on a path, without entries for zero. -/
abbrev Versions := OrderedMap VarKey Nat

/-- The version that a read sees.

* `entry`: the value of a port on entry to the body;
* `current`: the unversioned name of a local;
* `index`: the version of the last write. -/
inductive ReadVersion where
  | entry
  | current
  | index (k : Nat)
  deriving DecidableEq

/-- A position in a sequence of statements, with the counts that the sequence started with. -/
structure Scope where
  plan : WritePlan VarKey
  position : Nat
  base : Versions

namespace Scope

/-- The number of writes to a name before the position. -/
def previous (s : Scope) (key : VarKey) : Nat :=
  (s.base.get? key).getD 0 + s.plan.previous key s.position

/-- The version that a read at the position sees. -/
def read (s : Scope) (key : VarKey) : ReadVersion :=
  match s.previous key, key with
  | 0, .port _ => .entry
  | 0, .local _ => .current
  | k + 1, _ => .index (k + 1)

/-- The version that a write at the position makes. -/
def write (s : Scope) (key : VarKey) : Nat := s.previous key + 1

/-- Adds the writes to a name before the position to its count. -/
def countIn (s : Scope) (versions : Versions) (key : VarKey) : Versions :=
  let count := s.plan.previous key s.position
  if count = 0 then versions
  else versions.insert key ((versions.get? key).getD 0 + count)

/-- The number of writes to each name before the position. -/
def versions (s : Scope) : Versions := s.plan.keys.foldl s.countIn s.base

end Scope

end HybridStep
