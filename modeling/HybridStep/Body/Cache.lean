import HybridStep.Body.Function
import HybridStep.Text.Digest

/-! # Bodies that have been read

A cache of read bodies under the digests of their texts, so that the same text is read once. A text
that cannot be read is not kept. -/

namespace HybridStep

/-- Read bodies, and how often a body was found and not found. -/
structure BodyCache where
  functions : OrderedMap String UpdateFunction := .empty
  hits : Nat := 0
  misses : Nat := 0
  deriving Inhabited

namespace BodyCache

/-- The key of a text. -/
def key (source : String) : String := Sha256.digest source

/-- The number of read bodies. -/
def size (c : BodyCache) : Nat := c.functions.size

/-- Forgets all bodies, and keeps the counts. -/
def clear (c : BodyCache) : BodyCache := { c with functions := .empty }

/-- The body of a text, read unless the cache has it. -/
def read (c : BodyCache) (source : String) : Except BodyError UpdateFunction × BodyCache :=
  match c.functions.get? (key source) with
  | some f => (.ok f, { c with hits := c.hits + 1 })
  | none =>
    match UpdateFunction.read source with
    | .ok f =>
      (.ok f,
        { c with functions := c.functions.insert (key source) f, misses := c.misses + 1 })
    | .error e => (.error e, { c with misses := c.misses + 1 })

end BodyCache

end HybridStep
