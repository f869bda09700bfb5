import HybridStep.Number.Binary64

/-! # JSON values

Numbers are integers of at most 64 bits or binary floating-point numbers. The members of an object
stand in the order in which they are written. -/

namespace HybridStep

/-- A number: an integer from `-2 ^ 63` to `2 ^ 64 - 1`, or a floating-point number. -/
inductive JsonNumber where
  | int (n : Int)
  | float (x : Binary64)
  deriving DecidableEq, Inhabited

/-- A JSON value. -/
inductive Json where
  | null
  | bool (b : Bool)
  | number (n : JsonNumber)
  | string (s : String)
  | array (elements : List Json)
  | object (members : List (String × Json))
  deriving Inhabited, BEq

namespace Json

/-- Adds a member to members with ascending keys. A member of that key is replaced. -/
def insertMember (key : String) (value : Json) : List (String × Json) → List (String × Json)
  | [] => [(key, value)]
  | (k, v) :: rest =>
    if key = k then (key, value) :: rest
    else if key < k then (key, value) :: (k, v) :: rest
    else (k, v) :: insertMember key value rest

end Json

end HybridStep
