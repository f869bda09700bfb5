import HybridStep.Number.Word

/-! # Models of hybrid systems

A model holds resources, ports, entities with their states, updates and influences. Every component
is known by its number among its kind, so two ports with one name on two entities are different. -/

namespace HybridStep

/-! ### Identifiers -/

/-- The number of a resource. -/
structure ResourceId where
  index : Nat
  deriving DecidableEq, Inhabited

/-- The number of a port. -/
structure PortId where
  index : Nat
  deriving DecidableEq, Inhabited

/-- The number of an entity. -/
structure EntityId where
  index : Nat
  deriving DecidableEq, Inhabited

/-- The number of a state. -/
structure StateId where
  index : Nat
  deriving DecidableEq, Inhabited

/-- The number of an update. -/
structure UpdateId where
  index : Nat
  deriving DecidableEq, Inhabited

/-- The number of an influence. -/
structure InfluenceId where
  index : Nat
  deriving DecidableEq, Inhabited

/-- The written form of a resource number. -/
def ResourceId.text (r : ResourceId) : String := "r" ++ toString r.index

/-- The written form of a port number. -/
def PortId.text (p : PortId) : String := "p" ++ toString p.index

/-- The written form of an entity number. -/
def EntityId.text (e : EntityId) : String := "e" ++ toString e.index

/-- The written form of a state number. -/
def StateId.text (s : StateId) : String := "s" ++ toString s.index

/-- The written form of an update number. -/
def UpdateId.text (u : UpdateId) : String := "u" ++ toString u.index

/-- The written form of an influence number. -/
def InfluenceId.text (i : InfluenceId) : String := "i" ++ toString i.index

/-! ### Values -/

/-- The value of a port. -/
inductive Value where
  | int (n : Word)
  | real (q : Rat)
  | bool (b : Bool)
  | tag (t : String)
  deriving DecidableEq, Inhabited

/-- The values that a resource takes. -/
inductive Domain where
  | integer
  | real
  | boolean
  | enumeration (tags : List String)
  deriving DecidableEq, Inhabited

/-- The text of a value: a whole real with one decimal, any other real as a quotient. -/
def Value.text : Value → String
  | int n => n.text
  | real q => if q.den = 1 then toString q.num ++ ".0" else toString q.num ++ "/" ++ toString q.den
  | bool b => if b then "true" else "false"
  | tag t => "\"" ++ t ++ "\""

namespace Domain

/-- The text of a domain. -/
def text : Domain → String
  | integer => "integer"
  | real => "real"
  | boolean => "boolean"
  | enumeration tags => "\x7b" ++ ", ".intercalate tags ++ "\x7d"

/-- The value as one of the domain, if it is one. An integer is also a real. -/
def admit? : Domain → Value → Option Value
  | integer, .int n => some (.int n)
  | real, .int n => some (.real n.val)
  | real, .real q => some (.real q)
  | boolean, .bool b => some (.bool b)
  | enumeration tags, .tag t => if tags.contains t then some (.tag t) else none
  | _, _ => none

end Domain

/-! ### Components -/

/-- On which side of its entity a port is. -/
inductive PortKind where
  | input | output | internal
  deriving DecidableEq, Inhabited

/-- The name of a port kind. -/
def PortKind.text : PortKind → String
  | input => "input"
  | output => "output"
  | internal => "local"

/-- A kind of quantity, with the values it takes. -/
structure Resource where
  name : String
  unit : Option String
  domain : Domain
  deriving Inhabited

/-- A port with its value before the step. -/
structure Port where
  name : String
  kind : PortKind
  resource : ResourceId
  value : Value
  entity : EntityId
  deriving Inhabited

/-- A discrete state of an entity. -/
structure State where
  name : String
  entity : EntityId
  deriving Inhabited

/-- A rule that is active in one state and writes its target port through a body. -/
structure Update where
  name : String
  entity : EntityId
  state : StateId
  target : PortId
  function : String
  deriving Inhabited

/-- A rule that copies its source port to its target port. -/
structure Influence where
  name : String
  entity : EntityId
  source : PortId
  target : PortId
  deriving Inhabited

/-- An entity with what it owns, each list in the order of declaration. -/
structure Entity where
  name : String
  parent : Option EntityId
  ports : List PortId := []
  states : List StateId := []
  current : Option StateId := none
  updates : List UpdateId := []
  influences : List InfluenceId := []
  subentities : List EntityId := []
  deriving Inhabited

/-- What changes ports in a step: an update, an influence, or everything inside a subentity. -/
inductive Modifier where
  | update (u : UpdateId)
  | influence (i : InfluenceId)
  | subentity (e : EntityId)
  deriving DecidableEq, Inhabited

/-- The written form of a modifier's number. -/
def Modifier.text : Modifier → String
  | update u => u.text
  | influence i => i.text
  | subentity e => e.text

/-- All components of a model, each at its number. -/
structure Model where
  resources : List Resource := []
  ports : List Port := []
  entities : List Entity := []
  states : List State := []
  updates : List Update := []
  influences : List Influence := []
  deriving Inhabited

end HybridStep
