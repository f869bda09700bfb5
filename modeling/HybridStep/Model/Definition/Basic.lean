import HybridStep.Json.Writer
import HybridStep.Model.Basic

/-! # Descriptions of models

A model is described by its resources and its outermost entity, with components referred to by name.
A description is written as compact JSON: fields in a fixed order, without the unit or the current
state where there is none. -/

namespace HybridStep

/-- The domain of a described resource: a name, or the tags of an enumeration. -/
inductive DomainDefinition where
  | named (name : String)
  | enumeration (tags : List String)
  deriving DecidableEq, Inhabited

/-- A described resource. -/
structure ResourceDefinition where
  name : String
  unit : Option String
  domain : DomainDefinition
  deriving DecidableEq, Inhabited

/-- A described port. Its value may be any JSON. -/
structure PortDefinition where
  name : String
  kind : PortKind
  resource : String
  value : Json
  deriving Inhabited

/-- A described update. -/
structure UpdateDefinition where
  name : String
  state : String
  target : String
  function : String
  deriving DecidableEq, Inhabited

/-- A described influence, between paths from its entity. -/
structure InfluenceDefinition where
  name : String
  source : String
  target : String
  deriving DecidableEq, Inhabited

/-- A described entity. -/
inductive EntityDefinition where
  | mk (name : String) (ports : List PortDefinition) (states : List String)
    (current : Option String) (updates : List UpdateDefinition)
    (influences : List InfluenceDefinition) (subentities : List EntityDefinition)
  deriving Inhabited

/-- A described model. -/
structure ModelDefinition where
  resources : List ResourceDefinition
  entity : EntityDefinition
  deriving Inhabited

/-! ### Writing -/

/-- Texts as JSON. -/
def Json.strings (texts : List String) : Json := .array (texts.map Json.string)

/-- A member that is left out if there is no text for it. -/
def Json.memberIfSome (key : String) : Option String → List (String × Json)
  | some text => [(key, .string text)]
  | none => []

namespace DomainDefinition

/-- A domain as JSON. -/
def toJson : DomainDefinition → Json
  | named name => .string name
  | enumeration tags => .strings tags

end DomainDefinition

namespace ResourceDefinition

/-- A resource as JSON. -/
def toJson (r : ResourceDefinition) : Json :=
  .object ([("name", .string r.name)] ++ Json.memberIfSome "unit" r.unit ++
    [("domain", r.domain.toJson)])

end ResourceDefinition

namespace PortDefinition

/-- A port as JSON. -/
def toJson (p : PortDefinition) : Json :=
  .object [("name", .string p.name), ("kind", .string p.kind.text),
    ("resource", .string p.resource), ("value", p.value)]

end PortDefinition

namespace UpdateDefinition

/-- An update as JSON. -/
def toJson (u : UpdateDefinition) : Json :=
  .object [("name", .string u.name), ("state", .string u.state), ("target", .string u.target),
    ("function", .string u.function)]

end UpdateDefinition

namespace InfluenceDefinition

/-- An influence as JSON. -/
def toJson (i : InfluenceDefinition) : Json :=
  .object [("name", .string i.name), ("source", .string i.source), ("target", .string i.target)]

end InfluenceDefinition

namespace EntityDefinition

mutual

/-- An entity as JSON. -/
def toJson : EntityDefinition → Json
  | mk name ports states current updates influences subentities =>
    .object ([("name", .string name), ("ports", .array (ports.map PortDefinition.toJson)),
      ("states", .strings states)] ++ Json.memberIfSome "current" current ++
      [("updates", .array (updates.map UpdateDefinition.toJson)),
        ("influences", .array (influences.map InfluenceDefinition.toJson)),
        ("subentities", .array (toJsons subentities))])

/-- Entities as JSON. -/
def toJsons : List EntityDefinition → List Json
  | [] => []
  | e :: es => e.toJson :: toJsons es

end

end EntityDefinition

namespace ModelDefinition

/-- A model as JSON. -/
def toJson (d : ModelDefinition) : Json :=
  .object [("resources", .array (d.resources.map ResourceDefinition.toJson)),
    ("entity", d.entity.toJson)]

/-- The text of a description. -/
def text (d : ModelDefinition) : String := d.toJson.compact

end ModelDefinition

end HybridStep
