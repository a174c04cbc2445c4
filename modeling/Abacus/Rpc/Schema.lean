import Abacus.Json.Value

/-!
# Schemas — what the arguments of a tool look like

A schema lists the properties that an object of arguments may have and those that it must have.
-/

namespace Abacus.Rpc

open Json (Value)

/-- A kind of value. -/
inductive Kind where
  | number
  | text
  deriving DecidableEq

/-- The name of a kind. -/
def Kind.name : Kind → String
  | .number => "number"
  | .text => "string"

/-- What is said about one property. -/
structure Property where
  name : String
  kinds : List Kind
  description : String
  /-- The texts that the property may be; any if there are none. -/
  choices : List String

/-- What is said about the arguments. -/
structure Schema where
  properties : List Property
  required : List String

/-- Texts, as they are sent. -/
def textsToJson (texts : List String) : Value :=
  .array (texts.map Value.text)

namespace Property

/-- The kinds, as they are sent: one by its name alone. -/
def kindsToJson (property : Property) : Value :=
  match property.kinds with
  | [kind] => .text kind.name
  | kinds => textsToJson (kinds.map Kind.name)

/-- A property, as it is sent. -/
def toJson (property : Property) : Value :=
  .object ([("type", property.kindsToJson), ("description", .text property.description)] ++
    if property.choices.isEmpty then [] else [("enum", textsToJson property.choices)])

end Property

/-- A schema, as it is sent. -/
def Schema.toJson (schema : Schema) : Value :=
  .object [("type", .text "object"),
    ("properties", .object (schema.properties.map fun p => (p.name, p.toJson))),
    ("required", textsToJson schema.required)]

end Abacus.Rpc
