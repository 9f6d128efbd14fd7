import GraphQLClient.Schema

/-!
# What every schema has

The scalars, the directives and the types of introspection that belong to every schema without
being defined in its document.

## Main definitions

* `Schema.builtinScalars`, `Schema.builtinDirectives`, `Schema.introspectionTypes`.
* `Schema.empty` : the schema of an empty document.
-/

namespace GraphQLClient.Schema

open Sdl

/-- The scalars of every schema. -/
def builtinScalars : List String := ["Int", "Float", "String", "Boolean", "ID"]

/-- A named type that may be null. -/
def optional (name : String) : TypeExpr := .named name false

/-- A named type without null. -/
def required (name : String) : TypeExpr := .named name true

/-- A list without null of items without null. -/
def requiredList (name : String) : TypeExpr := .list (.named name true) true

/-- A list that may be null of items without null. -/
def optionalList (name : String) : TypeExpr := .list (.named name true) false

/-- A field without arguments. -/
def plainField (name : String) (type : TypeExpr) : FieldDefinition :=
  ⟨none, name, [], type, []⟩

/-- A field that can leave out what is deprecated. -/
def filteredField (name : String) (type : TypeExpr) : FieldDefinition :=
  ⟨none, name, [⟨none, "includeDeprecated", optional "Boolean", some (.boolean false), []⟩], type,
    []⟩

/-- An object without interfaces. -/
def plainObject (name : String) (fields : List FieldDefinition) : TypeDefinition :=
  ⟨none, name, [], .object [] fields⟩

/-- An enumeration. -/
def plainEnum (name : String) (members : List String) : TypeDefinition :=
  ⟨none, name, [], .enum (members.map fun m => ⟨none, m, []⟩)⟩

/-- The types of introspection. -/
def introspectionTypes : List TypeDefinition :=
  [plainObject "__Schema" [
      plainField "description" (optional "String"),
      plainField "types" (requiredList "__Type"),
      plainField "queryType" (required "__Type"),
      plainField "mutationType" (optional "__Type"),
      plainField "subscriptionType" (optional "__Type"),
      plainField "directives" (requiredList "__Directive")],
    plainObject "__Type" [
      plainField "kind" (required "__TypeKind"),
      plainField "name" (optional "String"),
      plainField "description" (optional "String"),
      filteredField "fields" (optionalList "__Field"),
      plainField "interfaces" (optionalList "__Type"),
      plainField "possibleTypes" (optionalList "__Type"),
      filteredField "enumValues" (optionalList "__EnumValue"),
      filteredField "inputFields" (optionalList "__InputValue"),
      plainField "ofType" (optional "__Type"),
      plainField "specifiedByURL" (optional "String")],
    plainEnum "__TypeKind"
      ["SCALAR", "OBJECT", "INTERFACE", "UNION", "ENUM", "INPUT_OBJECT", "LIST", "NON_NULL"],
    plainObject "__Field" [
      plainField "name" (required "String"),
      plainField "description" (optional "String"),
      filteredField "args" (requiredList "__InputValue"),
      plainField "type" (required "__Type"),
      plainField "isDeprecated" (required "Boolean"),
      plainField "deprecationReason" (optional "String")],
    plainObject "__InputValue" [
      plainField "name" (required "String"),
      plainField "description" (optional "String"),
      plainField "type" (required "__Type"),
      plainField "defaultValue" (optional "String"),
      plainField "isDeprecated" (required "Boolean"),
      plainField "deprecationReason" (optional "String")],
    plainObject "__EnumValue" [
      plainField "name" (required "String"),
      plainField "description" (optional "String"),
      plainField "isDeprecated" (required "Boolean"),
      plainField "deprecationReason" (optional "String")],
    plainObject "__Directive" [
      plainField "name" (required "String"),
      plainField "description" (optional "String"),
      plainField "locations" (requiredList "__DirectiveLocation"),
      filteredField "args" (requiredList "__InputValue"),
      plainField "isRepeatable" (required "Boolean")],
    plainEnum "__DirectiveLocation" Sdl.locations]

/-- The directives of every schema. -/
def builtinDirectives : List DirectiveDefinition :=
  [⟨none, "skip", [⟨none, "if", required "Boolean", none, []⟩], false,
      ["FIELD", "FRAGMENT_SPREAD", "INLINE_FRAGMENT"]⟩,
    ⟨none, "include", [⟨none, "if", required "Boolean", none, []⟩], false,
      ["FIELD", "FRAGMENT_SPREAD", "INLINE_FRAGMENT"]⟩,
    ⟨none, "deprecated",
      [⟨none, "reason", optional "String", some (.string "No longer supported"), []⟩], false,
      ["FIELD_DEFINITION", "ARGUMENT_DEFINITION", "INPUT_FIELD_DEFINITION", "ENUM_VALUE"]⟩,
    ⟨none, "specifiedBy", [⟨none, "url", required "String", none, []⟩], false, ["SCALAR"]⟩]

/-- The schema of an empty document. -/
def empty : Schema where
  types := introspectionTypes.map (fun t => (t.name, t)) ++
    builtinScalars.map fun name => (name, ⟨none, name, [], .scalar⟩)
  directives := builtinDirectives.map fun d => (d.name, d)
  applied := []
  roots := []

/-- Whether a type belongs to every schema. -/
def isBuiltin (name : String) : Bool :=
  builtinScalars.contains name || introspectionTypes.any fun t => t.name == name

end GraphQLClient.Schema
