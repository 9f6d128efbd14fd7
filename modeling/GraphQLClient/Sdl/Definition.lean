import GraphQLClient.Literal
import GraphQLClient.TypeExpr

/-!
# Definitions of schema documents

What a schema document defines: types, directives and the root types of the schema, and extensions
of types and of the schema.

## Main definitions

* `Sdl.TypeDefinition`, `Sdl.DirectiveDefinition`, `Sdl.SchemaDefinition` : the definitions.
* `Sdl.Definition` : a definition or an extension.
-/

namespace GraphQLClient

/-- The operations of a schema. -/
inductive RootKind where
  | query
  | mutation
  | subscription
  deriving DecidableEq, Repr

namespace Sdl

/-- A directive where it is applied. -/
structure Directive where
  name : String
  args : List (String × Literal)

/-- An argument, or a field of an input object. -/
structure InputValue where
  description : Option String
  name : String
  type : TypeExpr
  default : Option Literal
  directives : List Directive

/-- A field of an object or an interface. -/
structure FieldDefinition where
  description : Option String
  name : String
  args : List InputValue
  type : TypeExpr
  directives : List Directive

/-- A member of an enumeration. -/
structure EnumMember where
  description : Option String
  name : String
  directives : List Directive

/-- What a type consists of, by kind. -/
inductive TypeBody where
  | scalar
  | object (interfaces : List String) (fields : List FieldDefinition)
  | interface (interfaces : List String) (fields : List FieldDefinition)
  | union (members : List String)
  | enum (members : List EnumMember)
  | input (fields : List InputValue)

/-- The definition of a type, or an extension of one. -/
structure TypeDefinition where
  description : Option String
  name : String
  directives : List Directive
  body : TypeBody

/-- The definition of a directive. -/
structure DirectiveDefinition where
  description : Option String
  name : String
  args : List InputValue
  repeatable : Bool
  locations : List String

/-- The definition of the root types, or an extension of it. -/
structure SchemaDefinition where
  description : Option String
  directives : List Directive
  roots : List (RootKind × String)

/-- A definition of a schema document. -/
inductive Definition where
  | schema (d : SchemaDefinition)
  | schemaExtension (d : SchemaDefinition)
  | type (d : TypeDefinition)
  | typeExtension (d : TypeDefinition)
  | directive (d : DirectiveDefinition)

/-- Where directives may be applied. -/
def locations : List String :=
  ["QUERY", "MUTATION", "SUBSCRIPTION", "FIELD", "FRAGMENT_DEFINITION", "FRAGMENT_SPREAD",
    "INLINE_FRAGMENT", "VARIABLE_DEFINITION", "SCHEMA", "SCALAR", "OBJECT", "FIELD_DEFINITION",
    "ARGUMENT_DEFINITION", "INTERFACE", "UNION", "ENUM", "ENUM_VALUE", "INPUT_OBJECT",
    "INPUT_FIELD_DEFINITION"]

end Sdl

end GraphQLClient
