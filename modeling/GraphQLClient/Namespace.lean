import GraphQLClient.Field

/-!
# Namespaces of types

The fields of a composite type can be requested by their accessor names and by their names in the
schema.  When two fields ask for one accessor name, the first of them in the schema has it, and the
other one goes by its own name.

## Main definitions

* `LookupError` : why a name does not lead to a type or a field.
* `Namespace` : the fields of a type, with `Namespace.field?`.
* `Catalog.namespace?`, `Catalog.field?` : the fields of a type by its name, and one of them.
-/

namespace GraphQLClient

/-- The operations that can be built. -/
inductive OperationKind where
  | query
  | mutation
  deriving DecidableEq, Repr

/-- The word that starts an operation. -/
def OperationKind.word : OperationKind → String
  | .query => "query"
  | .mutation => "mutation"

/-- The root of an operation in the schema. -/
def OperationKind.root : OperationKind → RootKind
  | .query => .query
  | .mutation => .mutation

/-- Why a name does not lead to a type, a field or a root. -/
inductive LookupError where
  | unknownType (typeName : String)
  | notComposite (typeName : String)
  | unknownField (typeName field : String)
  | missingRoot (kind : OperationKind)
  deriving DecidableEq, Repr

/-- The text of a failed look-up. -/
def LookupError.message : LookupError → String
  | .unknownType typeName => "Type " ++ typeName ++ " doesn't exist in the schema"
  | .notComposite typeName => "Type " ++ typeName ++ " has no fields to select"
  | .unknownField typeName field => "Field " ++ field ++ " doesn't exist in type " ++ typeName
  | .missingRoot kind => "Schema has no " ++ kind.word ++ " root type"

/-- The fields of a composite type. -/
structure Namespace where
  typeName : String
  /-- The fields by their names in the schema, in its order. -/
  fields : Entries Field
  /-- The names in the schema by accessor name. -/
  accessors : Entries String

namespace Namespace

/-- The namespace of a type without fields. -/
def empty (typeName : String) : Namespace := ⟨typeName, [], []⟩

/-- Adds a field.  It goes by the accessor name it asks for unless another field has that. -/
def add (c : Catalog) (n : Namespace) (definition : Sdl.FieldDefinition) : Namespace :=
  let wanted := c.accessorOf n.typeName definition.name
  let accessor := if n.accessors.contains wanted then definition.name else wanted
  let head : FieldHead := ⟨n.typeName, definition, none, accessor, []⟩
  let field :=
    if c.schema.isComposite definition.type.base then Field.composite head [] else .leaf head
  { n with
    fields := n.fields ++ [(definition.name, field)]
    accessors :=
      if n.accessors.contains accessor then n.accessors
      else n.accessors ++ [(accessor, definition.name)] }

/-- The namespace of a type with given fields. -/
def ofFields (c : Catalog) (typeName : String) (definitions : List Sdl.FieldDefinition) :
    Namespace :=
  definitions.foldl (add c) (empty typeName)

/-- The field that a name leads to: as an accessor name, as a name of the schema, or converted
into one. -/
def find? (n : Namespace) (name : String) : Option Field :=
  ((n.accessors.get? name).bind n.fields.get?).or
    ((n.fields.get? name).or (n.fields.get? (Name.toWire name)))

/-- The field that a name leads to, or the reason why there is none. -/
def field? (n : Namespace) (name : String) : Except LookupError Field :=
  match n.find? name with
  | some f => .ok f
  | none => .error (.unknownField n.typeName name)

end Namespace

namespace Catalog

/-- The namespace of a type. -/
def namespace? (c : Catalog) (typeName : String) : Except LookupError Namespace :=
  match c.schema.type? typeName with
  | none => .error (.unknownType typeName)
  | some _ =>
    match c.schema.fieldsOf? typeName with
    | none => .error (.notComposite typeName)
    | some definitions => .ok (.ofFields c typeName definitions)

/-- A field of a type. -/
def field? (c : Catalog) (typeName name : String) : Except LookupError Field :=
  (c.namespace? typeName).bind fun n => n.field? name

end Catalog

end GraphQLClient
