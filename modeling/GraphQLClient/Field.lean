import GraphQLClient.Catalog

/-!
# Fields of a selection

A field of a selection is one requested field of a type, with its arguments, its alias and, when it
has a composite type, the fields selected below it.

## Main definitions

* `Field` : the fields of a selection.
* `Field.responseKey`, `Field.accessor` : the key of a field in responses and in results.
* `Field.withArguments`, `Field.withAlias`, `Field.select?` : building a field from another.
* `Field.Refusal` : why nothing can be selected below a field.
-/

namespace GraphQLClient

/-- A requested field without what is selected below it. -/
structure FieldHead where
  /-- The type that declares the field. -/
  parent : String
  definition : Sdl.FieldDefinition
  alias? : Option String
  /-- The key of the field in results. -/
  accessor : String
  /-- The arguments, in order of first mention, under the names they were given by. -/
  arguments : Entries Value

/-- A requested field. -/
inductive Field where
  | leaf (head : FieldHead)
  | composite (head : FieldHead) (children : List Field)

/-- The name of a field in responses: its alias if it has one, else its name in the schema. -/
def FieldHead.responseKey (h : FieldHead) : String :=
  h.alias?.getD h.definition.name

/-- A field with the type that declares it, for messages. -/
def FieldHead.qualifiedName (h : FieldHead) : String :=
  h.parent ++ "." ++ h.responseKey

namespace Field

/-- A field without what is selected below it. -/
def head : Field → FieldHead
  | .leaf h => h
  | .composite h _ => h

/-- What is selected below a field. -/
def children : Field → List Field
  | .leaf _ => []
  | .composite _ children => children

/-- Whether nothing can be selected below a field. -/
def isLeaf : Field → Bool
  | .leaf _ => true
  | .composite _ _ => false

/-- The name of a field in the schema. -/
def name (f : Field) : String := f.head.definition.name

/-- The declared type of a field. -/
def type (f : Field) : TypeExpr := f.head.definition.type

/-- The key of a field in results. -/
def accessor (f : Field) : String := f.head.accessor

/-- The key of a field in responses. -/
def responseKey (f : Field) : String := f.head.responseKey

/-- A field with its head changed. -/
def mapHead (g : FieldHead → FieldHead) : Field → Field
  | .leaf h => .leaf (g h)
  | .composite h children => .composite (g h) children

/-- A field with arguments added; an argument that was given before keeps its place. -/
def withArguments (f : Field) (arguments : Entries Value) : Field :=
  f.mapHead fun h => { h with arguments := h.arguments.putAll arguments }

/-- A field under another name, in responses and in results. -/
def withAlias (f : Field) (key : String) : Field :=
  f.mapHead fun h => { h with alias? := some key, accessor := key }

/-- Why nothing can be selected below a field: it has no composite type. -/
structure Refusal where
  /-- The field, with the type that declares it. -/
  field : String

/-- The text of a refusal. -/
def Refusal.message (r : Refusal) : String :=
  "Field " ++ r.field ++ " has a leaf type and cannot select sub-fields"

/-- A field with more selected below it. -/
def select? (f : Field) (children : List Field) : Except Refusal Field :=
  match f with
  | .leaf h => .error ⟨h.qualifiedName⟩
  | .composite h existing => .ok (.composite h (existing ++ children))

/-- Fields under other names. -/
def aliased (children : List (String × Field)) : List Field :=
  children.map fun (key, f) => f.withAlias key

end Field

end GraphQLClient
