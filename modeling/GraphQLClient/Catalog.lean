import GraphQLClient.Name
import GraphQLClient.Scalar
import GraphQLClient.Schema

/-!
# Catalogs

A catalog is all that building operations and reading responses needs to know: a schema, the codecs
of its scalars, and the accessor names that replace derived ones.

## Main definitions

* `Catalog` : catalogs, with `Catalog.ofSchema`, `Catalog.withScalar` and `Catalog.withRename`.
* `Catalog.accessorOf` : the accessor name that a field asks for.
-/

namespace GraphQLClient

/-- A schema with the codecs of its scalars and the accessor names that replace derived ones. -/
structure Catalog where
  schema : Schema
  scalars : Scalars
  /-- Accessor names by name of type and name of field. -/
  renames : Entries (Entries String)

namespace Catalog

/-- A schema with the built-in codecs and without replaced names. -/
def ofSchema (schema : Schema) : Catalog :=
  ⟨schema, Scalars.builtin, []⟩

/-- Registers the codec of a scalar. -/
def withScalar (c : Catalog) (name : String) (codec : Scalar) : Catalog :=
  { c with scalars := c.scalars.insert name codec }

/-- The accessor name that is given to a field, if one is. -/
def rename? (c : Catalog) (typeName field : String) : Option String :=
  (c.renames.get? typeName).bind fun names => names.get? field

/-- Gives an accessor name to a field. -/
def withRename (c : Catalog) (typeName field accessor : String) : Catalog :=
  let names := (c.renames.get? typeName).getD []
  { c with renames := c.renames.put typeName (names.put field accessor) }

/-- The accessor name that a field asks for: the one it is given, else the derived one. -/
def accessorOf (c : Catalog) (typeName field : String) : String :=
  (c.rename? typeName field).getD (Name.toAccessor field)

theorem rename?_withRename (c : Catalog) (typeName field accessor t f : String) :
    (c.withRename typeName field accessor).rename? t f =
      if t = typeName ∧ f = field then some accessor else c.rename? t f := by
  unfold rename? withRename
  simp only [Entries.get?_put]
  by_cases ht : t = typeName
  · subst ht
    by_cases hf : f = field
    · simp [hf, Entries.get?_put]
    · cases c.renames.get? t <;> simp [hf, Entries.get?_put]
  · simp [ht]

end Catalog

end GraphQLClient
