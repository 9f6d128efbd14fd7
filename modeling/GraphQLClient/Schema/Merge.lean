import GraphQLClient.Schema.Builtin
import GraphQLClient.Sdl.Parser

/-!
# Schemas of documents

The definitions and extensions of a document are merged into one schema in the order in which they
stand.  A type or a directive is defined once, but a built-in directive may be defined anew.  An
extension waits for the definition of its type, which takes those of its own kind and drops the
others; after the definition it has to be of the same kind.  The root types are those that the
document lists or, if it lists none, the objects with the usual names.

## Main definitions

* `Schema.merge?` : the schema of definitions, if no two of them contradict each other.
-/

namespace GraphQLClient

namespace Sdl.TypeBody

/-- The parts of a type with those of an extension after them, if both are of one kind. -/
def extend? : TypeBody → TypeBody → Option TypeBody
  | .scalar, .scalar => some .scalar
  | .object is fs, .object is' fs' => some (.object (is ++ is') (fs ++ fs'))
  | .interface is fs, .interface is' fs' => some (.interface (is ++ is') (fs ++ fs'))
  | .union ms, .union ms' => some (.union (ms ++ ms'))
  | .enum ms, .enum ms' => some (.enum (ms ++ ms'))
  | .input fs, .input fs' => some (.input (fs ++ fs'))
  | _, _ => none

/-- Whether no part of a type has the name of another. -/
def namesAreDistinct : TypeBody → Bool
  | .scalar => true
  | .object is fs => decide is.Nodup && decide (fs.map FieldDefinition.name).Nodup
  | .interface is fs => decide is.Nodup && decide (fs.map FieldDefinition.name).Nodup
  | .union ms => decide ms.Nodup
  | .enum ms => decide (ms.map EnumMember.name).Nodup
  | .input fs => decide (fs.map InputValue.name).Nodup

end Sdl.TypeBody

namespace Schema

open Sdl

/-- The types defined so far, and the extensions that wait for a definition. -/
structure Draft where
  schema : Schema
  waiting : List TypeDefinition

/-- A type with an extension of its own kind. -/
def extended? (t e : TypeDefinition) : Option TypeDefinition :=
  (t.body.extend? e.body).map fun body =>
    { t with directives := t.directives ++ e.directives, body }

/-- Defines a type, with the extensions of its kind that wait for it. -/
def Draft.define? (s : Draft) (t : TypeDefinition) : Option Draft :=
  if s.schema.types.contains t.name then none
  else
    let (own, others) := s.waiting.partition fun e => e.name == t.name
    let t := own.foldl (fun t e => (extended? t e).getD t) t
    some ⟨{ s.schema with types := s.schema.types ++ [(t.name, t)] }, others⟩

/-- Extends a type, now or when it is defined. -/
def Draft.extend? (s : Draft) (e : TypeDefinition) : Option Draft :=
  match s.schema.type? e.name with
  | none => some { s with waiting := s.waiting ++ [e] }
  | some t =>
    (extended? t e).map fun t =>
      { s with schema := { s.schema with types := s.schema.types.put e.name t } }

/-- Takes a definition or an extension of a type. -/
def Draft.add? (s : Draft) : Definition → Option Draft
  | .type t => s.define? t
  | .typeExtension e => s.extend? e
  | _ => some s

/-- The types of a document, if no extension is left waiting. -/
def withTypes? (s : Schema) (ds : List Definition) : Option Schema :=
  match ds.foldlM Draft.add? ⟨s, []⟩ with
  | some ⟨s, []⟩ => some s
  | _ => none

/-- The objects with the usual names of root types. -/
def usualRoots (s : Schema) : List (RootKind × String) :=
  [(RootKind.query, "Query"), (.mutation, "Mutation"), (.subscription, "Subscription")].filter
    fun (_, name) =>
      match s.body? name with
      | some (.object _ _) => true
      | _ => false

/-- The definitions of directives in a document. -/
def directiveDefinitions (ds : List Definition) : List DirectiveDefinition :=
  ds.filterMap fun
    | .directive d => some d
    | _ => none

/-- The definitions of the root types in a document. -/
def schemaDefinitions (ds : List Definition) : List SchemaDefinition :=
  ds.filterMap fun
    | .schema d => some d
    | _ => none

/-- The extensions of the root types in a document. -/
def schemaExtensions (ds : List Definition) : List SchemaDefinition :=
  ds.filterMap fun
    | .schemaExtension d => some d
    | _ => none

/-- The root types of a document and the directives on them: those of the one definition, or the
usual ones, followed by those of the extensions.  No two operations share a root. -/
def withRoots? (s : Schema) (ds : List Definition) : Option Schema := do
  let (applied, roots) ←
    match schemaDefinitions ds with
    | [] =>
      let usual := s.usualRoots
      if usual.isEmpty && !(schemaExtensions ds).isEmpty then none else some ([], usual)
    | [d] => some (d.directives, d.roots)
    | _ => none
  let applied := applied ++ (schemaExtensions ds).flatMap SchemaDefinition.directives
  let roots := roots ++ (schemaExtensions ds).flatMap SchemaDefinition.roots
  if (roots.map Prod.fst).Nodup && (roots.map Prod.snd).Nodup then some { s with applied, roots }
  else none

/-- The schema of definitions, if no two of them contradict each other. -/
def merge? (ds : List Definition) : Option Schema := do
  let s ← empty.withTypes? ds
  let directives := directiveDefinitions ds
  if (directives.map DirectiveDefinition.name).Nodup then
    let add (e : Entries DirectiveDefinition) (d : DirectiveDefinition) := e.put d.name d
    let s := { s with directives := directives.foldl add s.directives }
    let s ← s.withRoots? ds
    if s.types.all fun (_, t) => t.body.namesAreDistinct then some s else none
  else none

end Schema

end GraphQLClient
