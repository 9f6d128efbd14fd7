import GraphQLClient.Namespace

/-!
# Operations

An operation is a query or a mutation: the fields selected on a root type, with a name if it needs
one.  Unless it is told not to, it also asks for the type of every object below the root.

## Main definitions

* `Operation` : operations, with `Operation.select`, `Operation.named` and
  `Operation.withTypename`.
* `Catalog.operation?` : an operation without selections.
-/

namespace GraphQLClient

/-- A query or a mutation. -/
structure Operation where
  kind : OperationKind
  name : Option String
  /-- The type of the fields that are selected. -/
  rootType : String
  selections : List Field
  /-- Whether the type of every object below the root is asked for. -/
  typename : Bool

namespace Operation

/-- An operation with more fields selected. -/
def select (o : Operation) (fields : List Field) : Operation :=
  { o with selections := o.selections ++ fields }

/-- An operation under a name. -/
def named (o : Operation) (name : String) : Operation :=
  { o with name := some name }

/-- An operation that asks for the types of objects, or does not. -/
def withTypename (o : Operation) (typename : Bool) : Operation :=
  { o with typename := typename }

end Operation

/-- An operation without selections. -/
def Catalog.operation? (c : Catalog) (kind : OperationKind) : Except LookupError Operation :=
  match c.schema.root? kind.root with
  | some rootType => .ok ⟨kind, none, rootType, [], true⟩
  | none => .error (.missingRoot kind)

end GraphQLClient
