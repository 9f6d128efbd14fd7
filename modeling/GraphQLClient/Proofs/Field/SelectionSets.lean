import GraphQLClient.Operation

/-!
# Selection sets

A selection set is the list of fields that are selected next to each other: the fields of an
operation, or those below a field of a composite type.  Properties of selection sets are stated of
every selection set of a tree, at any depth.

## Main definitions

* `Field.EverySelectionSet`, `Operation.EverySelectionSet` : a property of all selection sets.
* `Field.responseKeys`, `Field.accessors` : the keys of a selection set in responses and in results.
-/

namespace GraphQLClient

namespace Field

/-- The keys in responses of the fields of a selection set. -/
def responseKeys (fields : List Field) : List String :=
  fields.map responseKey

/-- The keys in results of the fields of a selection set. -/
def accessors (fields : List Field) : List String :=
  fields.map accessor

mutual

/-- A property holds of every selection set below a field. -/
def EverySelectionSet (p : List Field → Prop) : Field → Prop
  | .leaf _ => True
  | .composite _ children => p children ∧ EverySelectionSetBelow p children

/-- A property holds of every selection set below fields. -/
def EverySelectionSetBelow (p : List Field → Prop) : List Field → Prop
  | [] => True
  | f :: rest => f.EverySelectionSet p ∧ EverySelectionSetBelow p rest

end

end Field

/-- A property holds of every selection set of an operation. -/
def Operation.EverySelectionSet (p : List Field → Prop) (o : Operation) : Prop :=
  p o.selections ∧ Field.EverySelectionSetBelow p o.selections

end GraphQLClient
