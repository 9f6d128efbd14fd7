import GraphQLClient.Yaml.Token

/-!
# Nodes of YAML

A YAML document is a tree of scalars, sequences and mappings.  A scalar is a text, how it is written
and what its tag says; what it stands for is left open.

## Main definitions

* `Yaml.Scalar`, `Yaml.Node` : scalars and nodes.
* `Yaml.Node.traits` : what tells keys apart, in a row.
* `Yaml.Node.events` : the number of parts of a node, by which repetitions of nodes are limited.
-/

namespace GraphQLClient.Yaml

/-- A scalar. -/
structure Scalar where
  text : String
  style : Style
  kind : Tag.Kind
  /-- The name of an alternative in the tag. -/
  label : Option String
  deriving DecidableEq, Repr

/-- A node of a document. -/
inductive Node where
  | scalar (s : Scalar)
  | sequence (items : List Node)
  | mapping (entries : List (Node × Node))

namespace Node

/-- The node where nothing is written. -/
def empty : Node := .scalar ⟨"", .plain, .none, none⟩

mutual

/-- The number of parts of a node: a collection has a start and an end besides its own. -/
def events : Node → Nat
  | .scalar _ => 1
  | .sequence items => eventsOfItems items + 2
  | .mapping entries => eventsOfEntries entries + 2

/-- The number of parts of items. -/
def eventsOfItems : List Node → Nat
  | [] => 0
  | item :: rest => events item + eventsOfItems rest

/-- The number of parts of entries. -/
def eventsOfEntries : List (Node × Node) → Nat
  | [] => 0
  | (key, value) :: rest => events key + events value + eventsOfEntries rest

end

/-- A part of what tells keys apart. -/
inductive Trait where
  | scalar (text : String) (kind : Tag.Kind)
  | sequence
  | mapping
  /-- The end of a collection. -/
  | stop
  deriving DecidableEq, Repr

mutual

/-- What tells a node apart as a key: how scalars are written does not count. -/
def traits : Node → List Trait
  | .scalar s => [.scalar s.text s.kind]
  | .sequence items => .sequence :: traitsOfItems items
  | .mapping entries => .mapping :: traitsOfEntries entries

/-- What tells items apart. -/
def traitsOfItems : List Node → List Trait
  | [] => [.stop]
  | item :: rest => traits item ++ traitsOfItems rest

/-- What tells entries apart. -/
def traitsOfEntries : List (Node × Node) → List Trait
  | [] => [.stop]
  | (key, value) :: rest => traits key ++ traits value ++ traitsOfEntries rest

end

end Node

end GraphQLClient.Yaml
