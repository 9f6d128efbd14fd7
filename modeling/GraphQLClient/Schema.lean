import GraphQLClient.Entries
import GraphQLClient.Sdl.Definition

/-!
# Schemas

A schema is a set of types by name, each with its extensions merged in, the directives that may be
applied, and the root types of its operations.

## Main definitions

* `Schema` : schemas.
* `Schema.classOf?` : what kind of type a name stands for, as far as building operations cares.
* `Schema.fieldsOf?`, `Schema.inputFieldsOf?` : the fields of a composite type and of an input
  object.
-/

namespace GraphQLClient

/-- A schema. -/
structure Schema where
  types : Entries Sdl.TypeDefinition
  directives : Entries Sdl.DirectiveDefinition
  /-- The directives that are applied to the schema itself. -/
  applied : List Sdl.Directive
  roots : List (RootKind × String)

/-- The kinds of types, as far as building operations cares. -/
inductive TypeClass where
  /-- An object or an interface, whose fields have to be selected. -/
  | composite
  | union
  | enum
  | scalar
  | input
  deriving DecidableEq, Repr

/-- The kind of a type. -/
def Sdl.TypeBody.class : Sdl.TypeBody → TypeClass
  | .scalar => .scalar
  | .object _ _ => .composite
  | .interface _ _ => .composite
  | .union _ => .union
  | .enum _ => .enum
  | .input _ => .input

namespace Schema

/-- The type of a name. -/
def type? (s : Schema) (name : String) : Option Sdl.TypeDefinition :=
  s.types.get? name

/-- The parts of the type of a name. -/
def body? (s : Schema) (name : String) : Option Sdl.TypeBody :=
  (s.type? name).map Sdl.TypeDefinition.body

/-- The kind of the type of a name. -/
def classOf? (s : Schema) (name : String) : Option TypeClass :=
  (s.body? name).map Sdl.TypeBody.class

/-- Whether the fields of the type of a name have to be selected. -/
def isComposite (s : Schema) (name : String) : Bool :=
  s.classOf? name == some .composite

/-- The root type of an operation. -/
def root? (s : Schema) (kind : RootKind) : Option String :=
  (s.roots.find? fun (k, _) => k == kind).map Prod.snd

/-- The fields of an object or an interface, in order. -/
def fieldsOf? (s : Schema) (name : String) : Option (List Sdl.FieldDefinition) :=
  match s.body? name with
  | some (.object _ fields) => some fields
  | some (.interface _ fields) => some fields
  | _ => none

/-- The fields of an input object, in order. -/
def inputFieldsOf? (s : Schema) (name : String) : Option (List Sdl.InputValue) :=
  match s.body? name with
  | some (.input fields) => some fields
  | _ => none

/-- The interfaces that a type declares. -/
def interfacesOf (s : Schema) (name : String) : List String :=
  match s.body? name with
  | some (.object interfaces _) => interfaces
  | some (.interface interfaces _) => interfaces
  | _ => []

end Schema

end GraphQLClient
