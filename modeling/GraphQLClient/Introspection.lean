/-!
# Introspected schemas

The data with which a server describes its own schema.  Every type is described by the same
record; which of its lists are present depends on its kind.

## Main definitions

* `Introspection.TypeRef` : a reference to a type, with its list and non-null wrappers, and its
  text `Introspection.TypeRef.toText`.
* `Introspection.TypeInfo`, `Introspection.FieldInfo`, `Introspection.InputInfo`,
  `Introspection.EnumValueInfo`, `Introspection.DirectiveInfo` : the descriptions.
* `Introspection` : the description of a schema.
* `Introspection.customRoots` : the root types, if one of them has a name of its own.
-/

namespace GraphQLClient

/-- The kinds of types. -/
inductive Introspection.Kind where
  | scalar
  | object
  | interface
  | union
  | enum
  | inputObject
  | list
  | nonNull
  deriving DecidableEq, Repr

/-- A reference to a type: a kind, a name if the type has one, and the type that is wrapped if the
kind wraps one. -/
inductive Introspection.TypeRef where
  | mk (kind : Introspection.Kind) (name : Option String) (ofType : Option TypeRef)

/-- The description of an argument or of a field of an input object. -/
structure Introspection.InputInfo where
  name : String
  description : Option String
  type : Introspection.TypeRef
  /-- The default value, as text of a document. -/
  defaultValue : Option String

/-- The description of a field. -/
structure Introspection.FieldInfo where
  name : String
  description : Option String
  args : List Introspection.InputInfo
  type : Introspection.TypeRef
  isDeprecated : Bool
  deprecationReason : Option String

/-- The description of a member of an enumeration. -/
structure Introspection.EnumValueInfo where
  name : String
  description : Option String
  isDeprecated : Bool
  deprecationReason : Option String

/-- The description of a type. -/
structure Introspection.TypeInfo where
  kind : Introspection.Kind
  name : String
  description : Option String
  fields : Option (List Introspection.FieldInfo)
  inputFields : Option (List Introspection.InputInfo)
  interfaces : Option (List String)
  enumValues : Option (List Introspection.EnumValueInfo)
  possibleTypes : Option (List String)

/-- The description of a directive. -/
structure Introspection.DirectiveInfo where
  name : String
  description : Option String
  locations : List String
  args : List Introspection.InputInfo

/-- The description of a schema. -/
structure Introspection where
  queryType : Option String
  mutationType : Option String
  subscriptionType : Option String
  types : List Introspection.TypeInfo
  directives : List Introspection.DirectiveInfo

namespace Introspection

namespace TypeRef

/-- A reference to a type by name. -/
def named (kind : Kind) (name : String) : TypeRef := .mk kind (some name) none

/-- A reference to lists of a type. -/
def list (inner : TypeRef) : TypeRef := .mk .list none (some inner)

/-- A reference to a type without null. -/
def nonNull (inner : TypeRef) : TypeRef := .mk .nonNull none (some inner)

/-- The characters of a reference as a document writes it; a reference without a name and without
a wrapped type has none. -/
def toChars : TypeRef → List Char
  | .mk .nonNull _ (some inner) => toChars inner ++ ['!']
  | .mk .list _ (some inner) => '[' :: toChars inner ++ [']']
  | .mk _ name _ => (name.getD "").toList

/-- A reference as a document writes it. -/
def toText (t : TypeRef) : String :=
  String.ofList t.toChars

end TypeRef

/-- The root types by operation. -/
def roots (s : Introspection) : List (String × Option String) :=
  [("query", s.queryType), ("mutation", s.mutationType), ("subscription", s.subscriptionType)]

/-- Whether one of the root types has a name other than the usual one. -/
def hasCustomRoot (s : Introspection) : Bool :=
  s.queryType.any (· != "Query") || s.mutationType.any (· != "Mutation") ||
    s.subscriptionType.any (· != "Subscription")

/-- The root types by operation, if one of them has a name other than the usual one. -/
def customRoots (s : Introspection) : Option (List (String × Option String)) :=
  if s.hasCustomRoot then some s.roots else none

end Introspection

end GraphQLClient
