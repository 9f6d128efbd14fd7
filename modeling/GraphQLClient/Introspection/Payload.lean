import GraphQLClient.Introspection
import GraphQLClient.Record

/-!
# Introspection payloads

The JSON form of the description of a schema, as servers send it, in both directions.

## Main definitions

* `Introspection.parse?`, `Introspection.ofJson?` : the description in a text or in a JSON value.
* `Introspection.toJson` : the JSON form of a description.
* `Introspection.TypeRef.ofSource?`, `Introspection.TypeRef.toJson` : the same for references.
-/

namespace GraphQLClient

namespace Json.Source

mutual

/-- How deep arrays and objects are nested. -/
def height : Source → Nat
  | .array items => heightItems items + 1
  | .object members => heightMembers members + 1
  | _ => 0

/-- How deep the items of an array are nested. -/
def heightItems : List Source → Nat
  | [] => 0
  | item :: rest => max (height item) (heightItems rest)

/-- How deep the members of an object are nested. -/
def heightMembers : List (Option String × Source) → Nat
  | [] => 0
  | (_, value) :: rest => max (height value) (heightMembers rest)

end

end Json.Source

namespace Introspection

open Json (Source)

/-! ### Reading -/

/-- The kind of a name. -/
def Kind.ofName? : String → Option Kind
  | "SCALAR" => some .scalar
  | "OBJECT" => some .object
  | "INTERFACE" => some .interface
  | "UNION" => some .union
  | "ENUM" => some .enum
  | "INPUT_OBJECT" => some .inputObject
  | "LIST" => some .list
  | "NON_NULL" => some .nonNull
  | _ => none

/-- A kind: its name, or an object with the name as its only member and null as the value. -/
def Kind.ofSource? : Source → Option Kind
  | .string s => s.bind ofName?
  | .object [(some name, .null)] => ofName? name
  | _ => none

/-- A reference to a type with at most the given number of wrappers. -/
def TypeRef.ofSourceWithin? : Nat → Source → Option TypeRef
  | 0, _ => none
  | depth + 1, s => do
    let r ← s.record? ["kind", "name", "ofType"]
    let kind ← r.required "kind" Kind.ofSource?
    let name ← r.optional "name" (Source.nullable Source.string?)
    let ofType ← r.optional "ofType" (Source.nullable (ofSourceWithin? depth))
    pure (.mk kind name ofType)

/-- A reference to a type. -/
def TypeRef.ofSource? (s : Source) : Option TypeRef :=
  ofSourceWithin? (s.height + 1) s

/-- A text that may be null. -/
def text? : Source → Option (Option String) :=
  Source.nullable Source.string?

/-- A type referred to by its name only. -/
def typeName? (s : Source) : Option String := do
  let r ← s.record? ["name"]
  r.required "name" Source.string?

def InputInfo.ofSource? (s : Source) : Option InputInfo := do
  let r ← s.record? ["name", "description", "type", "defaultValue"]
  pure {
    name := ← r.required "name" Source.string?
    description := ← r.optional "description" text?
    type := ← r.required "type" TypeRef.ofSource?
    defaultValue := ← r.optional "defaultValue" text? }

def FieldInfo.ofSource? (s : Source) : Option FieldInfo := do
  let r ← s.record?
    ["name", "description", "args", "type", "isDeprecated", "deprecationReason"]
  pure {
    name := ← r.required "name" Source.string?
    description := ← r.optional "description" text?
    args := ← r.orElse "args" [] (Source.list? InputInfo.ofSource?)
    type := ← r.required "type" TypeRef.ofSource?
    isDeprecated := ← r.orElse "isDeprecated" false Source.bool?
    deprecationReason := ← r.optional "deprecationReason" text? }

def EnumValueInfo.ofSource? (s : Source) : Option EnumValueInfo := do
  let r ← s.record? ["name", "description", "isDeprecated", "deprecationReason"]
  pure {
    name := ← r.required "name" Source.string?
    description := ← r.optional "description" text?
    isDeprecated := ← r.orElse "isDeprecated" false Source.bool?
    deprecationReason := ← r.optional "deprecationReason" text? }

def TypeInfo.ofSource? (s : Source) : Option TypeInfo := do
  let r ← s.record? ["kind", "name", "description", "fields", "inputFields", "interfaces",
    "enumValues", "possibleTypes"]
  pure {
    kind := ← r.required "kind" Kind.ofSource?
    name := ← r.required "name" Source.string?
    description := ← r.optional "description" text?
    fields := ← r.optional "fields" (Source.nullable (Source.list? FieldInfo.ofSource?))
    inputFields := ← r.optional "inputFields" (Source.nullable (Source.list? InputInfo.ofSource?))
    interfaces := ← r.optional "interfaces" (Source.nullable (Source.list? typeName?))
    enumValues := ← r.optional "enumValues"
      (Source.nullable (Source.list? EnumValueInfo.ofSource?))
    possibleTypes := ← r.optional "possibleTypes" (Source.nullable (Source.list? typeName?)) }

def DirectiveInfo.ofSource? (s : Source) : Option DirectiveInfo := do
  let r ← s.record? ["name", "description", "locations", "args"]
  pure {
    name := ← r.required "name" Source.string?
    description := ← r.optional "description" text?
    locations := ← r.required "locations" (Source.list? Source.string?)
    args := ← r.orElse "args" [] (Source.list? InputInfo.ofSource?) }

/-- The description of a schema under the name of the schema field. -/
def ofSource? (s : Source) : Option Introspection := do
  let r ← s.record? ["__schema"]
  let r ← r.required "__schema"
    (Source.record? ["queryType", "mutationType", "subscriptionType", "types", "directives"])
  pure {
    queryType := ← r.optional "queryType" (Source.nullable typeName?)
    mutationType := ← r.optional "mutationType" (Source.nullable typeName?)
    subscriptionType := ← r.optional "subscriptionType" (Source.nullable typeName?)
    types := ← r.required "types" (Source.list? TypeInfo.ofSource?)
    directives := ← r.orElse "directives" [] (Source.list? DirectiveInfo.ofSource?) }

/-- The description of a schema in a text. -/
def parse? (text : String) : Option Introspection :=
  (Source.parse? text).bind ofSource?

/-- The description of a schema in a JSON value. -/
def ofJson? (j : Json) : Option Introspection :=
  ofSource? (Source.ofJson j)

/-! ### Writing -/

/-- The name of a kind. -/
def Kind.name : Kind → String
  | .scalar => "SCALAR"
  | .object => "OBJECT"
  | .interface => "INTERFACE"
  | .union => "UNION"
  | .enum => "ENUM"
  | .inputObject => "INPUT_OBJECT"
  | .list => "LIST"
  | .nonNull => "NON_NULL"

/-- A part that may be missing; null stands for a missing one. -/
def orNull {α : Type} (write : α → Json) : Option α → Json
  | none => .null
  | some a => write a

/-- Parts in a list. -/
def listJson {α : Type} (write : α → Json) (items : List α) : Json :=
  .array (items.map write)

def TypeRef.toJson : TypeRef → Json
  | .mk kind name none =>
    .object [("kind", .string kind.name), ("name", orNull .string name), ("ofType", .null)]
  | .mk kind name (some inner) =>
    .object
      [("kind", .string kind.name), ("name", orNull .string name), ("ofType", inner.toJson)]

/-- A type referred to by its name only. -/
def typeNameJson (name : String) : Json :=
  .object [("name", .string name)]

def InputInfo.toJson (i : InputInfo) : Json :=
  .object [("defaultValue", orNull .string i.defaultValue),
    ("description", orNull .string i.description), ("name", .string i.name),
    ("type", i.type.toJson)]

def FieldInfo.toJson (f : FieldInfo) : Json :=
  .object [("args", listJson InputInfo.toJson f.args),
    ("deprecationReason", orNull .string f.deprecationReason),
    ("description", orNull .string f.description), ("isDeprecated", .bool f.isDeprecated),
    ("name", .string f.name), ("type", f.type.toJson)]

def EnumValueInfo.toJson (v : EnumValueInfo) : Json :=
  .object [("deprecationReason", orNull .string v.deprecationReason),
    ("description", orNull .string v.description), ("isDeprecated", .bool v.isDeprecated),
    ("name", .string v.name)]

def TypeInfo.toJson (t : TypeInfo) : Json :=
  .object [("description", orNull .string t.description),
    ("enumValues", orNull (listJson EnumValueInfo.toJson) t.enumValues),
    ("fields", orNull (listJson FieldInfo.toJson) t.fields),
    ("inputFields", orNull (listJson InputInfo.toJson) t.inputFields),
    ("interfaces", orNull (listJson typeNameJson) t.interfaces),
    ("kind", .string t.kind.name), ("name", .string t.name),
    ("possibleTypes", orNull (listJson typeNameJson) t.possibleTypes)]

def DirectiveInfo.toJson (d : DirectiveInfo) : Json :=
  .object [("args", listJson InputInfo.toJson d.args),
    ("description", orNull .string d.description),
    ("locations", listJson .string d.locations), ("name", .string d.name)]

/-- The JSON form of the description of a schema. -/
def toJson (s : Introspection) : Json :=
  .object [("__schema", .object [("directives", listJson DirectiveInfo.toJson s.directives),
    ("mutationType", orNull typeNameJson s.mutationType),
    ("queryType", orNull typeNameJson s.queryType),
    ("subscriptionType", orNull typeNameJson s.subscriptionType),
    ("types", listJson TypeInfo.toJson s.types)])]

end Introspection

end GraphQLClient
