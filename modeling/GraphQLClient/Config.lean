import GraphQLClient.Json.Printer
import GraphQLClient.Scalar
import GraphQLClient.Setting

/-!
# Configurations

A configuration tells where operations are sent, where the schema comes from, which codecs the
scalars have and which accessor names replace derived ones.  Of the codecs it can name those that
come with the library.

## Main definitions

* `Config`, `Endpoint`, `SchemaSource` : configurations and their parts.
* `ScalarKind` : the codecs that have a word.
* `Config.ofUrl` : the configuration that only has an address.
* `Config.ofSetting?` : the configuration that a text describes.
* `Config.written`, `Config.toJson` : a configuration in JSON, as it is written and with its members
  in order of their names.
-/

namespace GraphQLClient

/-- Where operations are sent. -/
structure Endpoint where
  url : String
  /-- Headers of every request. -/
  headers : Entries String
  /-- The seconds that a request may take. -/
  timeout : Option UInt64
  /-- The seconds that a connection may take. -/
  connectTimeout : Option UInt64
  /-- How often a request is sent again after a failure. -/
  retries : Option UInt32

/-- Where the schema comes from. -/
inductive SchemaSource where
  /-- A document, in a place relative to the directory of the configuration. -/
  | document (path : String)
  /-- The server itself. -/
  | introspection
  deriving DecidableEq, Repr

/-- The codecs that a configuration can name: those that come with the library. -/
inductive ScalarKind where
  | int
  | float
  | string
  | boolean
  | id
  | dateTime
  | custom
  deriving DecidableEq, Repr

/-- The settings of a client. -/
structure Config where
  endpoint : Endpoint
  schema : SchemaSource
  /-- Whether the type of every object below the root is asked for. -/
  typename : Bool
  /-- The codecs of scalars by name of scalar. -/
  scalars : Entries ScalarKind
  /-- Accessor names by name of type and name of field. -/
  renames : Entries (Entries String)

namespace Endpoint

/-- An address with no further settings. -/
def ofUrl (url : String) : Endpoint :=
  ⟨url, [], none, none, none⟩

/-- The seconds that a request may take: thirty unless told otherwise. -/
def timeoutOrDefault (e : Endpoint) : UInt64 := e.timeout.getD 30

/-- The seconds that a connection may take: ten unless told otherwise. -/
def connectTimeoutOrDefault (e : Endpoint) : UInt64 := e.connectTimeout.getD 10

/-- How often a request is sent again: never unless told otherwise. -/
def retriesOrDefault (e : Endpoint) : UInt32 := e.retries.getD 0

end Endpoint

namespace Config

/-- The configuration of an address with every other setting at its default. -/
def ofUrl (url : String) : Config :=
  ⟨.ofUrl url, .introspection, true, [], []⟩

/-- A configuration whose schema comes from a document. -/
def withSchemaPath (c : Config) (path : String) : Config :=
  { c with schema := .document path }

/-- The replaced accessor names, each with its type and its field. -/
def renameTriples (c : Config) : List (String × String × String) :=
  c.renames.flatMap fun (typeName, names) =>
    names.map fun (field, accessor) => (typeName, field, accessor)

end Config

/-! ### The words for codecs -/

namespace ScalarKind

/-- The codec of a kind. -/
def codec : ScalarKind → Scalar
  | .int => .int
  | .float => .float
  | .string => .string
  | .boolean => .boolean
  | .id => .id
  | .dateTime => .dateTime
  | .custom => .custom

/-- The word for a codec in a configuration. -/
def word : ScalarKind → String
  | .int => "int"
  | .float => "float"
  | .string => "string"
  | .boolean => "boolean"
  | .id => "id"
  | .dateTime => "datetime"
  | .custom => "opaque"

/-- All codecs that have a word. -/
def all : List ScalarKind :=
  [.int, .float, .string, .boolean, .id, .dateTime, .custom]

/-- The codec that a word of a configuration means. -/
def ofWord? (s : String) : Option ScalarKind :=
  all.find? fun kind => kind.word == s

theorem ofWord?_word (kind : ScalarKind) : ofWord? kind.word = some kind := by
  cases kind <;> decide

end ScalarKind

/-! ### Reading -/

open Setting (Dialect)

/-- The number of seconds in a setting. -/
def Endpoint.seconds? (s : Setting) : Option UInt64 :=
  (s.below? 0x10000000000000000).map UInt64.ofNat

/-- The number of repetitions in a setting. -/
def Endpoint.repetitions? (s : Setting) : Option UInt32 :=
  (s.below? 0x100000000).map UInt32.ofNat

/-- The address settings in a setting. -/
def Endpoint.ofSetting? (d : Dialect) (s : Setting) : Option Endpoint := do
  let r ← s.record? d ["url", "headers", "timeout", "connectTimeout", "retries"]
  let url ← r.required "url" Setting.string?
  let headers ← r.orElse "headers" [] (Setting.map? Setting.string?)
  let timeout ← r.optional "timeout" (Setting.nullable seconds?)
  let connectTimeout ← r.optional "connectTimeout" (Setting.nullable seconds?)
  let retries ← r.optional "retries" (Setting.nullable repetitions?)
  pure ⟨url, headers, timeout, connectTimeout, retries⟩

/-- The source of the schema in a setting. -/
def SchemaSource.ofSetting? (d : Dialect) (s : Setting) : Option SchemaSource :=
  let kind := "SchemaSource"
  let names := ["path", "introspection"]
  match s.choice? kind names with
  | some ("path", some value) => value.string?.map .document
  | _ => if s.plainChoice? d kind names = some "introspection" then some .introspection else none

/-- The codec in a setting. -/
def ScalarKind.ofSetting? (d : Dialect) (s : Setting) : Option ScalarKind :=
  (s.plainChoice? d "ScalarKind" (all.map word)).bind ofWord?

/-- The configuration in a setting. -/
def Config.ofSetting? (d : Dialect) (s : Setting) : Option Config := do
  let r ← s.record? d ["endpoint", "schema", "typename", "scalars", "renames"]
  let endpoint ← r.required "endpoint" (Endpoint.ofSetting? d)
  let schema ← r.orElse "schema" .introspection (SchemaSource.ofSetting? d)
  let typename ← r.orElse "typename" true Setting.bool?
  let scalars ← r.orElse "scalars" [] (Setting.map? (ScalarKind.ofSetting? d))
  let renames ← r.orElse "renames" [] (Setting.map? (Setting.map? Setting.string?))
  pure ⟨endpoint, schema, typename, scalars, renames⟩

/-! ### Writing -/

namespace Config

/-- A table of texts in JSON. -/
def textsToJson (e : Entries String) : Json :=
  .object (e.mapValues Json.string)

/-- A member for a setting that may be missing. -/
def optionalMember {α : Type} (name : String) (write : α → Json) : Option α → Entries Json
  | none => []
  | some a => [(name, write a)]

/-- A member for a table, unless it is empty. -/
def tableMember {α : Type} (name : String) (write : α → Json) (e : Entries α) : Entries Json :=
  if e.isEmpty then [] else [(name, .object (e.mapValues write))]

end Config

open Config (textsToJson tableMember optionalMember)

/-- The members that are written of address settings; what is not set is left out. -/
def Endpoint.members (e : Endpoint) : Entries Json :=
  [("url", .string e.url)] ++ tableMember "headers" .string e.headers ++
    optionalMember "timeout" (fun n => .ofNat n.toNat) e.timeout ++
    optionalMember "connectTimeout" (fun n => .ofNat n.toNat) e.connectTimeout ++
    optionalMember "retries" (fun n => .ofNat n.toNat) e.retries

/-- The source of the schema as it is written. -/
def SchemaSource.written : SchemaSource → Json
  | .document path => .object [("path", .string path)]
  | .introspection => .string "introspection"

/-- The members that are written of a configuration; empty tables are left out. -/
def Config.members (c : Config) : Entries Json :=
  [("endpoint", .object c.endpoint.members), ("schema", c.schema.written),
      ("typename", .bool c.typename)] ++
    tableMember "scalars" (fun kind => .string kind.word) c.scalars ++
    tableMember "renames" textsToJson c.renames

/-- A configuration as it is written: its settings in a fixed order, and tables in the order of
their entries. -/
def Config.written (c : Config) : Json :=
  .object c.members

/-- A configuration in JSON, settings and entries in the order of their names. -/
def Config.toJson (c : Config) : Json :=
  c.written.normalize

end GraphQLClient
