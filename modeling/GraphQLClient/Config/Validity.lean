import GraphQLClient.Config
import GraphQLClient.Name

/-!
# Usable configurations

A configuration is usable when its address is one of the web, its schema document has a path, and
the scalars and renamed fields have names of the query language.  The checks are made in a fixed
order, and the first that fails tells what is wrong.

## Main definitions

* `Config.Fault` : what is wrong with a configuration, with `Config.Fault.message`.
* `Config.fault?` : the first fault of a configuration.
-/

namespace GraphQLClient.Config

/-- What is wrong with a configuration. -/
inductive Fault where
  | emptyUrl
  /-- The address, without its margins, is not one of the web. -/
  | scheme (url : String)
  | emptySchemaPath
  | scalarName (name : String)
  /-- One of the three names of a rename is none. -/
  | rename (typeName field accessor name : String)
  deriving DecidableEq, Repr

/-- The text of a fault. -/
def Fault.message : Fault → String
  | .emptyUrl => "endpoint url is empty"
  | .scheme url => "endpoint url '" ++ url ++ "' must start with http:// or https://"
  | .emptySchemaPath => "schema path is empty"
  | .scalarName name => "'" ++ name ++ "' is not a valid scalar name"
  | .rename typeName field accessor name =>
    "rename " ++ typeName ++ "." ++ field ++ " -> " ++ accessor ++ ": '" ++ name ++
      "' is not a valid name"

/-- Whether an address starts as one of the web does. -/
def isWebUrl (url : String) : Bool :=
  Text.startsWith "http://".toList url.toList || Text.startsWith "https://".toList url.toList

/-- What is wrong with an address, margins aside. -/
def urlFault? (url : String) : Option Fault :=
  let url := Text.trim url
  if url.isEmpty then some .emptyUrl else if isWebUrl url then none else some (.scheme url)

/-- What is wrong with the source of the schema. -/
def schemaFault? : SchemaSource → Option Fault
  | .document path => if Text.isBlankText path then some .emptySchemaPath else none
  | .introspection => none

/-- The first of the names of a rename that is none. -/
def renameFault? (rename : String × String × String) : Option Fault :=
  let (typeName, field, accessor) := rename
  ([typeName, field, accessor].find? fun name => !Name.isName name).map
    (.rename typeName field accessor)

/-- The first fault of a configuration. -/
def fault? (c : Config) : Option Fault :=
  (urlFault? c.endpoint.url).or <|
    (schemaFault? c.schema).or <|
      ((c.scalars.keys.find? fun name => !Name.isName name).map .scalarName).or <|
        c.renameTriples.findSome? renameFault?

end GraphQLClient.Config
