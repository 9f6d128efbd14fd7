import GraphQLClient.Catalog
import GraphQLClient.Config.Load
import GraphQLClient.Http.Transport
import GraphQLClient.Introspection.Fetch

/-!
# Connections

A connection is made from a configuration: the transport to the address, the schema from a document
or from the server, and the codecs and accessor names that the configuration adds to it.

## Main definitions

* `Catalog.configured` : a catalog with the codecs and the accessor names of a configuration.
* `Connection` : a catalog with a transport.
* `Connection.Error` : why there is no connection, with `Connection.Error.message?`.
* `FileSystem.loadSchema` : the schema of a document.
* `FileSystem.connect`, `FileSystem.connectFrom` : the connection of a configuration, and of the
  nearest configuration.
-/

namespace GraphQLClient

/-- A catalog with the codecs and the accessor names of a configuration. -/
def Catalog.configured (c : Catalog) (config : Config) : Catalog :=
  let c := config.scalars.foldl (fun c (name, kind) => c.withScalar name kind.codec) c
  config.renameTriples.foldl
    (fun c (typeName, field, accessor) => c.withRename typeName field accessor) c

/-- A catalog with the transport to the server that it describes. -/
structure Connection where
  catalog : Catalog
  transport : Http.Transport
  /-- Whether the type of every object below the root is asked for. -/
  typename : Bool

/-- Why there is no connection. -/
inductive Connection.Error where
  | transport (e : TransportError)
  | config (e : Config.Error)
  /-- No configuration is in a directory or above it. -/
  | noConfig (directory : FilePath)
  | schemaFile (path : FilePath) (e : FileError)
  /-- The document of the schema is not valid. -/
  | schemaDocument
  | fetch (e : Introspection.FetchError)

/-- The text of a failure, for those that have one of their own. -/
def Connection.Error.message? : Connection.Error → Option String
  | .transport e => some e.message
  | .config e => some e.message
  | .noConfig directory =>
    some ("No config file found in " ++ directory.toText ++ " or its parents")
  | .schemaFile path e =>
    some ("Failed to read schema file " ++ path.toText ++ ": " ++ e.message)
  | .schemaDocument => none
  | .fetch e => e.message?

namespace FileSystem

/-- The schema of the document that a path leads to. -/
def loadSchema (s : FileSystem) (path : FilePath) : Except Connection.Error Schema :=
  match s.read path with
  | .error e => .error (.schemaFile path e)
  | .ok text =>
    match Schema.parse? text with
    | some schema => .ok schema
    | none => .error .schemaDocument

/-- The schema that a configuration tells, with paths below a directory.  A server is asked for its
description by `ask`. -/
def schemaFor (s : FileSystem) (ask : Http.Transport → Reply) (t : Http.Transport)
    (source : SchemaSource) (directory : FilePath) : Except Connection.Error Schema :=
  match source with
  | .document path => s.loadSchema (directory.join (.ofText path))
  | .introspection => (Introspection.fetch (ask t)).mapError .fetch

/-- The connection of a configuration, with paths below a directory. -/
def connect (s : FileSystem) (ask : Http.Transport → Reply) (config : Config)
    (directory : FilePath) : Except Connection.Error Connection :=
  match Http.Transport.ofEndpoint config.endpoint with
  | .error e => .error (.transport e)
  | .ok t =>
    (s.schemaFor ask t config.schema directory).map fun schema =>
      ⟨(Catalog.ofSchema schema).configured config, t, config.typename⟩

/-- The connection of the nearest configuration of a directory. -/
def connectFrom (s : FileSystem) (ask : Http.Transport → Reply) (directory : FilePath) :
    Except Connection.Error Connection :=
  match s.findConfig directory with
  | none => .error (.noConfig directory)
  | some path =>
    match s.loadConfig path with
    | .error e => .error (.config e)
    | .ok config => s.connect ask config (path.parent?.getD directory)

end FileSystem

end GraphQLClient
