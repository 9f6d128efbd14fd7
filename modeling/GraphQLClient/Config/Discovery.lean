import GraphQLClient.FileSystem

/-!
# Finding a configuration

A configuration is looked for in a directory, then in the one above, and so on.  In each directory
the names that it may have are tried in a fixed order.

## Main definitions

* `Config.fileNames` : the names, the preferred one first.
* `FileSystem.configIn?` : the configuration of one directory.
* `FileSystem.findConfig` : the nearest configuration.
-/

namespace GraphQLClient

/-- The names that a configuration may have, the preferred one first. -/
def Config.fileNames : List String :=
  [".graphql-dsl.yml", ".graphql-dsl.yaml", ".graphql-dsl.json", ".graphql-dsl.toml"]

namespace FileSystem

/-- The configuration of a directory. -/
def configIn? (s : FileSystem) (directory : FilePath) : Option FilePath :=
  (Config.fileNames.map fun name => directory.join ⟨false, [name]⟩).find? s.isFile

/-- The configuration of a directory or of the nearest directory above it. -/
def findConfig (s : FileSystem) (directory : FilePath) : Option FilePath :=
  match s.configIn? directory with
  | some found => some found
  | none =>
    match h : directory.parent? with
    | some above =>
      have := FilePath.length_parent_lt h
      s.findConfig above
    | none => none
termination_by directory.segments.length

end FileSystem

end GraphQLClient
