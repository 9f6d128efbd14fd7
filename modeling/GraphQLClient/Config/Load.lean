import GraphQLClient.Config.Discovery
import GraphQLClient.Config.Validity
import GraphQLClient.Toml.Document
import GraphQLClient.Yaml.Setting

/-!
# Loading configurations

The extension of a path tells the format of a configuration.  A text is loaded when it is well
formed, describes a configuration, and the configuration is usable.

## Main definitions

* `Config.Format` : the formats, with `Config.Format.ofPath?`.
* `Config.Error` : why no configuration is loaded, with `Config.Error.message`.
* `Config.parse` : the configuration in a text.
* `FileSystem.loadConfig` : the configuration in a file.
-/

namespace GraphQLClient.Config

/-- The formats of configurations. -/
inductive Format where
  | yaml
  | json
  | toml
  deriving DecidableEq, Repr

/-- The name of a format. -/
def Format.name : Format → String
  | .yaml => "YAML"
  | .json => "JSON"
  | .toml => "TOML"

/-- The format that the extension of a path tells.  Capitals make a difference. -/
def Format.ofPath? (path : FilePath) : Option Format :=
  match path.extension? with
  | some "yml" => some .yaml
  | some "yaml" => some .yaml
  | some "json" => some .json
  | some "toml" => some .toml
  | _ => none

/-- The decisions of a format. -/
def Format.dialect : Format → Setting.Dialect
  | .yaml => .yaml
  | .json => .json
  | .toml => .toml

/-- What a text of a format says, if it is well formed. -/
def Format.setting? : Format → String → Option Setting
  | .yaml, text => Yaml.setting? text
  | .json, text => (Json.Source.parse? text).map Setting.ofSource
  | .toml, text => Toml.setting? text

/-- Why no configuration is loaded. -/
inductive Error where
  | unreadable (e : FileError)
  | unsupported (path : FilePath)
  /-- The text is not well formed, or describes no configuration. -/
  | malformed (path : FilePath) (format : Format)
  | faulty (path : FilePath) (fault : Fault)

/-- The text of a failure. -/
def Error.message : Error → String
  | .unreadable e => "Failed to read config file: " ++ e.message
  | .unsupported path => "Unsupported config format: " ++ path.toText
  | .malformed path format =>
    "Invalid config at " ++ path.toText ++ ": " ++ format.name ++ " parse error"
  | .faulty path fault => "Invalid config at " ++ path.toText ++ ": " ++ fault.message

/-- A configuration, if it is usable. -/
def check (path : FilePath) (c : Config) : Except Error Config :=
  match c.fault? with
  | none => .ok c
  | some fault => .error (.faulty path fault)

/-- The configuration in a text.  The path tells the format and is named by errors. -/
def parse (path : FilePath) (text : String) : Except Error Config :=
  match Format.ofPath? path with
  | none => .error (.unsupported path)
  | some format =>
    match (format.setting? text).bind (Config.ofSetting? format.dialect) with
    | none => .error (.malformed path format)
    | some c => check path c

end GraphQLClient.Config

namespace GraphQLClient

/-- The configuration in the file that a path leads to. -/
def FileSystem.loadConfig (s : FileSystem) (path : FilePath) : Except Config.Error Config :=
  match s.read path with
  | .error e => .error (.unreadable e)
  | .ok text => Config.parse path text

end GraphQLClient
