import GraphQLClient.FilePath

/-!
# File systems

A file system holds regular files and directories.  A path is followed from the root or from the
working directory, name by name: a point stays where it is, two points go up, and any other name
leads to what is there.  Only a directory can be passed through.  Names and paths have a greatest
length, counted in bytes, and hold no null character.

## Main definitions

* `FileSystem` : file systems.
* `FileSystem.follow` : what a path leads to.
* `FileSystem.read` : the text of the file that a path leads to.
* `FileError` : why a path leads to no text, with `FileError.message`.
-/

namespace GraphQLClient

/-- The names from the root down to a file or a directory. -/
abbrev Place := List String

/-- Regular files with their texts, and directories.  The directories above a file or a directory
are there without being listed. -/
structure FileSystem where
  /-- The directory in which relative paths start. -/
  working : Place
  files : List (Place × String)
  directories : List Place

/-- Why a path leads to no text. -/
inductive FileError where
  | notFound
  /-- A name in the middle of the path leads to a file. -/
  | notDirectory
  | isDirectory
  /-- The path, or a name in it, has too many bytes. -/
  | tooLong
  /-- The path holds a null character. -/
  | nullCharacter
  deriving DecidableEq, Repr

/-- The text of a failure, as the operating system words it. -/
def FileError.message : FileError → String
  | .notFound => "No such file or directory (os error 2)"
  | .notDirectory => "Not a directory (os error 20)"
  | .isDirectory => "Is a directory (os error 21)"
  | .tooLong => "File name too long (os error 36)"
  | .nullCharacter => "file name contained an unexpected NUL byte"

/-- What stands at a place. -/
inductive FileSystem.Node where
  | file (text : String)
  | directory

namespace FileSystem

/-- What stands at a place, if anything does. -/
def at? (s : FileSystem) (place : Place) : Option Node :=
  match s.files.lookup place with
  | some text => some (.file text)
  | none =>
    if place.isEmpty || place.isPrefixOf s.working || s.directories.any place.isPrefixOf ||
        s.files.any fun (p, _) => place.isPrefixOf p then
      some .directory
    else none

/-- The greatest number of bytes in a name. -/
def nameLimit : Nat := 255

/-- The greatest number of bytes in a path. -/
def pathLimit : Nat := 4095

/-- The place that a path leads to, from a place that was reached. -/
def walk (s : FileSystem) (place : Place) : List String → Except FileError Place
  | [] => .ok place
  | name :: rest =>
    match s.at? place with
    | none => .error .notFound
    | some (.file _) => .error .notDirectory
    | some .directory =>
      if nameLimit < name.utf8ByteSize then .error .tooLong
      else if FilePath.isIdle name then walk s place rest
      else if name = ".." then walk s place.dropLast rest
      else walk s (place ++ [name]) rest

/-- What a path leads to.  The empty path leads nowhere. -/
def follow (s : FileSystem) (p : FilePath) : Except FileError Node :=
  if p.toText.contains '\x00' then .error .nullCharacter
  else if !p.absolute && p.segments.isEmpty then .error .notFound
  else if pathLimit < p.toText.utf8ByteSize then .error .tooLong
  else
    (s.walk (if p.absolute then [] else s.working) p.segments).bind fun place =>
      match s.at? place with
      | some node => .ok node
      | none => .error .notFound

/-- Whether a path leads to a regular file. -/
def isFile (s : FileSystem) (p : FilePath) : Bool :=
  match s.follow p with
  | .ok (.file _) => true
  | _ => false

/-- The text of the file that a path leads to. -/
def read (s : FileSystem) (p : FilePath) : Except FileError String :=
  match s.follow p with
  | .ok (.file text) => .ok text
  | .ok .directory => .error .isDirectory
  | .error e => .error e

end FileSystem

end GraphQLClient
