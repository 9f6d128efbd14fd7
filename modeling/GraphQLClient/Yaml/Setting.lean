import GraphQLClient.Setting
import GraphQLClient.Text.Base64
import GraphQLClient.Yaml.Document

/-!
# Settings written in YAML

A YAML document says what its root says.  A scalar keeps what its tag and its marks tell about it,
since its place decides what it stands for.  No key stands twice in a mapping.  A mapping may take
entries over from others under the key `<<`; its own entries win, and of the others the later ones.

## Main definitions

* `Yaml.Scalar.toWord` : what a scalar may stand for.
* `Yaml.Node.toSetting` : what a node says.
* `Yaml.setting?` : what a document says.
-/

namespace GraphQLClient.Yaml

/-! ### Scalars -/

namespace Scalar

/-- Whether a scalar is a plain word for null. -/
def isNullWord (s : Scalar) : Bool :=
  s.style = .plain && Setting.isNullWord s.text

/-- The text whose bytes a scalar writes in base 64, blanks aside. -/
def bytesText? (s : Scalar) : Option String :=
  let chars := s.text.toList.filter fun c => !Char.isWhitespace c
  (Text.base64Bytes? chars).bind fun bytes => String.fromUTF8? ⟨bytes.toArray⟩

/-- What a scalar is as a text.  A plain word for null is one only if its tag says so. -/
def text? (s : Scalar) : Option String :=
  match s.kind with
  | .text => some s.text
  | .bytes => s.bytesText?
  | .none => if s.isNullWord then none else some s.text
  | .custom => if s.isNullWord then none else some s.text
  | _ => none

/-- What a scalar may stand for. -/
def toWord (s : Scalar) : Setting.Word where
  raw := s.text
  text? := s.text?
  label := s.label
  isAbsent := s.kind = .null || (s.text.isEmpty && s.style ≠ .quoted) || s.isNullWord
  isVoid := s.isNullWord
  isIgnorable := s.kind = .null || (s.kind = .none && s.style = .plain) || s.text?.isSome

end Scalar

/-! ### Nodes -/

namespace Node

/-- Whether a node is the key under which entries of other mappings are taken over. -/
def isMerge : Node → Bool
  | .scalar s => s.text == "<<" && s.style = .plain && s.kind ≠ .text
  | _ => false

/-- An entry of a mapping: what tells its key apart, and what its key and its value say. -/
structure Entry where
  traits : List Trait
  key : Setting
  value : Setting

/-- What an entry says. -/
def Entry.toPair (e : Entry) : Setting × Setting := (e.key, e.value)

/-- Entries, and after them those that are taken over and have other keys. -/
def merge (own taken : List Entry) : List Entry :=
  taken.foldl (fun entries e =>
    if entries.any fun e' => e'.traits = e.traits then entries else entries ++ [e]) own

/-- The table of entries of a mapping and of those that it takes over.  A key that stands twice, or
entries taken over from what has none, are faults. -/
def tableOf (merging : Bool) (own : List Entry) (taken? : Option (List Entry)) : Setting :=
  match taken? with
  | none => .faulty
  | some taken =>
    if !(own.map Entry.traits).Nodup then .faulty
    else if merging then .merged ((merge own taken).map Entry.toPair)
    else .table (own.map Entry.toPair)

mutual

/-- What a node says. -/
def toSetting : Node → Setting
  | .scalar s => .word s.toWord
  | .sequence items => .list (itemsToSettings items)
  | .mapping entries =>
    tableOf (entries.any fun entry => entry.1.isMerge) (ownEntries entries) (takenEntries? entries)

/-- What the items of a sequence say. -/
def itemsToSettings : List Node → List Setting
  | [] => []
  | item :: rest => toSetting item :: itemsToSettings rest

/-- The entries of a mapping that it does not take over. -/
def ownEntries : List (Node × Node) → List Entry
  | [] => []
  | (key, value) :: rest =>
    if key.isMerge then ownEntries rest
    else ⟨key.traits, toSetting key, toSetting value⟩ :: ownEntries rest

/-- The entries that a mapping takes over, the later ones first. -/
def takenEntries? : List (Node × Node) → Option (List Entry)
  | [] => some []
  | (key, value) :: rest =>
    match takenEntries? rest with
    | none => none
    | some later => if key.isMerge then (offered? value).map (later ++ ·) else some later

/-- The entries that a node has to take over: those of a mapping, or of mappings in a sequence, the
later ones first. -/
def offered? : Node → Option (List Entry)
  | .scalar s => if s.isNullWord then some [] else none
  | .sequence items => itemsOffered? items
  | .mapping entries => (takenEntries? entries).map (ownEntries entries ++ ·)

/-- The entries that items have to take over, the later ones first. -/
def itemsOffered? : List Node → Option (List Entry)
  | [] => some []
  | item :: rest =>
    match itemsOffered? rest with
    | none => none
    | some later => (offered? item).map (later ++ ·)

end

end Node

/-- What a document says. -/
def setting? (text : String) : Option Setting :=
  (document? text).map Node.toSetting

end GraphQLClient.Yaml

namespace GraphQLClient

/-- In YAML a record is never given by a list, and null is nothing. -/
def Setting.Dialect.yaml : Setting.Dialect := ⟨false, false, false⟩

end GraphQLClient
