import GraphQLClient.Toml.Scalar
import GraphQLClient.Toml.Table

/-!
# TOML documents

A document is a sequence of lines: headers, which choose a table, and keys with their values, which
go to the table chosen last.  Values may hold others in brackets and braces.

## Main definitions

* `Toml.takeKey?` : the parts of a key between its points.
* `Toml.takeValue?` : a value.
* `Toml.setting?` : what a document says.
-/

namespace GraphQLClient.Toml

/-! ### Keys -/

/-- One part of a key. -/
def takePart? : List Char → Option (String × List Char)
  | '"' :: rest => (takeBasic? (rest.length + 1) rest).map fun (s, r) => (String.ofList s, r)
  | '\'' :: rest => (takeLiteral? rest).map fun (s, r) => (String.ofList s, r)
  | s =>
    let (bare, rest) := s.span isBare
    if bare.isEmpty then none else some (String.ofList bare, rest)

/-- The greatest number of parts in a key, and of brackets and braces around a value. -/
def nestingLimit : Nat := 80

/-- The parts of a key before the last, the last one, and the rest of the text without its leading
blanks.  The number of steps bounds the parts. -/
def takeParts? : Nat → List Char → Option (List String × String × List Char)
  | 0, _ => none
  | steps + 1, s =>
    match takePart? (skipSpace s) with
    | none => none
    | some (part, rest) =>
      match skipSpace rest with
      | '.' :: rest => (takeParts? steps rest).map fun (parts, last, r) => (part :: parts, last, r)
      | rest => some ([], part, rest)

/-- A key: its parts before the last, and the last one. -/
def takeKey? (s : List Char) : Option (List String × String × List Char) :=
  takeParts? nestingLimit s

/-! ### Values -/

mutual

/-- A value inside a number of brackets and braces, and the rest of the text.  The number of steps
bounds the calls that follow one another. -/
def takeValue? : Nat → Nat → List Char → Option (Setting × List Char)
  | 0, _, _ => none
  | steps + 1, depth, s =>
    match s with
    | '[' :: rest =>
      if depth < nestingLimit then
        (takeItems? steps (depth + 1) (skipVoid false rest)).map fun (items, r) => (.list items, r)
      else none
    | '\x7b' :: rest =>
      if depth < nestingLimit then
        (takeEntries? steps (depth + 1) .empty (skipVoid false rest)).map fun (t, r) =>
          (t.toSetting, r)
      else none
    | s =>
      match takeString? s with
      | some (content, rest) => some (.string (String.ofList content), rest)
      | none =>
        let (word, rest) := takeWord s
        (scalar? word).map fun v => (v, rest)

/-- The items of an array up to its end.  A comma may follow the last. -/
def takeItems? : Nat → Nat → List Char → Option (List Setting × List Char)
  | 0, _, _ => none
  | _ + 1, _, ']' :: rest => some ([], rest)
  | steps + 1, depth, s =>
    match takeValue? steps depth s with
    | none => none
    | some (item, rest) =>
      match skipVoid false rest with
      | ',' :: rest =>
        (takeItems? steps depth (skipVoid false rest)).map fun (items, r) => (item :: items, r)
      | ']' :: rest => some ([item], rest)
      | _ => none

/-- The entries between braces up to the closing one.  A comma may follow the last, and lines may
end around every sign but the points of a key. -/
def takeEntries? : Nat → Nat → Table → List Char → Option (Table × List Char)
  | 0, _, _, _ => none
  | _ + 1, _, t, '\x7d' :: rest => some (t, rest)
  | steps + 1, depth, t, s =>
    match takeKey? s with
    | none => none
    | some (points, key, rest) =>
      match skipVoid false rest with
      | '=' :: rest =>
        match takeValue? steps depth (skipVoid false rest) with
        | none => none
        | some (v, rest) =>
          match t.insert? [] points key v with
          | none => none
          | some t =>
            match skipVoid false rest with
            | ',' :: rest => takeEntries? steps depth t (skipVoid false rest)
            | '\x7d' :: rest => some (t, rest)
            | _ => none
      | _ => none

end

/-! ### Lines -/

/-- A document while it is read: its table, and the path of the table chosen last. -/
structure Progress where
  table : Table
  path : List String

/-- Reads a line that is not empty, and returns what follows it. -/
def takeLine? (p : Progress) (s : List Char) : Option (Progress × List Char) :=
  match s with
  | '[' :: '[' :: rest =>
    match takeKey? rest with
    | some (path, key, ']' :: ']' :: rest) => do
      let table ← p.table.append? path key
      let rest ← endLine? rest
      pure (⟨table, path ++ [key]⟩, rest)
    | _ => none
  | '[' :: rest =>
    match takeKey? rest with
    | some (path, key, ']' :: rest) => do
      let table ← p.table.define? path key
      let rest ← endLine? rest
      pure (⟨table, path ++ [key]⟩, rest)
    | _ => none
  | s =>
    match takeKey? s with
    | some (points, key, '=' :: rest) => do
      let (v, rest) ← takeValue? (rest.length + 1) 0 (skipSpace rest)
      let table ← p.table.insert? p.path points key v
      let rest ← endLine? rest
      pure (⟨table, p.path⟩, rest)
    | _ => none

/-- Reads the lines of a document.  The number of steps bounds the lines. -/
def takeLinesOf? : Nat → Progress → List Char → Option Table
  | 0, _, _ => none
  | steps + 1, p, s =>
    match skipVoid false s with
    | [] => some p.table
    | s => (takeLine? p s).bind fun (p, rest) => takeLinesOf? steps p rest

/-- What a document says.  A mark of the order of bytes may stand before it. -/
def setting? (text : String) : Option Setting :=
  let s :=
    match text.toList with
    | '\ufeff' :: rest => rest
    | s => s
  (takeLinesOf? (s.length + 1) ⟨.empty, []⟩ s).map Table.toSetting

end GraphQLClient.Toml

namespace GraphQLClient

/-- In TOML a record may be given by a list with items left over, and an empty table is nothing. -/
def Setting.Dialect.toml : Setting.Dialect := ⟨true, true, true⟩

end GraphQLClient
