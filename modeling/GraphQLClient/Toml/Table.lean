import GraphQLClient.Setting

/-!
# Tables of TOML

The tables of a TOML document grow while it is read.  A table is defined once: by a header, by the
points in a key, or by the braces around its entries, which also close it.  A header may define a
table that was only passed through by another header.

## Main definitions

* `Toml.Origin`, `Toml.Item` : how a table was defined, and what stands under a key.
* `Toml.Table` : tables, with `Toml.Table.define?`, `Toml.Table.append?` and
  `Toml.Table.insert?`.
* `Toml.Table.toSetting` : what a table says.
-/

namespace GraphQLClient.Toml

/-- How a table was defined. -/
inductive Origin where
  /-- By a header of its own. -/
  | header
  /-- A header below it passed through it. -/
  | passed
  /-- By the points in a key. -/
  | points
  deriving DecidableEq, Repr

/-- What stands under a key. -/
inductive Item where
  | value (v : Setting)
  | table (origin : Origin) (entries : List (String × Item))
  /-- The tables of a repeated header; the last of them is open. -/
  | tables (before : List (List (String × Item))) (last : List (String × Item))

/-- A table that grows. -/
structure Table where
  origin : Origin
  entries : Entries Item

namespace Table

/-- The table of a whole document, or of a pair of braces, before any entry. -/
def empty : Table := ⟨.header, []⟩

/-- Changes the table that a path of keys leads to.  A table that is missing is made; of repeated
tables the last is meant.  The points of a key do not lead through a table that has a header. -/
def update? (missing : Origin) (f : Table → Option Table) : List String → Table → Option Table
  | [], t => f t
  | key :: rest, t =>
    match t.entries.get? key with
    | none =>
      (update? missing f rest ⟨missing, []⟩).map fun inner =>
        { t with entries := t.entries.put key (.table inner.origin inner.entries) }
    | some (.table origin entries) =>
      if missing = .points && origin = .header then none
      else
        (update? missing f rest ⟨origin, entries⟩).map fun inner =>
          { t with entries := t.entries.put key (.table inner.origin inner.entries) }
    | some (.tables before last) =>
      (update? missing f rest ⟨.header, last⟩).map fun inner =>
        { t with entries := t.entries.put key (.tables before inner.entries) }
    | some (.value _) => none

/-- Writes an item under a key that is not in use. -/
def add? (key : String) (item : Item) (t : Table) : Option Table :=
  if t.entries.contains key then none else some { t with entries := t.entries ++ [(key, item)] }

/-- Defines a table by a header. -/
def define? (path : List String) (key : String) : Table → Option Table :=
  update? .passed (fun t =>
    match t.entries.get? key with
    | none => t.add? key (.table .header [])
    | some (.table .passed entries) =>
      some { t with entries := t.entries.put key (.table .header entries) }
    | some _ => none) path

/-- Adds a table to those of a repeated header. -/
def append? (path : List String) (key : String) : Table → Option Table :=
  update? .passed (fun t =>
    match t.entries.get? key with
    | none => t.add? key (.tables [] [])
    | some (.tables before last) =>
      some { t with entries := t.entries.put key (.tables (before ++ [last]) []) }
    | some _ => none) path

/-- Writes a value under a key with points, in the table that a path leads to.  The points must have
defined the table that the value goes to, if there are any. -/
def insert? (path points : List String) (key : String) (v : Setting) : Table → Option Table :=
  update? .passed
    (update? .points (fun t =>
      if (t.origin = .points) = !points.isEmpty then t.add? key (.value v) else none) points) path

end Table

mutual

/-- What an item says. -/
def Item.toSetting : Item → Setting
  | .value v => v
  | .table _ entries => .table (entriesToSettings entries)
  | .tables before last => .list (tablesToSettings before ++ [.table (entriesToSettings last)])

/-- What the entries of a table say. -/
def entriesToSettings : List (String × Item) → List (Setting × Setting)
  | [] => []
  | (key, item) :: rest => (.string key, item.toSetting) :: entriesToSettings rest

/-- What the tables of a repeated header say. -/
def tablesToSettings : List (List (String × Item)) → List Setting
  | [] => []
  | entries :: rest => .table (entriesToSettings entries) :: tablesToSettings rest

end

/-- What a table says. -/
def Table.toSetting (t : Table) : Setting :=
  .table (entriesToSettings t.entries)

end GraphQLClient.Toml
