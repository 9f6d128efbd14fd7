import GraphQLClient.Json.Source

/-!
# Records

A record with named fields is given by members, in any order and among others that are passed
over, or by a list of the values of its first fields in their order.  A field may be required, may
have a default, or may be without a value, and the two ways of giving a record treat a missing
field differently.

## Main definitions

* `Record` : the fields that are given, and how.
* `Record.ofMembers?`, `Record.ofItems?` : the record of members and of a list.
* `Record.required`, `Record.orElse`, `Record.optional` : reading a field.
* `Json.Source.record?` : the record in a JSON text.
-/

namespace GraphQLClient

/-- The fields that are given of a record. -/
structure Record (α : Type) where
  /-- Whether the record is given by a list. -/
  positional : Bool
  fields : Entries α

namespace Record

variable {α β : Type}

/-- The record of members, those with other names passed over.  No field may be given twice. -/
def ofMembers? (names : List String) (members : Entries α) : Option (Record α) :=
  let known := members.filter fun (name, _) => names.contains name
  if (known.map Prod.fst).Nodup then some ⟨false, known⟩ else none

/-- The record of the values of its first fields.  Whether further values may follow is told by
`surplus`. -/
def ofItems? (names : List String) (surplus : Bool) (items : List α) : Option (Record α) :=
  if surplus || items.length ≤ names.length then some ⟨true, names.zip items⟩ else none

/-- A field that has to be given. -/
def required (r : Record α) (name : String) (read : α → Option β) : Option β :=
  (r.fields.get? name).bind read

/-- A field that has a default. -/
def orElse (r : Record α) (name : String) (default : β) (read : α → Option β) : Option β :=
  match r.fields.get? name with
  | none => some default
  | some a => read a

/-- A field that may be without a value: it may be missing, except in a list. -/
def optional (r : Record α) (name : String) (read : α → Option (Option β)) : Option (Option β) :=
  match r.fields.get? name with
  | none => if r.positional then none else some none
  | some a => read a

end Record

namespace Json.Source

/-- The names of the members of an object, if all of them have a value. -/
def named? : List (Option String × Source) → Option (Entries Source)
  | [] => some []
  | (some name, value) :: rest => (named? rest).map ((name, value) :: ·)
  | (none, _) :: _ => none

/-- The record of an object, or of an array of the values of its first fields. -/
def record? (names : List String) : Source → Option (Record Source)
  | .object members => (named? members).bind (Record.ofMembers? names)
  | .array items => Record.ofItems? names false items
  | _ => none

/-- The truth value of a JSON text. -/
def bool? : Source → Option Bool
  | .bool b => some b
  | _ => none

/-- The string of a JSON text. -/
def string? : Source → Option String
  | .string s => s
  | _ => none

/-- The items of an array, each read the same way. -/
def list? {α : Type} (read : Source → Option α) : Source → Option (List α)
  | .array items => items.mapM read
  | _ => none

/-- A value that may be null. -/
def nullable {α : Type} (read : Source → Option α) : Source → Option (Option α)
  | .null => some none
  | s => (read s).map some

end Json.Source

end GraphQLClient
