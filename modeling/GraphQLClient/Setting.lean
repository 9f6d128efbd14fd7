import GraphQLClient.Record
import GraphQLClient.Text.Blank

/-!
# Settings

A setting is what a configuration text says, whatever format it is written in: a truth value, an
integer, a text, a list or a table.  A format may leave open what a text stands for; then the place
where it is read decides.  Formats also differ in what they allow in place of a record and in what
stands for nothing.

## Main definitions

* `Setting` : settings, with `Setting.Word` for texts whose place decides.
* `Setting.Dialect` : the decisions in which formats differ.
* `Setting.record?`, `Setting.entries?`, `Setting.choice?` : a setting as a record, as a table of
  free keys, and as one of several alternatives.
* `Setting.string?`, `Setting.bool?`, `Setting.below?` : a setting as a text, a truth value and a
  bounded number.
-/

namespace GraphQLClient

/-- A text whose place decides what it stands for. -/
structure Setting.Word where
  /-- The characters, from which truth values, numbers and alternatives are read. -/
  raw : String
  /-- What the word is as a text, if it is one. -/
  text? : Option String
  /-- The name of an alternative that stands before the word. -/
  label : Option String
  /-- Whether the word stands for nothing where a value may be missing. -/
  isAbsent : Bool
  /-- Whether the word stands for an empty table. -/
  isVoid : Bool
  /-- Whether the word may stand where nothing is read. -/
  isIgnorable : Bool

/-- What a configuration text says. -/
inductive Setting where
  | null
  | bool (b : Bool)
  | int (i : Int)
  | string (s : String)
  /-- A text whose place decides what it stands for. -/
  | word (w : Setting.Word)
  | list (items : List Setting)
  | table (entries : List (Setting × Setting))
  /-- A table some of whose entries are taken over from other tables. -/
  | merged (entries : List (Setting × Setting))
  /-- A value that no setting of a configuration has. -/
  | other
  /-- What may stand nowhere, not even where nothing is read. -/
  | faulty

namespace Setting

/-- The decisions in which formats differ. -/
structure Dialect where
  /-- Whether a record may be given by a list of its first fields. -/
  positional : Bool
  /-- Whether such a list may be longer than the record. -/
  surplus : Bool
  /-- Whether an empty table or list, and not null, stands for nothing. -/
  emptyIsNothing : Bool

/-! ### Texts whose place decides -/

/-- Whether a bare text stands for null. -/
def isNullWord (s : String) : Bool :=
  s.isEmpty || s == "~" || s.toLower == "null"

/-- The truth value that a text stands for. -/
def truth? (s : String) : Option Bool :=
  let s := (Text.trim s).toLower
  if ["true", "yes", "y", "on"].contains s then some true
  else if ["false", "no", "n", "off"].contains s then some false
  else none

/-- The base that the start of a number tells, and the digits after it. -/
def radix (s : List Char) : Nat × List Char :=
  match s with
  | '0' :: c :: rest =>
    if c = 'x' || c = 'X' then (16, rest)
    else if c = 'o' || c = 'O' then (8, rest)
    else if c = 'b' || c = 'B' then (2, rest)
    else (10, s)
  | _ => (10, s)

/-- The value of a digit of a base. -/
def digitValue? (base : Nat) (c : Char) : Option Nat :=
  (Json.Source.hexValue? c).filter fun d => d < base

/-- The number that digits of a base write after those of a number.  Single low lines may stand
between digits. -/
def moreDigits? (base : Nat) (n : Nat) : List Char → Option Nat
  | [] => some n
  | '_' :: c :: rest => (digitValue? base c).bind fun d => moreDigits? base (base * n + d) rest
  | c :: rest => (digitValue? base c).bind fun d => moreDigits? base (base * n + d) rest

/-- The number written by digits of a base, the first of them without a low line before it. -/
def digits? (base : Nat) (s : List Char) : Option Nat :=
  match s with
  | [] => none
  | c :: _ => if c = '_' then none else moreDigits? base 0 s

/-- The number that a text stands for. -/
def number? (s : String) : Option Nat :=
  let s := Text.trimChars s.toList
  let s :=
    match s with
    | '+' :: rest => rest
    | _ => s
  let (base, digits) := radix s
  digits? base digits

/-! ### Reading a setting -/

/-- A setting as a text. -/
def string? : Setting → Option String
  | .string s => some s
  | .word w => w.text?
  | _ => none

/-- A setting as a truth value. -/
def bool? : Setting → Option Bool
  | .bool b => some b
  | .word w => truth? w.raw
  | _ => none

/-- A setting as a number below a bound. -/
def below? (bound : Nat) : Setting → Option Nat
  | .int i => if 0 ≤ i ∧ i.toNat < bound then some i.toNat else none
  | .word w =>
    match number? w.raw with
    | some n => if n < bound then some n else none
    | none => none
  | _ => none

/-- A setting that may be null. -/
def nullable {α : Type} (read : Setting → Option α) : Setting → Option (Option α)
  | .null => some none
  | .word w => if w.isAbsent then some none else (read (.word w)).map some
  | s => (read s).map some

/-- The entries of a table whose keys are all texts. -/
def named? : List (Setting × Setting) → Option (Entries Setting)
  | [] => some []
  | (key, value) :: rest =>
    match key.string? with
    | some key => (named? rest).map ((key, value) :: ·)
    | none => none

/-- The entries of a table. -/
def entries? : Setting → Option (Entries Setting)
  | .table entries => named? entries
  | .merged entries => named? entries
  | .word w => if w.isVoid then some [] else none
  | _ => none

/-- A table of free keys whose values are read the same way.  Of the values under a repeated key the
last counts. -/
def map? {α : Type} (read : Setting → Option α) (s : Setting) : Option (Entries α) :=
  s.entries?.bind fun entries =>
    (entries.mapM fun entry => (read entry.2).map fun value => (entry.1, value)).map
      (Entries.putAll [])

mutual

/-- Whether a setting may stand where nothing is read. -/
def isIgnorable : Setting → Bool
  | .word w => w.isIgnorable
  | .list items => itemsAreIgnorable items
  | .table entries => entriesAreIgnorable entries
  | .merged entries => entriesAreIgnorable entries
  | .faulty => false
  | _ => true

/-- Whether all items may stand where nothing is read. -/
def itemsAreIgnorable : List Setting → Bool
  | [] => true
  | item :: rest => isIgnorable item && itemsAreIgnorable rest

/-- Whether all entries may stand where nothing is read. -/
def entriesAreIgnorable : List (Setting × Setting) → Bool
  | [] => true
  | (key, value) :: rest => isIgnorable key && isIgnorable value && entriesAreIgnorable rest

end

/-- A setting as a record with given fields.  What else a table has may be anything that may stand
where nothing is read. -/
def record? (d : Dialect) (names : List String) (s : Setting) : Option (Record Setting) :=
  match s with
  | .list items => if d.positional then Record.ofItems? names d.surplus items else none
  | s =>
    s.entries?.bind fun entries =>
      if entries.all fun (name, value) => names.contains name || value.isIgnorable then
        Record.ofMembers? names entries
      else none

/-- A setting as one of several alternatives with given names: the name of the alternative, and what
comes with it.  An alternative is given by its name alone, by a table of one entry, or by its name
as the label of a word.  A label may also tell the kind of all the alternatives. -/
def choice? (kind : String) (names : List String) : Setting → Option (String × Option Setting)
  | .table [(.string name, value)] => some (name, some value)
  | .table [(.word name, value)] => some (name.raw, some value)
  | .string name => some (name, none)
  | .word w =>
    match w.label with
    | none => some (w.raw, none)
    | some label =>
      if label == kind then some (w.raw, none)
      else if names.contains label then some (label, some (.word w))
      else none
  | _ => none

/-- Whether a setting stands for nothing. -/
def isNothing (d : Dialect) : Setting → Bool
  | .null => true
  | .word w => w.isVoid
  | .list items => d.emptyIsNothing && items.isEmpty
  | .table entries => d.emptyIsNothing && entries.isEmpty
  | _ => false

/-- The name of an alternative that comes with nothing. -/
def plainChoice? (d : Dialect) (kind : String) (names : List String) (s : Setting) :
    Option String :=
  match s.choice? kind names with
  | some (name, none) => some name
  | some (name, some value) => if value.isNothing d then some name else none
  | none => none

/-! ### Settings written in JSON -/

/-- In JSON a record may be given by a list that is no longer, and null is nothing. -/
def Dialect.json : Dialect := ⟨true, false, false⟩

mutual

/-- The setting that a JSON text writes. -/
def ofSource : Json.Source → Setting
  | .null => .null
  | .bool b => .bool b
  | .number (some (.int i _)) => .int i
  | .number _ => .other
  | .string (some s) => .string s
  | .string none => .other
  | .array items => .list (ofSources items)
  | .object members => .table (ofMembers members)

/-- The settings that the items of an array write. -/
def ofSources : List Json.Source → List Setting
  | [] => []
  | item :: rest => ofSource item :: ofSources rest

/-- The entries that the members of an object write. -/
def ofMembers : List (Option String × Json.Source) → List (Setting × Setting)
  | [] => []
  | (some name, value) :: rest => (.string name, ofSource value) :: ofMembers rest
  | (none, value) :: rest => (.other, ofSource value) :: ofMembers rest

end

end Setting

end GraphQLClient
