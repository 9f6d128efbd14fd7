import GraphQLClient.Binary64
import GraphQLClient.Entries

/-!
# JSON values

A JSON number is an integer in the range that 64 bits with or without a sign can hold, or a finite
floating-point number.  An object keeps its members in the order given; the objects that are read
from a text are ordered by name and hold each name once (`Json.normalize` brings any value into
that form).

## Main definitions

* `Json.Number`, `Json` : numbers and values.
* `Json.normalize` : the same value with the members of every object in order of their names.
-/

namespace GraphQLClient

/-- A number of a JSON value. -/
inductive Json.Number where
  /-- An integer that fits 64 bits, with a sign or without. -/
  | int (value : Int) (fits : -0x8000000000000000 ≤ value ∧ value < 0x10000000000000000)
  | float (value : Finite64)
  deriving DecidableEq

/-- A JSON value. -/
inductive Json where
  | null
  | bool (value : Bool)
  | number (value : Json.Number)
  | string (value : String)
  | array (items : List Json)
  | object (members : List (String × Json))

instance : Inhabited Json := ⟨.null⟩

namespace Json

/-- The number nearest to a JSON number. -/
def Number.toBinary64 : Number → Binary64
  | .int i _ => .ofInt i
  | .float x => .finite x

/-- An integer as a JSON value; those out of range become the nearest floating-point number. -/
def ofInt (i : Int) : Json :=
  if h : -0x8000000000000000 ≤ i ∧ i < 0x10000000000000000 then .number (.int i h)
  else
    match Binary64.ofInt i with
    | .finite x => .number (.float x)
    | _ => .null

/-- A 64-bit integer as a JSON value. -/
def ofInt64 (i : Int64) : Json :=
  .number (.int i.toInt ⟨by have := i.le_toInt; omega, by have := i.toInt_lt; omega⟩)

/-- A natural number as a JSON value. -/
def ofNat (n : Nat) : Json :=
  ofInt n

/-- A floating-point number as a JSON value; JSON has no other than the finite ones. -/
def ofBinary64 : Binary64 → Json
  | .finite x => .number (.float x)
  | _ => .null

/-- An object with its members in order of their names. -/
def ofMembers (members : Entries Json) : Json :=
  .object (Entries.ofList members)

/-- The value under a name, if the value is an object that has the name. -/
def get? : Json → String → Option Json
  | .object members, name => Entries.get? members name
  | _, _ => none

mutual

/-- The same value with the members of every object in order of their names, each name once with
its last value. -/
def normalize : Json → Json
  | .array items => .array (normalizeItems items)
  | .object members => .object (Entries.ofList (normalizeMembers members))
  | .null => .null
  | .bool b => .bool b
  | .number n => .number n
  | .string s => .string s

/-- The items of an array, each with its members in order. -/
def normalizeItems : List Json → List Json
  | [] => []
  | item :: rest => normalize item :: normalizeItems rest

/-- The members of an object, each value with its members in order. -/
def normalizeMembers : List (String × Json) → List (String × Json)
  | [] => []
  | (name, value) :: rest => (name, normalize value) :: normalizeMembers rest

end

end Json

end GraphQLClient
