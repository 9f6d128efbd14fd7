import GraphQLClient.DateTime
import GraphQLClient.Json

/-!
# Native values

Arguments are built from native values, and the leaves of a response come back as native values.
The fields of an object keep the order in which they were first written.

## Main definitions

* `Value` : the values.
* `Value.kind` : the short name of the kind of a value.
* `Value.toJson`, `Value.ofJson` : the two conversions between values and JSON.
* `Value.text?`, `Value.int?`, `Value.number?`, … : readings of a value as one kind.
-/

namespace GraphQLClient

/-- A native value. -/
inductive Value where
  | null
  | boolean (b : Bool)
  | int (i : Int64)
  | float (x : Binary64)
  | string (s : String)
  /-- A member of an enumeration, by name. -/
  | enum (member : String)
  | list (items : List Value)
  | object (fields : List (String × Value))
  /-- A reference to a variable of the operation. -/
  | var (name : String)
  | dateTime (d : DateTime)
  /-- A value of a scalar that has no codec of its own, as JSON. -/
  | json (j : Json)

instance : Inhabited Value := ⟨.null⟩

namespace Value

/-- The short name of the kind of a value, for messages. -/
def kind : Value → String
  | .null => "null"
  | .boolean _ => "boolean"
  | .int _ => "int"
  | .float _ => "float"
  | .string _ => "string"
  | .enum _ => "enum"
  | .list _ => "list"
  | .object _ => "object"
  | .var _ => "variable"
  | .dateTime _ => "datetime"
  | .json _ => "json"

/-! ### Readings -/

/-- Whether a value is null. -/
def isNull : Value → Bool
  | .null => true
  | _ => false

/-- The text of a string or of a member of an enumeration. -/
def text? : Value → Option String
  | .string s => some s
  | .enum s => some s
  | _ => none

/-- The integer of a value. -/
def int? : Value → Option Int64
  | .int i => some i
  | _ => none

/-- The number of a value; an integer reads as the number nearest to it. -/
def number? : Value → Option Binary64
  | .float x => some x
  | .int i => some (.ofInt i.toInt)
  | _ => none

/-- The truth value of a value. -/
def boolean? : Value → Option Bool
  | .boolean b => some b
  | _ => none

/-- The date-time of a value. -/
def dateTime? : Value → Option DateTime
  | .dateTime d => some d
  | _ => none

/-- The items of a list. -/
def list? : Value → Option (List Value)
  | .list items => some items
  | _ => none

/-! ### JSON -/

mutual

/-- The JSON form of a value, as it travels in a payload of variables.  The fields of an object
keep their order; members of enumerations and references to variables become strings. -/
def toJson : Value → Json
  | .null => .null
  | .boolean b => .bool b
  | .int i => .ofInt64 i
  | .float x => .ofBinary64 x
  | .string s => .string s
  | .enum s => .string s
  | .list items => .array (itemsToJson items)
  | .object fields => .object (fieldsToJson fields)
  | .var name => .string ("$" ++ name)
  | .dateTime d => .string d.toText
  | .json j => j

/-- The JSON forms of the items of a list. -/
def itemsToJson : List Value → List Json
  | [] => []
  | item :: rest => toJson item :: itemsToJson rest

/-- The JSON forms of the fields of an object. -/
def fieldsToJson : List (String × Value) → List (String × Json)
  | [] => []
  | (name, value) :: rest => (name, toJson value) :: fieldsToJson rest

end

/-- The value of a JSON number: an integer if it fits 64 bits with a sign, else a number. -/
def ofNumber : Json.Number → Value
  | .int i _ => if i < 0x8000000000000000 then .int (Int64.ofInt i) else .float (.ofInt i)
  | .float x => .float (.finite x)

mutual

/-- The value with the structure of a JSON value. -/
def ofJson : Json → Value
  | .null => .null
  | .bool b => .boolean b
  | .number n => ofNumber n
  | .string s => .string s
  | .array items => .list (ofJsonItems items)
  | .object members => .object (ofJsonMembers members)

/-- The values of the items of an array. -/
def ofJsonItems : List Json → List Value
  | [] => []
  | item :: rest => ofJson item :: ofJsonItems rest

/-- The values of the members of an object. -/
def ofJsonMembers : List (String × Json) → List (String × Value)
  | [] => []
  | (name, value) :: rest => (name, ofJson value) :: ofJsonMembers rest

end

/-- An object with given fields; of two values under one name the first keeps its place and the
last its value. -/
def ofFields (fields : Entries Value) : Value :=
  .object (Entries.putAll [] fields)

end Value

end GraphQLClient
