import GraphQLClient.DateTime.Parser
import GraphQLClient.Value.Text

/-!
# Scalar codecs

A schema only names its scalars; what values they hold is decided by codecs.  A codec turns native
values into JSON and JSON into native values.  The five scalars every schema knows have a codec
from the start, others may be registered, and a scalar without one passes any value as JSON.  Seven
codecs come with the library, and a caller may register any other pair of functions.

## Main definitions

* `Scalar` : the codecs, with `Scalar.isShipped` for those that come with the library.
* `Scalar.Error` : why a codec refuses a value, with `Scalar.Error.message`.
* `Scalar.serialize`, `Scalar.parse` : the two directions of a codec.
* `Scalars` : the codecs by name of scalar, with `Scalars.get` and `Scalars.areShipped`.
-/

namespace GraphQLClient

/-- A codec for the values of a scalar. -/
inductive Scalar where
  | int
  | float
  | string
  | boolean
  /-- Identifiers: strings and integers, always written as strings. -/
  | id
  | dateTime
  /-- Any value, as JSON. -/
  | custom
  /-- A codec of the caller: any two functions, each of which may refuse a value with a text. -/
  | given (write : Value → Except String Json) (read : Json → Except String Value)

namespace Scalar

/-- Whether a codec comes with the library. -/
def isShipped : Scalar → Bool
  | .given _ _ => false
  | _ => true

/-- Why a codec refuses a value. -/
inductive Error where
  /-- An integer that does not fit 32 bits. -/
  | tooWide (i : Int64)
  /-- A native value of another kind. -/
  | value (scalar : String) (v : Value)
  /-- A native value that is no date-time. -/
  | notDateTime (v : Value)
  /-- A JSON value of another kind. -/
  | wire (scalar : String) (j : Json)
  /-- What a codec of the caller says. -/
  | given (text : String)

/-- The text of a refusal. -/
def Error.message : Error → String
  | .tooWide i =>
    "Int cannot represent non 32-bit signed integer value: " ++
      String.ofList (Decimal.intChars i.toInt)
  | .value scalar v => scalar ++ " cannot represent " ++ v.toText
  | .notDateTime v => "Received not compatible datetime " ++ v.toText
  | .wire scalar j => scalar ++ " cannot represent " ++ j.compact
  | .given text => text

/-- Whether an integer fits 32 bits. -/
def fits32 (i : Int64) : Bool :=
  -0x80000000 ≤ i.toInt && i.toInt < 0x80000000

/-- The JSON form of a native value.  The members of an object are in the order of their names,
whichever codec writes it. -/
def serialize : Scalar → Value → Except Error Json
  | .int, .int i => if fits32 i then .ok (.ofInt64 i) else .error (.tooWide i)
  | .int, v => .error (.value "Int" v)
  | .float, .float (.finite x) => .ok (.number (.float x))
  | .float, .int i => .ok (.ofInt64 i)
  | .float, v => .error (.value "Float" v)
  | .string, .string s => .ok (.string s)
  | .string, v => .error (.value "String" v)
  | .boolean, .boolean b => .ok (.bool b)
  | .boolean, v => .error (.value "Boolean" v)
  | .id, .string s => .ok (.string s)
  | .id, .int i => .ok (.string (String.ofList (Decimal.intChars i.toInt)))
  | .id, v => .error (.value "ID" v)
  | .dateTime, .dateTime d => .ok (.string d.toText)
  | .dateTime, .string s =>
    if (DateTime.ofText? s).isSome then .ok (.string s) else .error (.notDateTime (.string s))
  | .dateTime, v => .error (.notDateTime v)
  | .custom, v => .ok v.toJson.normalize
  | .given write _, v => ((write v).map Json.normalize).mapError .given

/-- The native value of a JSON value. -/
def parse : Scalar → Json → Except Error Value
  | .int, .number (.int i h) =>
    if i < 0x8000000000000000 then .ok (.int (Int64.ofInt i))
    else .error (.wire "Int" (.number (.int i h)))
  | .int, j => .error (.wire "Int" j)
  | .float, .number n => .ok (.float n.toBinary64)
  | .float, j => .error (.wire "Float" j)
  | .string, .string s => .ok (.string s)
  | .string, j => .error (.wire "String" j)
  | .boolean, .bool b => .ok (.boolean b)
  | .boolean, j => .error (.wire "Boolean" j)
  | .id, .string s => .ok (.string s)
  | .id, .number (.int i h) =>
    if i < 0x8000000000000000 then .ok (.string (String.ofList (Decimal.intChars i)))
    else .error (.wire "ID" (.number (.int i h)))
  | .id, j => .error (.wire "ID" j)
  | .dateTime, .string s =>
    match DateTime.ofText? s with
    | some d => .ok (.dateTime d)
    | none => .error (.wire "DateTime" (.string s))
  | .dateTime, j => .error (.wire "DateTime" j)
  | .custom, .null => .ok .null
  | .custom, j => .ok (.json j)
  | .given _ read, j => (read j).mapError .given

end Scalar

/-- Codecs by name of scalar. -/
abbrev Scalars := List (String × Scalar)

namespace Scalars

/-- The codecs of the five scalars that every schema knows. -/
def builtin : Scalars :=
  [("Int", .int), ("Float", .float), ("String", .string), ("Boolean", .boolean), ("ID", .id)]

/-- Whether all the codecs that are registered come with the library. -/
def areShipped (scalars : Scalars) : Bool :=
  scalars.all fun (_, codec) => codec.isShipped

/-- Registers a codec for the scalar of a name, in place of the one it had. -/
def insert (scalars : Scalars) (name : String) (codec : Scalar) : Scalars :=
  Entries.put scalars name codec

/-- Whether a codec is registered for the scalar of a name. -/
def contains (scalars : Scalars) (name : String) : Bool :=
  Entries.contains scalars name

/-- The codec of the scalar of a name: the registered one, else the one that passes any value. -/
def get (scalars : Scalars) (name : String) : Scalar :=
  (Entries.get? scalars name).getD .custom

theorem get_insert (scalars : Scalars) (name : String) (codec : Scalar) (other : String) :
    get (insert scalars name codec) other = if other = name then codec else get scalars other := by
  unfold get insert
  rw [Entries.get?_put]
  split <;> rfl

end Scalars

end GraphQLClient
