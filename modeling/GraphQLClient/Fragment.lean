import GraphQLClient.Json.Printer
import GraphQLClient.Value

/-!
# Results

A result has the shape of the selection that asked for it: leaves hold native values, and objects
are fragments, which hold results under accessor names in the order of the selection and carry the
name of their type.

## Main definitions

* `Result`, `Fragment` : results, and the records of them.
* `Fragment.ofPairs` : the fragment of results written one after the other.
* `Result.toJson` : the JSON form of a result, under accessor names.
-/

namespace GraphQLClient

/-- The result of a field. -/
inductive Result where
  /-- The value of a leaf, or null in place of any value. -/
  | leaf (v : Value)
  | list (items : List Result)
  | fragment (typeName : String) (fields : List (String × Result))

instance : Inhabited Result := ⟨.leaf .null⟩

/-- Results under accessor names, in order of the selection, with the name of their type. -/
structure Fragment where
  typeName : String
  fields : Entries Result

namespace Fragment

/-- The fragment of results written one after the other. -/
def ofPairs (typeName : String) (pairs : Entries Result) : Fragment :=
  ⟨typeName, Entries.putAll [] pairs⟩

/-- The result under an accessor name. -/
def get? (f : Fragment) (accessor : String) : Option Result :=
  f.fields.get? accessor

/-- A fragment as a result. -/
def toResult (f : Fragment) : Result :=
  .fragment f.typeName f.fields

end Fragment

namespace Result

/-- Null in place of any value. -/
def null : Result := .leaf .null

/-- The value of a leaf. -/
def leaf? : Result → Option Value
  | .leaf v => some v
  | _ => none

/-- The items of a list. -/
def list? : Result → Option (List Result)
  | .list items => some items
  | _ => none

/-- A result as a fragment. -/
def fragment? : Result → Option Fragment
  | .fragment typeName fields => some ⟨typeName, fields⟩
  | _ => none

/-- Whether a result is null. -/
def isNull (r : Result) : Bool :=
  r.leaf?.any Value.isNull

/-- The member of an enumeration. -/
def enum? (r : Result) : Option String :=
  match r with
  | .leaf (.enum member) => some member
  | _ => none

/-- The result under an accessor name, if a result is a fragment that has it. -/
def get? (r : Result) (accessor : String) : Option Result :=
  r.fragment?.bind fun f => f.get? accessor

mutual

/-- The JSON form of a result. -/
def toJson : Result → Json
  | .leaf v => v.toJson
  | .list items => .array (itemsToJson items)
  | .fragment _ fields => .object (fieldsToJson fields)

/-- The JSON forms of the items of a list. -/
def itemsToJson : List Result → List Json
  | [] => []
  | item :: rest => toJson item :: itemsToJson rest

/-- The JSON forms of the fields of a fragment, in order. -/
def fieldsToJson : List (String × Result) → List (String × Json)
  | [] => []
  | (name, value) :: rest => (name, toJson value) :: fieldsToJson rest

end

end Result

/-- The JSON form of a fragment. -/
def Fragment.toJson (f : Fragment) : Json := f.toResult.toJson

/-- The text of a fragment with one field on each line. -/
def Fragment.pretty (f : Fragment) : String := f.toJson.pretty

end GraphQLClient
