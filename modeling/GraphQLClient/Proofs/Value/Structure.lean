import GraphQLClient.Proofs.Codec.Typing

/-!
# Values with the structure of JSON

A JSON value can be given as an argument in two forms: as the native value of its structure, or as
it is.  At a scalar without a codec of its own this makes no difference.  Such a scalar takes any
value and writes its JSON form, and the JSON form of the native value is the value that it was made
from, down to the order of the members and the sign of zero.

Native integers have 64 bits and a sign.  The larger ones that JSON has become the nearest
floating-point numbers, and these are not turned back.

## Main definitions

* `Json.integers` : the integers in a JSON value.

## Main results

* `Value.toJson_ofJson_iff` : the JSON values that come back from their native values.
* `Catalog.serialize_custom` : what is written at a scalar without a codec of its own.
* `Catalog.serialize_ofJson` : both forms of a JSON value are written alike.
-/

namespace GraphQLClient

/-! ### Integers -/

namespace Json

mutual

/-- The integers in a JSON value. -/
def integers : Json → List Int
  | .null => []
  | .bool _ => []
  | .number (.int i _) => [i]
  | .number (.float _) => []
  | .string _ => []
  | .array items => itemsIntegers items
  | .object members => membersIntegers members

/-- The integers in the items of an array. -/
def itemsIntegers : List Json → List Int
  | [] => []
  | item :: rest => integers item ++ itemsIntegers rest

/-- The integers in the members of an object. -/
def membersIntegers : List (String × Json) → List Int
  | [] => []
  | (_, value) :: rest => integers value ++ membersIntegers rest

end

end Json

/-! ### Native values and back -/

namespace Value

/-- A number comes back exactly if it is no integer that needs all 64 bits for its magnitude: such
an integer has become a floating-point number. -/
theorem toJson_ofNumber_iff (n : Json.Number) :
    (ofNumber n).toJson = .number n ↔
      ∀ i ∈ (Json.number n).integers, i < 0x8000000000000000 := by
  cases n with
  | float x =>
    rw [Json.integers]
    exact iff_of_true (by rw [ofNumber, toJson, Json.ofBinary64]) (by simp)
  | int i hi =>
    rw [Json.integers, List.forall_mem_singleton, ofNumber]
    by_cases hword : i < 0x8000000000000000
    · have hback : (Int64.ofInt i).toInt = i :=
        Int64.toInt_ofInt_of_le (by omega) (by omega)
      rw [if_pos hword, toJson, Json.ofInt64]
      simp only [hback, hword]
    · rw [if_neg hword, toJson]
      refine iff_of_false ?_ hword
      rcases Binary64.ofInt i with x | _ | _ <;> simp [Json.ofBinary64]

mutual

/-- A JSON value comes back from the native value of its structure exactly if all its integers are
native ones. -/
theorem toJson_ofJson_iff : (j : Json) →
    ((ofJson j).toJson = j ↔ ∀ i ∈ j.integers, i < 0x8000000000000000)
  | .null | .bool _ | .string _ => by
      rw [ofJson, toJson, Json.integers]
      exact iff_of_true rfl (by simp)
  | .number n => by
      rw [ofJson]
      exact toJson_ofNumber_iff n
  | .array items => by
      rw [ofJson, toJson, Json.array.injEq, Json.integers]
      exact itemsToJson_ofJsonItems_iff items
  | .object members => by
      rw [ofJson, toJson, Json.object.injEq, Json.integers]
      exact fieldsToJson_ofJsonMembers_iff members

theorem itemsToJson_ofJsonItems_iff : (items : List Json) →
    (itemsToJson (ofJsonItems items) = items ↔
      ∀ i ∈ Json.itemsIntegers items, i < 0x8000000000000000)
  | [] => by
      rw [ofJsonItems, itemsToJson, Json.itemsIntegers]
      exact iff_of_true rfl (by simp)
  | item :: rest => by
      rw [ofJsonItems, itemsToJson, List.cons.injEq, toJson_ofJson_iff item,
        itemsToJson_ofJsonItems_iff rest, Json.itemsIntegers, List.forall_mem_append]

theorem fieldsToJson_ofJsonMembers_iff : (members : List (String × Json)) →
    (fieldsToJson (ofJsonMembers members) = members ↔
      ∀ i ∈ Json.membersIntegers members, i < 0x8000000000000000)
  | [] => by
      rw [ofJsonMembers, fieldsToJson, Json.membersIntegers]
      exact iff_of_true rfl (by simp)
  | (name, value) :: rest => by
      rw [ofJsonMembers, fieldsToJson, List.cons.injEq, Prod.mk.injEq, toJson_ofJson_iff value,
        fieldsToJson_ofJsonMembers_iff rest, Json.membersIntegers, List.forall_mem_append,
        and_iff_right rfl]

end

/-- The native value of a JSON value refers to no variable, whatever its strings are. -/
theorem ofJson_ne_var (j : Json) (name : String) : ofJson j ≠ .var name := by
  rcases j with _ | _ | n | _ | _ | _ <;> simp only [ofJson, ne_eq, reduceCtorEq, not_false_eq_true]
  cases n <;> simp only [ofNumber, reduceCtorEq, not_false_eq_true]
  split <;> simp

end Value

/-! ### Scalars without a codec of their own -/

theorem Scalars.get_of_contains_eq_false {scalars : Scalars} {name : String}
    (h : scalars.contains name = false) : scalars.get name = .custom := by
  rw [contains, Entries.contains, Option.isSome_eq_false_iff, Option.isNone_iff_eq_none] at h
  rw [get, h, Option.getD_none]

namespace Catalog

variable {c : Catalog} {typeName : String}

theorem serializeWhole_custom (hbody : c.schema.body? typeName = some .scalar)
    (hcodec : c.scalars.contains typeName = false) (v : Value) :
    c.serializeWhole typeName v = Literal.ofJson v.toJson.normalize := by
  unfold serializeWhole
  simp only [hbody, Scalars.get_of_contains_eq_false hcodec, Scalar.serialize]

/-- At a scalar without a codec of its own, any value but a variable is written as its JSON form:
lists and objects are not taken apart, and null is as good as any other value. -/
theorem serialize_custom (hbody : c.schema.body? typeName = some .scalar)
    (hcodec : c.scalars.contains typeName = false) (required : Bool) {v : Value}
    (hv : ∀ name, v ≠ .var name) (table : Variables) :
    c.serialize (.named typeName required) v table =
      (Literal.ofJson v.toJson.normalize, table) := by
  have hfields : c.schema.inputFieldsOf? typeName = none := by
    unfold Schema.inputFieldsOf?
    rw [hbody]
  cases v with
  | null => rw [serialize_null, Value.toJson, Json.normalize, Literal.ofJson]
  | var name => exact absurd rfl (hv name)
  | list items => rw [serialize_list_named, serializeWhole_custom hbody hcodec]
  | object fields =>
    rw [serialize_object_whole required hfields, serializeWhole_custom hbody hcodec]
  | boolean _ | int _ | float _ | string _ | enum _ | dateTime _ | json _ =>
    rw [serialize_of_isSingle _ rfl, serializeSingle, serializeWhole_custom hbody hcodec]

/-- **Two forms of one JSON value.** At a scalar without a codec of its own, a JSON value whose
integers fit 64 bits with a sign is written alike as a native value and as it is: with the same
literal or the same error, and with no new variable.  The JSON form of the native value is the
value itself. -/
theorem serialize_ofJson (hbody : c.schema.body? typeName = some .scalar)
    (hcodec : c.scalars.contains typeName = false) (required : Bool) {j : Json}
    (hj : ∀ i ∈ j.integers, -0x8000000000000000 ≤ i ∧ i < 0x8000000000000000)
    (table : Variables) :
    c.serialize (.named typeName required) (.ofJson j) table =
        c.serialize (.named typeName required) (.json j) table ∧
      c.serialize (.named typeName required) (.json j) table =
        (Literal.ofJson j.normalize, table) ∧
      (Value.ofJson j).toJson = j := by
  have hback : (Value.ofJson j).toJson = j :=
    (Value.toJson_ofJson_iff j).mpr fun i hi => (hj i hi).2
  have hjson : c.serialize (.named typeName required) (.json j) table =
      (Literal.ofJson j.normalize, table) := by
    rw [serialize_custom hbody hcodec required (by simp), Value.toJson]
  refine ⟨?_, hjson, hback⟩
  rw [serialize_custom hbody hcodec required (Value.ofJson_ne_var j), hback, hjson]

/-- A label with a zero that has a sign, the largest finite number, the integers at both ends of the
range, nulls, and strings that look like a variable and a member of an enumeration. -/
def nestedLabel : Json :=
  .object
    [("bounds", .array [.ofInt (-0x8000000000000000), .null, .ofInt 0x7fffffffffffffff]),
      ("text", .array [.string "$size", .string "NEW"]),
      ("weights", .object [("least", .number (.float (.zero true))),
        ("most", .number (.float ⟨false, Fin.last 2046, Fin.last 0xfffffffffffff⟩))])]

/-- The literal of `nestedLabel`. -/
def nestedLabelLiteral : Literal :=
  .object
    [("bounds", .list [.int "-9223372036854775808", .null, .int "9223372036854775807"]),
      ("text", .list [.string "$size", .string "NEW"]),
      ("weights", .object [("least", .ofFinite (.zero true)),
        ("most", .ofFinite ⟨false, Fin.last 2046, Fin.last 0xfffffffffffff⟩)])]

theorem serialize_nestedLabel :
    searching.schema.body? "Labels" = some .scalar ∧
      searching.scalars.contains "Labels" = false ∧
      (∀ i ∈ nestedLabel.integers, -0x8000000000000000 ≤ i ∧ i < 0x8000000000000000) ∧
      searching.serialize (.named "Labels" true) (.ofJson nestedLabel) [] =
        searching.serialize (.named "Labels" true) (.json nestedLabel) [] ∧
      searching.serialize (.named "Labels" true) (.json nestedLabel) [] =
        (.ok nestedLabelLiteral, []) ∧
      (Value.ofJson nestedLabel).toJson = nestedLabel := by
  have hbody : searching.schema.body? "Labels" = some .scalar := rfl
  have hcodec : searching.scalars.contains "Labels" = false := by decide
  have hintegers : ∀ i ∈ nestedLabel.integers,
      -0x8000000000000000 ≤ i ∧ i < 0x8000000000000000 := by
    decide
  have hliteral : Literal.ofJson nestedLabel.normalize = .ok nestedLabelLiteral := rfl
  obtain ⟨hsame, hjson, hback⟩ := serialize_ofJson hbody hcodec true hintegers []
  exact ⟨hbody, hcodec, hintegers, hsame, hjson.trans (by rw [hliteral]), hback⟩

end Catalog

end GraphQLClient
