import GraphQLClient.Codec

/-!
# When a value has a literal

Writing a value at a place of a declared type goes by the value: null and variables stand at any
place, lists and objects are taken apart where the type describes their parts, and everything else
stands for itself.  For each case this file says what a successful outcome consists of, so that
later proofs follow the cases and leave the definitions alone.

## Main results

* `Catalog.serialize_list_eq_ok`, `Catalog.serialize_input_eq_ok` : the values that are taken apart.
* `Catalog.serialize_of_isSingle` : the values that stand for themselves.
* `Catalog.serializeItems_cons_eq_ok`, `Catalog.serializeFields_cons_eq_ok` : their parts, in order.
* `Variables.record_eq_ok` : the variables.
* `Literal.ofJsonItems_cons_eq_ok`, `Literal.ofJsonMembers_cons_eq_ok` : the parts of JSON values.
-/

namespace GraphQLClient

/-- A value that stands for itself at every place: no null, variable, list or object. -/
def Value.isSingle : Value → Bool
  | .null => false
  | .var _ => false
  | .list _ => false
  | .object _ => false
  | _ => true

/-- What succeeds after a change of its value succeeded before it. -/
theorem exceptMap_eq_ok {ε α β : Type} {f : α → β} {x : Except ε α} {b : β} :
    x.map f = .ok b ↔ ∃ a, x = .ok a ∧ f a = b := by
  cases x with
  | error e => simp [Except.map]
  | ok a => simp [Except.map]

namespace Literal

theorem ofJson_array_eq_ok {items : List Json} {l : Literal} :
    ofJson (.array items) = .ok l ↔ ∃ ls, l = .list ls ∧ ofJsonItems items = .ok ls := by
  rw [ofJson, exceptMap_eq_ok]
  simp only [and_comm, eq_comm]

theorem ofJson_object_eq_ok {members : List (String × Json)} {l : Literal} :
    ofJson (.object members) = .ok l ↔ ∃ ls, l = .object ls ∧ ofJsonMembers members = .ok ls := by
  rw [ofJson, exceptMap_eq_ok]
  simp only [and_comm, eq_comm]

/-- The items of an array are written one after the other. -/
theorem ofJsonItems_cons_eq_ok {item : Json} {rest : List Json} {ls : List Literal} :
    ofJsonItems (item :: rest) = .ok ls ↔
      ∃ l ls', ls = l :: ls' ∧ ofJson item = .ok l ∧ ofJsonItems rest = .ok ls' := by
  rw [ofJsonItems]
  cases ofJson item with
  | error e => simp
  | ok l =>
    rw [exceptMap_eq_ok]
    constructor
    · rintro ⟨ls', hls', rfl⟩
      exact ⟨l, ls', rfl, rfl, hls'⟩
    · rintro ⟨_, ls', rfl, ⟨⟩, hls'⟩
      exact ⟨ls', hls', rfl⟩

/-- The members of an object are written one after the other, under names. -/
theorem ofJsonMembers_cons_eq_ok {name : String} {value : Json} {rest : List (String × Json)}
    {ls : List (String × Literal)} :
    ofJsonMembers ((name, value) :: rest) = .ok ls ↔
      Name.isName name = true ∧ ∃ l ls', ls = (name, l) :: ls' ∧ ofJson value = .ok l ∧
        ofJsonMembers rest = .ok ls' := by
  rw [ofJsonMembers]
  by_cases hname : Name.isName name = true
  · rw [if_pos hname]
    cases ofJson value with
    | error e => simp
    | ok l =>
      rw [exceptMap_eq_ok]
      constructor
      · rintro ⟨ls', hls', rfl⟩
        exact ⟨hname, l, ls', rfl, rfl, hls'⟩
      · rintro ⟨-, _, ls', rfl, ⟨⟩, hls'⟩
        exact ⟨ls', hls', rfl⟩
  · rw [if_neg hname]
    simp [hname]

end Literal

/-- A variable is referred to by a name, which is known with the same type or new. -/
theorem Variables.record_eq_ok {table table' : Variables} {name : String} {type : TypeExpr}
    {l : Literal} :
    table.record name type = (.ok l, table') ↔
      Name.isName name = true ∧ l = .var name ∧
        (table.get? name = some type ∧ table' = table ∨
          table.get? name = none ∧ table' = table ++ [(name, type)]) := by
  unfold Variables.record
  by_cases hname : Name.isName name = true
  · rw [if_pos hname]
    cases hget : table.get? name with
    | none => simp [hname, eq_comm]
    | some known =>
      by_cases hknown : known = type
      · simp [hname, hknown, eq_comm]
      · simp [hknown]
  · rw [if_neg hname]
    simp [hname]

namespace Catalog

variable {c : Catalog} {table table' : Variables}

theorem serialize_var (type : TypeExpr) (name : String) :
    c.serialize type (.var name) table = table.record name type := by
  rw [serialize]

/-- A value that stands for itself meets no variable. -/
theorem serialize_of_isSingle (type : TypeExpr) {v : Value} (hv : v.isSingle = true) :
    c.serialize type v table = (c.serializeSingle type v, table) := by
  cases v with
  | null | var _ | list _ | object _ => simp [Value.isSingle] at hv
  | boolean _ | int _ | float _ | string _ | enum _ | dateTime _ | json _ => rw [serialize]

theorem serializeSingle_eq_ok {type : TypeExpr} {v : Value} {l : Literal} :
    c.serializeSingle type v = .ok l ↔
      ∃ typeName required, type = .named typeName required ∧
        c.serializeWhole typeName v = .ok l := by
  cases type with
  | named typeName required => simp [serializeSingle]
  | list item required => simp [serializeSingle]

/-- A list at a place of a list type is written item by item. -/
theorem serialize_list_eq_ok {item : TypeExpr} {required : Bool} {items : List Value}
    {l : Literal} :
    c.serialize (.list item required) (.list items) table = (.ok l, table') ↔
      ∃ ls, l = .list ls ∧ c.serializeItems item items table = (.ok ls, table') := by
  rw [serialize]
  rcases c.serializeItems item items table with ⟨_ | ls, t⟩
  · simp
  · constructor
    · rintro ⟨⟩
      exact ⟨ls, rfl, rfl⟩
    · rintro ⟨ls, rfl, ⟨⟩⟩
      rfl

theorem serialize_list_named (typeName : String) (required : Bool) (items : List Value) :
    c.serialize (.named typeName required) (.list items) table =
      (c.serializeWhole typeName (.list items), table) := by
  rw [serialize]

theorem serialize_object_list (item : TypeExpr) (required : Bool)
    (fields : List (String × Value)) :
    c.serialize (.list item required) (.object fields) table =
      (.error (.notList (.list item required) (.object fields)), table) := by
  rw [serialize]

/-- An object at a place of an input object is written field by field. -/
theorem serialize_input_eq_ok {typeName : String} {required : Bool}
    {definitions : List Sdl.InputValue}
    (hdefinitions : c.schema.inputFieldsOf? typeName = some definitions)
    {fields : List (String × Value)} {l : Literal} :
    c.serialize (.named typeName required) (.object fields) table = (.ok l, table') ↔
      ∃ ls, l = .object ls ∧
        c.serializeFields typeName definitions fields table = (.ok ls, table') := by
  rw [serialize]
  simp only [hdefinitions]
  rcases c.serializeFields typeName definitions fields table with ⟨_ | ls, t⟩
  · simp
  · constructor
    · rintro ⟨⟩
      exact ⟨ls, rfl, rfl⟩
    · rintro ⟨ls, rfl, ⟨⟩⟩
      rfl

theorem serialize_object_whole {typeName : String} (required : Bool)
    (hdefinitions : c.schema.inputFieldsOf? typeName = none) (fields : List (String × Value)) :
    c.serialize (.named typeName required) (.object fields) table =
      (c.serializeWhole typeName (.object fields), table) := by
  rw [serialize]
  simp only [hdefinitions]

/-- The items of a list are written one after the other. -/
theorem serializeItems_cons_eq_ok {type : TypeExpr} {item : Value} {rest : List Value}
    {ls : List Literal} :
    c.serializeItems type (item :: rest) table = (.ok ls, table') ↔
      ∃ l ls' middle, ls = l :: ls' ∧ c.serialize type item table = (.ok l, middle) ∧
        c.serializeItems type rest middle = (.ok ls', table') := by
  rw [serializeItems]
  constructor
  · intro h
    split at h
    · simp at h
    · rename_i l middle hitem
      split at h
      · simp at h
      · rename_i ls' after hrest
        cases h
        exact ⟨l, ls', middle, rfl, hitem, hrest⟩
  · rintro ⟨l, ls', middle, rfl, hitem, hrest⟩
    simp only [hitem, hrest]

/-- The fields of an input object are written one after the other, under their declared names. -/
theorem serializeFields_cons_eq_ok {typeName : String} {definitions : List Sdl.InputValue}
    {key : String} {value : Value} {rest : List (String × Value)}
    {ls : List (String × Literal)} :
    c.serializeFields typeName definitions ((key, value) :: rest) table = (.ok ls, table') ↔
      ∃ definition l ls' middle, inputField? definitions key = some definition ∧
        ls = (definition.name, l) :: ls' ∧
        c.serialize definition.type value table = (.ok l, middle) ∧
        c.serializeFields typeName definitions rest middle = (.ok ls', table') := by
  rw [serializeFields]
  constructor
  · intro h
    split at h
    · simp at h
    · rename_i definition hdefinition
      split at h
      · simp at h
      · rename_i l middle hvalue
        split at h
        · simp at h
        · rename_i ls' after hrest
          cases h
          exact ⟨definition, l, ls', middle, hdefinition, rfl, hvalue, hrest⟩
  · rintro ⟨definition, l, ls', middle, hdefinition, rfl, hvalue, hrest⟩
    simp only [hdefinition, hvalue, hrest]

end Catalog

end GraphQLClient
