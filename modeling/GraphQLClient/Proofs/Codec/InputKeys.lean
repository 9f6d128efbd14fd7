import GraphQLClient.Proofs.Document.Places

/-!
# The keys of input objects

The keys of an input object are given under their declared names or as accessor names, and each is
written under the declared name that it stands for.  So the keys of an object literal at the place
of an input object are known from the keys that were given, and two of them are the same exactly if
two of the given ones stand for the same declared name.  Objects at the places of scalars have keys
of their own, which the schema does not describe.

## Main definitions

* `Sdl.declaredName` : the declared name that a given name stands for.
* `Literal.EveryInput`, `Value.EveryInput` : a property of the keys of every input object in a
  literal, and of the declared names for the keys in a value.

## Main results

* `Catalog.keys_argumentsOf`, `Catalog.keys_serializeFields` : the names under which arguments and
  fields of input objects are written.
* `Catalog.everyInput_serialize` : the keys of the input objects in the literal of a value.
-/

namespace GraphQLClient

/-- The declared name that a given name stands for: itself if it is declared, else its wire form. -/
def Sdl.declaredName (definitions : List InputValue) (name : String) : String :=
  if definitions.any fun d => d.name == name then name else Name.toWire name

/-- The fields of the input object that is declared at a place. -/
def Schema.inputAt? (s : Schema) : Option TypeExpr → Option (List Sdl.InputValue)
  | some (.named typeName _) => s.inputFieldsOf? typeName
  | _ => none

namespace Literal

mutual

/-- A property holds of the keys of every object in a literal that stands at the place of an input
object. -/
def EveryInput (s : Schema) (p : List String → Prop) (type? : Option TypeExpr) : Literal → Prop
  | .null => True
  | .boolean _ => True
  | .int _ => True
  | .float _ => True
  | .string _ => True
  | .enum _ => True
  | .var _ => True
  | .list items => itemsEveryInput s p (type?.bind TypeExpr.item?) items
  | .object fields =>
    match s.inputAt? type? with
    | none => True
    | some definitions => p (Entries.keys fields) ∧ fieldsEveryInput s p definitions fields

/-- A property holds of the keys of every input object in the items of a list. -/
def itemsEveryInput (s : Schema) (p : List String → Prop) (type? : Option TypeExpr) :
    List Literal → Prop
  | [] => True
  | item :: rest => EveryInput s p type? item ∧ itemsEveryInput s p type? rest

/-- A property holds of the keys of every input object in the fields of an input object, or in the
arguments of a field. -/
def fieldsEveryInput (s : Schema) (p : List String → Prop) (definitions : List Sdl.InputValue) :
    List (String × Literal) → Prop
  | [] => True
  | (name, value) :: rest =>
    EveryInput s p (Sdl.declaredType? definitions name) value ∧
      fieldsEveryInput s p definitions rest

end

end Literal

namespace Value

mutual

/-- A property holds of the declared names for the keys of every object in a value that stands at
the place of an input object. -/
def EveryInput (s : Schema) (p : List String → Prop) (type? : Option TypeExpr) : Value → Prop
  | .null => True
  | .boolean _ => True
  | .int _ => True
  | .float _ => True
  | .string _ => True
  | .enum _ => True
  | .var _ => True
  | .dateTime _ => True
  | .json _ => True
  | .list items => itemsEveryInput s p (type?.bind TypeExpr.item?) items
  | .object fields =>
    match s.inputAt? type? with
    | none => True
    | some definitions =>
      p ((Entries.keys fields).map (Sdl.declaredName definitions)) ∧
        fieldsEveryInput s p definitions fields

/-- A property holds of the declared names for the keys of every input object in the items of a
list. -/
def itemsEveryInput (s : Schema) (p : List String → Prop) (type? : Option TypeExpr) :
    List Value → Prop
  | [] => True
  | item :: rest => EveryInput s p type? item ∧ itemsEveryInput s p type? rest

/-- A property holds of the declared names for the keys of every input object in the fields of an
input object, or in the arguments of a field. -/
def fieldsEveryInput (s : Schema) (p : List String → Prop) (definitions : List Sdl.InputValue) :
    List (String × Value) → Prop
  | [] => True
  | (key, value) :: rest =>
    EveryInput s p (Sdl.declaredType? definitions (Sdl.declaredName definitions key)) value ∧
      fieldsEveryInput s p definitions rest

end

end Value

/-! ### Places that the schema does not describe -/

section

variable {s : Schema} {p : List String → Prop}

mutual

theorem Literal.everyInput_none : (l : Literal) → l.EveryInput s p none
  | .null | .boolean _ | .int _ | .float _ | .string _ | .enum _ | .var _ => by
      rw [EveryInput]
      trivial
  | .list items => by
      rw [EveryInput]
      exact itemsEveryInput_none items
  | .object fields => by
      rw [EveryInput, Schema.inputAt?]
      · trivial
      · simp

theorem Literal.itemsEveryInput_none : (items : List Literal) →
    Literal.itemsEveryInput s p none items
  | [] => by
      rw [itemsEveryInput]
      trivial
  | item :: rest => by
      rw [itemsEveryInput]
      exact ⟨everyInput_none item, itemsEveryInput_none rest⟩

end

mutual

theorem Value.everyInput_none : (v : Value) → v.EveryInput s p none
  | .null | .boolean _ | .int _ | .float _ | .string _ | .enum _ | .var _ | .dateTime _
  | .json _ => by
      rw [EveryInput]
      trivial
  | .list items => by
      rw [EveryInput]
      exact itemsEveryInput_none items
  | .object fields => by
      rw [EveryInput, Schema.inputAt?]
      · trivial
      · simp

theorem Value.itemsEveryInput_none : (items : List Value) → Value.itemsEveryInput s p none items
  | [] => by
      rw [itemsEveryInput]
      trivial
  | item :: rest => by
      rw [itemsEveryInput]
      exact ⟨everyInput_none item, itemsEveryInput_none rest⟩

end

theorem Value.everyInput_of_isSingle (type? : Option TypeExpr) {v : Value}
    (hv : v.isSingle = true) : v.EveryInput s p type? := by
  cases v with
  | null | var _ | list _ | object _ => simp [isSingle] at hv
  | boolean _ | int _ | float _ | string _ | enum _ | dateTime _ | json _ =>
    rw [EveryInput]
    trivial

end

namespace Catalog

/-! ### Declared names -/

theorem name_of_inputField? {definitions : List Sdl.InputValue} {key : String}
    {definition : Sdl.InputValue} (h : inputField? definitions key = some definition) :
    definition.name = Sdl.declaredName definitions key := by
  rw [Sdl.declaredName]
  rcases Option.or_eq_some_iff.mp h with h | ⟨hnone, h⟩
  · have hname : definition.name = key := by simpa using List.find?_some h
    rw [if_pos (List.any_eq_true.mpr ⟨definition, List.mem_of_find?_eq_some h, by simp [hname]⟩),
      hname]
  · have hname : definition.name = Name.toWire key := by simpa using List.find?_some h
    rw [if_neg (by simpa using hnone), hname]

theorem name_of_argument? {h : FieldHead} {name : String} {definition : Sdl.InputValue}
    (hd : h.argument? name = some definition) :
    definition.name = Sdl.declaredName h.definition.args name :=
  name_of_inputField? hd

/-- Entries that are written one by one have the names under which each of them is written. -/
theorem keys_of_forall₂ {f : String → String} {given : Entries Value} {written : Entries Literal}
    (h : List.Forall₂ (fun p q => q.1 = f p.1) given written) :
    Entries.keys written = (Entries.keys given).map f := by
  induction h with
  | nil => rfl
  | cons hname _ ih => exact congrArg₂ List.cons hname ih

variable {c : Catalog} {table table' : Variables}

/-- The fields of an input object are written under their declared names. -/
theorem keys_serializeFields {typeName : String} {definitions : List Sdl.InputValue}
    {fields : List (String × Value)} {ls : List (String × Literal)}
    (h : c.serializeFields typeName definitions fields table = (.ok ls, table')) :
    Entries.keys ls = (Entries.keys fields).map (Sdl.declaredName definitions) := by
  refine keys_of_forall₂ ((serializeFields_forall₂ h).imp ?_)
  rintro given written ⟨definition, -, -, hdefinition, hname, -⟩
  rw [hname, name_of_inputField? hdefinition]

/-- The arguments of a field are written under their declared names. -/
theorem keys_argumentsOf {head : FieldHead} {arguments : Entries Value}
    {ls : List (String × Literal)}
    (h : c.argumentsOf head arguments table = .ok (ls, table')) :
    Entries.keys ls = (Entries.keys arguments).map (Sdl.declaredName head.definition.args) := by
  refine keys_of_forall₂ ((argumentsOf_forall₂ h).imp ?_)
  rintro given written ⟨definition, -, -, hdefinition, hname, -⟩
  rw [hname, name_of_argument? hdefinition]

/-! ### The input objects in the literal of a value -/

variable {p : List String → Prop}

/-- A value that is written as a whole has no part at the place of an input object. -/
theorem everyInput_of_serializeWhole {typeName : String} {required : Bool} {v : Value}
    {l : Literal} (h : c.serializeWhole typeName v = .ok l) :
    l.EveryInput c.schema p (some (.named typeName required)) := by
  cases l with
  | null | boolean _ | int _ | float _ | string _ | enum _ | var _ =>
    rw [Literal.EveryInput]
    trivial
  | list items =>
    rw [Literal.EveryInput]
    exact Literal.itemsEveryInput_none items
  | object fields =>
    have hinput : c.schema.inputAt? (some (.named typeName required)) = none := by
      rw [Schema.inputAt?, Schema.inputFieldsOf?]
      split
      · rename_i hbody
        simp only [serializeWhole, hbody, reduceCtorEq] at h
      · rfl
    simp only [Literal.EveryInput, hinput]

mutual

/-- The keys of the input objects in the literal of a value are the declared names for the keys of
those in the value. -/
theorem everyInput_serialize (c : Catalog) : (type : TypeExpr) → (v : Value) →
    {table table' : Variables} → {l : Literal} →
      c.serialize type v table = (.ok l, table') →
        (l.EveryInput c.schema p (some type) ↔ v.EveryInput c.schema p (some type))
  | type, .null, _, _, _, h => by
      rw [serialize_null] at h
      cases h
      rw [Literal.EveryInput, Value.EveryInput]
  | type, .var name, _, _, _, h => by
      rw [serialize_var] at h
      obtain ⟨-, rfl, -⟩ := Variables.record_eq_ok.mp h
      rw [Literal.EveryInput, Value.EveryInput]
  | .list item _, .list items, _, _, _, h => by
      obtain ⟨ls, rfl, hitems⟩ := serialize_list_eq_ok.mp h
      rw [Literal.EveryInput, Value.EveryInput]
      exact itemsEveryInput_serializeItems c item items hitems
  | .named typeName required, .list items, _, _, _, h => by
      rw [serialize_list_named, Prod.mk.injEq] at h
      rw [Value.EveryInput]
      exact iff_of_true (everyInput_of_serializeWhole h.1) (Value.itemsEveryInput_none items)
  | .list item required, .object fields, _, _, _, h => by
      rw [serialize_object_list] at h
      simp at h
  | .named typeName required, .object fields, _, _, _, h => by
      cases hdefinitions : c.schema.inputFieldsOf? typeName with
      | none =>
        rw [serialize_object_whole required hdefinitions, Prod.mk.injEq] at h
        refine iff_of_true (everyInput_of_serializeWhole h.1) ?_
        simp only [Value.EveryInput, Schema.inputAt?, hdefinitions]
      | some definitions =>
        obtain ⟨ls, rfl, hfields⟩ := (serialize_input_eq_ok hdefinitions).mp h
        simp only [Literal.EveryInput, Value.EveryInput, Schema.inputAt?, hdefinitions,
          keys_serializeFields hfields]
        exact and_congr_right'
          (fieldsEveryInput_serializeFields c typeName definitions fields hfields)
  | type, .boolean _, _, _, _, h | type, .int _, _, _, _, h | type, .float _, _, _, _, h
  | type, .string _, _, _, _, h | type, .enum _, _, _, _, h | type, .dateTime _, _, _, _, h
  | type, .json _, _, _, _, h => by
      rw [serialize_of_isSingle type rfl, Prod.mk.injEq] at h
      obtain ⟨typeName, required, rfl, hwhole⟩ := serializeSingle_eq_ok.mp h.1
      exact iff_of_true (everyInput_of_serializeWhole hwhole) (Value.everyInput_of_isSingle _ rfl)

theorem itemsEveryInput_serializeItems (c : Catalog) (type : TypeExpr) : (items : List Value) →
    {table table' : Variables} → {ls : List Literal} →
      c.serializeItems type items table = (.ok ls, table') →
        (Literal.itemsEveryInput c.schema p (some type) ls ↔
          Value.itemsEveryInput c.schema p (some type) items)
  | [], _, _, _, h => by
      rw [serializeItems_nil] at h
      cases h
      rw [Literal.itemsEveryInput, Value.itemsEveryInput]
  | item :: rest, _, _, _, h => by
      obtain ⟨l, ls', middle, rfl, hitem, hrest⟩ := serializeItems_cons_eq_ok.mp h
      rw [Literal.itemsEveryInput, Value.itemsEveryInput]
      exact and_congr (everyInput_serialize c type item hitem)
        (itemsEveryInput_serializeItems c type rest hrest)

theorem fieldsEveryInput_serializeFields (c : Catalog) (typeName : String)
    (definitions : List Sdl.InputValue) : (fields : List (String × Value)) →
      {table table' : Variables} → {ls : List (String × Literal)} →
        c.serializeFields typeName definitions fields table = (.ok ls, table') →
          (Literal.fieldsEveryInput c.schema p definitions ls ↔
            Value.fieldsEveryInput c.schema p definitions fields)
  | [], _, _, _, h => by
      rw [serializeFields_nil] at h
      cases h
      rw [Literal.fieldsEveryInput, Value.fieldsEveryInput]
  | (key, value) :: rest, _, _, _, h => by
      obtain ⟨definition, l, ls', middle, hdefinition, rfl, hvalue, hrest⟩ :=
        serializeFields_cons_eq_ok.mp h
      rw [Literal.fieldsEveryInput, Value.fieldsEveryInput, ← name_of_inputField? hdefinition,
        declaredType?_of_inputField? hdefinition]
      exact and_congr (everyInput_serialize c definition.type value hvalue)
        (fieldsEveryInput_serializeFields c typeName definitions rest hrest)

end

/-- The keys of the input objects in the arguments of a field are the declared names for the keys
that were given. -/
theorem fieldsEveryInput_argumentsOf {head : FieldHead} {arguments : Entries Value}
    {ls : List (String × Literal)}
    (h : c.argumentsOf head arguments table = .ok (ls, table')) :
    Literal.fieldsEveryInput c.schema p head.definition.args ls ↔
      Value.fieldsEveryInput c.schema p head.definition.args arguments := by
  induction arguments generalizing table ls with
  | nil =>
    rw [argumentsOf_nil] at h
    cases h
    rw [Literal.fieldsEveryInput, Value.fieldsEveryInput]
  | cons argument rest ih =>
    obtain ⟨name, value⟩ := argument
    obtain ⟨definition, l, ls', middle, hdefinition, rfl, hvalue, hrest⟩ :=
      argumentsOf_cons_eq_ok.mp h
    rw [Literal.fieldsEveryInput, Value.fieldsEveryInput, ← name_of_argument? hdefinition,
      declaredType?_of_argument? hdefinition]
    exact and_congr (everyInput_serialize c definition.type value hvalue) (ih hrest)

end Catalog

end GraphQLClient
