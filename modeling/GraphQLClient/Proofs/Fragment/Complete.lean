import GraphQLClient.Proofs.Codec.Success
import GraphQLClient.Proofs.Fragment.Written

/-!
# Fragments that hold every selected field

Every field of a selection set reads a result of its own, from the value under its response key, and
a fragment holds these results under the accessors of the fields.  Two fields with different
response keys may have one accessor: an alias is the accessor of its field, and it may be the
accessor that another field asks for.  Then the fragment holds the result of one of them only.

## Main definitions

* `Field.Reads`, `Operation.Reads` : what a selection reads from data, with a condition on every
  fragment and the results of its fields.
* `Field.Keeps` : what a fragment holds of the results of its fields.

## Main results

* `Catalog.inflateField_reads` : the result of a field.
* `Catalog.inflate_reads` : the result of an operation.
-/

namespace GraphQLClient

mutual

/-- The result that a field reads from the value under its response key.  Every fragment in it meets
a condition on the fields of the selection set, on their own results, in the order of the selection,
and on what the fragment holds. -/
inductive Field.Reads (c : Catalog) (p : List Field → Entries Result → Entries Result → Prop) :
    Field → Json → Result → Prop
  | leaf {h : FieldHead} {j : Json} {v : Value}
      (hread : c.deserialize h.definition.type j = .ok v) :
      Field.Reads c p (.leaf h) j (.leaf v)
  | composite {h : FieldHead} {children : List Field} {j : Json} {r : Result}
      (hr : Field.ReadsAt c p children h.definition.type j r) :
      Field.Reads c p (.composite h children) j r

/-- The result that is read at a place of a declared type, with fields selected below its name. -/
inductive Field.ReadsAt (c : Catalog) (p : List Field → Entries Result → Entries Result → Prop) :
    List Field → TypeExpr → Json → Result → Prop
  | null (children : List Field) (type : TypeExpr) : Field.ReadsAt c p children type .null .null
  | list {children : List Field} {item : TypeExpr} {required : Bool} {js : List Json}
      {rs : List Result} (hitems : Field.ReadsItems c p children item js rs) :
      Field.ReadsAt c p children (.list item required) (.array js) (.list rs)
  | fragment {children : List Field} {name : String} {required : Bool} {members : Entries Json}
      {own fields : Entries Result} (hown : Field.ReadsFields c p children members own)
      (hfields : p children own fields) :
      Field.ReadsAt c p children (.named name required) (.object members)
        (.fragment (typeNameOf name members) fields)

/-- The results that are read from the items of an array, one after the other. -/
inductive Field.ReadsItems (c : Catalog)
    (p : List Field → Entries Result → Entries Result → Prop) :
    List Field → TypeExpr → List Json → List Result → Prop
  | nil (children : List Field) (item : TypeExpr) : Field.ReadsItems c p children item [] []
  | cons {children : List Field} {item : TypeExpr} {j : Json} {js : List Json} {r : Result}
      {rs : List Result} (hr : Field.ReadsAt c p children item j r)
      (hrest : Field.ReadsItems c p children item js rs) :
      Field.ReadsItems c p children item (j :: js) (r :: rs)

/-- The results that fields read from the members of an object, each from the value under its own
response key and under its own accessor, in the order of the selection.  A missing value reads as
null. -/
inductive Field.ReadsFields (c : Catalog)
    (p : List Field → Entries Result → Entries Result → Prop) :
    List Field → Entries Json → Entries Result → Prop
  | nil (members : Entries Json) : Field.ReadsFields c p [] members []
  | cons {f : Field} {rest : List Field} {members : Entries Json} {r : Result}
      {own : Entries Result}
      (hr : Field.Reads c p f ((Entries.get? members f.responseKey).getD .null) r)
      (hrest : Field.ReadsFields c p rest members own) :
      Field.ReadsFields c p (f :: rest) members ((f.accessor, r) :: own)

end

/-- The result that an operation reads from data. -/
def Operation.Reads (c : Catalog) (p : List Field → Entries Result → Entries Result → Prop)
    (o : Operation) (data : Json) (r : Fragment) : Prop :=
  ∃ members own, data = .object members ∧ r.typeName = typeNameOf o.rootType members ∧
    Field.ReadsFields c p o.selections members own ∧ p o.selections own r.fields

/-- What a fragment holds of the results of its fields: of those under one accessor the last, in
place of the first.  So it holds one entry for each field, in order and with the result of its own,
exactly if no two fields have one accessor. -/
def Field.Keeps (children : List Field) (own fields : Entries Result) : Prop :=
  fields = Entries.putAll [] own ∧ (fields = own ↔ (Field.accessors children).Nodup)

theorem Field.ReadsFields.keys_own {c : Catalog}
    {p : List Field → Entries Result → Entries Result → Prop} : {fields : List Field} →
      {members : Entries Json} → {own : Entries Result} →
        Field.ReadsFields c p fields members own → Entries.keys own = Field.accessors fields
  | _, _, _, .nil _ => rfl
  | _, _, _, .cons _ hrest => congrArg (_ :: ·) hrest.keys_own

theorem Field.ReadsFields.keeps {c : Catalog}
    {p : List Field → Entries Result → Entries Result → Prop} {children : List Field}
    {members : Entries Json} {own : Entries Result}
    (hown : Field.ReadsFields c p children members own) :
    Field.Keeps children own (Entries.putAll [] own) :=
  ⟨rfl, hown.keys_own ▸ Entries.putAll_nil_eq_iff⟩

namespace Catalog

variable {c : Catalog} {p : List Field → Entries Result → Entries Result → Prop}

/-! ### Lists of a declared type -/

theorem readsItems_of_inflateItems {read : Json → Path → Except ShapeError Result}
    {children : List Field} {item : TypeExpr}
    (hread : ∀ j path r, read j path = .ok r → Field.ReadsAt c p children item j r) {path : Path}
    {n : Nat} {js : List Json} {rs : List Result} (h : inflateItems read path n js = .ok rs) :
    Field.ReadsItems c p children item js rs := by
  induction js generalizing n rs with
  | nil =>
    rw [inflateItems] at h
    cases h
    exact .nil children item
  | cons j js ih =>
    rw [inflateItems] at h
    split at h
    · cases h
    · rename_i r hr
      obtain ⟨rs, hrest, rfl⟩ := exceptMap_eq_ok.mp h
      exact .cons (hread _ _ _ hr) (ih hrest)

theorem readsAt_of_inflateLayers
    {object : String → List (String × Json) → Path → Except ShapeError Result}
    {children : List Field}
    (hobject : ∀ name required members path r, object name members path = .ok r →
      Field.ReadsAt c p children (.named name required) (.object members) r) {type : TypeExpr}
    {j : Json} {path : Path} {r : Result} (h : inflateLayers object type j path = .ok r) :
    Field.ReadsAt c p children type j r := by
  induction type generalizing j path r with
  | named name required =>
    cases j with
    | null =>
      rw [inflateLayers] at h
      cases h
      exact .null children _
    | object members =>
      rw [inflateLayers] at h
      exact hobject _ _ _ _ _ h
    | bool _ | number _ | string _ | array _ => simp [inflateLayers] at h
  | list item required ih =>
    cases j with
    | null =>
      rw [inflateLayers] at h
      cases h
      exact .null children _
    | array js =>
      rw [inflateLayers, exceptMap_eq_ok] at h
      obtain ⟨rs, hitems, rfl⟩ := h
      exact .list (readsItems_of_inflateItems (fun _ _ _ => ih) hitems)
    | bool _ | number _ | string _ | object _ => simp [inflateLayers] at h

/-! ### Results of fields -/

mutual

/-- The result of a field. -/
theorem inflateField_reads : (f : Field) → {j : Json} → {path : Path} → {r : Result} →
    c.inflateField f j path = .ok r → f.Reads c Field.Keeps j r
  | .leaf h, j, path, r, hr => by
      rw [inflateField] at hr
      split at hr
      · rename_i v hread
        cases hr
        exact .leaf hread
      · cases hr
  | .composite h children, j, path, r, hr => by
      rw [inflateField_composite] at hr
      refine .composite (readsAt_of_inflateLayers ?_ hr)
      intro name required members path r hobject
      rw [inflateObject, exceptMap_eq_ok] at hobject
      obtain ⟨_, hfragment, rfl⟩ := hobject
      obtain ⟨own, hown, rfl⟩ := exceptMap_eq_ok.mp hfragment
      have hreads := inflateFields_reads children hown
      exact .fragment hreads hreads.keeps

/-- The results of fields. -/
theorem inflateFields_reads : (fields : List Field) → {members : Entries Json} → {path : Path} →
    {own : Entries Result} →
      c.inflateFields fields members path = .ok own →
        Field.ReadsFields c Field.Keeps fields members own
  | [], members, path, own, hown => by
      rw [inflateFields] at hown
      cases hown
      exact .nil members
  | f :: rest, members, path, own, hown => by
      rw [inflateFields] at hown
      split at hown
      · cases hown
      · rename_i r hr
        obtain ⟨own, hrest, rfl⟩ := exceptMap_eq_ok.mp hown
        exact .cons (inflateField_reads f hr) (inflateFields_reads rest hrest)

end

/-- The result of an operation comes from the members of an object. -/
theorem inflate_eq_ok {o : Operation} {data : Json} {r : Fragment} (h : c.inflate o data = .ok r) :
    ∃ members own, data = .object members ∧ c.inflateFields o.selections members [] = .ok own ∧
      Fragment.ofPairs (typeNameOf o.rootType members) own = r := by
  cases data with
  | object members =>
    rw [inflate_object, inflateObject, exceptMap_eq_ok] at h
    obtain ⟨own, hown, hr⟩ := h
    exact ⟨members, own, rfl, hown, hr⟩
  | null | bool _ | number _ | string _ | array _ => simp [inflate] at h

/-- **What the fragments of a result hold.** Every fragment in the result of an operation holds, in
the order of the selection, one entry for each selected field with the result that the field reads
from its own value, exactly if no two fields of the selection set have one accessor. -/
theorem inflate_reads {o : Operation} {data : Json} {r : Fragment}
    (h : c.inflate o data = .ok r) : o.Reads c Field.Keeps data r := by
  cases data with
  | object members =>
    rw [inflate_object, inflateObject, exceptMap_eq_ok] at h
    obtain ⟨own, hown, rfl⟩ := h
    have hreads := inflateFields_reads o.selections hown
    exact ⟨members, own, rfl, rfl, hreads, hreads.keeps⟩
  | null | bool _ | number _ | string _ | array _ => simp [inflate] at h

theorem inflate_crewData_reads :
    crews.inflate crewOperation crewData = .ok crewResult ∧
      crewOperation.Reads crews Field.Keeps crewData crewResult :=
  have h : crews.inflate crewOperation crewData = .ok crewResult := rfl
  ⟨h, inflate_reads h⟩

/-! ### A name under the accessor of another field -/

/-- Where a character appears, and its name under the accessor of the first field. -/
def appearanceOperation : Operation :=
  ⟨.query, none, "Query",
    [.leaf ⟨"Query", ⟨none, "appearsIn", [], .named "String" false, []⟩, none, "appears_in", []⟩,
      (Field.leaf ⟨"Query", ⟨none, "name", [], .named "String" false, []⟩, none, "name", []⟩
        ).withAlias "appears_in"],
    true⟩

/-- The two fields have response keys of their own and one accessor, and the place of the first is
taken by the name. -/
theorem inflate_appearanceOperation :
    appearanceOperation.EverySelectionSet (fun fields => (Field.responseKeys fields).Nodup) ∧
      appearanceOperation.selections.length = 2 ∧
      crews.inflate appearanceOperation
          (.object [("appearsIn", .string "JEDI"), ("appears_in", .string "Luke")]) =
        .ok ⟨"Query", [("appears_in", .leaf (.string "Luke"))]⟩ :=
  ⟨⟨by decide, trivial, trivial, trivial⟩, rfl, rfl⟩

end Catalog

end GraphQLClient
