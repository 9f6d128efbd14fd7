import GraphQLClient.Fragment.Inflate
import GraphQLClient.Proofs.Entries
import GraphQLClient.Proofs.Field.SelectionSets

/-!
# Reading back a written response

A result can be written as the data of a response: every fragment as an object under response keys,
with the name of its type, every list as an array, and every leaf as a JSON value that reads as it.
Reading the data along the same selection gives the result back, with its type names and its order.

The relation `Field.Writes` between results and data follows the selection: it peels the lists of
the declared type, and at the name it goes on with the fields that are selected below.  Reading
follows the same steps, so the law is an induction over the derivation.  An object is looked up by
response keys, which is why these have to be distinct, and a fragment is written by accessors, which
have to be distinct too.

## Main definitions

* `Field.Writes`, `Operation.Writes` : a result of a field or of an operation, and its data.
* `Field.Shaped`, `Operation.Shaped` : the results that have the shape of a selection.
* `Field.Distinct` : the selection sets in which no two fields share a key.

## Main results

* `Catalog.inflateField_of_writes` : reading back the data of a field.
* `Field.Shaped.exists_writes` : every result of the shape of a selection has data.
* `Catalog.inflate_of_shaped` : reading back the data of an operation.
-/

namespace GraphQLClient

/-! ### Results and their data -/

/-- The data of a fragment: its members under response keys, and the name of its type. -/
def Json.ofFragment (typeName : String) (members : Entries Json) : Json :=
  .ofMembers (("__typename", .string typeName) :: members)

mutual

/-- The data of a result of a field.  A leaf is written as any JSON value that reads as its
value. -/
inductive Field.Writes (c : Catalog) : Field → Result → Json → Prop
  | leaf {h : FieldHead} {v : Value} {j : Json}
      (hread : c.deserialize h.definition.type j = .ok v) :
      Field.Writes c (.leaf h) (.leaf v) j
  | composite {h : FieldHead} {children : List Field} {r : Result} {j : Json}
      (hr : Field.WritesAt c children h.definition.type r j) :
      Field.Writes c (.composite h children) r j

/-- The data of a result at a place of a declared type, with fields selected below its name. -/
inductive Field.WritesAt (c : Catalog) : List Field → TypeExpr → Result → Json → Prop
  | null (children : List Field) (type : TypeExpr) : Field.WritesAt c children type .null .null
  | list {children : List Field} {item : TypeExpr} {required : Bool} {rs : List Result}
      {js : List Json} (hitems : Field.WritesItems c children item rs js) :
      Field.WritesAt c children (.list item required) (.list rs) (.array js)
  | fragment {children : List Field} {name : String} {required : Bool} (typeName : String)
      {results : Entries Result} {members : Entries Json}
      (hfields : Field.WritesFields c children results members) :
      Field.WritesAt c children (.named name required) (.fragment typeName results)
        (.ofFragment typeName members)

/-- The data of the items of a list, one after the other. -/
inductive Field.WritesItems (c : Catalog) :
    List Field → TypeExpr → List Result → List Json → Prop
  | nil (children : List Field) (item : TypeExpr) : Field.WritesItems c children item [] []
  | cons {children : List Field} {item : TypeExpr} {r : Result} {j : Json} {rs : List Result}
      {js : List Json} (hr : Field.WritesAt c children item r j)
      (hrest : Field.WritesItems c children item rs js) :
      Field.WritesItems c children item (r :: rs) (j :: js)

/-- The data of the fields of a fragment: results under accessors, members under response keys. -/
inductive Field.WritesFields (c : Catalog) :
    List Field → Entries Result → Entries Json → Prop
  | nil : Field.WritesFields c [] [] []
  | cons {f : Field} {rest : List Field} {r : Result} {j : Json} {results : Entries Result}
      {members : Entries Json} (hr : Field.Writes c f r j)
      (hrest : Field.WritesFields c rest results members) :
      Field.WritesFields c (f :: rest) ((f.accessor, r) :: results)
        ((f.responseKey, j) :: members)

end

/-- The data of a result of an operation. -/
def Operation.Writes (c : Catalog) (o : Operation) (r : Fragment) (data : Json) : Prop :=
  ∃ members, Field.WritesFields c o.selections r.fields members ∧
    data = .ofFragment r.typeName members

/-- A selection set in which no two fields share a response key or an accessor, and no response key
is the one that carries the type. -/
def Field.Distinct (fields : List Field) : Prop :=
  (Field.responseKeys fields).Nodup ∧ (Field.accessors fields).Nodup ∧
    "__typename" ∉ Field.responseKeys fields

theorem Field.WritesFields.keys_members {c : Catalog} : {fields : List Field} →
    {results : Entries Result} → {members : Entries Json} →
      Field.WritesFields c fields results members →
        Entries.keys members = Field.responseKeys fields
  | _, _, _, .nil => rfl
  | _, _, _, .cons _ hrest => congrArg (_ :: ·) hrest.keys_members

theorem Field.WritesFields.keys_results {c : Catalog} : {fields : List Field} →
    {results : Entries Result} → {members : Entries Json} →
      Field.WritesFields c fields results members →
        Entries.keys results = Field.accessors fields
  | _, _, _, .nil => rfl
  | _, _, _, .cons _ hrest => congrArg (_ :: ·) hrest.keys_results

/-! ### Results of the shape of a selection -/

mutual

/-- A result has the shape of a field. -/
inductive Field.Shaped (c : Catalog) : Field → Result → Prop
  | leaf {h : FieldHead} {v : Value} (hread : ∃ j, c.deserialize h.definition.type j = .ok v) :
      Field.Shaped c (.leaf h) (.leaf v)
  | composite {h : FieldHead} {children : List Field} {r : Result}
      (hr : Field.ShapedAt c children h.definition.type r) :
      Field.Shaped c (.composite h children) r

/-- A result has the shape of a place of a declared type: null, or lists as the type says, or a
fragment with the fields selected below the name of the type. -/
inductive Field.ShapedAt (c : Catalog) : List Field → TypeExpr → Result → Prop
  | null (children : List Field) (type : TypeExpr) : Field.ShapedAt c children type .null
  | list {children : List Field} {item : TypeExpr} {required : Bool} {rs : List Result}
      (hitems : Field.ShapedItems c children item rs) :
      Field.ShapedAt c children (.list item required) (.list rs)
  | fragment {children : List Field} {name : String} {required : Bool} (typeName : String)
      {results : Entries Result} (hfields : Field.ShapedFields c children results) :
      Field.ShapedAt c children (.named name required) (.fragment typeName results)

/-- Every item of a list has the shape of its place. -/
inductive Field.ShapedItems (c : Catalog) : List Field → TypeExpr → List Result → Prop
  | nil (children : List Field) (item : TypeExpr) : Field.ShapedItems c children item []
  | cons {children : List Field} {item : TypeExpr} {r : Result} {rs : List Result}
      (hr : Field.ShapedAt c children item r) (hrest : Field.ShapedItems c children item rs) :
      Field.ShapedItems c children item (r :: rs)

/-- The results of the fields of a fragment, one for each accessor in the order of the selection. -/
inductive Field.ShapedFields (c : Catalog) : List Field → Entries Result → Prop
  | nil : Field.ShapedFields c [] []
  | cons {f : Field} {rest : List Field} {r : Result} {results : Entries Result}
      (hr : Field.Shaped c f r) (hrest : Field.ShapedFields c rest results) :
      Field.ShapedFields c (f :: rest) ((f.accessor, r) :: results)

end

/-- A result has the shape of the selection of an operation. -/
def Operation.Shaped (c : Catalog) (o : Operation) (r : Fragment) : Prop :=
  Field.ShapedFields c o.selections r.fields

mutual

/-- Every result of the shape of a field can be written. -/
theorem Field.Shaped.exists_writes {c : Catalog} : {f : Field} → {r : Result} →
    Field.Shaped c f r → ∃ j, Field.Writes c f r j
  | _, _, .leaf ⟨j, hread⟩ => ⟨j, .leaf hread⟩
  | _, _, .composite hr =>
      let ⟨j, hj⟩ := hr.exists_writes
      ⟨j, .composite hj⟩

/-- Every result of the shape of a place can be written. -/
theorem Field.ShapedAt.exists_writes {c : Catalog} : {children : List Field} →
    {type : TypeExpr} → {r : Result} →
      Field.ShapedAt c children type r → ∃ j, Field.WritesAt c children type r j
  | _, _, _, .null children type => ⟨.null, .null children type⟩
  | _, _, _, .list hitems =>
      let ⟨js, hjs⟩ := hitems.exists_writes
      ⟨.array js, .list hjs⟩
  | _, _, _, .fragment typeName hfields =>
      let ⟨members, hmembers⟩ := hfields.exists_writes
      ⟨.ofFragment typeName members, .fragment typeName hmembers⟩

/-- The items of a list can be written one after the other. -/
theorem Field.ShapedItems.exists_writes {c : Catalog} : {children : List Field} →
    {item : TypeExpr} → {rs : List Result} →
      Field.ShapedItems c children item rs → ∃ js, Field.WritesItems c children item rs js
  | _, _, _, .nil children item => ⟨[], .nil children item⟩
  | _, _, _, .cons hr hrest =>
      let ⟨j, hj⟩ := hr.exists_writes
      let ⟨js, hjs⟩ := hrest.exists_writes
      ⟨j :: js, .cons hj hjs⟩

/-- The fields of a fragment can be written one after the other. -/
theorem Field.ShapedFields.exists_writes {c : Catalog} : {fields : List Field} →
    {results : Entries Result} →
      Field.ShapedFields c fields results → ∃ members, Field.WritesFields c fields results members
  | _, _, .nil => ⟨[], .nil⟩
  | f :: _, _, .cons hr hrest =>
      let ⟨j, hj⟩ := hr.exists_writes
      let ⟨members, hmembers⟩ := hrest.exists_writes
      ⟨(f.responseKey, j) :: members, .cons hj hmembers⟩

end

/-! ### Reading the data of a result -/

namespace Catalog

/-- The fragment of an object, with the fields selected below a name. -/
def inflateObject (c : Catalog) (children : List Field) (declared : String)
    (members : List (String × Json)) (path : Path) : Except ShapeError Fragment :=
  (c.inflateFields children members path).map (Fragment.ofPairs (typeNameOf declared members))

theorem inflate_object (c : Catalog) (o : Operation) (members : List (String × Json)) :
    c.inflate o (.object members) = c.inflateObject o.selections o.rootType members [] := rfl

theorem inflateField_composite (c : Catalog) (h : FieldHead) (children : List Field) (j : Json)
    (path : Path) :
    c.inflateField (.composite h children) j path =
      inflateLayers
        (fun declared members path =>
          (c.inflateObject children declared members path).map Fragment.toResult)
        h.definition.type j path := by
  rw [inflateField]
  congr 1
  funext declared members path
  rw [inflateObject]
  cases c.inflateFields children members path <;> rfl

/-- The members of a written fragment are found under their keys, and so is the name of its
type. -/
theorem get?_ofFragment (typeName : String) {members : Entries Json} {fields : List Field}
    (hkeys : Entries.keys members = Field.responseKeys fields) (hfields : Field.Distinct fields) :
    Entries.get? (Entries.ofList (("__typename", .string typeName) :: members)) "__typename" =
        some (.string typeName) ∧
      ∀ p ∈ members,
        Entries.get? (Entries.ofList (("__typename", .string typeName) :: members)) p.1 =
          some p.2 := by
  obtain ⟨hresponse, -, htypename⟩ := hfields
  have hnodup : (Entries.keys (("__typename", Json.string typeName) :: members)).Nodup := by
    rw [Entries.keys_cons, hkeys]
    exact List.nodup_cons.mpr ⟨htypename, hresponse⟩
  exact ⟨Entries.get?_ofList_of_mem hnodup List.mem_cons_self,
    fun p hp => Entries.get?_ofList_of_mem hnodup (List.mem_cons_of_mem _ hp)⟩

/-- The object of a written fragment reads as the fragment if its fields read as their results. -/
theorem inflateObject_ofFragment {c : Catalog} {children : List Field} {typeName : String}
    {results : Entries Result} {members : Entries Json} (declared : String) (path : Path)
    (hwrites : Field.WritesFields c children results members) (hchildren : Field.Distinct children)
    (hfields : ∀ ms, (∀ p ∈ members, Entries.get? ms p.1 = some p.2) →
      c.inflateFields children ms path = .ok results) :
    c.inflateObject children declared
        (Entries.ofList (("__typename", .string typeName) :: members)) path =
      .ok ⟨typeName, results⟩ := by
  obtain ⟨htypename, hmembers⟩ := get?_ofFragment typeName hwrites.keys_members hchildren
  have hresults : Entries.putAll [] results = results :=
    Entries.putAll_nil_of_nodup (hwrites.keys_results ▸ hchildren.2.1)
  rw [inflateObject, hfields _ hmembers, typeNameOf, htypename, Except.map, Fragment.ofPairs,
    hresults]

mutual

/-- Reading back the data of a field. -/
theorem inflateField_of_writes {c : Catalog} : {f : Field} → {r : Result} → {j : Json} →
    Field.Writes c f r j → f.EverySelectionSet Field.Distinct → (path : Path) →
      c.inflateField f j path = .ok r
  | _, _, _, .leaf hread, _, path => by
      rw [inflateField, hread]
  | _, _, _, .composite hr, hchildren, path => by
      rw [inflateField_composite]
      exact inflateLayers_of_writes hr hchildren.1 hchildren.2 path

/-- Reading back the data at a place of a declared type. -/
theorem inflateLayers_of_writes {c : Catalog} : {children : List Field} → {type : TypeExpr} →
    {r : Result} → {j : Json} → Field.WritesAt c children type r j → Field.Distinct children →
      Field.EverySelectionSetBelow Field.Distinct children → (path : Path) →
        inflateLayers
          (fun declared members path =>
            (c.inflateObject children declared members path).map Fragment.toResult)
          type j path = .ok r
  | _, _, _, _, .null children type, _, _, path => by
      rw [inflateLayers]
  | _, _, _, _, .list hitems, hchildren, hbelow, path => by
      rw [inflateLayers, inflateItems_of_writes hitems hchildren hbelow path 0, Except.map]
  | _, _, _, _, .fragment typeName hfields, hchildren, hbelow, path => by
      rw [Json.ofFragment, Json.ofMembers, inflateLayers,
        inflateObject_ofFragment _ path hfields hchildren
          (fun ms hms => inflateFields_of_writes hfields hbelow hms path),
        Except.map, Fragment.toResult]

/-- Reading back the items of a list. -/
theorem inflateItems_of_writes {c : Catalog} : {children : List Field} → {item : TypeExpr} →
    {rs : List Result} → {js : List Json} → Field.WritesItems c children item rs js →
      Field.Distinct children → Field.EverySelectionSetBelow Field.Distinct children →
        (path : Path) → (n : Nat) →
          inflateItems
            (inflateLayers
              (fun declared members path =>
                (c.inflateObject children declared members path).map Fragment.toResult)
              item) path n js = .ok rs
  | _, _, _, _, .nil _ _, _, _, path, n => by
      rw [inflateItems]
  | _, _, _, _, .cons hr hrest, hchildren, hbelow, path, n => by
      rw [inflateItems, inflateLayers_of_writes hr hchildren hbelow]
      simp only
      rw [inflateItems_of_writes hrest hchildren hbelow, Except.map]

/-- Reading back the fields of a fragment, from members among which theirs are. -/
theorem inflateFields_of_writes {c : Catalog} : {fields : List Field} →
    {results : Entries Result} → {members : Entries Json} →
      Field.WritesFields c fields results members →
        Field.EverySelectionSetBelow Field.Distinct fields → {ms : List (String × Json)} →
          (∀ p ∈ members, Entries.get? ms p.1 = some p.2) → (path : Path) →
            c.inflateFields fields ms path = .ok results
  | _, _, _, .nil, _, _, _, path => by
      rw [inflateFields]
  | f :: rest, _, _, .cons hr hrest, hbelow, ms, hms, path => by
      rw [inflateFields, hms _ List.mem_cons_self, Option.getD_some,
        inflateField_of_writes hr hbelow.1]
      simp only
      rw [inflateFields_of_writes hrest hbelow.2
        (fun p hp => hms p (List.mem_cons_of_mem _ hp)), Except.map]

end

/-- **Reading a response inverts writing it.** Every result of the shape of an operation can be
written as data, and all of its data reads back as the result, with its type names and in its
order. -/
theorem inflate_of_shaped {c : Catalog} {o : Operation} {r : Fragment}
    (ho : o.EverySelectionSet Field.Distinct) (hr : o.Shaped c r) :
    (∃ data, o.Writes c r data) ∧ ∀ data, o.Writes c r data → c.inflate o data = .ok r := by
  constructor
  · obtain ⟨members, hmembers⟩ := Field.ShapedFields.exists_writes hr
    exact ⟨_, members, hmembers, rfl⟩
  · rintro data ⟨members, hmembers, rfl⟩
    rw [Json.ofFragment, Json.ofMembers, inflate_object,
      inflateObject_ofFragment o.rootType [] hmembers ho.1
        (fun ms hms => inflateFields_of_writes hmembers ho.2 hms [])]

/-! ### The crews of two ships -/

/-- A catalog of crews. -/
def crews : Catalog :=
  .ofSchema
    ⟨[("String", ⟨none, "String", [], .scalar⟩), ("Int", ⟨none, "Int", [], .scalar⟩)],
      [], [], [(.query, "Query")]⟩

/-- The crews by ship, and of each member the name and the year of birth under another key. -/
def crewOperation : Operation :=
  ⟨.query, none, "Query",
    [.composite
      ⟨"Query", ⟨none, "crews", [], .list (.list (.named "Member" false) true) true, []⟩, none,
        "crews", []⟩
      [.leaf ⟨"Member", ⟨none, "name", [], .named "String" true, []⟩, none, "name", []⟩,
        .leaf ⟨"Member", ⟨none, "yearOfBirth", [], .named "Int" false, []⟩, some "born",
          "year_of_birth", []⟩]],
    true⟩

/-- A ship with a pilot and a place that is not taken, and a ship without a crew. -/
def crewResult : Fragment :=
  ⟨"Query",
    [("crews", .list
      [.list
        [.fragment "Pilot" [("name", .leaf (.string "Ada")), ("year_of_birth", .leaf .null)],
          .null],
        .list []])]⟩

/-- The data of `crewResult`. -/
def crewData : Json :=
  .object
    [("__typename", .string "Query"),
      ("crews", .array
        [.array
          [.object
            [("__typename", .string "Pilot"), ("born", .null), ("name", .string "Ada")],
            .null],
          .array []])]

theorem everySelectionSet_crewOperation : crewOperation.EverySelectionSet Field.Distinct := by
  refine ⟨?_, ⟨?_, trivial, trivial, trivial⟩, trivial⟩ <;>
    exact ⟨by decide, by decide, by decide⟩

theorem crewOperation_shaped : crewOperation.Shaped crews crewResult :=
  .cons
    (.composite (.list (.cons
      (.list (.cons
        (.fragment "Pilot" (.cons (.leaf ⟨.string "Ada", rfl⟩) (.cons (.leaf ⟨.null, rfl⟩) .nil)))
        (.cons (.null _ _) (.nil _ _))))
      (.cons (.list (.nil _ _)) (.nil _ _)))))
    .nil

theorem crewOperation_writes : crewOperation.Writes crews crewResult crewData :=
  ⟨_, .cons
    (.composite (.list (.cons
      (.list (.cons
        (.fragment "Pilot"
          (.cons (j := .string "Ada") (.leaf rfl) (.cons (j := .null) (.leaf rfl) .nil)))
        (.cons (.null _ _) (.nil _ _))))
      (.cons (.list (.nil _ _)) (.nil _ _)))))
    .nil, rfl⟩

theorem inflate_crewData :
    crewOperation.EverySelectionSet Field.Distinct ∧ crewOperation.Shaped crews crewResult ∧
      crewOperation.Writes crews crewResult crewData ∧
      crews.inflate crewOperation crewData = .ok crewResult :=
  ⟨everySelectionSet_crewOperation, crewOperation_shaped, crewOperation_writes,
    (inflate_of_shaped everySelectionSet_crewOperation crewOperation_shaped).2 _
      crewOperation_writes⟩

end Catalog

end GraphQLClient
