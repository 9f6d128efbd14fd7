import GraphQLClient.Proofs.Fragment.Written

/-!
# What a result depends on

The result of an operation depends on the part of the data that the operation selects: on the value
under the response key of every selected field, and on the name of its type that an object carries.
Members under other keys may come and go, and a missing member counts as null.

Two data agree on a selection if they are the same along it.  Where a composite field has a list of
its declared type, arrays are compared item by item; at the name, objects are compared by what is
selected in them; everything else has to be equal.  Reading follows the same steps, so agreeing data
have one outcome: the same result, or the same error at the same place.

## Main definitions

* `typeName?` : the name of its type that an object carries.
* `Field.Agrees`, `Operation.Agrees` : two data that are the same along a selection.

## Main results

* `Catalog.inflateField_eq_of_agrees` : the outcome of reading a field.
* `Catalog.inflate_eq_of_agrees` : the outcome of reading the data of an operation.
-/

namespace GraphQLClient

/-- The name of its type that an object carries, if it carries one as a text. -/
def typeName? (members : List (String × Json)) : Option String :=
  match Entries.get? members "__typename" with
  | some (.string name) => some name
  | _ => none

theorem typeNameOf_eq_getD (declared : String) (members : List (String × Json)) :
    typeNameOf declared members = (typeName? members).getD declared := by
  unfold typeNameOf typeName?
  rcases Entries.get? members "__typename" with _ | j
  · rfl
  · cases j <;> rfl

/-! ### Data that agree on a selection -/

mutual

/-- Two values under the response key of a field agree on what the field selects.  At a leaf they
are equal. -/
inductive Field.Agrees : Field → Json → Json → Prop
  | leaf (h : FieldHead) (j : Json) : Field.Agrees (.leaf h) j j
  | composite {h : FieldHead} {children : List Field} {j j' : Json}
      (hj : Field.AgreesAt children h.definition.type j j') :
      Field.Agrees (.composite h children) j j'

/-- Two values at a place of a declared type agree on the fields selected below its name.  Only
arrays at a list and objects at a name may differ. -/
inductive Field.AgreesAt : List Field → TypeExpr → Json → Json → Prop
  | list {children : List Field} {item : TypeExpr} {required : Bool} {js js' : List Json}
      (hitems : Field.AgreesItems children item js js') :
      Field.AgreesAt children (.list item required) (.array js) (.array js')
  | object {children : List Field} {name : String} {required : Bool}
      {members members' : Entries Json} (htype : typeName? members = typeName? members')
      (hfields : Field.AgreesBelow children members members') :
      Field.AgreesAt children (.named name required) (.object members) (.object members')
  | same (children : List Field) (type : TypeExpr) (j : Json) : Field.AgreesAt children type j j

/-- Two lists of the same length agree item by item. -/
inductive Field.AgreesItems : List Field → TypeExpr → List Json → List Json → Prop
  | nil (children : List Field) (item : TypeExpr) : Field.AgreesItems children item [] []
  | cons {children : List Field} {item : TypeExpr} {j j' : Json} {js js' : List Json}
      (hj : Field.AgreesAt children item j j') (hrest : Field.AgreesItems children item js js') :
      Field.AgreesItems children item (j :: js) (j' :: js')

/-- The members of two objects agree on fields: under the response key of each of them, where a
missing member counts as null. -/
inductive Field.AgreesBelow : List Field → Entries Json → Entries Json → Prop
  | nil (members members' : Entries Json) : Field.AgreesBelow [] members members'
  | cons {f : Field} {rest : List Field} {members members' : Entries Json}
      (hf : Field.Agrees f ((Entries.get? members f.responseKey).getD .null)
        ((Entries.get? members' f.responseKey).getD .null))
      (hrest : Field.AgreesBelow rest members members') :
      Field.AgreesBelow (f :: rest) members members'

end

/-- Two objects of data agree on what an operation selects. -/
def Operation.Agrees (o : Operation) (data data' : Json) : Prop :=
  ∃ members members', data = .object members ∧ data' = .object members' ∧
    typeName? members = typeName? members' ∧ Field.AgreesBelow o.selections members members'

/-! ### The outcome of reading -/

namespace Catalog

/-- The result of an object with fields selected in it. -/
def inflateBelow (c : Catalog) (children : List Field) (declared : String) (members : Entries Json)
    (path : Path) : Except ShapeError Result :=
  (c.inflateObject children declared members path).map Fragment.toResult

variable {c : Catalog}

theorem inflateField_eq_inflateLayers (h : FieldHead) (children : List Field) (j : Json)
    (path : Path) :
    c.inflateField (.composite h children) j path =
      inflateLayers (c.inflateBelow children) h.definition.type j path :=
  inflateField_composite c h children j path

theorem inflateObject_congr {children : List Field} {members members' : Entries Json}
    (htype : typeName? members = typeName? members') {path : Path}
    (hfields : c.inflateFields children members path = c.inflateFields children members' path)
    (declared : String) :
    c.inflateObject children declared members path =
      c.inflateObject children declared members' path := by
  rw [inflateObject, inflateObject, hfields, typeNameOf_eq_getD, typeNameOf_eq_getD, htype]

mutual

/-- Agreeing values of a field have one outcome. -/
theorem inflateField_eq_of_agrees : {f : Field} → {j j' : Json} → Field.Agrees f j j' →
    (path : Path) → c.inflateField f j path = c.inflateField f j' path
  | _, _, _, .leaf _ _, path => rfl
  | _, _, _, .composite hj, path => by
      rw [inflateField_eq_inflateLayers, inflateField_eq_inflateLayers,
        inflateLayers_eq_of_agreesAt hj]

/-- Agreeing values at a place of a declared type have one outcome. -/
theorem inflateLayers_eq_of_agreesAt : {children : List Field} → {type : TypeExpr} →
    {j j' : Json} → Field.AgreesAt children type j j' → (path : Path) →
      inflateLayers (c.inflateBelow children) type j path =
        inflateLayers (c.inflateBelow children) type j' path
  | _, _, _, _, .list hitems, path => by
      rw [inflateLayers, inflateLayers, inflateItems_eq_of_agreesItems hitems path 0]
  | _, _, _, _, .object htype hfields, path => by
      rw [inflateLayers, inflateLayers, inflateBelow, inflateBelow,
        inflateObject_congr htype (inflateFields_eq_of_agreesBelow hfields path)]
  | _, _, _, _, .same _ _ _, path => rfl

/-- Agreeing items have one outcome. -/
theorem inflateItems_eq_of_agreesItems : {children : List Field} → {item : TypeExpr} →
    {js js' : List Json} → Field.AgreesItems children item js js' → (path : Path) → (n : Nat) →
      inflateItems (inflateLayers (c.inflateBelow children) item) path n js =
        inflateItems (inflateLayers (c.inflateBelow children) item) path n js'
  | _, _, _, _, .nil _ _, path, n => rfl
  | _, _, _, _, .cons hj hrest, path, n => by
      rw [inflateItems, inflateItems, inflateLayers_eq_of_agreesAt hj,
        inflateItems_eq_of_agreesItems hrest]

/-- Fields have one outcome for members that agree on them. -/
theorem inflateFields_eq_of_agreesBelow : {fields : List Field} →
    {members members' : Entries Json} → Field.AgreesBelow fields members members' →
      (path : Path) → c.inflateFields fields members path = c.inflateFields fields members' path
  | _, _, _, .nil _ _, path => by
      rw [inflateFields, inflateFields]
  | _, _, _, .cons hf hrest, path => by
      rw [inflateFields, inflateFields, inflateField_eq_of_agrees hf,
        inflateFields_eq_of_agreesBelow hrest]

end

/-- **Results depend on what was selected.** Data that agree on what an operation selects have one
outcome: the same result, or the same error at the same place. -/
theorem inflate_eq_of_agrees (c : Catalog) {o : Operation} {data data' : Json}
    (h : o.Agrees data data') : c.inflate o data = c.inflate o data' := by
  obtain ⟨members, members', rfl, rfl, htype, hfields⟩ := h
  rw [inflate_object, inflate_object,
    inflateObject_congr htype (inflateFields_eq_of_agreesBelow hfields [])]

/-! ### Crews with other members -/

/-- The data of `crewResult` as another server gives it: without the year that is not known, and
with members that were not asked for. -/
def chattyCrewData : Json :=
  .object
    [("__typename", .string "Query"),
      ("crews", .array
        [.array
          [.object
            [("__typename", .string "Pilot"), ("name", .string "Ada"), ("rank", .string "MAJOR")],
            .null],
          .array []]),
      ("year_of_birth", .ofNat 1815)]

theorem crewData_agrees : crewOperation.Agrees crewData chattyCrewData :=
  ⟨_, _, rfl, rfl, rfl,
    .cons
      (.composite (.list (.cons
        (.list (.cons
          (.object rfl (.cons (.leaf _ _) (.cons (.leaf _ _) (.nil _ _))))
          (.cons (.same _ _ _) (.nil _ _))))
        (.cons (.same _ _ _) (.nil _ _)))))
      (.nil _ _)⟩

theorem inflate_chattyCrewData :
    crewOperation.Agrees crewData chattyCrewData ∧
      crews.inflate crewOperation crewData = crews.inflate crewOperation chattyCrewData ∧
      crews.inflate crewOperation chattyCrewData = .ok crewResult :=
  ⟨crewData_agrees, inflate_eq_of_agrees crews crewData_agrees, rfl⟩

end Catalog

end GraphQLClient
