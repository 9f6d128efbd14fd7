import GraphQLClient.Proofs.Fragment.Complete

/-!
# Results as data

The JSON form of a result is the part of the data that the selection asks for.  At every object
that the selection reaches, the members under the response keys of the selected fields are kept and
stand under the accessors of the fields; a missing member becomes null, and members that nothing
asks for are gone.  Lists keep their length and their order, and leaves keep their values.

The codecs of some scalars rewrite what they read: an integer becomes a floating-point number, a
number becomes the text of an identifier, a date gets another spelling.  Leaves of such types are
left out.

## Main definitions

* `Field.project`, `Operation.project` : the part of data that a selection asks for.
* `Scalar.KeepsJson`, `Catalog.KeepsJson` : the leaves that keep their values.
* `Field.EveryLeaf`, `Operation.EveryLeaf` : a property of all leaves of a selection.

## Main results

* `Catalog.toJson_of_deserialize` : the value of a leaf.
* `Catalog.toJson_of_inflate` : the result of an operation.
-/

namespace GraphQLClient

/-! ### Parts of data -/

mutual

/-- A JSON value with the objects in it replaced, as far as they are reached through arrays. -/
def Json.mapObjects (f : Entries Json → Json) : Json → Json
  | .object members => f members
  | .array items => .array (itemsMapObjects f items)
  | .null => .null
  | .bool b => .bool b
  | .number n => .number n
  | .string s => .string s

/-- The items of an array with the objects in them replaced. -/
def Json.itemsMapObjects (f : Entries Json → Json) : List Json → List Json
  | [] => []
  | item :: rest => mapObjects f item :: itemsMapObjects f rest

end

mutual

/-- What a field asks for of the value under its response key: all of a leaf, and of every object
of a composite type the members that are selected. -/
def Field.project : Field → Json → Json
  | .leaf _, j => j
  | .composite _ children, j => j.mapObjects fun members => .object (projectFields children members)

/-- What fields ask for of the members of an object, under their accessors. -/
def Field.projectFields : List Field → Entries Json → Entries Json
  | [], _ => []
  | f :: rest, members =>
    (f.accessor, project f ((Entries.get? members f.responseKey).getD .null)) ::
      projectFields rest members

end

/-- What an operation asks for of the data of a response. -/
def Operation.project (o : Operation) (data : Json) : Json :=
  data.mapObjects fun members => .object (Field.projectFields o.selections members)

/-! ### Leaves of a selection -/

mutual

/-- A property holds of every leaf at or below a field. -/
def Field.EveryLeaf (p : FieldHead → Prop) : Field → Prop
  | .leaf h => p h
  | .composite _ children => EveryLeafBelow p children

/-- A property holds of every leaf at or below fields. -/
def Field.EveryLeafBelow (p : FieldHead → Prop) : List Field → Prop
  | [] => True
  | f :: rest => f.EveryLeaf p ∧ EveryLeafBelow p rest

end

/-- A property holds of every leaf of an operation. -/
def Operation.EveryLeaf (p : FieldHead → Prop) (o : Operation) : Prop :=
  Field.EveryLeafBelow p o.selections

/-- A codec that reads a JSON value as a native value of the same JSON form. -/
def Scalar.KeepsJson (s : Scalar) : Prop :=
  s = .int ∨ s = .string ∨ s = .boolean ∨ s = .custom

/-- A type whose values keep the JSON form in which they came: an enumeration, a union, which is
never taken apart, or a scalar whose codec keeps JSON values. -/
def Catalog.KeepsJson (c : Catalog) (typeName : String) : Prop :=
  c.schema.classOf? typeName = some .enum ∨ c.schema.classOf? typeName = some .union ∨
    c.schema.classOf? typeName = some .scalar ∧ (c.scalars.get typeName).KeepsJson

theorem Scalar.toJson_of_parse {s : Scalar} (hs : s.KeepsJson) {j : Json} {v : Value}
    (h : s.parse j = .ok v) : v.toJson = j := by
  obtain rfl | rfl | rfl | rfl := hs
  · rcases j with _ | _ | (⟨i, fits⟩ | _) | _ | _ | _ <;>
      simp only [parse, reduceCtorEq] at h
    split at h
    · rename_i hi
      cases h
      have hround : (Int64.ofInt i).toInt = i := Int64.toInt_ofInt_of_le (by omega) (by omega)
      simp only [Value.toJson, Json.ofInt64, hround]
    · cases h
  · cases j <;> simp only [parse, reduceCtorEq, Except.ok.injEq] at h
    rw [← h, Value.toJson]
  · cases j <;> simp only [parse, reduceCtorEq, Except.ok.injEq] at h
    rw [← h, Value.toJson]
  · cases j <;> simp only [parse, Except.ok.injEq] at h <;> rw [← h, Value.toJson]

namespace Catalog

variable {c : Catalog}

/-! ### Values of leaves -/

theorem toJson_of_deserializeNamed {typeName : String} (htype : c.KeepsJson typeName) {j : Json}
    {v : Value} (h : c.deserializeNamed typeName j = .ok v) : v.toJson = j := by
  unfold deserializeNamed at h
  obtain hclass | hclass | ⟨hclass, hcodec⟩ := htype <;> rw [hclass] at h
  · cases j <;> simp only [reduceCtorEq, Except.ok.injEq] at h
    rw [← h, Value.toJson]
  · cases h
    rw [Value.toJson]
  · simp only at h
    split at h
    · rename_i hparse
      cases h
      exact Scalar.toJson_of_parse hcodec hparse
    · cases h

theorem itemsToJson_of_deserializeItems {item : TypeExpr}
    (hitem : ∀ j v, c.deserialize item j = .ok v → v.toJson = j) {js : List Json} {vs : List Value}
    (h : c.deserializeItems item js = .ok vs) : Value.itemsToJson vs = js := by
  induction js generalizing vs with
  | nil =>
    rw [deserializeItems] at h
    cases h
    rw [Value.itemsToJson]
  | cons j js ih =>
    rw [deserializeItems] at h
    split at h
    · cases h
    · rename_i v hv
      obtain ⟨vs, hvs, rfl⟩ := exceptMap_eq_ok.mp h
      rw [Value.itemsToJson, hitem j v hv, ih hvs]

/-- The value of a leaf has the JSON form it was read from, through all lists of its type. -/
theorem toJson_of_deserialize {type : TypeExpr} (htype : c.KeepsJson type.base) {j : Json}
    {v : Value} (h : c.deserialize type j = .ok v) : v.toJson = j := by
  induction type generalizing j v with
  | named typeName required =>
    cases j with
    | null =>
      rw [deserialize] at h
      cases h
      rw [Value.toJson]
    | array items =>
      rw [deserialize] at h
      exact toJson_of_deserializeNamed htype h
    | bool _ | number _ | string _ | object _ =>
      rw [deserialize, deserializeSingle] at h
      exact toJson_of_deserializeNamed htype h
  | list item required ih =>
    cases j with
    | null =>
      rw [deserialize] at h
      cases h
      rw [Value.toJson]
    | array items =>
      rw [deserialize] at h
      obtain ⟨vs, hvs, rfl⟩ := exceptMap_eq_ok.mp h
      rw [Value.toJson, itemsToJson_of_deserializeItems (fun j v hv => ih htype hv) hvs]
    | bool _ | number _ | string _ | object _ => simp [deserialize, deserializeSingle] at h

/-! ### Results -/

mutual

/-- The result that a field reads. -/
theorem toJson_of_reads : {f : Field} → {j : Json} → {r : Result} →
    Field.Reads c Field.Keeps f j r →
      f.EverySelectionSet (fun fields => (Field.accessors fields).Nodup) →
        f.EveryLeaf (fun h => c.KeepsJson h.definition.type.base) → r.toJson = f.project j
  | _, _, _, .leaf hread, _, hleaf => by
      rw [Result.toJson, Field.project]
      exact toJson_of_deserialize hleaf hread
  | _, _, _, .composite hr, hsets, hleaves => by
      rw [Field.project]
      exact toJson_of_readsAt hr hsets.1 hsets.2 hleaves

/-- The result that is read at a place of a declared type. -/
theorem toJson_of_readsAt : {children : List Field} → {type : TypeExpr} → {j : Json} →
    {r : Result} → Field.ReadsAt c Field.Keeps children type j r →
      (Field.accessors children).Nodup →
        Field.EverySelectionSetBelow (fun fields => (Field.accessors fields).Nodup) children →
          Field.EveryLeafBelow (fun h => c.KeepsJson h.definition.type.base) children →
            r.toJson =
              j.mapObjects fun members => .object (Field.projectFields children members)
  | _, _, _, _, .null _ _, _, _, _ => by
      rw [Result.null, Result.toJson, Value.toJson, Json.mapObjects]
  | _, _, _, _, .list hitems, hchildren, hbelow, hleaves => by
      rw [Result.toJson, Json.mapObjects, toJson_of_readsItems hitems hchildren hbelow hleaves]
  | _, _, _, _, .fragment hown hkeeps, hchildren, hbelow, hleaves => by
      -- The accessors are distinct, so the fragment holds the results of its fields as they are.
      rw [Result.toJson, Json.mapObjects, hkeeps.2.mpr hchildren,
        toJson_of_readsFields hown hbelow hleaves]

/-- The results that are read from the items of an array. -/
theorem toJson_of_readsItems : {children : List Field} → {item : TypeExpr} → {js : List Json} →
    {rs : List Result} → Field.ReadsItems c Field.Keeps children item js rs →
      (Field.accessors children).Nodup →
        Field.EverySelectionSetBelow (fun fields => (Field.accessors fields).Nodup) children →
          Field.EveryLeafBelow (fun h => c.KeepsJson h.definition.type.base) children →
            Result.itemsToJson rs =
              Json.itemsMapObjects
                (fun members => .object (Field.projectFields children members)) js
  | _, _, _, _, .nil _ _, _, _, _ => by
      rw [Result.itemsToJson, Json.itemsMapObjects]
  | _, _, _, _, .cons hr hrest, hchildren, hbelow, hleaves => by
      rw [Result.itemsToJson, Json.itemsMapObjects, toJson_of_readsAt hr hchildren hbelow hleaves,
        toJson_of_readsItems hrest hchildren hbelow hleaves]

/-- The results that fields read from the members of an object. -/
theorem toJson_of_readsFields : {fields : List Field} → {members : Entries Json} →
    {own : Entries Result} → Field.ReadsFields c Field.Keeps fields members own →
      Field.EverySelectionSetBelow (fun fields => (Field.accessors fields).Nodup) fields →
        Field.EveryLeafBelow (fun h => c.KeepsJson h.definition.type.base) fields →
          Result.fieldsToJson own = Field.projectFields fields members
  | _, _, _, .nil _, _, _ => by
      rw [Result.fieldsToJson, Field.projectFields]
  | _, _, _, .cons hr hrest, hbelow, hleaves => by
      rw [Result.fieldsToJson, Field.projectFields, toJson_of_reads hr hbelow.1 hleaves.1,
        toJson_of_readsFields hrest hbelow.2 hleaves.2]

end

/-- **Results are the selected part of the data.** If no two fields of a selection set have one
accessor and every leaf keeps its JSON form, the JSON form of the result of an operation is what
the operation asks for of the data. -/
theorem toJson_of_inflate {o : Operation} {data : Json} {r : Fragment}
    (hsets : o.EverySelectionSet fun fields => (Field.accessors fields).Nodup)
    (hleaves : o.EveryLeaf fun h => c.KeepsJson h.definition.type.base)
    (h : c.inflate o data = .ok r) : r.toJson = o.project data := by
  obtain ⟨members, own, rfl, hown, rfl⟩ := inflate_eq_ok h
  have hreads := inflateFields_reads o.selections hown
  have hfields : (Fragment.ofPairs (typeNameOf o.rootType members) own).fields = own :=
    hreads.keeps.2.mpr hsets.1
  rw [Fragment.toJson, Fragment.toResult, Result.toJson, Operation.project, Json.mapObjects,
    hfields, toJson_of_readsFields hreads hsets.2 hleaves]

/-! ### The pilots of ships -/

/-- A catalog of pilots, with an enumeration, a union and a scalar without a codec. -/
def pilots : Catalog :=
  .ofSchema
    ⟨[("Int", ⟨none, "Int", [], .scalar⟩), ("Labels", ⟨none, "Labels", [], .scalar⟩),
        ("Rank", ⟨none, "Rank", [], .enum [⟨none, "CADET", []⟩, ⟨none, "MAJOR", []⟩]⟩),
        ("Craft", ⟨none, "Craft", [], .union ["Glider", "Shuttle"]⟩)],
      [], [], [(.query, "Query")]⟩

/-- The pilots by ship: their ranks, their labels under another key, their craft and their age. -/
def pilotOperation : Operation :=
  ⟨.query, none, "Query",
    [.composite
      ⟨"Query", ⟨none, "pilotsByShip", [], .list (.list (.named "Pilot" false) true) true, []⟩,
        none, "pilots_by_ship", []⟩
      [.leaf ⟨"Pilot", ⟨none, "ranks", [], .list (.named "Rank" false) false, []⟩, none, "ranks",
          []⟩,
        .leaf ⟨"Pilot", ⟨none, "labels", [], .named "Labels" false, []⟩, some "tags", "tags", []⟩,
        .leaf ⟨"Pilot", ⟨none, "ownCraft", [], .named "Craft" false, []⟩, none, "own_craft", []⟩,
        .leaf ⟨"Pilot", ⟨none, "age", [], .named "Int" false, []⟩, none, "age", []⟩]],
    true⟩

/-- A ship with a pilot whose age is not given and a place that is not taken, and a ship without
pilots. -/
def pilotData : Json :=
  .object
    [("__typename", .string "Query"),
      ("pilotsByShip", .array
        [.array
          [.object
            [("__typename", .string "Pilot"), ("name", .string "Ada"),
              ("ownCraft", .object [("__typename", .string "Glider"), ("length", .ofNat 7)]),
              ("ranks", .array [.string "MAJOR", .null]),
              ("tags", .object [("calm", .bool true), ("seen", .array [.null])])],
            .null],
          .array []])]

theorem toJson_of_inflate_pilotData :
    pilotOperation.EverySelectionSet (fun fields => (Field.accessors fields).Nodup) ∧
      pilotOperation.EveryLeaf (fun h => pilots.KeepsJson h.definition.type.base) ∧
      ∃ r, pilots.inflate pilotOperation pilotData = .ok r ∧
        r.toJson = pilotOperation.project pilotData ∧
        r.toJson =
          .object
            [("pilots_by_ship", .array
              [.array
                [.object
                  [("ranks", .array [.string "MAJOR", .null]),
                    ("tags", .object [("calm", .bool true), ("seen", .array [.null])]),
                    ("own_craft",
                      .object [("__typename", .string "Glider"), ("length", .ofNat 7)]),
                    ("age", .null)],
                  .null],
                .array []])] :=
  have hsets : pilotOperation.EverySelectionSet fun fields => (Field.accessors fields).Nodup :=
    ⟨by decide, ⟨by decide, trivial, trivial, trivial, trivial, trivial⟩, trivial⟩
  have hleaves : pilotOperation.EveryLeaf fun h => pilots.KeepsJson h.definition.type.base :=
    ⟨⟨.inl rfl, .inr (.inr ⟨rfl, .inr (.inr (.inr rfl))⟩), .inr (.inl rfl),
      .inr (.inr ⟨rfl, .inl rfl⟩), trivial⟩, trivial⟩
  ⟨hsets, hleaves, _, rfl, toJson_of_inflate hsets hleaves rfl, rfl⟩

end Catalog

end GraphQLClient
