import GraphQLClient.Proofs.Codec.InputKeys
import GraphQLClient.Proofs.Codec.RoundTrip

/-!
# Arguments and payloads

A value can be given to an operation in two ways: in the document, as a literal of the type that is
declared for its place, or in the payload of variables, as the JSON form of the value, which knows
no types.  Both ways give the server the same JSON value, as far as the members of objects are not
told apart by their order.

Two changes that the literal makes on purpose are left out.  A key of an input object may be given
as an accessor name, and is written under its declared name; and an integer at an identifier is
written as a text.  The codecs are those that come with the library: one of the caller may write
whatever it likes.

## Main definitions

* `Value.IsVerbatim` : the values whose keys are declared names and whose identifiers are no
  integers.

## Main results

* `Scalar.normalize_of_serialize` : what a codec writes.
* `Catalog.echo_of_serialize` : the literal of a value denotes the JSON form of the value.
-/

namespace GraphQLClient

/-- A place of a scalar whose values are identifiers. -/
def Catalog.IsIdentifier (c : Catalog) : TypeExpr → Prop
  | .named typeName _ =>
    c.schema.classOf? typeName = some .scalar ∧ c.scalars.get typeName = .id
  | .list _ _ => False

namespace Value

mutual

/-- A value at a place of a declared type in which every key of an object at the place of an input
object is the name of a declared field, and no integer stands at the place of an identifier. -/
def IsVerbatim (c : Catalog) (type : TypeExpr) : Value → Prop
  | .int _ => ¬ c.IsIdentifier type
  | .list items =>
    match type with
    | .list item _ => itemsAreVerbatim c item items
    | .named _ _ => True
  | .object fields =>
    match c.schema.inputAt? (some type) with
    | some definitions => fieldsAreVerbatim c definitions fields
    | none => True
  | .null => True
  | .boolean _ => True
  | .float _ => True
  | .string _ => True
  | .enum _ => True
  | .var _ => True
  | .dateTime _ => True
  | .json _ => True

/-- Every item of a list is verbatim at its place. -/
def itemsAreVerbatim (c : Catalog) (type : TypeExpr) : List Value → Prop
  | [] => True
  | item :: rest => IsVerbatim c type item ∧ itemsAreVerbatim c type rest

/-- Every field of an input object has a declared name and is verbatim at the place of that name. -/
def fieldsAreVerbatim (c : Catalog) (definitions : List Sdl.InputValue) :
    List (String × Value) → Prop
  | [] => True
  | (key, value) :: rest =>
    (∃ type, Sdl.declaredType? definitions key = some type ∧ IsVerbatim c type value) ∧
      fieldsAreVerbatim c definitions rest

end

end Value

/-! ### What codecs write -/

/-- A codec that comes with the library writes the JSON form of a value, but for integers at
identifiers. -/
theorem Scalar.normalize_of_serialize {s : Scalar} (hs : s.isShipped = true) {v : Value} {j : Json}
    (h : s.serialize v = .ok j) (hid : s = .id → ∀ i, v ≠ .int i) :
    j.normalize = v.toJson.normalize := by
  cases s with
  | given _ _ => cases hs
  | custom =>
    cases h
    rw [Json.normalize_normalize]
  | int =>
    cases v <;> simp only [serialize, reduceCtorEq] at h
    split at h
    · cases h
      rw [Value.toJson]
    · simp at h
  | float =>
    rcases v with _ | _ | i | (x | _ | _) | _ | _ | _ | _ | _ | _ | _ <;>
      simp only [serialize, reduceCtorEq] at h
    · cases h
      rw [Value.toJson]
    · cases h
      rw [Value.toJson]
      rfl
  | string | boolean =>
    cases v <;> simp only [serialize, reduceCtorEq] at h
    cases h
    rw [Value.toJson]
  | id =>
    cases v <;> simp only [serialize, reduceCtorEq] at h
    · rename_i i
      exact absurd rfl (hid rfl i)
    · cases h
      rw [Value.toJson]
  | dateTime =>
    cases v <;> simp only [serialize, reduceCtorEq] at h
    · split at h
      · cases h
        rw [Value.toJson]
      · simp at h
    · cases h
      rw [Value.toJson]

theorem Scalars.isShipped_get {scalars : Scalars} (h : scalars.areShipped = true) (name : String) :
    (scalars.get name).isShipped = true := by
  rw [get]
  cases hcodec : Entries.get? scalars name with
  | none => rfl
  | some codec => exact List.all_eq_true.mp h _ (Entries.mem_of_get?_eq_some hcodec)

theorem Value.toJson_of_text? {v : Value} {member : String} (h : v.text? = some member) :
    v.toJson = .string member := by
  cases v <;> simp only [text?, reduceCtorEq, Option.some.injEq] at h <;> rw [toJson, h]

namespace Catalog

variable {c : Catalog} {read : String → Finite64}

/-! ### What literals denote -/

/-- The literal of a value that is written as a whole. -/
theorem echo_of_serializeWhole (hc : c.scalars.areShipped = true) {typeName : String}
    (required : Bool) {v : Value}
    (hv : ∀ i, v = .int i → ¬ c.IsIdentifier (.named typeName required))
    (hread : ∀ x ∈ v.toJson.floats, Literal.ReadsFloat read x) {l : Literal}
    (h : c.serializeWhole typeName v = .ok l) : l.echo read = v.toJson.normalize := by
  unfold serializeWhole at h
  split at h
  · split at h
    · rename_i member hmember
      split at h
      · cases h
        rw [Literal.echo, Value.toJson_of_text? hmember, Json.normalize]
      · simp at h
    · simp at h
  · simp at h
  · rename_i hbody
    split at h
    · simp at h
    · rename_i j hj
      have hclass : c.schema.classOf? typeName = some .scalar := by
        rw [Schema.classOf?, hbody]
        rfl
      have hid : c.scalars.get typeName = .id → ∀ i, v ≠ .int i := fun hcodec i hi =>
        hv i hi ⟨hclass, hcodec⟩
      have hcodec := Scalars.isShipped_get hc typeName
      have hfloats := Scalar.floats_serialize_subset hcodec hj
      rw [Literal.echo_ofJson j (fun x hx => hread x (hfloats hx)) h,
        Scalar.normalize_of_serialize hcodec hj hid]
  · simp at h
  · simp at h

theorem echo_of_serializeSingle (hc : c.scalars.areShipped = true) {type : TypeExpr} {v : Value}
    (hv : ∀ i, v = .int i → ¬ c.IsIdentifier type)
    (hread : ∀ x ∈ v.toJson.floats, Literal.ReadsFloat read x) {l : Literal}
    (h : c.serializeSingle type v = .ok l) : l.echo read = v.toJson.normalize := by
  obtain ⟨typeName, required, rfl, hwhole⟩ := serializeSingle_eq_ok.mp h
  exact echo_of_serializeWhole hc required hv hread hwhole

/-- A declared name stands for itself. -/
theorem name_of_declaredType? {definitions : List Sdl.InputValue} {key : String} {type : TypeExpr}
    (htype : Sdl.declaredType? definitions key = some type) {definition : Sdl.InputValue}
    (h : inputField? definitions key = some definition) :
    definition.name = key ∧ definition.type = type := by
  obtain ⟨found, hfind, rfl⟩ := Option.map_eq_some_iff.mp htype
  rw [inputField?, hfind, Option.some_or] at h
  cases h
  exact ⟨by simpa using List.find?_some hfind, rfl⟩

mutual

/-- The literal of a verbatim value denotes its JSON form. -/
theorem echo_of_isVerbatim (c : Catalog) (hc : c.scalars.areShipped = true) :
    (type : TypeExpr) → (v : Value) →
    v.isConstant = true → v.IsVerbatim c type →
      (∀ x ∈ v.toJson.floats, Literal.ReadsFloat read x) → {table table' : Variables} →
        {l : Literal} → c.serialize type v table = (.ok l, table') →
          l.echo read = v.toJson.normalize
  | _, .null, _, _, _, _, _, _, h => by
      rw [serialize_null] at h
      cases h
      rw [Literal.echo, Value.toJson, Json.normalize]
  | _, .var _, hv, _, _, _, _, _, _ => by simp [Value.isConstant] at hv
  | .list item _, .list items, hv, hverbatim, hread, _, _, _, h => by
      obtain ⟨ls, rfl, hitems⟩ := serialize_list_eq_ok.mp h
      rw [Value.isConstant] at hv
      rw [Value.IsVerbatim] at hverbatim
      rw [Value.toJson, Json.floats] at hread
      rw [Literal.echo, Value.toJson, Json.normalize,
        echoItems_of_serializeItems c hc item items hv hverbatim hread hitems]
  | .named typeName required, .list items, _, _, hread, _, _, _, h => by
      rw [serialize_list_named, Prod.mk.injEq] at h
      exact echo_of_serializeWhole hc required (by simp) hread h.1
  | .list _ _, .object _, _, _, _, _, _, _, h => by
      rw [serialize_object_list] at h
      simp at h
  | .named typeName required, .object fields, hv, hverbatim, hread, _, _, _, h => by
      cases hdefinitions : c.schema.inputFieldsOf? typeName with
      | none =>
        rw [serialize_object_whole required hdefinitions, Prod.mk.injEq] at h
        exact echo_of_serializeWhole hc required (by simp) hread h.1
      | some definitions =>
        obtain ⟨ls, rfl, hfields⟩ := (serialize_input_eq_ok hdefinitions).mp h
        rw [Value.isConstant] at hv
        simp only [Value.IsVerbatim, Schema.inputAt?, hdefinitions] at hverbatim
        rw [Value.toJson, Json.floats] at hread
        rw [Literal.echo, Value.toJson, Json.normalize, Json.ofMembers,
          echoFields_of_serializeFields c hc typeName definitions fields hv hverbatim hread hfields]
  | type, .int i, _, hverbatim, hread, _, _, _, h => by
      rw [serialize_of_isSingle type rfl, Prod.mk.injEq] at h
      rw [Value.IsVerbatim] at hverbatim
      exact echo_of_serializeSingle hc (fun _ _ => hverbatim) hread h.1
  | type, .boolean _, _, _, hread, _, _, _, h | type, .float _, _, _, hread, _, _, _, h
  | type, .string _, _, _, hread, _, _, _, h | type, .enum _, _, _, hread, _, _, _, h
  | type, .dateTime _, _, _, hread, _, _, _, h | type, .json _, _, _, hread, _, _, _, h => by
      rw [serialize_of_isSingle type rfl, Prod.mk.injEq] at h
      exact echo_of_serializeSingle hc (by simp) hread h.1

/-- The literals of items denote their JSON forms. -/
theorem echoItems_of_serializeItems (c : Catalog) (hc : c.scalars.areShipped = true)
    (type : TypeExpr) : (items : List Value) →
    Value.itemsAreConstant items = true → Value.itemsAreVerbatim c type items →
      (∀ x ∈ Json.itemsFloats (Value.itemsToJson items), Literal.ReadsFloat read x) →
        {table table' : Variables} → {ls : List Literal} →
          c.serializeItems type items table = (.ok ls, table') →
            Literal.echoItems read ls = Json.normalizeItems (Value.itemsToJson items)
  | [], _, _, _, _, _, _, h => by
      rw [serializeItems_nil] at h
      cases h
      rw [Literal.echoItems, Value.itemsToJson, Json.normalizeItems]
  | item :: rest, hv, hverbatim, hread, _, _, _, h => by
      obtain ⟨l, ls', middle, rfl, hitem, hrest⟩ := serializeItems_cons_eq_ok.mp h
      rw [Value.itemsAreConstant, Bool.and_eq_true] at hv
      rw [Value.itemsAreVerbatim] at hverbatim
      rw [Value.itemsToJson, Json.itemsFloats, List.forall_mem_append] at hread
      rw [Literal.echoItems, Value.itemsToJson, Json.normalizeItems,
        echo_of_isVerbatim c hc type item hv.1 hverbatim.1 hread.1 hitem,
        echoItems_of_serializeItems c hc type rest hv.2 hverbatim.2 hread.2 hrest]

/-- The literals of the fields of an input object denote their JSON forms, under the same names. -/
theorem echoFields_of_serializeFields (c : Catalog) (hc : c.scalars.areShipped = true)
    (typeName : String) (definitions : List Sdl.InputValue) : (fields : List (String × Value)) →
      Value.fieldsAreConstant fields = true → Value.fieldsAreVerbatim c definitions fields →
        (∀ x ∈ Json.membersFloats (Value.fieldsToJson fields), Literal.ReadsFloat read x) →
          {table table' : Variables} → {ls : List (String × Literal)} →
            c.serializeFields typeName definitions fields table = (.ok ls, table') →
              Literal.echoFields read ls = Json.normalizeMembers (Value.fieldsToJson fields)
  | [], _, _, _, _, _, _, h => by
      rw [serializeFields_nil] at h
      cases h
      rw [Literal.echoFields, Value.fieldsToJson, Json.normalizeMembers]
  | (key, value) :: rest, hv, hverbatim, hread, _, _, _, h => by
      obtain ⟨definition, l, ls', middle, hdefinition, rfl, hvalue, hrest⟩ :=
        serializeFields_cons_eq_ok.mp h
      rw [Value.fieldsAreConstant, Bool.and_eq_true] at hv
      rw [Value.fieldsAreVerbatim] at hverbatim
      obtain ⟨⟨type, htype, hvalueVerbatim⟩, hrestVerbatim⟩ := hverbatim
      obtain ⟨hname, rfl⟩ := name_of_declaredType? htype hdefinition
      rw [Value.fieldsToJson, Json.membersFloats, List.forall_mem_append] at hread
      rw [Literal.echoFields, Value.fieldsToJson, Json.normalizeMembers, hname,
        echo_of_isVerbatim c hc definition.type value hv.1 hvalueVerbatim hread.1 hvalue,
        echoFields_of_serializeFields c hc typeName definitions rest hv.2 hrestVerbatim hread.2
          hrest]

end

/-- **Arguments and payloads agree.** With the codecs that come with the library, what is written
for a verbatim value without variables, at a place of any type, denotes the JSON form of the value,
with the members of objects in order. -/
theorem echo_of_serialize (hc : c.scalars.areShipped = true) {type : TypeExpr} {v : Value}
    (hv : v.isConstant = true) (hverbatim : v.IsVerbatim c type)
    (hread : ∀ x ∈ v.toJson.floats, Literal.ReadsFloat read x) {table table' : Variables}
    {l : Literal} (h : c.serialize type v table = (.ok l, table')) :
    l.echo read = v.toJson.normalize :=
  echo_of_isVerbatim c hc type v hv hverbatim hread h

/-! ### A voyage with the next one -/

/-- What is given of a voyage. -/
def voyageFields : List Sdl.InputValue :=
  [⟨none, "code", .named "ID" true, none, []⟩, ⟨none, "leaves", .named "DateTime" false, none, []⟩,
    ⟨none, "speed", .named "Float" false, none, []⟩,
    ⟨none, "ranksAboard", .list (.named "Rank" true) false, none, []⟩,
    ⟨none, "labels", .named "Labels" false, none, []⟩,
    ⟨none, "next", .named "Voyage" false, none, []⟩]

/-- A catalog for voyages; labels are a scalar without a codec of its own. -/
def voyages : Catalog :=
  (Catalog.ofSchema
    ⟨[("ID", ⟨none, "ID", [], .scalar⟩), ("Float", ⟨none, "Float", [], .scalar⟩),
        ("DateTime", ⟨none, "DateTime", [], .scalar⟩), ("Labels", ⟨none, "Labels", [], .scalar⟩),
        ("Rank", ⟨none, "Rank", [], .enum [⟨none, "CAPTAIN", []⟩, ⟨none, "MATE", []⟩]⟩),
        ("Voyage", ⟨none, "Voyage", [], .input voyageFields⟩)],
      [], [], [(.query, "Query")]⟩).withScalar "DateTime" .dateTime

/-- The first moment of 2024, two hours east of UTC. -/
def newYear : DateTime :=
  ⟨⟨2024, 1, 1, by decide, by decide⟩, .midnight, 120, by decide⟩

/-- A voyage at an integral speed, with the next one, of which no time is known. -/
def givenVoyage : Value :=
  .object
    [("code", .string "V7"), ("leaves", .dateTime newYear), ("speed", .int 12),
      ("ranksAboard", .list [.enum "MATE", .null, .string "CAPTAIN"]),
      ("next", .object
        [("leaves", .null), ("code", .string "V8"), ("speed", .float (.finite threeHalves)),
          ("labels", .object
            [("wind", .list [.float .nan, .enum "EAST"]),
              ("cargo", .float (.finite threeHalves))])])]

/-- The literal of `givenVoyage`. -/
def voyageLiteral : Literal :=
  .object
    [("code", .string "V7"), ("leaves", .string "2024-01-01T00:00:00+02:00"), ("speed", .int "12"),
      ("ranksAboard", .list [.enum "MATE", .null, .enum "CAPTAIN"]),
      ("next", .object
        [("leaves", .null), ("code", .string "V8"), ("speed", .ofFinite threeHalves),
          ("labels", .object
            [("cargo", .ofFinite threeHalves), ("wind", .list [.null, .string "EAST"])])])]

theorem echo_voyageLiteral :
    voyages.scalars.areShipped = true ∧
      voyages.serialize (.named "Voyage" true) givenVoyage [] = (.ok voyageLiteral, []) ∧
      voyageLiteral.echo readFinite = givenVoyage.toJson.normalize :=
  have hserialize : voyages.serialize (.named "Voyage" true) givenVoyage [] =
      (.ok voyageLiteral, []) := rfl
  have hspeed : ¬ voyages.IsIdentifier (.named "Float" false) := by
    rintro ⟨-, ⟨⟩⟩
  have hverbatim : givenVoyage.IsVerbatim voyages (.named "Voyage" true) :=
    ⟨⟨_, rfl, trivial⟩, ⟨_, rfl, trivial⟩, ⟨_, rfl, hspeed⟩,
      ⟨_, rfl, trivial, trivial, trivial, trivial⟩,
      ⟨_, rfl, ⟨_, rfl, trivial⟩, ⟨_, rfl, trivial⟩, ⟨_, rfl, trivial⟩, ⟨_, rfl, trivial⟩, trivial⟩,
      trivial⟩
  have hread : ∀ x ∈ givenVoyage.toJson.floats, Literal.ReadsFloat readFinite x :=
    List.forall_mem_cons.mpr
      ⟨readsFloat_threeHalves, List.forall_mem_singleton.mpr readsFloat_threeHalves⟩
  ⟨rfl, hserialize, echo_of_serialize rfl rfl hverbatim hread hserialize⟩

end Catalog

end GraphQLClient
