import GraphQLClient.Proofs.Codec.Typing
import GraphQLClient.Proofs.Literal.Echo

/-!
# Values that come back

A value that is written as an argument and given back by the server is read as the same value, up to
the few changes that a codec makes on purpose: a string at an enumeration comes back as the member,
an integer at a floating-point scalar as the number nearest to it, an integer at an identifier as
its decimal text, and any value at a scalar without a codec of its own as its JSON form.  Nulls and
lists come back as they are, however deep the type nests them.

Dates are left out: their codec accepts texts that it does not write itself.  So are codecs of the
caller, of which nothing is known.

## Main definitions

* `Value.isConstant` : the values without variables.
* `Scalar.isEchoed`, `Catalog.IsEchoed` : the codecs and the types whose values come back.
* `Scalar.normal`, `Catalog.normal` : the form in which a value comes back.

## Main results

* `Scalar.parse_normalize` : what a codec reads is the normal form of what it wrote.
* `Catalog.deserialize_echo` : a value that is given back is read in its normal form.
-/

namespace GraphQLClient

/-! ### Values without variables -/

namespace Value

mutual

/-- Whether a value has no variables in it. -/
def isConstant : Value → Bool
  | .null => true
  | .boolean _ => true
  | .int _ => true
  | .float _ => true
  | .string _ => true
  | .enum _ => true
  | .list items => itemsAreConstant items
  | .object fields => fieldsAreConstant fields
  | .var _ => false
  | .dateTime _ => true
  | .json _ => true

/-- Whether the items of a list have no variables in them. -/
def itemsAreConstant : List Value → Bool
  | [] => true
  | item :: rest => isConstant item && itemsAreConstant rest

/-- Whether the fields of an object have no variables in them. -/
def fieldsAreConstant : List (String × Value) → Bool
  | [] => true
  | (_, value) :: rest => isConstant value && fieldsAreConstant rest

end

theorem isConstant_of_mem {items : List Value} (h : itemsAreConstant items = true) :
    ∀ v ∈ items, v.isConstant = true := by
  induction items with
  | nil => simp
  | cons item rest ih =>
    rw [itemsAreConstant, Bool.and_eq_true] at h
    exact List.forall_mem_cons.mpr ⟨h.1, ih h.2⟩

theorem floats_subset_of_mem {items : List Value} :
    ∀ v ∈ items, v.toJson.floats ⊆ Json.itemsFloats (itemsToJson items) := by
  induction items with
  | nil => simp
  | cons item rest ih =>
    rw [itemsToJson, Json.itemsFloats]
    exact List.forall_mem_cons.mpr ⟨List.subset_append_left _ _,
      fun v hv => List.Subset.trans (ih v hv) (List.subset_append_right _ _)⟩

end Value

/-! ### Normal forms -/

/-- Whether a codec reads all that it writes: those that come with the library do, apart from the
one of dates. -/
def Scalar.isEchoed : Scalar → Bool
  | .dateTime => false
  | .given _ _ => false
  | _ => true

/-- The form in which a value of a scalar comes back. -/
def Scalar.normal : Scalar → Value → Value
  | .float, .int i => .float (.ofInt i.toInt)
  | .id, .int i => .string (String.ofList (Decimal.intChars i.toInt))
  | .custom, v =>
    match v.toJson.normalize with
    | .null => .null
    | j => .json j
  | _, v => v

namespace Catalog

/-- The form in which a value at a place of a named type comes back. -/
def normalNamed (c : Catalog) (typeName : String) (v : Value) : Value :=
  match c.schema.classOf? typeName with
  | some .enum =>
    match v with
    | .string member => .enum member
    | v => v
  | some .scalar => (c.scalars.get typeName).normal v
  | _ => v

/-- The form in which a value at a place of a declared type comes back: the items of lists one by
one, and everything else by the name of its type. -/
def normal (c : Catalog) : TypeExpr → Value → Value
  | .named typeName _, v => c.normalNamed typeName v
  | .list item _, .list items => .list (items.map (c.normal item))
  | .list _ _, v => v

end Catalog

/-! ### What codecs read -/

namespace Scalar

variable {s : Scalar} {v : Value} {j : Json}

/-- What a codec reads is the normal form of what it wrote. -/
theorem parse_normalize (hs : s.isEchoed = true) (h : s.serialize v = .ok j) :
    s.parse j.normalize = .ok (s.normal v) := by
  cases s with
  | dateTime | given _ _ => cases hs
  | custom =>
    cases h
    rw [Json.normalize_normalize, normal]
    cases v.toJson.normalize <;> rfl
  | int =>
    cases v <;> simp only [serialize, reduceCtorEq] at h
    rename_i i
    split at h
    · cases h
      have hi : i.toInt < 0x8000000000000000 := i.toInt_lt
      rw [Json.ofInt64, Json.normalize, parse, if_pos hi, Int64.ofInt_toInt]
      rfl
    · simp at h
  | float =>
    rcases v with _ | _ | i | (x | _ | _) | _ | _ | _ | _ | _ | _ | _ <;>
      simp only [serialize, reduceCtorEq] at h
    · cases h
      rw [Json.ofInt64, Json.normalize]
      rfl
    · cases h
      rw [Json.normalize]
      rfl
  | string | boolean =>
    cases v <;> simp only [serialize, reduceCtorEq] at h
    cases h
    rw [Json.normalize]
    rfl
  | id =>
    cases v <;> simp only [serialize, reduceCtorEq] at h <;>
    · cases h
      rw [Json.normalize]
      rfl

/-- A codec that comes with the library writes no floating-point number that is not in the
value. -/
theorem floats_serialize_subset (hs : s.isShipped = true) (h : s.serialize v = .ok j) :
    j.floats ⊆ v.toJson.floats := by
  cases s with
  | given _ _ => cases hs
  | custom =>
    cases h
    exact Json.floats_normalize_subset _
  | int =>
    cases v <;> simp only [serialize, reduceCtorEq] at h
    split at h
    · cases h
      rw [Value.toJson]
      exact List.Subset.refl _
    · simp at h
  | float =>
    rcases v with _ | _ | i | (x | _ | _) | _ | _ | _ | _ | _ | _ | _ <;>
      simp only [serialize, reduceCtorEq] at h <;>
    · cases h
      rw [Value.toJson]
      exact List.Subset.refl _
  | string | boolean | id =>
    cases v <;> simp only [serialize, reduceCtorEq] at h <;>
    · cases h
      simp [Json.floats]
  | dateTime =>
    cases v <;> simp only [serialize, reduceCtorEq] at h
    · split at h
      · cases h
        simp [Json.floats]
      · simp at h
    · cases h
      simp [Json.floats]

theorem isShipped_of_isEchoed (hs : s.isEchoed = true) : s.isShipped = true := by
  cases s with
  | dateTime | given _ _ => cases hs
  | _ => rfl

end Scalar

namespace Catalog

variable {c : Catalog} {read : String → Finite64}

/-! ### Places of a named type -/

/-- A type whose values come back: an enumeration, or a scalar whose codec reads all that it
writes. -/
def IsEchoed (c : Catalog) (typeName : String) : Prop :=
  c.schema.classOf? typeName = some .enum ∨
    c.schema.classOf? typeName = some .scalar ∧ (c.scalars.get typeName).isEchoed = true

theorem isEchoed_iff {typeName : String} :
    c.IsEchoed typeName ↔
      (∃ members, c.schema.body? typeName = some (.enum members)) ∨
        c.schema.body? typeName = some .scalar ∧
          (c.scalars.get typeName).isEchoed = true := by
  rw [IsEchoed, Schema.classOf?]
  cases c.schema.body? typeName with
  | none => simp
  | some body => cases body <;> simp [Sdl.TypeBody.class]

theorem deserialize_named {typeName : String} {j : Json} {v : Value}
    (h : c.deserializeNamed typeName j = .ok v) (hnull : j = .null → v = .null) (required : Bool) :
    c.deserialize (.named typeName required) j = .ok v := by
  cases j with
  | null => rw [deserialize, hnull rfl]
  | array items => rw [deserialize, h]
  | bool b => rw [deserialize, deserializeSingle, h]
  | number n => rw [deserialize, deserializeSingle, h]
  | string s => rw [deserialize, deserializeSingle, h]
  | object members => rw [deserialize, deserializeSingle, h]

theorem deserializeNamed_of_enum {typeName : String}
    (hclass : c.schema.classOf? typeName = some .enum) (member : String) :
    c.deserializeNamed typeName (.string member) = .ok (.enum member) := by
  unfold deserializeNamed
  rw [hclass]

theorem deserializeNamed_of_scalar {typeName : String}
    (hclass : c.schema.classOf? typeName = some .scalar) {j : Json} {v : Value}
    (h : (c.scalars.get typeName).parse j = .ok v) : c.deserializeNamed typeName j = .ok v := by
  unfold deserializeNamed
  simp only [hclass, h]

theorem normalNamed_of_enum {typeName : String}
    (hclass : c.schema.classOf? typeName = some .enum) {v : Value} {member : String}
    (h : v.text? = some member) : c.normalNamed typeName v = .enum member := by
  unfold normalNamed
  rw [hclass]
  cases v <;> simp only [Value.text?, reduceCtorEq, Option.some.injEq] at h <;> rw [h]

theorem normalNamed_of_scalar {typeName : String}
    (hclass : c.schema.classOf? typeName = some .scalar) (v : Value) :
    c.normalNamed typeName v = (c.scalars.get typeName).normal v := by
  unfold normalNamed
  rw [hclass]

theorem inputFieldsOf?_of_isEchoed {typeName : String} (h : c.IsEchoed typeName) :
    c.schema.inputFieldsOf? typeName = none := by
  obtain ⟨members, hbody⟩ | ⟨hbody, -⟩ := isEchoed_iff.mp h <;>
  · unfold Schema.inputFieldsOf?
    rw [hbody]

/-- A member of an enumeration comes back as the member. -/
theorem deserialize_echo_member {typeName : String} {members : List Sdl.EnumMember}
    (hbody : c.schema.body? typeName = some (.enum members)) {v : Value} {l : Literal}
    (h : c.serializeWhole typeName v = .ok l) (required : Bool) :
    c.deserialize (.named typeName required) (l.echo read) = .ok (c.normalNamed typeName v) := by
  have hclass : c.schema.classOf? typeName = some .enum := by
    rw [Schema.classOf?, hbody]
    rfl
  simp only [serializeWhole, hbody] at h
  split at h
  · rename_i member hmember
    split at h
    · cases h
      rw [Literal.echo, normalNamed_of_enum hclass hmember]
      exact deserialize_named (deserializeNamed_of_enum hclass member) (by simp) required
    · simp at h
  · simp at h

/-- A value of a scalar comes back in its normal form. -/
theorem deserialize_echo_scalar {typeName : String}
    (hbody : c.schema.body? typeName = some .scalar)
    (hcodec : (c.scalars.get typeName).isEchoed = true) {v : Value}
    (hread : ∀ x ∈ v.toJson.floats, Literal.ReadsFloat read x) {l : Literal}
    (h : c.serializeWhole typeName v = .ok l) (required : Bool) :
    c.deserialize (.named typeName required) (l.echo read) = .ok (c.normalNamed typeName v) := by
  have hclass : c.schema.classOf? typeName = some .scalar := by
    rw [Schema.classOf?, hbody]
    rfl
  simp only [serializeWhole, hbody] at h
  split at h
  · simp at h
  · rename_i j hj
    have hparse := Scalar.parse_normalize hcodec hj
    have hfloats := Scalar.floats_serialize_subset (Scalar.isShipped_of_isEchoed hcodec) hj
    have hecho : l.echo read = j.normalize :=
      Literal.echo_ofJson j (fun x hx => hread x (hfloats hx)) h
    rw [hecho, normalNamed_of_scalar hclass]
    refine deserialize_named (deserializeNamed_of_scalar hclass hparse) (fun hnull => ?_) required
    -- Of these codecs only the one that passes any value reads null.
    rw [hnull] at hparse
    cases hs : c.scalars.get typeName <;> rw [hs] at hparse hcodec <;>
      simp only [Scalar.parse, reduceCtorEq, Except.ok.injEq] at hparse
    · exact hparse.symm
    · cases hcodec

/-- A value that is written as a whole comes back in its normal form. -/
theorem deserialize_echo_serializeWhole {typeName : String} (htype : c.IsEchoed typeName)
    {v : Value} (hread : ∀ x ∈ v.toJson.floats, Literal.ReadsFloat read x) {l : Literal}
    (h : c.serializeWhole typeName v = .ok l) (required : Bool) :
    c.deserialize (.named typeName required) (l.echo read) = .ok (c.normalNamed typeName v) := by
  obtain ⟨members, hbody⟩ | ⟨hbody, hcodec⟩ := isEchoed_iff.mp htype
  · exact deserialize_echo_member hbody h required
  · exact deserialize_echo_scalar hbody hcodec hread h required

/-! ### All places -/

/-- Items that are read in their normal form make a list that is. -/
theorem deserializeItems_echo {type : TypeExpr} {items : List Value}
    (hitems : ∀ v ∈ items, ∀ {table table' : Variables} {l : Literal},
      c.serialize type v table = (.ok l, table') →
        c.deserialize type (l.echo read) = .ok (c.normal type v))
    {table table' : Variables} {ls : List Literal}
    (h : c.serializeItems type items table = (.ok ls, table')) :
    c.deserializeItems type (Literal.echoItems read ls) = .ok (items.map (c.normal type)) := by
  induction items generalizing table ls with
  | nil =>
    rw [serializeItems_nil] at h
    cases h
    rw [Literal.echoItems, deserializeItems, List.map_nil]
  | cons item rest ih =>
    obtain ⟨l, ls, middle, rfl, hl, hls⟩ := serializeItems_cons_eq_ok.mp h
    obtain ⟨hitem, hrest⟩ := List.forall_mem_cons.mp hitems
    rw [Literal.echoItems, deserializeItems, hitem hl, ih hrest hls, List.map_cons]
    rfl

theorem normal_null (type : TypeExpr) : c.normal type .null = .null := by
  cases type with
  | list item required => rfl
  | named typeName required =>
    rw [normal]
    unfold normalNamed
    split
    · rfl
    · cases c.scalars.get typeName <;> rfl
    · rfl

theorem deserialize_echo_null {type : TypeExpr} {table table' : Variables} {l : Literal}
    (h : c.serialize type .null table = (.ok l, table')) :
    c.deserialize type (l.echo read) = .ok (c.normal type .null) := by
  rw [serialize_null] at h
  cases h
  rw [normal_null, Literal.echo, deserialize]

/-- At a named type a value other than null is written as a whole, for no value is taken apart at
an enumeration or a scalar. -/
theorem deserialize_echo_named {typeName : String} (htype : c.IsEchoed typeName) (required : Bool)
    {v : Value} (hv : v.isConstant = true)
    (hread : ∀ x ∈ v.toJson.floats, Literal.ReadsFloat read x) {table table' : Variables}
    {l : Literal} (h : c.serialize (.named typeName required) v table = (.ok l, table')) :
    c.deserialize (.named typeName required) (l.echo read) =
      .ok (c.normal (.named typeName required) v) := by
  cases v with
  | null => exact deserialize_echo_null h
  | var name => simp [Value.isConstant] at hv
  | list items =>
    rw [serialize_list_named, Prod.mk.injEq] at h
    exact deserialize_echo_serializeWhole htype hread h.1 required
  | object fields =>
    rw [serialize_object_whole required (inputFieldsOf?_of_isEchoed htype), Prod.mk.injEq] at h
    exact deserialize_echo_serializeWhole htype hread h.1 required
  | boolean _ | int _ | float _ | string _ | enum _ | dateTime _ | json _ =>
    rw [serialize_of_isSingle _ rfl, Prod.mk.injEq] at h
    exact deserialize_echo_serializeWhole htype hread h.1 required

/-- **Reading undoes writing.** A value without variables that is written at a place of a type over
an enumeration or a scalar, and given back, is read in its normal form. -/
theorem deserialize_echo {type : TypeExpr} (htype : c.IsEchoed type.base) {v : Value}
    (hv : v.isConstant = true) (hread : ∀ x ∈ v.toJson.floats, Literal.ReadsFloat read x)
    {table table' : Variables} {l : Literal} (h : c.serialize type v table = (.ok l, table')) :
    c.deserialize type (l.echo read) = .ok (c.normal type v) := by
  induction type generalizing v table table' l with
  | named typeName required => exact deserialize_echo_named htype required hv hread h
  | list item required ih =>
    cases v with
    | null => exact deserialize_echo_null h
    | var name => simp [Value.isConstant] at hv
    | list items =>
      obtain ⟨ls, rfl, hitems⟩ := serialize_list_eq_ok.mp h
      rw [Value.isConstant] at hv
      rw [Value.toJson, Json.floats] at hread
      have hechoed : c.deserializeItems item (Literal.echoItems read ls) =
          .ok (items.map (c.normal item)) :=
        deserializeItems_echo (fun v hmem _ _ _ hl =>
          ih htype (Value.isConstant_of_mem hv v hmem)
            (fun x hx => hread x (Value.floats_subset_of_mem v hmem hx)) hl) hitems
      rw [Literal.echo, deserialize, hechoed, normal]
      rfl
    | object fields =>
      rw [serialize_object_list] at h
      simp at h
    | boolean _ | int _ | float _ | string _ | enum _ | dateTime _ | json _ =>
      rw [serialize_of_isSingle _ rfl, Prod.mk.injEq] at h
      obtain ⟨_, _, hnamed, -⟩ := serializeSingle_eq_ok.mp h.1
      cases hnamed

/-! ### Labels that come back -/

/-- Reads the text of a floating-point number, and zero where there is none. -/
def readFinite (text : String) : Finite64 :=
  ((Binary64.ofText? text).bind Binary64.finite?).getD (.zero false)

/-- One and a half. -/
def threeHalves : Finite64 := ⟨false, 1023, 0x8000000000000⟩

/-- Lists of labels: nulls, a number, a list and a number that JSON does not have. -/
def givenLabels : Value :=
  .list
    [.null,
      .list [.float (.finite threeHalves), .list [.string "new", .enum "OLD"], .null, .float .nan]]

/-- The literal of `givenLabels`. -/
def givenLiteral : Literal :=
  .list
    [.null, .list [.ofFinite threeHalves, .list [.string "new", .string "OLD"], .null, .null]]

theorem readsFloat_threeHalves : Literal.ReadsFloat readFinite threeHalves := by
  rw [Literal.ReadsFloat]
  decide +kernel

theorem deserialize_echo_givenLabels :
    searching.serialize (.list (.list (.named "Labels" true) false) true) givenLabels [] =
        (.ok givenLiteral, []) ∧
      searching.deserialize (.list (.list (.named "Labels" true) false) true)
          (givenLiteral.echo readFinite) =
        .ok (.list
          [.null,
            .list
              [.json (.number (.float threeHalves)), .json (.array [.string "new", .string "OLD"]),
                .null, .null]]) :=
  have hserialize : searching.serialize (.list (.list (.named "Labels" true) false) true)
      givenLabels [] = (.ok givenLiteral, []) := rfl
  have hread : ∀ x ∈ givenLabels.toJson.floats, Literal.ReadsFloat readFinite x :=
    List.forall_mem_singleton.mpr readsFloat_threeHalves
  ⟨hserialize, deserialize_echo (.inr ⟨rfl, rfl⟩) rfl hread hserialize⟩

end Catalog

end GraphQLClient
