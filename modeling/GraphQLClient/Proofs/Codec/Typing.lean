import GraphQLClient.Proofs.Codec.Acceptance
import GraphQLClient.Proofs.Document.Parameters

/-!
# The types of literals

The literal of a value at a place of a declared type is a literal of that type, up to null: a list
at a list, a member at an enumeration, an object of declared fields at an input object, and what the
codec of a scalar writes at the scalar.  A variable is a literal of the type that the table gives
it.

The table of variables only grows, whether a value is written or refused: what is added are
variables of the value under names of their own, each with the type of its place.

## Main definitions

* `Scalar.Writes` : the literals that a codec writes.
* `Literal.HasType` : the literals of a declared type.
* `Variables.Grows` : a table with variables added.

## Main results

* `Catalog.hasType_of_serialize` : the literal of a value has the type of its place.
* `Catalog.serialize_grows` : the table after a value was written or refused.
* `Catalog.serialize_typed` : both together, with the types of the variables.
-/

namespace GraphQLClient

/-! ### What codecs write -/

namespace Literal

mutual

/-- Whether a literal is made of constants other than members of enumerations. -/
def isData : Literal → Bool
  | .null => true
  | .boolean _ => true
  | .int _ => true
  | .float _ => true
  | .string _ => true
  | .enum _ => false
  | .var _ => false
  | .list items => itemsAreData items
  | .object fields => fieldsAreData fields

/-- Whether the items of a list are made of constants other than members of enumerations. -/
def itemsAreData : List Literal → Bool
  | [] => true
  | item :: rest => isData item && itemsAreData rest

/-- Whether the fields of an object are made of constants other than members of enumerations. -/
def fieldsAreData : List (String × Literal) → Bool
  | [] => true
  | (_, value) :: rest => isData value && fieldsAreData rest

end

mutual

/-- JSON has no variables and no members of enumerations. -/
theorem isData_ofJson : (j : Json) → {l : Literal} → ofJson j = .ok l → l.isData = true
  | .null, _, h | .bool _, _, h | .string _, _, h | .number (.int _ _), _, h
  | .number (.float _), _, h => by
      rw [ofJson] at h
      cases h
      rw [isData]
  | .array items, _, h => by
      obtain ⟨ls, rfl, hls⟩ := ofJson_array_eq_ok.mp h
      rw [isData, itemsAreData_ofJsonItems items hls]
  | .object members, _, h => by
      obtain ⟨ls, rfl, hls⟩ := ofJson_object_eq_ok.mp h
      rw [isData, fieldsAreData_ofJsonMembers members hls]

theorem itemsAreData_ofJsonItems : (items : List Json) → {ls : List Literal} →
    ofJsonItems items = .ok ls → itemsAreData ls = true
  | [], _, h => by
      rw [ofJsonItems] at h
      cases h
      rw [itemsAreData]
  | item :: rest, _, h => by
      obtain ⟨l, ls', rfl, hl, hls'⟩ := ofJsonItems_cons_eq_ok.mp h
      rw [itemsAreData, isData_ofJson item hl, itemsAreData_ofJsonItems rest hls', Bool.and_self]

theorem fieldsAreData_ofJsonMembers : (members : List (String × Json)) →
    {ls : List (String × Literal)} → ofJsonMembers members = .ok ls → fieldsAreData ls = true
  | [], _, h => by
      rw [ofJsonMembers] at h
      cases h
      rw [fieldsAreData]
  | (name, value) :: rest, _, h => by
      obtain ⟨-, l, ls', rfl, hl, hls'⟩ := ofJsonMembers_cons_eq_ok.mp h
      rw [fieldsAreData, isData_ofJson value hl, fieldsAreData_ofJsonMembers rest hls',
        Bool.and_self]

end

/-- The literal of an integer. -/
def ofInt (i : Int) : Literal :=
  .int (String.ofList (Decimal.intChars i))

/-- The literal of a finite floating-point number. -/
def ofFinite (x : Finite64) : Literal :=
  .float (String.ofList (Decimal.write .literal x))

end Literal

/-- The literals that a codec writes, null aside.  Of a codec of the caller no more is known than
that it writes JSON. -/
def Scalar.Writes : Scalar → Literal → Prop
  | .int, l => ∃ i : Int, -2147483648 ≤ i ∧ i ≤ 2147483647 ∧ l = .ofInt i
  | .float, l => (∃ i : Int, l = .ofInt i) ∨ ∃ x : Finite64, l = .ofFinite x
  | .string, l => ∃ s, l = .string s
  | .boolean, l => ∃ b, l = .boolean b
  | .id, l => ∃ s, l = .string s
  | .dateTime, l => ∃ s, l = .string s
  | .custom, l => l.isData = true
  | .given _ _, l => l.isData = true

/-- The JSON value of a codec is written as a literal of the codec. -/
theorem Scalar.writes_of_serialize {s : Scalar} {v : Value} {j : Json} {l : Literal}
    (hj : s.serialize v = .ok j) (hl : Literal.ofJson j = .ok l) : s.Writes l := by
  cases s with
  | custom | given _ _ => exact Literal.isData_ofJson j hl
  | int =>
    cases v <;> simp only [Scalar.serialize, reduceCtorEq] at hj
    rename_i i
    split at hj
    · rename_i hfits
      cases hj
      cases hl
      simp only [fits32, Bool.and_eq_true, decide_eq_true_eq] at hfits
      exact ⟨i.toInt, by omega, by omega, rfl⟩
    · simp at hj
  | float =>
    rcases v with _ | _ | i | (x | _ | _) | _ | _ | _ | _ | _ | _ | _ <;>
      simp only [Scalar.serialize, reduceCtorEq] at hj
    · cases hj
      cases hl
      exact .inl ⟨i.toInt, rfl⟩
    · cases hj
      cases hl
      exact .inr ⟨x, rfl⟩
  | string =>
    cases v <;> simp only [Scalar.serialize, reduceCtorEq] at hj
    cases hj
    cases hl
    exact ⟨_, rfl⟩
  | boolean =>
    cases v <;> simp only [Scalar.serialize, reduceCtorEq] at hj
    cases hj
    cases hl
    exact ⟨_, rfl⟩
  | id =>
    cases v <;> simp only [Scalar.serialize, reduceCtorEq] at hj <;>
    · cases hj
      cases hl
      exact ⟨_, rfl⟩
  | dateTime =>
    cases v <;> simp only [Scalar.serialize, reduceCtorEq] at hj
    · split at hj
      · cases hj
        cases hl
        exact ⟨_, rfl⟩
      · simp at hj
    · cases hj
      cases hl
      exact ⟨_, rfl⟩

/-! ### Literals of a type -/

/-- The literals of a declared type, without regard to the marks that exclude null.  A reference to
a variable is one if the table gives the variable that type. -/
inductive Literal.HasType (c : Catalog) (table : Variables) : TypeExpr → Literal → Prop where
  | null (type : TypeExpr) : HasType c table type .null
  | var {type : TypeExpr} {name : String} (hname : table.get? name = some type) :
    HasType c table type (.var name)
  | list {item : TypeExpr} (required : Bool) {items : List Literal}
    (hitems : ∀ l ∈ items, HasType c table item l) :
    HasType c table (.list item required) (.list items)
  | enum {typeName : String} (required : Bool) {members : List Sdl.EnumMember} {member : String}
    (hbody : c.schema.body? typeName = some (.enum members))
    (hmember : ∃ m ∈ members, m.name = member) :
    HasType c table (.named typeName required) (.enum member)
  /-- Every field of an object is declared and has a literal of its declared type. -/
  | input {typeName : String} (required : Bool) {definitions : List Sdl.InputValue}
    {fields : List (String × Literal)}
    (hbody : c.schema.body? typeName = some (.input definitions))
    (hkeys : ∀ p ∈ fields, (Sdl.declaredType? definitions p.1).isSome = true)
    (hfields : ∀ p ∈ fields, ∀ type, Sdl.declaredType? definitions p.1 = some type →
      HasType c table type p.2) :
    HasType c table (.named typeName required) (.object fields)
  | scalar {typeName : String} (required : Bool) {l : Literal}
    (hbody : c.schema.body? typeName = some .scalar)
    (hl : (c.scalars.get typeName).Writes l) : HasType c table (.named typeName required) l

/-- A literal keeps its type when variables are added to the table. -/
theorem Literal.HasType.mono {c : Catalog} {table table' : Variables}
    (h : ∀ name type, table.get? name = some type → table'.get? name = some type)
    {type : TypeExpr} {l : Literal} (hl : l.HasType c table type) : l.HasType c table' type := by
  induction hl with
  | null type => exact .null type
  | var hname => exact .var (h _ _ hname)
  | list required _ ih => exact .list required ih
  | enum required hbody hmember => exact .enum required hbody hmember
  | input required hbody hkeys _ ih => exact .input required hbody hkeys ih
  | scalar required hbody hl => exact .scalar required hbody hl

namespace Catalog

/-- A value that is written as a whole has a literal of the type. -/
theorem hasType_of_serializeWhole {c : Catalog} {typeName : String} {v : Value} {l : Literal}
    (h : c.serializeWhole typeName v = .ok l) (table : Variables) (required : Bool) :
    l.HasType c table (.named typeName required) := by
  unfold serializeWhole at h
  split at h
  · rename_i members hbody
    split at h
    · rename_i member _
      split at h
      · rename_i hmember
        cases h
        exact .enum required hbody (by simpa using hmember)
      · simp at h
    · simp at h
  · simp at h
  · rename_i hbody
    split at h
    · simp at h
    · rename_i j hj
      exact .scalar required hbody (Scalar.writes_of_serialize hj h)
  · simp at h
  · simp at h

mutual

/-- **The literal of a value has the type of its place.** -/
theorem hasType_of_serialize (c : Catalog) : (type : TypeExpr) → (v : Value) →
    {table table' : Variables} → {l : Literal} → c.serialize type v table = (.ok l, table') →
      l.HasType c table' type
  | type, .null, _, _, _, h => by
      rw [serialize_null] at h
      cases h
      exact .null type
  | type, .var name, _, _, _, h => by
      rw [serialize_var] at h
      have hmeets := Variables.record_meets c.schema h
      obtain ⟨-, rfl, -⟩ := Variables.record_eq_ok.mp h
      obtain ⟨_, ⟨⟩, hget⟩ := hmeets.types (name, some type) List.mem_cons_self
      exact .var hget
  | .list item required, .list items, _, _, _, h => by
      obtain ⟨ls, rfl, hitems⟩ := serialize_list_eq_ok.mp h
      exact .list required (hasType_of_serializeItems c item items hitems)
  | .named typeName required, .list items, _, _, _, h => by
      rw [serialize_list_named, Prod.mk.injEq] at h
      exact hasType_of_serializeWhole h.1 _ required
  | .list item required, .object fields, _, _, _, h => by
      rw [serialize_object_list] at h
      simp at h
  | .named typeName required, .object fields, _, _, _, h => by
      cases hdefinitions : c.schema.inputFieldsOf? typeName with
      | none =>
        rw [serialize_object_whole required hdefinitions, Prod.mk.injEq] at h
        exact hasType_of_serializeWhole h.1 _ required
      | some definitions =>
        obtain ⟨ls, rfl, hfields⟩ := (serialize_input_eq_ok hdefinitions).mp h
        have htypes := hasType_of_serializeFields c typeName definitions fields hfields
        refine .input required (inputFieldsOf?_eq_some.mp hdefinitions) (fun p hp => ?_)
          fun p hp type htype => ?_
        · obtain ⟨type, htype, -⟩ := htypes p hp
          rw [htype, Option.isSome_some]
        · obtain ⟨type', htype', hl⟩ := htypes p hp
          rw [htype, Option.some.injEq] at htype'
          exact htype' ▸ hl
  | type, .boolean _, _, _, _, h | type, .int _, _, _, _, h | type, .float _, _, _, _, h
  | type, .string _, _, _, _, h | type, .enum _, _, _, _, h | type, .dateTime _, _, _, _, h
  | type, .json _, _, _, _, h => by
      rw [serialize_of_isSingle type rfl, Prod.mk.injEq] at h
      obtain ⟨typeName, required, rfl, hwhole⟩ := serializeSingle_eq_ok.mp h.1
      exact hasType_of_serializeWhole hwhole _ required

/-- The literals of items have the type of their places. -/
theorem hasType_of_serializeItems (c : Catalog) (type : TypeExpr) : (items : List Value) →
    {table table' : Variables} → {ls : List Literal} →
      c.serializeItems type items table = (.ok ls, table') → ∀ l ∈ ls, l.HasType c table' type
  | [], _, _, _, h => by
      rw [serializeItems_nil] at h
      cases h
      simp
  | item :: rest, _, _, _, h => by
      obtain ⟨l, ls', middle, rfl, hitem, hrest⟩ := serializeItems_cons_eq_ok.mp h
      -- The types were found with the table after the first item, to which the others add.
      have hkept := (serializeItems_meets c type rest hrest).kept
      rw [List.forall_mem_cons]
      exact ⟨(hasType_of_serialize c type item hitem).mono hkept,
        hasType_of_serializeItems c type rest hrest⟩

/-- The literals of the fields of an input object have the types that are declared for their
names. -/
theorem hasType_of_serializeFields (c : Catalog) (typeName : String)
    (definitions : List Sdl.InputValue) : (fields : List (String × Value)) →
      {table table' : Variables} → {ls : List (String × Literal)} →
        c.serializeFields typeName definitions fields table = (.ok ls, table') →
          ∀ p ∈ ls, ∃ type, Sdl.declaredType? definitions p.1 = some type ∧
            p.2.HasType c table' type
  | [], _, _, _, h => by
      rw [serializeFields_nil] at h
      cases h
      simp
  | (key, value) :: rest, _, _, _, h => by
      obtain ⟨definition, l, ls', middle, hdefinition, rfl, hvalue, hrest⟩ :=
        serializeFields_cons_eq_ok.mp h
      have hkept := (serializeFields_meets c typeName definitions rest hrest).kept
      rw [List.forall_mem_cons]
      exact ⟨⟨definition.type, declaredType?_of_inputField? hdefinition,
          (hasType_of_serialize c definition.type value hvalue).mono hkept⟩,
        hasType_of_serializeFields c typeName definitions rest hrest⟩

end

end Catalog

/-! ### The table of variables -/

/-- A table with variables added to its end: variables that were visited, under names that the table
does not have, each of them once. -/
def Variables.Grows (table : Variables) (visits : List (String × TypeExpr)) (table' : Variables) :
    Prop :=
  ∃ new, table' = table ++ new ∧ (Entries.keys new).Nodup ∧
    ∀ p ∈ new, p ∈ visits ∧ Name.isName p.1 = true ∧ p.1 ∉ Entries.keys table

namespace Variables.Grows

variable {table table' table'' : Variables} {visits visits' : List (String × TypeExpr)}

theorem refl (table : Variables) (visits : List (String × TypeExpr)) :
    table.Grows visits table :=
  ⟨[], by simp, by simp, by simp⟩

theorem mono (hvisits : visits ⊆ visits') (h : table.Grows visits table') :
    table.Grows visits' table' := by
  obtain ⟨new, rfl, hnodup, hnew⟩ := h
  exact ⟨new, rfl, hnodup, fun p hp => ⟨hvisits (hnew p hp).1, (hnew p hp).2⟩⟩

theorem trans (h : table.Grows visits table') (h' : table'.Grows visits' table'') :
    table.Grows (visits ++ visits') table'' := by
  obtain ⟨new, rfl, hnodup, hnew⟩ := h
  obtain ⟨new', rfl, hnodup', hnew'⟩ := h'
  refine ⟨new ++ new', List.append_assoc _ _ _, ?_, ?_⟩
  · rw [Entries.keys_append, List.nodup_append]
    refine ⟨hnodup, hnodup', ?_⟩
    -- A name that was added first is in the table to which the others are added.
    rintro name hname _ hname' rfl
    obtain ⟨p, hp, rfl⟩ := List.mem_map.mp hname'
    have hfresh := (hnew' p hp).2.2
    rw [Entries.keys_append, List.mem_append, not_or] at hfresh
    exact hfresh.2 hname
  · intro p hp
    rcases List.mem_append.mp hp with hp | hp
    · obtain ⟨hvisit, hname, hfresh⟩ := hnew p hp
      exact ⟨List.mem_append_left _ hvisit, hname, hfresh⟩
    · obtain ⟨hvisit, hname, hfresh⟩ := hnew' p hp
      rw [Entries.keys_append, List.mem_append, not_or] at hfresh
      exact ⟨List.mem_append_right _ hvisit, hname, hfresh.1⟩

theorem append_left (h : table.Grows visits table') (visits' : List (String × TypeExpr)) :
    table.Grows (visits ++ visits') table' :=
  h.mono (List.subset_append_left visits visits')

end Variables.Grows

theorem Variables.record_grows (table : Variables) (name : String) (type : TypeExpr) :
    table.Grows [(name, type)] (table.record name type).2 := by
  unfold Variables.record
  split
  · rename_i hname
    split
    · split
      · exact .refl table _
      · exact .refl table _
    · rename_i hnone
      refine ⟨[(name, type)], rfl, by simp, ?_⟩
      simpa [hname] using Entries.get?_eq_none.mp hnone
  · exact .refl table _

namespace Catalog

mutual

/-- **The table after a value.** Whether a value is written or refused, the table keeps what it has,
and variables of the value are added to its end. -/
theorem serialize_grows (c : Catalog) : (type : TypeExpr) → (v : Value) → (table : Variables) →
    table.Grows (c.visits type v) (c.serialize type v table).2
  | type, .null, table => by
      rw [serialize_null]
      exact .refl table _
  | type, .var name, table => by
      rw [serialize_var, visits]
      exact table.record_grows name type
  | .list item required, .list items, table => by
      have hitems := serializeItems_grows c item items table
      rw [visits, serialize]
      rcases h : c.serializeItems item items table with ⟨_ | ls, after⟩ <;>
      · rw [h] at hitems
        exact hitems
  | .named typeName required, .list items, table => by
      rw [serialize_list_named]
      exact .refl table _
  | .list item required, .object fields, table => by
      rw [serialize_object_list]
      exact .refl table _
  | .named typeName required, .object fields, table => by
      cases hdefinitions : c.schema.inputFieldsOf? typeName with
      | none =>
        rw [serialize_object_whole required hdefinitions]
        exact .refl table _
      | some definitions =>
        have hfields := serializeFields_grows c typeName definitions fields table
        rw [visits_input required hdefinitions, serialize]
        simp only [hdefinitions]
        rcases h : c.serializeFields typeName definitions fields table with ⟨_ | ls, after⟩ <;>
        · rw [h] at hfields
          exact hfields
  | type, .boolean _, table | type, .int _, table | type, .float _, table
  | type, .string _, table | type, .enum _, table | type, .dateTime _, table
  | type, .json _, table => by
      rw [serialize_of_isSingle type rfl]
      exact .refl table _

theorem serializeItems_grows (c : Catalog) (type : TypeExpr) : (items : List Value) →
    (table : Variables) →
      table.Grows (c.itemsVisits type items) (c.serializeItems type items table).2
  | [], table => by
      rw [serializeItems_nil]
      exact .refl table _
  | item :: rest, table => by
      have hitem := serialize_grows c type item table
      rw [itemsVisits, serializeItems]
      rcases h : c.serialize type item table with ⟨_ | l, middle⟩ <;> rw [h] at hitem
      · exact hitem.append_left _
      · have hrest := serializeItems_grows c type rest middle
        simp only
        rcases h' : c.serializeItems type rest middle with ⟨_ | ls, after⟩ <;>
        · rw [h'] at hrest
          exact hitem.trans hrest

theorem serializeFields_grows (c : Catalog) (typeName : String)
    (definitions : List Sdl.InputValue) : (fields : List (String × Value)) →
      (table : Variables) →
        table.Grows (c.fieldsVisits definitions fields)
          (c.serializeFields typeName definitions fields table).2
  | [], table => by
      rw [serializeFields_nil]
      exact .refl table _
  | (key, value) :: rest, table => by
      rw [fieldsVisits, serializeFields]
      cases hdefinition : inputField? definitions key with
      | none => exact .refl table _
      | some definition =>
        have hvalue := serialize_grows c definition.type value table
        simp only
        rcases h : c.serialize definition.type value table with ⟨_ | l, middle⟩ <;> rw [h] at hvalue
        · exact hvalue.append_left _
        · have hrest := serializeFields_grows c typeName definitions rest middle
          simp only
          rcases h' : c.serializeFields typeName definitions rest middle with ⟨_ | ls, after⟩ <;>
          · rw [h'] at hrest
            exact hvalue.trans hrest

end

/-- **The types of literals and of variables.** The literal of a value at a place of a declared type
has that type, with a table that gives every variable of the value the type of its place.  Whether
the value is written or refused, the table keeps what it has, and only variables of the value are
added to its end. -/
theorem serialize_typed (c : Catalog) (type : TypeExpr) (v : Value) (table : Variables) :
    (∀ l table', c.serialize type v table = (.ok l, table') →
      l.HasType c table' type ∧ ∀ r ∈ c.visits type v, table'.get? r.1 = some r.2) ∧
      table.Grows (c.visits type v) (c.serialize type v table).2 := by
  refine ⟨fun l table' h => ⟨hasType_of_serialize c type v h, fun r hr => ?_⟩,
    serialize_grows c type v table⟩
  have hwrites := serialize_writes c type v
  rw [hwrites.get?_eq ⟨l, h⟩]
  exact ((hwrites.exists_iff table).mp ⟨table', l, h⟩).2 r hr

/-- A filter with a list of tags, one of them a variable, and with its size. -/
def taggedFilter : Value :=
  .object [("tags", .list [.string "new", .var "tag"]), ("size", .int 20)]

/-- The literal of `taggedFilter`. -/
def taggedFilterLiteral : Literal :=
  .object [("tags", .list [.string "new", .var "tag"]), ("size", .int "20")]

theorem serialize_taggedFilter_typed :
    searching.serialize (.named "Filter" true) taggedFilter [("size", .named "Int" true)] =
        (.ok taggedFilterLiteral, [("size", .named "Int" true), ("tag", .named "String" true)]) ∧
      taggedFilterLiteral.HasType searching
        [("size", .named "Int" true), ("tag", .named "String" true)] (.named "Filter" true) ∧
      Variables.Grows [("size", .named "Int" true)]
        (searching.visits (.named "Filter" true) taggedFilter)
        [("size", .named "Int" true), ("tag", .named "String" true)] :=
  have h := serialize_typed searching (.named "Filter" true) taggedFilter
    [("size", .named "Int" true)]
  ⟨rfl, (h.1 _ _ rfl).1, h.2⟩

end Catalog

end GraphQLClient
