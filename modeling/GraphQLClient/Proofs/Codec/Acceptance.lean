import GraphQLClient.Proofs.Codec.Success
import GraphQLClient.Proofs.Entries

/-!
# Values that a place takes

A value can be written at a place of a declared type for two reasons that have nothing to do with
each other.  The place has to take it: null and variables stand at any place, lists at lists, and
below them every named type has its own values.  And the variables that stand in it have to agree
with those met before: a variable has one type in a whole operation.

The first condition does not look at the table of variables and the second one only at the places
where variables stand.  `Variables.Writes` says this of a part of a translation, and two parts for
which it holds can be put one after the other.

## Main definitions

* `Catalog.Accepts` : the values that a place takes.
* `Catalog.visits` : the variables of a value, each with the type of its place.
* `Variables.Admits` : whether variables agree with a table and with each other.
* `Variables.Writes` : when a part of a translation succeeds, and the table after it.

## Main results

* `Variables.Writes.comp` : two parts one after the other.
* `Catalog.serialize_writes` : which values have a literal.
* `Variables.admits_nil_iff` : variables agree if each name has one type.
-/

namespace GraphQLClient

/-! ### JSON values that have literals -/

namespace Json

mutual

/-- Whether every member of every object in a JSON value is under a name. -/
def hasNames : Json → Bool
  | .null => true
  | .bool _ => true
  | .number _ => true
  | .string _ => true
  | .array items => itemsHaveNames items
  | .object members => membersHaveNames members

/-- Whether every member of every object in the items of an array is under a name. -/
def itemsHaveNames : List Json → Bool
  | [] => true
  | item :: rest => hasNames item && itemsHaveNames rest

/-- Whether members are under names, and those of the objects in their values too. -/
def membersHaveNames : List (String × Json) → Bool
  | [] => true
  | (name, value) :: rest => Name.isName name && hasNames value && membersHaveNames rest

end

end Json

namespace Literal

mutual

/-- A JSON value has a literal if the members of its objects are under names. -/
theorem exists_ofJson_iff : (j : Json) → (∃ l, ofJson j = .ok l) ↔ j.hasNames = true
  | .null | .bool _ | .string _ | .number (.int _ _) | .number (.float _) => by
      rw [ofJson, Json.hasNames]
      simp
  | .array items => by
      simp only [ofJson_array_eq_ok, Json.hasNames]
      rw [← exists_ofJsonItems_iff items]
      exact ⟨fun ⟨_, ls, _, hls⟩ => ⟨ls, hls⟩, fun ⟨ls, hls⟩ => ⟨_, ls, rfl, hls⟩⟩
  | .object members => by
      simp only [ofJson_object_eq_ok, Json.hasNames]
      rw [← exists_ofJsonMembers_iff members]
      exact ⟨fun ⟨_, ls, _, hls⟩ => ⟨ls, hls⟩, fun ⟨ls, hls⟩ => ⟨_, ls, rfl, hls⟩⟩

theorem exists_ofJsonItems_iff : (items : List Json) →
    (∃ ls, ofJsonItems items = .ok ls) ↔ Json.itemsHaveNames items = true
  | [] => by
      rw [ofJsonItems, Json.itemsHaveNames]
      simp
  | item :: rest => by
      simp only [ofJsonItems_cons_eq_ok, Json.itemsHaveNames, Bool.and_eq_true]
      rw [← exists_ofJson_iff item, ← exists_ofJsonItems_iff rest]
      constructor
      · rintro ⟨_, l, ls, -, hl, hls⟩
        exact ⟨⟨l, hl⟩, ⟨ls, hls⟩⟩
      · rintro ⟨⟨l, hl⟩, ⟨ls, hls⟩⟩
        exact ⟨_, l, ls, rfl, hl, hls⟩

theorem exists_ofJsonMembers_iff : (members : List (String × Json)) →
    (∃ ls, ofJsonMembers members = .ok ls) ↔ Json.membersHaveNames members = true
  | [] => by
      rw [ofJsonMembers, Json.membersHaveNames]
      simp
  | (name, value) :: rest => by
      simp only [ofJsonMembers_cons_eq_ok, Json.membersHaveNames, Bool.and_eq_true]
      rw [← exists_ofJson_iff value, ← exists_ofJsonMembers_iff rest]
      constructor
      · rintro ⟨_, hname, l, ls, -, hl, hls⟩
        exact ⟨⟨hname, l, hl⟩, ⟨ls, hls⟩⟩
      · rintro ⟨⟨hname, l, hl⟩, ⟨ls, hls⟩⟩
        exact ⟨_, hname, l, ls, rfl, hl, hls⟩

end

end Literal

/-! ### Variables that agree -/

/-- Variables, each with the type of its place, agree with a table and with each other: a name
stands at places of the type that it has in the table or, if it has none, at its first place. -/
def Variables.Admits (table : Variables) (visits : List (String × TypeExpr)) : Prop :=
  ∀ r ∈ visits, Entries.get? (table ++ visits) r.1 = some r.2

namespace Variables

variable {table table' : Variables} {visits visits' : List (String × TypeExpr)}

theorem admits_nil (table : Variables) : table.Admits [] := by
  simp [Admits]

theorem admits_singleton {name : String} {type : TypeExpr} :
    table.Admits [(name, type)] ↔ table.get? name = some type ∨ table.get? name = none := by
  have hget : Entries.get? [(name, type)] name = some type := if_pos rfl
  rw [Admits, List.forall_mem_singleton, Entries.get?_append, hget]
  cases table.get? name <;> simp

/-- Whether variables agree with a table depends on its types only. -/
theorem admits_congr (h : ∀ name, table.get? name = table'.get? name) :
    table.Admits visits ↔ table'.Admits visits := by
  simp only [Admits, Entries.get?_append, h]

/-- Variables agree if the first of them do, and the others after them. -/
theorem admits_append :
    table.Admits (visits ++ visits') ↔
      table.Admits visits ∧ Variables.Admits (table ++ visits) visits' := by
  simp only [Admits, List.forall_mem_append, ← List.append_assoc]
  refine and_congr_left fun _ => forall₂_congr fun r hr => ?_
  -- The name of a variable among the first is found there, before the others are looked at.
  obtain ⟨type, htype⟩ : ∃ type, Entries.get? (table ++ visits) r.1 = some type := by
    refine Option.ne_none_iff_exists'.mp fun hnone => ?_
    rw [Entries.get?_eq_none, Entries.keys_append, List.mem_append, not_or] at hnone
    exact hnone.2 (List.mem_map_of_mem hr)
  rw [Entries.get?_append (table ++ visits), htype, Option.some_or]

/-- Variables agree if each name has one type. -/
theorem admits_nil_iff :
    Variables.Admits [] visits ↔ ∀ r ∈ visits, ∀ r' ∈ visits, r.1 = r'.1 → r.2 = r'.2 := by
  rw [Admits, List.nil_append]
  constructor
  · intro h r hr r' hr' hname
    have hget := h r hr
    rw [hname, h r' hr'] at hget
    exact (Option.some.inj hget).symm
  · intro h r hr
    cases hget : Entries.get? visits r.1 with
    | none =>
      rw [Entries.get?_eq_none] at hget
      exact absurd (List.mem_map_of_mem hr) hget
    | some type =>
      exact congrArg some (h _ (Entries.mem_of_get?_eq_some hget) r hr rfl)

/-- A part of a translation takes one table of variables to another.  It succeeds if a condition
holds that does not depend on the table and its variables agree with the table; then each variable
has the type that it had before or, if it had none, that of its first place in the part. -/
structure Writes (run : Variables → Variables → Prop) (accepted : Prop)
    (visits : List (String × TypeExpr)) : Prop where
  exists_iff : ∀ table, (∃ table', run table table') ↔ accepted ∧ table.Admits visits
  get?_eq : ∀ {table table'}, run table table' →
    ∀ name, table'.get? name = Entries.get? (table ++ visits) name

namespace Writes

variable {run run' : Variables → Variables → Prop} {accepted accepted' : Prop}

theorem congr (hrun : ∀ table table', run table table' ↔ run' table table')
    (haccepted : accepted ↔ accepted') (h : Writes run accepted visits) :
    Writes run' accepted' visits where
  exists_iff table := by
    simp only [← hrun, ← haccepted]
    exact h.exists_iff table
  get?_eq hrun' := h.get?_eq ((hrun _ _).mpr hrun')

/-- A part without variables leaves the table as it is. -/
theorem unchanged {ε α : Type} {x : Except ε α} (hx : (∃ a, x = .ok a) ↔ accepted) :
    Writes (fun table table' => ∃ a, (x, table) = (.ok a, table')) accepted [] where
  exists_iff table := by simp [admits_nil, hx]
  get?_eq := by
    rintro table table' ⟨a, ha⟩ name
    rw [List.append_nil, (Prod.mk.inj ha).2]

/-- A part that stands for nothing. -/
theorem refl : Writes (fun table table' => table = table') True [] where
  exists_iff table := by simp [admits_nil]
  get?_eq := by
    rintro table _ rfl name
    rw [List.append_nil]

/-- A condition before a part. -/
theorem guard (p : Prop) (h : Writes run accepted visits) :
    Writes (fun table table' => p ∧ run table table') (p ∧ accepted) visits where
  exists_iff table := by
    rw [exists_and_left, h.exists_iff, and_assoc]
  get?_eq hrun := h.get?_eq hrun.2

/-- A part that never succeeds. -/
theorem impossible (visits : List (String × TypeExpr)) :
    Writes (fun _ _ => False) False visits where
  exists_iff table := by simp
  get?_eq h := h.elim

/-- Recording a variable under a name. -/
theorem record (name : String) (type : TypeExpr) :
    Writes (fun table table' => ∃ l, Variables.record table name type = (.ok l, table'))
      (Name.isName name = true) [(name, type)] where
  exists_iff table := by
    simp only [record_eq_ok, admits_singleton]
    constructor
    · rintro ⟨table', l, hname, -, ⟨hget, -⟩ | ⟨hget, -⟩⟩
      · exact ⟨hname, .inl hget⟩
      · exact ⟨hname, .inr hget⟩
    · rintro ⟨hname, hget | hget⟩
      · exact ⟨table, _, hname, rfl, .inl ⟨hget, rfl⟩⟩
      · exact ⟨_, _, hname, rfl, .inr ⟨hget, rfl⟩⟩
  get?_eq := by
    rintro table table' ⟨l, h⟩ other
    obtain ⟨-, -, ⟨hget, rfl⟩ | ⟨-, rfl⟩⟩ := record_eq_ok.mp h
    · rw [Entries.get?_append, Entries.get?_cons]
      by_cases hother : name = other
      · rw [← hother, hget, Option.some_or]
      · rw [if_neg hother, Entries.get?_nil, Option.or_none]
    · rfl

/-- Two parts one after the other succeed if both are accepted and all their variables agree. -/
theorem comp (h : Writes run accepted visits) (h' : Writes run' accepted' visits') :
    Writes (fun table table'' => ∃ table', run table table' ∧ run' table' table'')
      (accepted ∧ accepted') (visits ++ visits') where
  exists_iff table := by
    rw [admits_append]
    constructor
    · rintro ⟨table'', table', hrun, hrun'⟩
      obtain ⟨haccepted, hadmits⟩ := (h.exists_iff table).mp ⟨table', hrun⟩
      obtain ⟨haccepted', hadmits'⟩ := (h'.exists_iff table').mp ⟨table'', hrun'⟩
      exact ⟨⟨haccepted, haccepted'⟩, hadmits, (admits_congr (h.get?_eq hrun)).mp hadmits'⟩
    · rintro ⟨⟨haccepted, haccepted'⟩, hadmits, hadmits'⟩
      obtain ⟨table', hrun⟩ := (h.exists_iff table).mpr ⟨haccepted, hadmits⟩
      obtain ⟨table'', hrun'⟩ := (h'.exists_iff table').mpr
        ⟨haccepted', (admits_congr (h.get?_eq hrun)).mpr hadmits'⟩
      exact ⟨table'', table', hrun, hrun'⟩
  get?_eq := by
    rintro table table'' ⟨table', hrun, hrun'⟩ name
    rw [h'.get?_eq hrun', Entries.get?_append, h.get?_eq hrun, ← Entries.get?_append,
      List.append_assoc]

end Writes

end Variables

/-! ### What a place takes -/

namespace Catalog

/-- The values that a place of a declared type takes. -/
inductive Accepts (c : Catalog) : TypeExpr → Value → Prop where
  | null (type : TypeExpr) : Accepts c type .null
  | var (type : TypeExpr) {name : String} (hname : Name.isName name = true) :
    Accepts c type (.var name)
  | list {item : TypeExpr} (required : Bool) {items : List Value}
    (hitems : ∀ v ∈ items, Accepts c item v) : Accepts c (.list item required) (.list items)
  /-- A member of an enumeration may be given as a string. -/
  | enum {typeName : String} (required : Bool) {members : List Sdl.EnumMember} {v : Value}
    {member : String} (hbody : c.schema.body? typeName = some (.enum members))
    (hv : v.text? = some member) (hmember : ∃ m ∈ members, m.name = member) :
    Accepts c (.named typeName required) v
  /-- Every key of an object leads to a declared field, and the field takes the value. -/
  | input {typeName : String} (required : Bool) {definitions : List Sdl.InputValue}
    {fields : List (String × Value)} (hbody : c.schema.body? typeName = some (.input definitions))
    (hkeys : ∀ p ∈ fields, (inputField? definitions p.1).isSome = true)
    (hfields : ∀ p ∈ fields, ∀ definition, inputField? definitions p.1 = some definition →
      Accepts c definition.type p.2) : Accepts c (.named typeName required) (.object fields)
  /-- A variable is never handed to the codec of a scalar, so it is no value of one. -/
  | scalar {typeName : String} (required : Bool) {v : Value} {j : Json}
    (hbody : c.schema.body? typeName = some .scalar) (hv : ∀ name, v ≠ .var name)
    (hj : (c.scalars.get typeName).serialize v = .ok j) (hnames : j.hasNames = true) :
    Accepts c (.named typeName required) v

mutual

/-- The variables of a value that stand at places of declared types, in order, each with the type
of its place.  There are no such places inside the values of scalars. -/
def visits (c : Catalog) (type : TypeExpr) : Value → List (String × TypeExpr)
  | .null => []
  | .var name => [(name, type)]
  | .list items =>
    match type with
    | .list item _ => itemsVisits c item items
    | .named _ _ => []
  | .object fields =>
    match type with
    | .list _ _ => []
    | .named typeName _ =>
      match c.schema.inputFieldsOf? typeName with
      | some definitions => fieldsVisits c definitions fields
      | none => []
  | .boolean _ => []
  | .int _ => []
  | .float _ => []
  | .string _ => []
  | .enum _ => []
  | .dateTime _ => []
  | .json _ => []

/-- The variables of the items of a list at places of one type. -/
def itemsVisits (c : Catalog) (type : TypeExpr) : List Value → List (String × TypeExpr)
  | [] => []
  | item :: rest => visits c type item ++ itemsVisits c type rest

/-- The variables of the fields of an input object at places of the declared types. -/
def fieldsVisits (c : Catalog) (definitions : List Sdl.InputValue) :
    List (String × Value) → List (String × TypeExpr)
  | [] => []
  | (key, value) :: rest =>
    match inputField? definitions key with
    | some definition => visits c definition.type value ++ fieldsVisits c definitions rest
    | none => fieldsVisits c definitions rest

end

section

variable {c : Catalog} {table table' : Variables}

theorem visits_of_isSingle (type : TypeExpr) {v : Value} (hv : v.isSingle = true) :
    c.visits type v = [] := by
  cases v with
  | null | var _ | list _ | object _ => simp [Value.isSingle] at hv
  | boolean _ | int _ | float _ | string _ | enum _ | dateTime _ | json _ => rw [visits]

theorem visits_input {typeName : String} (required : Bool) {definitions : List Sdl.InputValue}
    (hdefinitions : c.schema.inputFieldsOf? typeName = some definitions)
    (fields : List (String × Value)) :
    c.visits (.named typeName required) (.object fields) = c.fieldsVisits definitions fields := by
  rw [visits]
  simp only [hdefinitions]

theorem visits_object_whole {typeName : String} (required : Bool)
    (hdefinitions : c.schema.inputFieldsOf? typeName = none) (fields : List (String × Value)) :
    c.visits (.named typeName required) (.object fields) = [] := by
  rw [visits]
  simp only [hdefinitions]

/-! ### Values without regard to their parts -/

theorem inputFieldsOf?_eq_some {s : Schema} {typeName : String}
    {definitions : List Sdl.InputValue} :
    s.inputFieldsOf? typeName = some definitions ↔
      s.body? typeName = some (.input definitions) := by
  unfold Schema.inputFieldsOf?
  split <;> simp_all

/-- As a whole, a value is a member of an enumeration or a value of a scalar. -/
theorem exists_serializeWhole_iff {typeName : String} {v : Value} :
    (∃ l, c.serializeWhole typeName v = .ok l) ↔
      (∃ members member, c.schema.body? typeName = some (.enum members) ∧
        v.text? = some member ∧ ∃ m ∈ members, m.name = member) ∨
      ∃ j, c.schema.body? typeName = some .scalar ∧
        (c.scalars.get typeName).serialize v = .ok j ∧ j.hasNames = true := by
  unfold serializeWhole
  cases hbody : c.schema.body? typeName with
  | none => simp
  | some body =>
    cases body with
    | object _ _ | interface _ _ | union _ | input _ => simp
    | enum members =>
      cases htext : v.text? with
      | none => simp
      | some member =>
        have hany : (members.any fun m => m.name == member) = true ↔
            ∃ m ∈ members, m.name = member := by
          simp only [List.any_eq_true, beq_iff_eq]
        constructor
        · rintro ⟨l, hl⟩
          simp only at hl
          split at hl
          · rename_i hmember
            exact .inl ⟨members, member, rfl, rfl, hany.mp hmember⟩
          · cases hl
        · rintro (⟨_, _, ⟨⟩, ⟨⟩, hmember⟩ | ⟨_, ⟨⟩, -⟩)
          exact ⟨_, if_pos (hany.mpr hmember)⟩
    | scalar =>
      cases hj : (c.scalars.get typeName).serialize v with
      | error e => simp
      | ok j => simp [← Literal.exists_ofJson_iff]

/-- A value that is no null and no variable, nor an object where one is taken apart, is taken as a
whole. -/
theorem accepts_named_iff {typeName : String} {required : Bool} {v : Value} (hnull : v ≠ .null)
    (hvar : ∀ name, v ≠ .var name)
    (hinput : ∀ fields, v = .object fields → c.schema.inputFieldsOf? typeName = none) :
    c.Accepts (.named typeName required) v ↔ ∃ l, c.serializeWhole typeName v = .ok l := by
  rw [exists_serializeWhole_iff]
  constructor
  · intro h
    cases h with
    | null => exact absurd rfl hnull
    | var => exact absurd rfl (hvar _)
    | enum required hbody hv hmember => exact .inl ⟨_, _, hbody, hv, hmember⟩
    | input required hbody hkeys hfields =>
      rw [inputFieldsOf?_eq_some.mpr hbody] at hinput
      simpa using hinput _ rfl
    | scalar required hbody hv hj hnames => exact .inr ⟨_, hbody, hj, hnames⟩
  · rintro (⟨members, member, hbody, hv, hmember⟩ | ⟨j, hbody, hj, hnames⟩)
    · exact .enum required hbody hv hmember
    · exact .scalar required hbody hvar hj hnames

theorem accepts_var_iff {type : TypeExpr} {name : String} :
    c.Accepts type (.var name) ↔ Name.isName name = true := by
  constructor
  · intro h
    cases h with
    | var _ hname => exact hname
    | enum required hbody hv => simp [Value.text?] at hv
    | scalar required hbody hv => exact absurd rfl (hv name)
  · exact .var type

theorem accepts_list_iff {item : TypeExpr} {required : Bool} {items : List Value} :
    c.Accepts (.list item required) (.list items) ↔ ∀ v ∈ items, c.Accepts item v := by
  constructor
  · rintro (_ | _ | ⟨_, hitems⟩)
    exact hitems
  · exact .list required

/-- A list is the only value of a list type that is not taken as a whole. -/
theorem not_accepts_list {item : TypeExpr} {required : Bool} {v : Value} (hnull : v ≠ .null)
    (hvar : ∀ name, v ≠ .var name) (hlist : ∀ items, v ≠ .list items) :
    ¬ c.Accepts (.list item required) v := by
  intro h
  cases h with
  | null => exact hnull rfl
  | var => exact hvar _ rfl
  | list => exact hlist _ rfl

theorem accepts_input_iff {typeName : String} {required : Bool}
    {definitions : List Sdl.InputValue}
    (hdefinitions : c.schema.inputFieldsOf? typeName = some definitions)
    {fields : List (String × Value)} :
    c.Accepts (.named typeName required) (.object fields) ↔
      ∀ p ∈ fields, ∃ definition, inputField? definitions p.1 = some definition ∧
        c.Accepts definition.type p.2 := by
  have hbody := inputFieldsOf?_eq_some.mp hdefinitions
  constructor
  · intro h
    cases h with
    | enum required hbody' => simp [hbody] at hbody'
    | scalar required hbody' => simp [hbody] at hbody'
    | input required hbody' hkeys hfields =>
      rw [hbody, Option.some.injEq, Sdl.TypeBody.input.injEq] at hbody'
      subst hbody'
      intro p hp
      obtain ⟨definition, hdefinition⟩ := Option.isSome_iff_exists.mp (hkeys p hp)
      exact ⟨definition, hdefinition, hfields p hp definition hdefinition⟩
  · intro h
    refine .input required hbody (fun p hp => ?_) fun p hp definition hdefinition => ?_
    · obtain ⟨definition, hdefinition, -⟩ := h p hp
      rw [hdefinition, Option.isSome_some]
    · obtain ⟨definition', hdefinition', haccepts⟩ := h p hp
      rw [hdefinition, Option.some.injEq] at hdefinition'
      exact hdefinition' ▸ haccepts

/-- A value that stands for itself is written if it is a value of a named type. -/
theorem writes_of_isSingle (type : TypeExpr) {v : Value} (hv : v.isSingle = true) :
    Variables.Writes (fun table table' => ∃ l, c.serialize type v table = (.ok l, table'))
      (c.Accepts type v) (c.visits type v) := by
  have hnull : v ≠ .null := by rintro rfl; simp [Value.isSingle] at hv
  have hvar (name : String) : v ≠ .var name := by rintro rfl; simp [Value.isSingle] at hv
  have hlist (items : List Value) : v ≠ .list items := by
    rintro rfl; simp [Value.isSingle] at hv
  simp only [serialize_of_isSingle type hv]
  rw [visits_of_isSingle type hv]
  refine .unchanged ?_
  cases type with
  | list item required => simp [serializeSingle, not_accepts_list hnull hvar hlist]
  | named typeName required =>
    rw [accepts_named_iff hnull hvar (by rintro fields rfl; simp [Value.isSingle] at hv)]
    rfl

end

/-! ### Values that have a literal -/

mutual

/-- **Which values have a literal.** A value can be written at a place if the place takes it and its
variables agree with the table and with each other. -/
theorem serialize_writes (c : Catalog) : (type : TypeExpr) → (v : Value) →
    Variables.Writes (fun table table' => ∃ l, c.serialize type v table = (.ok l, table'))
      (c.Accepts type v) (c.visits type v)
  | type, .null => by
      simp only [serialize_null]
      rw [visits]
      exact .unchanged (iff_of_true ⟨_, rfl⟩ (.null type))
  | type, .var name => by
      simp only [serialize_var, accepts_var_iff]
      rw [visits]
      exact .record name type
  | .list item required, .list items => by
      simp only [serialize_list_eq_ok, accepts_list_iff]
      rw [visits]
      exact .congr (fun _ _ => ⟨fun ⟨ls, h⟩ => ⟨_, ls, rfl, h⟩, fun ⟨_, ls, _, h⟩ => ⟨ls, h⟩⟩)
        Iff.rfl (serializeItems_writes c item items)
  | .named typeName required, .list items => by
      simp only [serialize_list_named]
      rw [visits]
      exact .unchanged (accepts_named_iff (by simp) (by simp) (by simp)).symm
  | .list item required, .object fields => by
      simp only [serialize_object_list]
      rw [visits]
      exact .unchanged (iff_of_false (by simp) (not_accepts_list (by simp) (by simp) (by simp)))
  | .named typeName required, .object fields => by
      cases hdefinitions : c.schema.inputFieldsOf? typeName with
      | none =>
        simp only [serialize_object_whole required hdefinitions]
        rw [visits_object_whole required hdefinitions]
        exact .unchanged (accepts_named_iff (by simp) (by simp) fun _ _ => hdefinitions).symm
      | some definitions =>
        simp only [serialize_input_eq_ok hdefinitions, accepts_input_iff hdefinitions]
        rw [visits_input required hdefinitions]
        exact .congr (fun _ _ => ⟨fun ⟨ls, h⟩ => ⟨_, ls, rfl, h⟩, fun ⟨_, ls, _, h⟩ => ⟨ls, h⟩⟩)
          Iff.rfl (serializeFields_writes c typeName definitions fields)
  | type, .boolean _ | type, .int _ | type, .float _ | type, .string _ | type, .enum _
  | type, .dateTime _ | type, .json _ => writes_of_isSingle type rfl

/-- Items can be written one after the other if the place takes each of them and all their
variables agree. -/
theorem serializeItems_writes (c : Catalog) (type : TypeExpr) : (items : List Value) →
    Variables.Writes
      (fun table table' => ∃ ls, c.serializeItems type items table = (.ok ls, table'))
      (∀ v ∈ items, c.Accepts type v) (c.itemsVisits type items)
  | [] => by
      simp only [serializeItems_nil]
      rw [itemsVisits]
      exact .unchanged (by simp)
  | item :: rest => by
      rw [itemsVisits]
      refine .congr (fun _ _ => ?_) List.forall_mem_cons.symm
        ((serialize_writes c type item).comp (serializeItems_writes c type rest))
      constructor
      · rintro ⟨middle, ⟨l, hitem⟩, ls, hrest⟩
        exact ⟨_, serializeItems_cons_eq_ok.mpr ⟨l, ls, middle, rfl, hitem, hrest⟩⟩
      · rintro ⟨_, h⟩
        obtain ⟨l, ls, middle, -, hitem, hrest⟩ := serializeItems_cons_eq_ok.mp h
        exact ⟨middle, ⟨l, hitem⟩, ls, hrest⟩

/-- The fields of an input object can be written one after the other if every key leads to a
declared field that takes the value, and all their variables agree. -/
theorem serializeFields_writes (c : Catalog) (typeName : String)
    (definitions : List Sdl.InputValue) : (fields : List (String × Value)) →
      Variables.Writes
        (fun table table' =>
          ∃ ls, c.serializeFields typeName definitions fields table = (.ok ls, table'))
        (∀ p ∈ fields, ∃ definition, inputField? definitions p.1 = some definition ∧
          c.Accepts definition.type p.2)
        (c.fieldsVisits definitions fields)
  | [] => by
      simp only [serializeFields_nil]
      rw [fieldsVisits]
      exact .unchanged (by simp)
  | (key, value) :: rest => by
      rw [fieldsVisits]
      cases hdefinition : inputField? definitions key with
      | none =>
        refine .congr (fun _ _ => ?_) (by simp [hdefinition]) (.impossible _)
        simp [serializeFields_cons_eq_ok, hdefinition]
      | some definition =>
        refine .congr (fun _ _ => ?_) ?_ ((serialize_writes c definition.type value).comp
          (serializeFields_writes c typeName definitions rest))
        · constructor
          · rintro ⟨middle, ⟨l, hvalue⟩, ls, hrest⟩
            exact ⟨_, serializeFields_cons_eq_ok.mpr
              ⟨definition, l, ls, middle, hdefinition, rfl, hvalue, hrest⟩⟩
          · rintro ⟨_, h⟩
            obtain ⟨_, l, ls, middle, hdefinition', -, hvalue, hrest⟩ :=
              serializeFields_cons_eq_ok.mp h
            obtain rfl := Option.some.inj (hdefinition.symm.trans hdefinition')
            exact ⟨middle, ⟨l, hvalue⟩, ls, hrest⟩
        · simp [hdefinition]

end

end Catalog

end GraphQLClient
