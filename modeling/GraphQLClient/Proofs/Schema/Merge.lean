import GraphQLClient.Proofs.Entries
import GraphQLClient.Schema.Validity

/-!
# Schemas of documents without extensions

A document without extensions defines its types one by one, each under a name of its own, next to
the types that every schema has.  Its root types are those that it lists or, if it lists none, the
objects among its types that have the usual names.

## Main definitions

* `RootKind.usualName` : the usual names of root types.
* `Schema.IsPlain` : the documents without extensions.
* `Schema.typeEntries` : the types that a document defines, by name.

## Main results

* `Schema.types_of_merge?`, `Schema.roots_of_merge?` : the types and the root types of a document.
* `Schema.root?_of_usualRoots` : the root types of a document that lists none.
* `Schema.isObject_iff_of_merge?` : the objects of a document.
* `Schema.nodup_fieldNames_of_parse?` : the names of the fields of a type.
-/

namespace GraphQLClient

/-- The name that the root type of an operation usually has. -/
def RootKind.usualName : RootKind → String
  | .query => "Query"
  | .mutation => "Mutation"
  | .subscription => "Subscription"

namespace Schema

open Sdl

/-- The types that a document defines, by name. -/
def typeEntries (ds : List Definition) : Entries TypeDefinition :=
  ds.filterMap fun
    | .type t => some (t.name, t)
    | _ => none

/-- A document without extensions. -/
def IsPlain (ds : List Definition) : Prop :=
  (∀ e, .typeExtension e ∉ ds) ∧ ∀ e, .schemaExtension e ∉ ds

/-! ### Types -/

theorem define?_eq_some {s : Schema} {t : TypeDefinition} {draft : Draft} :
    Draft.define? ⟨s, []⟩ t = some draft ↔
      t.name ∉ Entries.keys s.types ∧
        draft = ⟨{ s with types := s.types ++ [(t.name, t)] }, []⟩ := by
  have hcontains : s.types.contains t.name = false ↔ t.name ∉ Entries.keys s.types := by
    rw [Entries.contains, Option.isSome_eq_false_iff, Option.isNone_iff_eq_none,
      Entries.get?_eq_none]
  rw [Draft.define?, ← hcontains]
  cases s.types.contains t.name with
  | true => simp
  | false => simp [eq_comm]

/-- The types of a document are defined one after the other, under names of their own. -/
theorem foldlM_add?_eq_some {ds : List Definition} (hds : IsPlain ds) {s : Schema}
    (hs : (Entries.keys s.types).Nodup) {draft : Draft} :
    ds.foldlM Draft.add? ⟨s, []⟩ = some draft ↔
      (Entries.keys (s.types ++ typeEntries ds)).Nodup ∧
        draft = ⟨{ s with types := s.types ++ typeEntries ds }, []⟩ := by
  induction ds generalizing s with
  | nil => simp [typeEntries, hs, eq_comm]
  | cons d ds ih =>
    have hplain : IsPlain ds :=
      ⟨fun e he => hds.1 e (List.mem_cons_of_mem _ he),
        fun e he => hds.2 e (List.mem_cons_of_mem _ he)⟩
    rw [List.foldlM_cons]
    cases d with
    | schema d => exact ih hplain hs
    | directive d => exact ih hplain hs
    | schemaExtension e => exact absurd List.mem_cons_self (hds.2 e)
    | typeExtension e => exact absurd List.mem_cons_self (hds.1 e)
    | type t =>
      have hentries : s.types ++ typeEntries (.type t :: ds) =
          s.types ++ [(t.name, t)] ++ typeEntries ds := by
        simp [typeEntries]
      have hnext : (Entries.keys (s.types ++ [(t.name, t)])).Nodup ↔
          t.name ∉ Entries.keys s.types := by
        rw [Entries.nodup_keys_concat, and_iff_right hs]
      rw [hentries]
      change Option.bind (Draft.define? ⟨s, []⟩ t) _ = some draft ↔ _
      rw [Option.bind_eq_some_iff]
      simp only [define?_eq_some]
      constructor
      · rintro ⟨_, ⟨hname, rfl⟩, hrest⟩
        exact (ih hplain (hnext.mpr hname)).mp hrest
      · rintro ⟨hnodup, rfl⟩
        have hfirst : (Entries.keys (s.types ++ [(t.name, t)])).Nodup := by
          rw [Entries.keys_append] at hnodup
          exact (List.nodup_append.mp hnodup).1
        exact ⟨_, ⟨hnext.mp hfirst, rfl⟩, (ih hplain hfirst).mpr ⟨hnodup, rfl⟩⟩

theorem nodup_keys_empty : (Entries.keys empty.types).Nodup := by decide

/-- The steps by which a document without extensions is merged. -/
theorem merge?_eq_some {ds : List Definition} (hds : IsPlain ds) {s : Schema}
    (h : merge? ds = some s) :
    ∃ draft : Schema, draft.types = empty.types ++ typeEntries ds ∧
      (Entries.keys draft.types).Nodup ∧ draft.withRoots? ds = some s := by
  simp only [merge?, bind, Option.bind_eq_some_iff] at h
  obtain ⟨typed, htyped, h⟩ := h
  split at h
  · obtain ⟨rooted, hrooted, h⟩ := Option.bind_eq_some_iff.mp h
    split at h
    · cases h
      rw [withTypes?] at htyped
      split at htyped
      · rename_i typed' hfold
        cases htyped
        obtain ⟨hnodup, hdraft⟩ := (foldlM_add?_eq_some hds nodup_keys_empty).mp hfold
        cases hdraft
        exact ⟨_, rfl, hnodup, hrooted⟩
      · cases htyped
    · cases h
  · cases h

/-! ### Root types -/

theorem schemaExtensions_of_isPlain {ds : List Definition} (hds : IsPlain ds) :
    schemaExtensions ds = [] := by
  rw [schemaExtensions, List.filterMap_eq_nil_iff]
  intro d hd
  cases d with
  | schemaExtension e => exact absurd hd (hds.2 e)
  | schema _ | directive _ | type _ | typeExtension _ => rfl

/-- The root types of a document without extensions are those of its one definition of them or, if
it has none, the usual ones. -/
theorem withRoots?_eq_some {ds : List Definition} (hds : IsPlain ds) {draft s : Schema}
    (h : draft.withRoots? ds = some s) :
    s.types = draft.types ∧
      (schemaDefinitions ds = [] ∧ s.roots = draft.usualRoots ∨
        ∃ d, schemaDefinitions ds = [d] ∧ s.roots = d.roots) := by
  have hextensions := schemaExtensions_of_isPlain hds
  rw [withRoots?, hextensions] at h
  cases hdefinitions : schemaDefinitions ds with
  | nil =>
    simp only [hdefinitions, List.isEmpty_nil, Bool.not_true, Bool.and_false, Bool.false_eq_true,
      if_false, bind, Option.bind_some, List.flatMap_nil, List.append_nil,
      Option.ite_none_right_eq_some, Option.some.injEq] at h
    obtain ⟨-, rfl⟩ := h
    exact ⟨rfl, .inl ⟨rfl, rfl⟩⟩
  | cons d more =>
    cases more with
    | nil =>
      simp only [hdefinitions, bind, Option.bind_some, List.flatMap_nil, List.append_nil,
        Option.ite_none_right_eq_some, Option.some.injEq] at h
      obtain ⟨-, rfl⟩ := h
      exact ⟨rfl, .inr ⟨d, rfl, rfl⟩⟩
    | cons d' more =>
      simp [hdefinitions, bind] at h

/-- The types of a document are those of every schema and those that it defines. -/
theorem types_of_merge? {ds : List Definition} (hds : IsPlain ds) {s : Schema}
    (h : merge? ds = some s) :
    s.types = empty.types ++ typeEntries ds ∧ (Entries.keys s.types).Nodup := by
  obtain ⟨draft, htypes, hnodup, hroots⟩ := merge?_eq_some hds h
  obtain ⟨hsame, -⟩ := withRoots?_eq_some hds hroots
  rw [hsame]
  exact ⟨htypes, hnodup⟩

/-- The root types of a document are those that it lists or, if it lists none, the usual ones. -/
theorem roots_of_merge? {ds : List Definition} (hds : IsPlain ds) {s : Schema}
    (h : merge? ds = some s) :
    schemaDefinitions ds = [] ∧ s.roots = s.usualRoots ∨
      ∃ d, schemaDefinitions ds = [d] ∧ s.roots = d.roots := by
  obtain ⟨draft, -, -, hroots⟩ := merge?_eq_some hds h
  obtain ⟨hsame, hcases⟩ := withRoots?_eq_some hds hroots
  have husual : s.usualRoots = draft.usualRoots := by
    simp only [usualRoots, body?, type?, hsame]
  rw [husual]
  exact hcases

/-- The usual root type of an operation is the object with its usual name. -/
theorem root?_of_usualRoots {s : Schema} (h : s.roots = s.usualRoots) (kind : RootKind) :
    s.root? kind = if s.isObject kind.usualName then some kind.usualName else none := by
  have husual : s.roots =
      [(RootKind.query, "Query"), (.mutation, "Mutation"), (.subscription, "Subscription")].filter
        fun p => s.isObject p.2 := h
  rw [root?, husual]
  cases hquery : s.isObject "Query" <;> cases hmutation : s.isObject "Mutation" <;>
    cases hsubscription : s.isObject "Subscription" <;> cases kind <;>
    simp [RootKind.usualName, hquery, hmutation, hsubscription]

theorem mem_keys_empty {name : String} :
    name ∈ Entries.keys empty.types ↔ isBuiltin name = true := by
  have hkeys : Entries.keys empty.types =
      introspectionTypes.map TypeDefinition.name ++ builtinScalars := rfl
  rw [hkeys, isBuiltin, List.mem_append, Bool.or_eq_true, List.contains_iff_mem, or_comm]
  simp

theorem mem_typeEntries {ds : List Definition} {name : String} {t : TypeDefinition} :
    (name, t) ∈ typeEntries ds ↔ .type t ∈ ds ∧ t.name = name := by
  rw [typeEntries, List.mem_filterMap]
  constructor
  · rintro ⟨d, hd, hentry⟩
    cases d with
    | type t' =>
      cases hentry
      exact ⟨hd, rfl⟩
    | schema _ | schemaExtension _ | typeExtension _ | directive _ => cases hentry
  · rintro ⟨hd, rfl⟩
    exact ⟨.type t, hd, rfl⟩

/-- A name other than that of a type of every schema stands for the type that the document defines
under it. -/
theorem type?_eq_some_of_merge? {ds : List Definition} (hds : IsPlain ds) {s : Schema}
    (h : merge? ds = some s) {name : String} (hname : isBuiltin name = false)
    {t : TypeDefinition} : s.type? name = some t ↔ .type t ∈ ds ∧ t.name = name := by
  obtain ⟨htypes, hnodup⟩ := types_of_merge? hds h
  have hempty : (name, t) ∉ empty.types := fun hmem => by
    rw [mem_keys_empty.mp (List.mem_map_of_mem hmem)] at hname
    cases hname
  have hmem : (name, t) ∈ s.types ↔ (name, t) ∈ typeEntries ds := by
    rw [htypes, List.mem_append, or_iff_right hempty]
  rw [← mem_typeEntries, ← hmem, type?]
  exact ⟨Entries.mem_of_get?_eq_some, Entries.get?_eq_some_of_mem hnodup⟩

theorem isObject_iff {s : Schema} {name : String} :
    s.isObject name = true ↔
      ∃ t, s.type? name = some t ∧ ∃ interfaces fields, t.body = .object interfaces fields := by
  rw [isObject, body?]
  cases s.type? name with
  | none => simp
  | some t =>
    simp only [Option.map_some, Option.some.injEq, exists_eq_left']
    cases t.body <;> simp

/-- The objects of a document, apart from those of every schema, are those that it defines. -/
theorem isObject_iff_of_merge? {ds : List Definition} (hds : IsPlain ds) {s : Schema}
    (h : merge? ds = some s) {name : String} (hname : isBuiltin name = false) :
    s.isObject name = true ↔
      ∃ t, .type t ∈ ds ∧ t.name = name ∧
        ∃ interfaces fields, t.body = .object interfaces fields := by
  simp only [isObject_iff, type?_eq_some_of_merge? hds h hname, and_assoc]

/-! ### Schemas that are used -/

/-- A schema that is read is that of the definitions, up to scalars that nothing refers to. -/
theorem parse?_eq_some {text : String} {s : Schema} :
    parse? text = some s ↔
      ∃ ds merged, Sdl.parse? text = some ds ∧ merge? ds = some merged ∧ merged.isValid = true ∧
        s = merged.prune := by
  simp only [parse?, bind, Option.bind_eq_some_iff, Option.ite_none_right_eq_some,
    Option.some.injEq]
  constructor
  · rintro ⟨ds, hds, merged, hmerged, hvalid, hprune⟩
    exact ⟨ds, merged, hds, hmerged, hvalid, hprune.symm⟩
  · rintro ⟨ds, merged, hds, hmerged, hvalid, hprune⟩
    exact ⟨ds, hds, merged, hmerged, hvalid, hprune.symm⟩

@[simp]
theorem root?_prune (s : Schema) (kind : RootKind) : s.prune.root? kind = s.root? kind := rfl

/-- In a merged schema no part of a type has the name of another. -/
theorem namesAreDistinct_of_merge? {ds : List Definition} {s : Schema} (h : merge? ds = some s) :
    ∀ p ∈ s.types, p.2.body.namesAreDistinct = true := by
  simp only [merge?, bind, Option.bind_eq_some_iff] at h
  obtain ⟨typed, -, h⟩ := h
  split at h
  · obtain ⟨rooted, -, h⟩ := Option.bind_eq_some_iff.mp h
    split at h
    · rename_i hall
      cases h
      exact List.all_eq_true.mp hall
    · cases h
  · cases h

theorem fieldsOf?_eq_some {s : Schema} {typeName : String} {fields : List FieldDefinition}
    (h : s.fieldsOf? typeName = some fields) :
    ∃ t interfaces, (typeName, t) ∈ s.types ∧
      (t.body = .object interfaces fields ∨ t.body = .interface interfaces fields) := by
  rw [fieldsOf?, body?, type?] at h
  cases htype : Entries.get? s.types typeName with
  | none =>
    rw [htype] at h
    cases h
  | some t =>
    have hmem := Entries.mem_of_get?_eq_some htype
    rw [htype, Option.map_some] at h
    split at h
    · rename_i interfaces fields' hbody
      cases h
      exact ⟨t, interfaces, hmem, .inl (Option.some.inj hbody)⟩
    · rename_i interfaces fields' hbody
      cases h
      exact ⟨t, interfaces, hmem, .inr (Option.some.inj hbody)⟩
    · cases h

/-- The fields of a type of a valid schema have distinct names. -/
theorem nodup_fieldNames_of_parse? {text : String} {s : Schema} (h : parse? text = some s)
    {typeName : String} {fields : List FieldDefinition}
    (hfields : s.fieldsOf? typeName = some fields) : (fields.map FieldDefinition.name).Nodup := by
  obtain ⟨ds, merged, -, hmerged, -, rfl⟩ := parse?_eq_some.mp h
  obtain ⟨t, interfaces, hmem, hbody⟩ := fieldsOf?_eq_some hfields
  have hdistinct := namesAreDistinct_of_merge? hmerged _ (List.mem_filter.mp hmem).1
  rcases hbody with hbody | hbody <;>
  · rw [hbody, TypeBody.namesAreDistinct, Bool.and_eq_true] at hdistinct
    exact of_decide_eq_true hdistinct.2

end Schema

end GraphQLClient
