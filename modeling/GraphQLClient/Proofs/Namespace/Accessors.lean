import GraphQLClient.Namespace
import GraphQLClient.Proofs.Field.SelectionSets
import GraphQLClient.Proofs.Schema.Merge
import Mathlib.Data.List.Induction
import Mathlib.Data.List.Nodup

/-!
# Fields by their accessors

The fields of a type get their accessors in the order of the schema.  A field asks for the name that
it is given or that its own name is converted to, and a field before it may have that name already;
then it goes by its own name, which a field before it may have as well.  An accessor leads to the
first field that has it, so a field is found by its accessor exactly if one of the two names was
free.

## Main definitions

* `Namespace.members` : the fields of a namespace, in the order of the schema.
* `Catalog.IsCrowdedOut` : a field for which both names are taken.
* `Namespace.Tracks` : what holds of a namespace while fields are added to it.

## Main results

* `Namespace.Tracks.add`, `Namespace.tracks_ofFields` : adding one field, and all of them.
* `Namespace.Tracks.field?_eq_ok` : the field that an accessor leads to.
* `Catalog.namespace?_accessors` : the fields that their accessors lead to.
-/

namespace GraphQLClient

/-- The fields of a namespace, in the order of the schema. -/
def Namespace.members (n : Namespace) : List Field :=
  n.fields.map Prod.snd

/-- A field finds the accessor that it asks for and its own name taken by fields before it. -/
def Catalog.IsCrowdedOut (c : Catalog) (typeName : String) (before : List Field) (f : Field) :
    Prop :=
  c.accessorOf typeName f.name ∈ Field.accessors before ∧ f.name ∈ Field.accessors before

/-- Values are pairwise distinct if none of them is among those before it. -/
theorem nodup_map_iff_forall_split {α β : Type} (g : α → β) (l : List α) :
    (l.map g).Nodup ↔ ∀ before a after, l = before ++ a :: after → g a ∉ before.map g := by
  constructor
  · rintro h before a after rfl
    rw [List.map_append, List.map_cons, List.nodup_append] at h
    exact fun hmem => h.2.2 _ hmem _ List.mem_cons_self rfl
  · intro h
    induction l using List.reverseRecOn with
    | nil => exact List.nodup_nil
    | append_singleton l a ih =>
      have hl : (l.map g).Nodup := ih fun before b after hsplit =>
        h before b (after ++ [a]) (by rw [hsplit, List.append_assoc, List.cons_append])
      rw [List.map_append, List.map_singleton, ← List.concat_eq_append, List.nodup_concat]
      exact ⟨h l a [] rfl, hl⟩

/-- An accessor leads to a field if some field has it. -/
theorem Field.isSome_find?_accessor {fields : List Field} {a : String} :
    (fields.find? fun f => f.accessor == a).isSome = true ↔ a ∈ Field.accessors fields := by
  rw [List.find?_isSome, accessors, List.mem_map]
  simp only [beq_iff_eq]

namespace Namespace

/-- What holds of a namespace while fields are added: the fields stand under their names, which are
distinct, an accessor leads to the first field that has it, and a field has the accessor that it
asks for unless a field before it has that. -/
structure Tracks (c : Catalog) (n : Namespace) : Prop where
  fields : n.fields = n.members.map fun f => (f.name, f)
  names : (n.members.map Field.name).Nodup
  accessors : ∀ a, n.accessors.get? a =
    (n.members.find? fun f => f.accessor == a).map Field.name
  assigned : ∀ before f after, n.members = before ++ f :: after →
    f.accessor =
      if c.accessorOf n.typeName f.name ∈ Field.accessors before then f.name
      else c.accessorOf n.typeName f.name

/-! ### Adding fields -/

/-- What adding a field does: the field is put at the end, and its accessor is recorded if it is
new. -/
theorem add_eq (c : Catalog) (n : Namespace) (definition : Sdl.FieldDefinition) :
    ∃ f : Field, f.head.definition = definition ∧
      f.accessor =
        (if n.accessors.contains (c.accessorOf n.typeName definition.name) then definition.name
          else c.accessorOf n.typeName definition.name) ∧
      n.add c definition =
        ⟨n.typeName, n.fields ++ [(definition.name, f)],
          if n.accessors.contains f.accessor then n.accessors
          else n.accessors ++ [(f.accessor, definition.name)]⟩ := by
  rw [add]
  by_cases hcomposite : c.schema.isComposite definition.type.base = true
  · rw [if_pos hcomposite]
    exact ⟨.composite _ [], rfl, rfl, rfl⟩
  · rw [if_neg hcomposite]
    exact ⟨.leaf _, rfl, rfl, rfl⟩

namespace Tracks

variable {c : Catalog} {n : Namespace}

theorem contains_iff (ht : n.Tracks c) {a : String} :
    n.accessors.contains a = true ↔ a ∈ Field.accessors n.members := by
  rw [Entries.contains, ht.accessors, Option.isSome_map, Field.isSome_find?_accessor]

theorem empty (c : Catalog) (typeName : String) : (Namespace.empty typeName).Tracks c where
  fields := rfl
  names := List.nodup_nil
  accessors _ := rfl
  assigned before f after h := by simp [members, Namespace.empty] at h

/-- Adding a field of a new name. -/
theorem add (ht : n.Tracks c) {definition : Sdl.FieldDefinition}
    (hname : definition.name ∉ n.members.map Field.name) : (n.add c definition).Tracks c := by
  obtain ⟨f, rfl, haccessor, hadd⟩ := add_eq c n definition
  have hmembers : (n.add c f.head.definition).members = n.members ++ [f] := by
    rw [hadd, members, List.map_append]
    rfl
  constructor
  case fields =>
    rw [hmembers, hadd, List.map_append, ← ht.fields]
    rfl
  case names =>
    rw [hmembers, List.map_append, List.map_singleton, ← List.concat_eq_append, List.nodup_concat]
    exact ⟨hname, ht.names⟩
  case accessors =>
    intro a
    rw [hmembers, hadd, List.find?_append, Option.map_or, ← ht.accessors]
    by_cases hknown : n.accessors.contains f.accessor = true
    · rw [if_pos hknown]
      by_cases ha : f.accessor = a
      · obtain ⟨name, hget⟩ := Option.isSome_iff_exists.mp hknown
        rw [← ha, hget, Option.some_or]
      · simp [ha]
    · rw [if_neg hknown, Entries.get?_append, Entries.get?_cons]
      by_cases ha : f.accessor = a <;> simp [ha, Field.name]
  case assigned =>
    intro before g after hsplit
    rw [hmembers] at hsplit
    rw [hadd]
    -- The field is the one that is added, or it was a field already.
    rcases List.eq_nil_or_concat after with rfl | ⟨after, last, rfl⟩
    · obtain ⟨rfl, hlast⟩ := List.append_inj' hsplit rfl
      obtain rfl := (List.cons.inj hlast).1
      simp only [haccessor, ht.contains_iff]
      rfl
    · rw [List.concat_eq_append, ← List.cons_append, ← List.append_assoc] at hsplit
      exact ht.assigned before g after (List.append_inj_left' hsplit rfl)

end Tracks

theorem ofFields_concat (c : Catalog) (typeName : String) (definitions : List Sdl.FieldDefinition)
    (definition : Sdl.FieldDefinition) :
    ofFields c typeName (definitions ++ [definition]) =
      (ofFields c typeName definitions).add c definition := by
  rw [ofFields, List.foldl_append]
  rfl

/-- The namespace of fields with distinct names. -/
theorem tracks_ofFields (c : Catalog) (typeName : String) {definitions : List Sdl.FieldDefinition}
    (h : (definitions.map Sdl.FieldDefinition.name).Nodup) :
    (ofFields c typeName definitions).Tracks c ∧
      (ofFields c typeName definitions).typeName = typeName ∧
      (ofFields c typeName definitions).members.map (fun f => f.head.definition) =
        definitions := by
  induction definitions using List.reverseRecOn with
  | nil => exact ⟨.empty c typeName, rfl, rfl⟩
  | append_singleton definitions definition ih =>
    rw [List.map_append, List.map_singleton, ← List.concat_eq_append, List.nodup_concat] at h
    obtain ⟨ht, htypeName, hmembers⟩ := ih h.2
    have hnames : (ofFields c typeName definitions).members.map Field.name =
        definitions.map Sdl.FieldDefinition.name := by
      have h := congrArg (List.map Sdl.FieldDefinition.name) hmembers
      rwa [List.map_map] at h
    rw [ofFields_concat]
    obtain ⟨f, hf, -, hadd⟩ := add_eq c (ofFields c typeName definitions) definition
    refine ⟨ht.add (hnames ▸ h.1), ?_, ?_⟩
    · rw [hadd, htypeName]
    · rw [hadd, members, List.map_append, List.map_append, ← members, hmembers]
      simp [hf]

/-! ### Looking up accessors -/

theorem field?_eq_ok_iff {n : Namespace} {a : String} {f : Field} :
    n.field? a = .ok f ↔ n.find? a = some f := by
  rw [field?]
  cases n.find? a <;> simp

namespace Tracks

variable {c : Catalog} {n : Namespace}

/-- A field stands under its name. -/
theorem get?_name (ht : n.Tracks c) {f : Field} (hf : f ∈ n.members) :
    n.fields.get? f.name = some f := by
  refine Entries.get?_eq_some_of_mem ?_ ?_
  · rw [ht.fields, Entries.keys, List.map_map]
    exact ht.names
  · rw [ht.fields]
    exact List.mem_map_of_mem hf

/-- An accessor leads to the first field that has it. -/
theorem field?_eq_ok (ht : n.Tracks c) {a : String} {f : Field}
    (h : (n.members.find? fun f => f.accessor == a) = some f) : n.field? a = .ok f := by
  rw [field?_eq_ok_iff, find?, ht.accessors, h, Option.map_some, Option.bind_some,
    ht.get?_name (List.mem_of_find?_eq_some h), Option.some_or]

/-- A field is found by its accessor exactly if no field before it has the accessor. -/
theorem field?_accessor_eq_ok_iff (ht : n.Tracks c) {before after : List Field} {f : Field}
    (hsplit : n.members = before ++ f :: after) :
    n.field? f.accessor = .ok f ↔ f.accessor ∉ Field.accessors before := by
  constructor
  · intro hfield hmem
    obtain ⟨g, hg⟩ := Option.isSome_iff_exists.mp (Field.isSome_find?_accessor.mpr hmem)
    have hfirst : (n.members.find? fun g => g.accessor == f.accessor) = some g := by
      rw [hsplit, List.find?_append, hg, Option.some_or]
    obtain rfl : g = f := Except.ok.inj ((ht.field?_eq_ok hfirst).symm.trans hfield)
    -- The fields have distinct names, so the first one with the accessor is not the field itself.
    have hnames := (nodup_map_iff_forall_split Field.name n.members).mp ht.names before g after
    exact hnames hsplit (List.mem_map_of_mem (List.mem_of_find?_eq_some hg))
  · intro hmem
    have hnone : (before.find? fun g => g.accessor == f.accessor) = none :=
      Option.not_isSome_iff_eq_none.mp (mt Field.isSome_find?_accessor.mp hmem)
    refine ht.field?_eq_ok ?_
    rw [hsplit, List.find?_append, hnone, Option.none_or, List.find?_cons_of_pos (by simp)]

/-- A field has the accessor of a field before it exactly if it is crowded out. -/
theorem accessor_mem_iff (ht : n.Tracks c) {before after : List Field} {f : Field}
    (hsplit : n.members = before ++ f :: after) :
    f.accessor ∈ Field.accessors before ↔ c.IsCrowdedOut n.typeName before f := by
  rw [ht.assigned before f after hsplit, Catalog.IsCrowdedOut]
  by_cases hwanted : c.accessorOf n.typeName f.name ∈ Field.accessors before
  · rw [if_pos hwanted, and_iff_right hwanted]
  · rw [if_neg hwanted]
    exact iff_of_false hwanted fun h => hwanted h.1

end Tracks

end Namespace

namespace Catalog

open Namespace

theorem namespace?_eq_ok {c : Catalog} {typeName : String} {definitions : List Sdl.FieldDefinition}
    (h : c.schema.fieldsOf? typeName = some definitions) :
    c.namespace? typeName = .ok (ofFields c typeName definitions) := by
  rw [namespace?]
  cases htype : c.schema.type? typeName with
  | none => simp [Schema.fieldsOf?, Schema.body?, htype] at h
  | some t => simp only [h]

/-- **The fields that their accessors lead to.** In a valid schema every object and interface has a
namespace with one field for each of its definitions, in their order.  The accessor of a field leads
to the first field that has it, and so to the field itself exactly if the field is not crowded out;
and the accessors are distinct exactly if no field is. -/
theorem namespace?_accessors {text : String} {c : Catalog}
    (hschema : Schema.parse? text = some c.schema) {typeName : String}
    {definitions : List Sdl.FieldDefinition}
    (hfields : c.schema.fieldsOf? typeName = some definitions) :
    ∃ n, c.namespace? typeName = .ok n ∧
      n.members.map (fun f => f.head.definition) = definitions ∧
      (∀ f ∈ n.members, ∃ g, (n.members.find? fun g => g.accessor == f.accessor) = some g ∧
        n.field? f.accessor = .ok g) ∧
      (∀ before f after, n.members = before ++ f :: after →
        (n.field? f.accessor = .ok f ↔ ¬c.IsCrowdedOut typeName before f)) ∧
      ((Field.accessors n.members).Nodup ↔
        ∀ before f after, n.members = before ++ f :: after →
          ¬c.IsCrowdedOut typeName before f) := by
  obtain ⟨ht, htypeName, hmembers⟩ := tracks_ofFields c typeName
    (Schema.nodup_fieldNames_of_parse? hschema hfields)
  refine ⟨_, namespace?_eq_ok hfields, hmembers, fun f hf => ?_, fun before f after hsplit => ?_,
    ?_⟩
  · obtain ⟨g, hg⟩ := Option.isSome_iff_exists.mp
      (Field.isSome_find?_accessor.mpr (List.mem_map_of_mem hf))
    exact ⟨g, hg, ht.field?_eq_ok hg⟩
  · rw [ht.field?_accessor_eq_ok_iff hsplit, ht.accessor_mem_iff hsplit, htypeName]
  · rw [Field.accessors, nodup_map_iff_forall_split]
    refine forall₃_congr fun before f after => forall_congr' fun hsplit => ?_
    rw [← Field.accessors, ht.accessor_mem_iff hsplit, htypeName]

/-! ### Two fields that ask for one accessor -/

/-- A schema with a type whose two fields have names that are converted to one accessor. -/
def pairText : String :=
  "type Query \x7b pair: Pair \x7d type Pair \x7b appearsIn: Int, appears_in: Int \x7d"

/-- The second field of the pair has the accessor of the first, which leads to the first. -/
theorem field?_pairText :
    ∃ schema n f, Schema.parse? pairText = some schema ∧
      (ofSchema schema).namespace? "Pair" = .ok n ∧ f ∈ n.members ∧
      n.field? f.accessor ≠ .ok f ∧ ¬(Field.accessors n.members).Nodup := by
  have hpair : ((Schema.parse? pairText).bind fun schema =>
      (schema.fieldsOf? "Pair").bind fun definitions =>
        let n := ofFields (ofSchema schema) "Pair" definitions
        n.members[1]?.map fun f =>
          (f.name, (n.find? f.accessor).map Field.name, Field.accessors n.members)) =
      some ("appears_in", some "appearsIn", ["appears_in", "appears_in"]) := by
    decide +kernel
  obtain ⟨schema, hschema, hpair⟩ := Option.bind_eq_some_iff.mp hpair
  obtain ⟨definitions, hfields, hpair⟩ := Option.bind_eq_some_iff.mp hpair
  obtain ⟨f, hf, hpair⟩ := Option.map_eq_some_iff.mp hpair
  obtain ⟨hname, hfound, haccessors⟩ : _ ∧ _ ∧ _ := by simpa only [Prod.mk.injEq] using hpair
  refine ⟨schema, _, f, hschema, namespace?_eq_ok hfields, List.mem_of_getElem? hf,
    fun hself => ?_, ?_⟩
  · rw [field?_eq_ok_iff.mp hself, Option.map_some, hname] at hfound
    simp at hfound
  · rw [haccessors]
    decide

/-- With another accessor for the first field of the pair, both are found. -/
theorem field?_renamedPair :
    ∃ schema n, Schema.parse? pairText = some schema ∧
      ((ofSchema schema).withRename "Pair" "appearsIn" "episodes").namespace? "Pair" = .ok n ∧
      Field.accessors n.members = ["episodes", "appears_in"] ∧
      ∀ f ∈ n.members, n.field? f.accessor = .ok f := by
  have hpair : ((Schema.parse? pairText).bind fun schema =>
      let c := (ofSchema schema).withRename "Pair" "appearsIn" "episodes"
      (c.schema.fieldsOf? "Pair").map fun definitions =>
        Field.accessors (ofFields c "Pair" definitions).members) =
      some ["episodes", "appears_in"] := by
    decide +kernel
  obtain ⟨schema, hschema, hpair⟩ := Option.bind_eq_some_iff.mp hpair
  obtain ⟨definitions, hfields, haccessors⟩ := Option.map_eq_some_iff.mp hpair
  obtain ⟨n, hn, -, -, hfound, hdistinct⟩ := namespace?_accessors hschema hfields
  obtain rfl := Except.ok.inj ((namespace?_eq_ok hfields).symm.trans hn)
  refine ⟨schema, _, hschema, hn, haccessors, fun f hf => ?_⟩
  obtain ⟨before, after, hsplit⟩ := List.append_of_mem hf
  refine (hfound before f after hsplit).mpr (hdistinct.mp ?_ before f after hsplit)
  rw [haccessors]
  decide

end Catalog

end GraphQLClient
