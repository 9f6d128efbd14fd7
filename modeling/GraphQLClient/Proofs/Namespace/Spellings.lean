import GraphQLClient.Proofs.Name.Respelling
import GraphQLClient.Proofs.Namespace.Accessors

/-!
# Spellings of a field

A field can be requested under any name whose wire form is the name of the field.  Such a name is
first looked up as an accessor and as a name of the schema, and it may be one of these by accident.
In a type whose fields have no underscores inside their names, no accessors that are given to them
and accessors of their own, this does no harm: an accessor has the accessor of its field again when
it is converted to its wire form and back, and a name of the schema is its own wire form.  So what
the first two look-ups find is the field itself.

## Main results

* `Namespace.Tracks.accessor_eq` : the accessors of fields that ask for different ones.
* `Namespace.Tracks.field?_eq_ok_of_forall` : a name that leads to one field only.
* `Catalog.field?_of_toWire_eq` : the names that lead to a field.
-/

namespace GraphQLClient

open Name (toAccessor toWire)

namespace Namespace.Tracks

variable {c : Catalog} {n : Namespace}

/-- Fields that ask for different accessors have the ones that they ask for. -/
theorem accessor_eq (ht : n.Tracks c)
    (hwanted : (n.members.map fun f => c.accessorOf n.typeName f.name).Nodup) :
    ∀ f ∈ n.members, f.accessor = c.accessorOf n.typeName f.name := by
  suffices hprefix : ∀ before after, n.members = before ++ after →
      ∀ f ∈ before, f.accessor = c.accessorOf n.typeName f.name from
    hprefix n.members [] (List.append_nil _).symm
  intro before
  induction before using List.reverseRecOn with
  | nil => simp
  | append_singleton before f ih =>
    intro after hsplit
    rw [List.append_assoc, List.singleton_append] at hsplit
    have hbefore := ih (f :: after) hsplit
    have hfree : c.accessorOf n.typeName f.name ∉ Field.accessors before := by
      rw [Field.accessors, List.map_congr_left hbefore]
      exact (nodup_map_iff_forall_split _ _).mp hwanted before f after hsplit
    have hf : f.accessor = c.accessorOf n.typeName f.name := by
      rw [ht.assigned before f after hsplit, if_neg hfree]
    exact List.forall_mem_append.mpr ⟨hbefore, List.forall_mem_singleton.mpr hf⟩

/-- A name whose wire form is the name of a field leads to the field, if no other field has it as
its accessor or as its name. -/
theorem field?_eq_ok_of_forall (ht : n.Tracks c) {name : String} {f : Field} (hf : f ∈ n.members)
    (hname : toWire name = f.name)
    (hother : ∀ g ∈ n.members, g.accessor = name ∨ g.name = name → g = f) :
    n.field? name = .ok f := by
  cases hfound : n.members.find? fun g => g.accessor == name with
  | some g =>
    obtain rfl : g = f :=
      hother g (List.mem_of_find?_eq_some hfound) (.inl (by simpa using List.find?_some hfound))
    exact ht.field?_eq_ok hfound
  | none =>
    rw [field?_eq_ok_iff, find?, ht.accessors, hfound, hname, ht.get?_name hf]
    cases hget : n.fields.get? name with
    | none => rfl
    | some g =>
      have hmem := Entries.mem_of_get?_eq_some hget
      rw [ht.fields, List.mem_map] at hmem
      obtain ⟨g, hg, heq⟩ := hmem
      obtain ⟨rfl, rfl⟩ := Prod.mk.inj heq
      rw [hother _ hg (.inr rfl)]
      rfl

end Namespace.Tracks

namespace Catalog

open Namespace

/-- **The names that lead to a field.** In a type of a valid schema whose fields have no replaced
accessors, no underscores but leading ones and derived accessors of their own, every name whose wire
form is the name of a field leads to that field, which has its derived accessor, and is neither the
accessor nor the name of another field. -/
theorem field?_of_toWire_eq {text : String} {c : Catalog}
    (hschema : Schema.parse? text = some c.schema) {typeName : String}
    {definitions : List Sdl.FieldDefinition}
    (hfields : c.schema.fieldsOf? typeName = some definitions)
    (hrenames : ∀ d ∈ definitions, c.rename? typeName d.name = none)
    (hnames : ∀ d ∈ definitions, '_' ∉ d.name.toList.dropWhile (· = '_'))
    (haccessors : (definitions.map fun d => toAccessor d.name).Nodup) :
    ∃ n, c.namespace? typeName = .ok n ∧
      ∀ d ∈ definitions, ∃ f ∈ n.members, f.head.definition = d ∧
        f.accessor = toAccessor d.name ∧
          ∀ name, toWire name = d.name →
            n.field? name = .ok f ∧ ∀ g ∈ n.members, g.accessor = name ∨ g.name = name → g = f := by
  obtain ⟨ht, htypeName, hmembers⟩ := tracks_ofFields c typeName
    (Schema.nodup_fieldNames_of_parse? hschema hfields)
  refine ⟨_, namespace?_eq_ok hfields, ?_⟩
  generalize ofFields c typeName definitions = n at ht htypeName hmembers
  subst htypeName
  have hdefinition : ∀ f ∈ n.members, f.head.definition ∈ definitions := fun f hf =>
    hmembers ▸ List.mem_map_of_mem hf
  have hwanted : ∀ f ∈ n.members, c.accessorOf n.typeName f.name = toAccessor f.name := by
    intro f hf
    have hrename : c.rename? n.typeName f.name = none := hrenames _ (hdefinition f hf)
    rw [accessorOf, hrename, Option.getD_none]
  have hderived : (n.members.map fun f => toAccessor f.name).Nodup := by
    rw [← hmembers, List.map_map] at haccessors
    exact haccessors
  have haccessor : ∀ f ∈ n.members, f.accessor = toAccessor f.name := fun f hf =>
    (ht.accessor_eq (List.map_congr_left hwanted ▸ hderived) f hf).trans (hwanted f hf)
  intro d hd
  rw [← hmembers, List.mem_map] at hd
  obtain ⟨f, hf, rfl⟩ := hd
  refine ⟨f, hf, rfl, haccessor f hf, fun name hname => ?_⟩
  suffices hother : ∀ g ∈ n.members, g.accessor = name ∨ g.name = name → g = f from
    ⟨ht.field?_eq_ok_of_forall hf hname hother, hother⟩
  rintro g hg (rfl | rfl)
  · -- The accessor of `g` is given back by its wire form, which is the name of `f`.
    have hsame : toAccessor g.name = toAccessor f.name := by
      have hback := Name.toAccessor_toWire_toAccessor (hnames _ (hdefinition g hg))
      rw [haccessor g hg] at hname
      exact hback.symm.trans (congrArg toAccessor hname)
    exact List.inj_on_of_nodup_map hderived hg hf hsame
  · have hself : toWire g.name = g.name := Name.toWire_of_notMem (hnames _ (hdefinition g hg))
    exact List.inj_on_of_nodup_map ht.names hg hf (hself.symm.trans hname)

/-! ### A point by its coordinates -/

/-- A schema with a point, whose fields can be spelled in several ways. -/
def pointText : String :=
  "type Query \x7b point: Point \x7d type Point \x7b coordXY: Int, coordX: Int, _id: Int \x7d"

/-- The coordinates have one accessor, and are found under another spelling too. -/
theorem field?_coordXY :
    ∃ schema definitions n f, Schema.parse? pointText = some schema ∧
      schema.fieldsOf? "Point" = some definitions ∧
      (∀ d ∈ definitions, (ofSchema schema).rename? "Point" d.name = none) ∧
      (∀ d ∈ definitions, '_' ∉ d.name.toList.dropWhile (· = '_')) ∧
      (definitions.map fun d => toAccessor d.name).Nodup ∧
      (ofSchema schema).namespace? "Point" = .ok n ∧ f.accessor = "coord_xy" ∧
      toWire "coord_x_y" = f.name ∧ n.field? "coord_x_y" = .ok f := by
  have hpoint : ((Schema.parse? pointText).bind fun schema =>
      (schema.fieldsOf? "Point").map fun definitions =>
        definitions.map Sdl.FieldDefinition.name) =
      some ["coordXY", "coordX", "_id"] := by
    decide +kernel
  obtain ⟨schema, hschema, hpoint⟩ := Option.bind_eq_some_iff.mp hpoint
  obtain ⟨definitions, hfields, hpoint⟩ := Option.map_eq_some_iff.mp hpoint
  have hnames : ∀ d ∈ definitions, '_' ∉ d.name.toList.dropWhile (· = '_') := by
    have hall : ∀ name ∈ definitions.map Sdl.FieldDefinition.name,
        '_' ∉ name.toList.dropWhile (· = '_') := by
      rw [hpoint]
      decide
    exact fun d hd => hall d.name (List.mem_map_of_mem hd)
  have haccessors : (definitions.map fun d => toAccessor d.name).Nodup := by
    have hmap : (definitions.map fun d => toAccessor d.name) =
        (definitions.map Sdl.FieldDefinition.name).map toAccessor := by
      rw [List.map_map]
      rfl
    rw [hmap, hpoint]
    decide
  obtain ⟨n, hn, hfound⟩ :=
    field?_of_toWire_eq (c := ofSchema schema) hschema hfields (fun _ _ => rfl) hnames haccessors
  have hmem : "coordXY" ∈ definitions.map Sdl.FieldDefinition.name := by
    rw [hpoint]
    decide
  obtain ⟨d, hd, hname⟩ := List.mem_map.mp hmem
  obtain ⟨f, -, rfl, haccessor, hf⟩ := hfound d hd
  have hwire : toWire "coord_x_y" = f.head.definition.name := hname ▸ by decide
  refine ⟨schema, definitions, n, f, hschema, hfields, fun _ _ => rfl, hnames, haccessors, hn, ?_,
    hwire, (hf "coord_x_y" hwire).1⟩
  rw [haccessor, hname]
  decide

end Catalog

end GraphQLClient
