import GraphQLClient.Proofs.Namespace.Spellings

/-!
# Accessors that are given to fields

Giving an accessor to a field does what it says and nothing else, as long as the accessors that the
fields of a type ask for do not get in each other's way: they are pairwise distinct, and one that is
the name of a field is the name of its own field.  Then every field has the accessor that it asks
for, and is found under it and under its name.  A field is then known by its definition and its own
accessor alone, so that another accessor for one field leaves every other field as it was, and what
leads to it.

## Main definitions

* `Catalog.AsksApart` : the accessors that fields ask for do not get in each other's way.
* `Schema.bareField` : a field as a namespace holds it.

## Main results

* `Namespace.eq_bareField` : a field of a namespace is known by its definition and its accessor.
* `Namespace.Tracks.field?_of_asksApart` : the names that lead to a field.
* `Catalog.AsksApart.withRename` : accessors that do not get in the way of others.
* `Catalog.namespace?_withRename` : what an accessor changes that is given to a field.
-/

namespace GraphQLClient

/-- The accessors that fields with given names ask for do not get in each other's way: they are
pairwise distinct, and none of them is the name of another field. -/
structure Catalog.AsksApart (c : Catalog) (typeName : String) (names : List String) : Prop where
  distinct : (names.map (c.accessorOf typeName)).Nodup
  own : ∀ name ∈ names, c.accessorOf typeName name ∈ names → c.accessorOf typeName name = name

/-! ### Fields of a namespace -/

/-- A field as a namespace holds it: without alias, arguments and selections. -/
def Schema.bareField (s : Schema) (typeName : String) (definition : Sdl.FieldDefinition)
    (accessor : String) : Field :=
  if s.isComposite definition.type.base then
    .composite ⟨typeName, definition, none, accessor, []⟩ []
  else .leaf ⟨typeName, definition, none, accessor, []⟩

@[simp]
theorem Schema.head_bareField (s : Schema) (typeName : String)
    (definition : Sdl.FieldDefinition) (accessor : String) :
    (s.bareField typeName definition accessor).head =
      ⟨typeName, definition, none, accessor, []⟩ := by
  unfold bareField
  split <;> rfl

@[simp]
theorem Schema.name_bareField (s : Schema) (typeName : String)
    (definition : Sdl.FieldDefinition) (accessor : String) :
    (s.bareField typeName definition accessor).name = definition.name := by
  rw [Field.name, head_bareField]

@[simp]
theorem Schema.accessor_bareField (s : Schema) (typeName : String)
    (definition : Sdl.FieldDefinition) (accessor : String) :
    (s.bareField typeName definition accessor).accessor = accessor := by
  rw [Field.accessor, head_bareField]

namespace Namespace

/-- Adding a field puts it at the end. -/
theorem members_add (c : Catalog) (n : Namespace) (definition : Sdl.FieldDefinition) :
    ∃ accessor, (n.add c definition).members =
      n.members ++ [c.schema.bareField n.typeName definition accessor] :=
  ⟨_, List.map_append⟩

theorem typeName_ofFields (c : Catalog) (typeName : String)
    (definitions : List Sdl.FieldDefinition) :
    (ofFields c typeName definitions).typeName = typeName := by
  induction definitions using List.reverseRecOn with
  | nil => rfl
  | append_singleton definitions definition ih =>
    rw [ofFields_concat]
    exact ih

/-- A field of a namespace is known by its definition and its accessor. -/
theorem eq_bareField (c : Catalog) (typeName : String) (definitions : List Sdl.FieldDefinition) :
    ∀ f ∈ (ofFields c typeName definitions).members,
      f = c.schema.bareField typeName f.head.definition f.accessor := by
  induction definitions using List.reverseRecOn with
  | nil => exact fun f hf => absurd hf List.not_mem_nil
  | append_singleton definitions definition ih =>
    obtain ⟨accessor, hmembers⟩ := members_add c (ofFields c typeName definitions) definition
    rw [ofFields_concat, hmembers, typeName_ofFields, List.forall_mem_append]
    refine ⟨ih, List.forall_mem_singleton.mpr ?_⟩
    rw [Schema.accessor_bareField, Schema.head_bareField]

namespace Tracks

variable {c : Catalog} {n : Namespace}

/-- A field is found under its name if no other field has the name as its accessor. -/
theorem field?_name_eq_ok (ht : n.Tracks c) {f : Field} (hf : f ∈ n.members)
    (hother : ∀ g ∈ n.members, g.accessor = f.name → g = f) : n.field? f.name = .ok f := by
  cases hfound : n.members.find? fun g => g.accessor == f.name with
  | some g =>
    obtain rfl : g = f :=
      hother g (List.mem_of_find?_eq_some hfound) (by simpa using List.find?_some hfound)
    exact ht.field?_eq_ok hfound
  | none =>
    rw [field?_eq_ok_iff, find?, ht.accessors, hfound, ht.get?_name hf]
    rfl

/-- Fields whose accessors do not get in each other's way have the accessors that they ask for, and
are found under them and under their names. -/
theorem field?_of_asksApart (ht : n.Tracks c)
    (hapart : c.AsksApart n.typeName (n.members.map Field.name)) {f : Field}
    (hf : f ∈ n.members) :
    f.accessor = c.accessorOf n.typeName f.name ∧ n.field? f.accessor = .ok f ∧
      n.field? f.name = .ok f := by
  have hwanted : (n.members.map fun f => c.accessorOf n.typeName f.name).Nodup := by
    have hdistinct := hapart.distinct
    rwa [List.map_map] at hdistinct
  have haccessor := ht.accessor_eq hwanted
  have haccessors : (n.members.map Field.accessor).Nodup :=
    List.map_congr_left haccessor ▸ hwanted
  refine ⟨haccessor f hf, ?_, ht.field?_name_eq_ok hf fun g hg hname => ?_⟩
  · obtain ⟨before, after, hsplit⟩ := List.append_of_mem hf
    rw [ht.field?_accessor_eq_ok_iff hsplit]
    exact (nodup_map_iff_forall_split _ _).mp haccessors before f after hsplit
  · -- The accessor of `g` is the name of `f`, and so it is the name of `g` too.
    rw [haccessor g hg] at hname
    have hown : g.name = f.name := by
      rw [← hname, hapart.own g.name (List.mem_map_of_mem hg) (hname ▸ List.mem_map_of_mem hf)]
    exact List.inj_on_of_nodup_map ht.names hg hf hown

end Tracks

end Namespace

namespace Catalog

open Namespace

theorem accessorOf_withRename_self (c : Catalog) (typeName renamed accessor : String) :
    (c.withRename typeName renamed accessor).accessorOf typeName renamed = accessor := by
  rw [accessorOf, rename?_withRename, if_pos ⟨rfl, rfl⟩, Option.getD_some]

theorem accessorOf_withRename {c : Catalog} {renamedType renamed accessor typeName name : String}
    (h : ¬(typeName = renamedType ∧ name = renamed)) :
    (c.withRename renamedType renamed accessor).accessorOf typeName name =
      c.accessorOf typeName name := by
  rw [accessorOf, accessorOf, rename?_withRename, if_neg h]

/-- The accessors still do not get in each other's way when a field is given one that no field has
as its name and no field asks for. -/
theorem AsksApart.withRename {c : Catalog} {typeName : String} {names : List String}
    (h : c.AsksApart typeName names) (renamed : String) {accessor : String}
    (hnames : accessor ∉ names) (hfree : accessor ∉ names.map (c.accessorOf typeName)) :
    (c.withRename typeName renamed accessor).AsksApart typeName names := by
  have hrenamed := c.accessorOf_withRename_self typeName renamed accessor
  have hother {name : String} (hname : name ≠ renamed) :
      (c.withRename typeName renamed accessor).accessorOf typeName name =
        c.accessorOf typeName name :=
    accessorOf_withRename fun h => hname h.2
  have hnew {name : String} (hname : name ∈ names) : c.accessorOf typeName name ≠ accessor :=
    fun heq => hfree (heq ▸ List.mem_map_of_mem hname)
  constructor
  · refine List.Nodup.map_on (fun x hx y hy heq => ?_) h.distinct.of_map
    by_cases hx' : x = renamed <;> by_cases hy' : y = renamed
    · rw [hx', hy']
    · rw [hx', hrenamed, hother hy'] at heq
      exact absurd heq.symm (hnew hy)
    · rw [hy', hrenamed, hother hx'] at heq
      exact absurd heq (hnew hx)
    · rw [hother hx', hother hy'] at heq
      exact List.inj_on_of_nodup_map h.distinct hx hy heq
  · intro name hname hmem
    by_cases heq : name = renamed
    · rw [heq, hrenamed] at hmem
      exact absurd hmem hnames
    · rw [hother heq] at hmem ⊢
      exact h.own name hname hmem

/-- The namespace of a type of a valid schema whose accessors do not get in each other's way. -/
theorem namespace?_of_asksApart {text : String} {c : Catalog}
    (hschema : Schema.parse? text = some c.schema) {typeName : String}
    {definitions : List Sdl.FieldDefinition}
    (hfields : c.schema.fieldsOf? typeName = some definitions)
    (hapart : c.AsksApart typeName (definitions.map Sdl.FieldDefinition.name)) :
    ∃ n, c.namespace? typeName = .ok n ∧
      n.members = definitions.map (fun d =>
        c.schema.bareField typeName d (c.accessorOf typeName d.name)) ∧
      ∀ f ∈ n.members, f.accessor = c.accessorOf typeName f.name ∧ n.field? f.accessor = .ok f ∧
        n.field? f.name = .ok f := by
  obtain ⟨ht, htypeName, hmembers⟩ := tracks_ofFields c typeName
    (Schema.nodup_fieldNames_of_parse? hschema hfields)
  have hbare := eq_bareField c typeName definitions
  refine ⟨_, namespace?_eq_ok hfields, ?_⟩
  generalize ofFields c typeName definitions = n at ht htypeName hmembers hbare
  subst htypeName hmembers
  rw [List.map_map] at hapart
  have hfound : ∀ f ∈ n.members, f.accessor = c.accessorOf n.typeName f.name ∧
      n.field? f.accessor = .ok f ∧ n.field? f.name = .ok f := fun f hf =>
    ht.field?_of_asksApart hapart hf
  refine ⟨?_, hfound⟩
  rw [List.map_map]
  conv_lhs => rw [← List.map_id n.members]
  refine List.map_congr_left fun f hf => (hbare f hf).trans ?_
  rw [(hfound f hf).1]
  rfl

/-- **Accessors that are given to fields.** In a type of a valid schema whose fields ask for
accessors that do not get in each other's way, every field has the accessor that it asks for and is
found under it and under its name.  When another accessor is given to a field, under the same
condition, that field has the given accessor and is found under it and under its name; every other
field stays as it is, with its accessor, and its accessor and its name lead to it as before. -/
theorem namespace?_withRename {text : String} {c : Catalog}
    (hschema : Schema.parse? text = some c.schema) {typeName : String}
    {definitions : List Sdl.FieldDefinition}
    (hfields : c.schema.fieldsOf? typeName = some definitions)
    (hapart : c.AsksApart typeName (definitions.map Sdl.FieldDefinition.name)) :
    ∃ n, c.namespace? typeName = .ok n ∧
      n.members.map (fun f => f.head.definition) = definitions ∧
      (∀ f ∈ n.members, f.accessor = c.accessorOf typeName f.name ∧
        n.field? f.accessor = .ok f ∧ n.field? f.name = .ok f) ∧
      ∀ renamedType renamed accessor,
        (c.withRename renamedType renamed accessor).AsksApart typeName
            (definitions.map Sdl.FieldDefinition.name) →
          ∃ n', (c.withRename renamedType renamed accessor).namespace? typeName = .ok n' ∧
            (∀ f ∈ n.members, typeName = renamedType ∧ f.name = renamed →
              ∃ g ∈ n'.members, g.head.definition = f.head.definition ∧ g.accessor = accessor ∧
                n'.field? accessor = .ok g ∧ n'.field? renamed = .ok g) ∧
            ∀ f ∈ n.members, ¬(typeName = renamedType ∧ f.name = renamed) →
              f ∈ n'.members ∧ n'.field? f.accessor = n.field? f.accessor ∧
                n'.field? f.name = n.field? f.name := by
  obtain ⟨n, hn, hmembers, hfound⟩ := namespace?_of_asksApart hschema hfields hapart
  refine ⟨n, hn, ?_, hfound, fun renamedType renamed accessor hapart' => ?_⟩
  · rw [hmembers, List.map_map]
    conv_rhs => rw [← List.map_id definitions]
    refine List.map_congr_left fun d _ => ?_
    rw [Function.comp_apply, Schema.head_bareField, id]
  obtain ⟨n', hn', hmembers', hfound'⟩ := namespace?_of_asksApart
    (c := c.withRename renamedType renamed accessor) hschema hfields hapart'
  rw [show (c.withRename renamedType renamed accessor).schema = c.schema from rfl] at hmembers'
  refine ⟨n', hn', fun f hf hrenamed => ?_, fun f hf hother => ?_⟩
  · obtain ⟨rfl, hname⟩ := hrenamed
    rw [hmembers, List.mem_map] at hf
    obtain ⟨d, hd, rfl⟩ := hf
    obtain rfl : d.name = renamed := by simpa using hname
    have hg : c.schema.bareField typeName d accessor ∈ n'.members := by
      rw [hmembers', List.mem_map]
      exact ⟨d, hd, by rw [accessorOf_withRename_self]⟩
    obtain ⟨-, haccessor, hname⟩ := hfound' _ hg
    rw [Schema.accessor_bareField] at haccessor
    rw [Schema.name_bareField] at hname
    exact ⟨_, hg, by simp, by simp, haccessor, hname⟩
  · have hf' : f ∈ n'.members := by
      rw [hmembers, List.mem_map] at hf
      obtain ⟨d, hd, rfl⟩ := hf
      rw [Schema.name_bareField] at hother
      rw [hmembers', List.mem_map]
      exact ⟨d, hd, by rw [accessorOf_withRename hother]⟩
    obtain ⟨-, haccessor, hname⟩ := hfound f hf
    obtain ⟨-, haccessor', hname'⟩ := hfound' f hf'
    exact ⟨hf', haccessor'.trans haccessor.symm, hname'.trans hname.symm⟩

/-! ### Another accessor for a coordinate -/

/-- The coordinates of a point ask for accessors that do not get in each other's way, and still do
so when one of them is given another accessor: it has that one, and the others stay as they are. -/
theorem namespace?_renamedPoint :
    ∃ schema definitions n n' f g, Schema.parse? pointText = some schema ∧
      schema.fieldsOf? "Point" = some definitions ∧
      (ofSchema schema).AsksApart "Point" (definitions.map Sdl.FieldDefinition.name) ∧
      ((ofSchema schema).withRename "Point" "coordXY" "position").AsksApart "Point"
        (definitions.map Sdl.FieldDefinition.name) ∧
      (ofSchema schema).namespace? "Point" = .ok n ∧
      ((ofSchema schema).withRename "Point" "coordXY" "position").namespace? "Point" = .ok n' ∧
      f ∈ n.members ∧ f ∈ n'.members ∧ f.accessor = "coord_x" ∧
      n'.field? "coord_x" = .ok f ∧ n'.field? "coordX" = .ok f ∧
      g ∈ n'.members ∧ g.accessor = "position" ∧
      n'.field? "position" = .ok g ∧ n'.field? "coordXY" = .ok g := by
  have hpoint : ((Schema.parse? pointText).bind fun schema =>
      (schema.fieldsOf? "Point").map fun definitions =>
        definitions.map Sdl.FieldDefinition.name) =
      some ["coordXY", "coordX", "_id"] := by
    decide +kernel
  obtain ⟨schema, hschema, hpoint⟩ := Option.bind_eq_some_iff.mp hpoint
  obtain ⟨definitions, hfields, hnames⟩ := Option.map_eq_some_iff.mp hpoint
  have hwanted : ["coordXY", "coordX", "_id"].map ((ofSchema schema).accessorOf "Point") =
      ["coord_xy", "coord_x", "_id"] := by
    have hderived : ["coordXY", "coordX", "_id"].map Name.toAccessor =
        ["coord_xy", "coord_x", "_id"] := by
      decide
    exact hderived
  have hapart : (ofSchema schema).AsksApart "Point"
      (definitions.map Sdl.FieldDefinition.name) := by
    rw [hnames]
    refine ⟨hwanted ▸ by decide, ?_⟩
    simp only [List.map_cons, List.map_nil, List.cons.injEq, and_true] at hwanted
    rw [List.forall_mem_cons, List.forall_mem_cons, List.forall_mem_singleton, hwanted.1,
      hwanted.2.1, hwanted.2.2]
    decide
  have hapart' : ((ofSchema schema).withRename "Point" "coordXY" "position").AsksApart "Point"
      (definitions.map Sdl.FieldDefinition.name) :=
    hapart.withRename "coordXY" (by rw [hnames]; decide) (by rw [hnames, hwanted]; decide)
  obtain ⟨n, hn, hdefinitions, hfound, hkept⟩ := namespace?_withRename hschema hfields hapart
  obtain ⟨n', hn', hrenamed, hkept⟩ := hkept "Point" "coordXY" "position" hapart'
  have hmembers : n.members.map Field.name = ["coordXY", "coordX", "_id"] := by
    rw [← hnames, ← hdefinitions, List.map_map]
    rfl
  obtain ⟨f, hf, hname⟩ := List.mem_map.mp (show "coordX" ∈ n.members.map Field.name from
    hmembers ▸ by decide)
  obtain ⟨f', hf', hname'⟩ := List.mem_map.mp (show "coordXY" ∈ n.members.map Field.name from
    hmembers ▸ by decide)
  obtain ⟨haccessor, hfield, hfield'⟩ := hfound f hf
  obtain ⟨hfkept, hkept⟩ := hkept f hf (by rw [hname]; decide)
  obtain ⟨g, hg, -, hposition, hgiven⟩ := hrenamed f' hf' ⟨rfl, hname'⟩
  have hcoord : f.accessor = "coord_x" := by
    simp only [List.map_cons, List.cons.injEq] at hwanted
    rw [haccessor, hname, hwanted.2.1]
  rw [hfield, hfield', hcoord, hname] at hkept
  exact ⟨schema, definitions, n, n', f, g, hschema, hfields, hapart, hapart', hn, hn', hf, hfkept,
    hcoord, hkept.1, hkept.2, hg, hposition, hgiven⟩

end Catalog

end GraphQLClient
