import GraphQLClient.Connection
import GraphQLClient.Proofs.Catalog.Agreement
import GraphQLClient.Proofs.Entries
import GraphQLClient.Proofs.Record
import GraphQLClient.Proofs.Writes

/-!
# The order of the tables of a configuration

A configuration has a table of codecs by name of scalar and one of accessor names by name of type
and name of field.  Their entries are written to a catalog one after the other.  No table has a name
twice, so the catalog that comes out gives what the configuration has under a name and what it gave
before where the configuration has nothing, and the order of the entries is not seen.

## Main definitions

* `Config.renamed?` : the accessor name that a configuration gives to a field.
* `Config.HasDistinctNames` : no table has a name twice.
* `Config.Reorders` : the same tables in another order.

## Main results

* `Config.hasDistinctNames_of_parse` : no configuration that is read has a name twice.
* `Catalog.get_configured`, `Catalog.rename?_configured` : what a configured catalog gives.
* `Catalog.configured_reorders` : the order of the entries is not seen.
-/

namespace GraphQLClient

/-! ### Tables with distinct names -/

namespace Config

/-- The accessor name that a configuration gives to a field, if it gives one. -/
def renamed? (config : Config) (typeName field : String) : Option String :=
  (config.renames.get? typeName).bind fun names => names.get? field

/-- No table of a configuration has a name twice. -/
structure HasDistinctNames (config : Config) : Prop where
  scalars : config.scalars.keys.Nodup
  renames : config.renames.keys.Nodup
  fields : ∀ p ∈ config.renames, p.2.keys.Nodup

/-- The types of two tables of accessor names are the same one by one, and have the same entries in
any order. -/
def ReordersFields : (renames renames' : Entries (Entries String)) → Prop :=
  List.Forall₂ fun p q => p.1 = q.1 ∧ p.2.Perm q.2

/-- The tables of two configurations have the same entries in any order, and so have the types in
their tables of accessor names. -/
structure Reorders (config config' : Config) : Prop where
  scalars : config.scalars.Perm config'.scalars
  renames : ∃ types, config.renames.Perm types ∧ ReordersFields types config'.renames

variable {config config' : Config} {renames renames' : Entries (Entries String)}

theorem mem_renameTriples {typeName field accessor : String} :
    (typeName, field, accessor) ∈ config.renameTriples ↔
      ∃ names, (typeName, names) ∈ config.renames ∧ (field, accessor) ∈ names := by
  simp only [renameTriples, List.mem_flatMap, List.mem_map, Prod.exists, Prod.mk.injEq]
  constructor
  · rintro ⟨t, names, hnames, f, a, hfield, rfl, rfl, rfl⟩
    exact ⟨names, hnames, hfield⟩
  · rintro ⟨names, hnames, hfield⟩
    exact ⟨typeName, names, hnames, field, accessor, hfield, rfl, rfl, rfl⟩

theorem HasDistinctNames.renamed?_eq_some_iff (h : config.HasDistinctNames)
    {typeName field accessor : String} :
    config.renamed? typeName field = some accessor ↔
      (typeName, field, accessor) ∈ config.renameTriples := by
  rw [mem_renameTriples, renamed?, Option.bind_eq_some_iff]
  refine exists_congr fun names => ?_
  rw [Entries.get?_eq_some_iff h.renames]
  exact and_congr_right fun hnames => Entries.get?_eq_some_iff (h.fields _ hnames)

theorem ReordersFields.keys_eq (h : ReordersFields renames renames') :
    renames.keys = renames'.keys := by
  induction h with
  | nil => rfl
  | cons hpq _ ih => exact congrArg₂ List.cons hpq.1 ih

theorem ReordersFields.nodup_keys (h : ReordersFields renames renames')
    (hnodup : ∀ p ∈ renames, p.2.keys.Nodup) :
    ∀ q ∈ renames', q.2.keys.Nodup := by
  induction h with
  | nil => exact hnodup
  | cons hpq _ ih =>
    obtain ⟨hp, hrest⟩ := List.forall_mem_cons.mp hnodup
    exact List.forall_mem_cons.mpr ⟨(hpq.2.map Prod.fst).nodup_iff.mp hp, ih hrest⟩

theorem ReordersFields.bind_get?_eq (h : ReordersFields renames renames')
    (hnodup : ∀ p ∈ renames, p.2.keys.Nodup) (typeName field : String) :
    ((renames.get? typeName).bind fun names => names.get? field) =
      (renames'.get? typeName).bind fun names => names.get? field := by
  induction h with
  | nil => rfl
  | @cons p q rest rest' hpq _ ih =>
    obtain ⟨hp, hrest⟩ := List.forall_mem_cons.mp hnodup
    obtain ⟨t, names⟩ := p
    obtain ⟨t', names'⟩ := q
    obtain ⟨rfl, hperm⟩ : t = t' ∧ names.Perm names' := hpq
    rw [Entries.get?_cons, Entries.get?_cons]
    split
    · exact Entries.get?_perm hp hperm field
    · exact ih hrest

theorem HasDistinctNames.of_reorders (h : config.HasDistinctNames)
    (hreorders : config.Reorders config') : config'.HasDistinctNames := by
  obtain ⟨types, htypes, hfields⟩ := hreorders.renames
  refine ⟨(hreorders.scalars.map Prod.fst).nodup_iff.mp h.scalars, ?_, ?_⟩
  · exact hfields.keys_eq ▸ (htypes.map Prod.fst).nodup_iff.mp h.renames
  · exact hfields.nodup_keys fun p hp => h.fields p (htypes.mem_iff.mpr hp)

theorem Reorders.renamed?_eq (h : config.Reorders config')
    (hdistinct : config.HasDistinctNames) (typeName field : String) :
    config.renamed? typeName field = config'.renamed? typeName field := by
  obtain ⟨types, htypes, hfields⟩ := h.renames
  rw [renamed?, Entries.get?_perm hdistinct.renames htypes]
  exact hfields.bind_get?_eq (fun p hp => hdistinct.fields p (htypes.mem_iff.mpr hp)) typeName field

end Config

/-! ### Configurations that are read -/

namespace Setting

variable {α : Type} {read : Setting → Option α}

theorem exists_read_of_mapM {entries : Entries Setting} {e : Entries α}
    (h : (entries.mapM fun entry => (read entry.2).map fun value => (entry.1, value)) = some e) :
    ∀ p ∈ e, ∃ value, read value = some p.2 := by
  refine forall_mem_of_forall₂ (mapM_eq_some_iff.mp h) fun entry p hp => ?_
  obtain ⟨value, hvalue, rfl⟩ := Option.map_eq_some_iff.mp hp
  exact ⟨_, hvalue⟩

/-- A table that is read has no name twice, and its values are read one by one. -/
theorem map?_eq_some {s : Setting} {e : Entries α} (h : s.map? read = some e) :
    e.keys.Nodup ∧ ∀ p ∈ e, ∃ value, read value = some p.2 := by
  obtain ⟨entries, -, h⟩ := Option.bind_eq_some_iff.mp h
  obtain ⟨new, hnew, rfl⟩ := Option.map_eq_some_iff.mp h
  refine ⟨Entries.nodup_keys_putAll (e := []) List.nodup_nil new, fun p hp => ?_⟩
  exact exists_read_of_mapM hnew p ((Entries.mem_putAll hp).resolve_left List.not_mem_nil)

end Setting

theorem Config.hasDistinctNames_of_ofSetting? {d : Setting.Dialect} {s : Setting} {config : Config}
    (h : Config.ofSetting? d s = some config) : config.HasDistinctNames := by
  simp only [Config.ofSetting?, Option.bind_eq_bind, Option.bind_eq_some_iff, Option.pure_def,
    Option.some_inj] at h
  obtain ⟨r, -, endpoint, -, schema, -, typename, -, scalars, hscalars, renames, hrenames, rfl⟩ := h
  refine ⟨?_, ?_, ?_⟩
  · exact Record.of_orElse (fun e => (Entries.keys e).Nodup) hscalars List.nodup_nil
      fun _ _ h => (Setting.map?_eq_some h).1
  · exact Record.of_orElse (fun e => (Entries.keys e).Nodup) hrenames List.nodup_nil
      fun _ _ h => (Setting.map?_eq_some h).1
  · refine Record.of_orElse (fun e => ∀ p ∈ e, p.2.keys.Nodup) hrenames
      (fun _ h => absurd h List.not_mem_nil) fun _ _ h p hp => ?_
    obtain ⟨value, hvalue⟩ := (Setting.map?_eq_some h).2 p hp
    exact (Setting.map?_eq_some hvalue).1

/-- No configuration that is read has a name twice. -/
theorem Config.hasDistinctNames_of_parse {path : FilePath} {text : String} {config : Config}
    (h : Config.parse path text = .ok config) : config.HasDistinctNames := by
  unfold Config.parse at h
  split at h
  · cases h
  split at h
  · cases h
  rename_i config' hconfig
  obtain ⟨s, -, hconfig⟩ := Option.bind_eq_some_iff.mp hconfig
  have heq : config' = config := by
    unfold Config.check at h
    split at h
    · exact Except.ok.inj h
    · cases h
  exact heq ▸ Config.hasDistinctNames_of_ofSetting? hconfig

/-! ### Configured catalogs -/

namespace Catalog

/-- Registers the codecs of scalars. -/
def withScalars (c : Catalog) (scalars : Entries ScalarKind) : Catalog :=
  scalars.foldl (fun c (name, kind) => c.withScalar name kind.codec) c

/-- Gives accessor names to fields. -/
def withRenames (c : Catalog) (triples : List (String × String × String)) : Catalog :=
  triples.foldl (fun c (typeName, field, accessor) => c.withRename typeName field accessor) c

theorem configured_eq (c : Catalog) (config : Config) :
    c.configured config = (c.withScalars config.scalars).withRenames config.renameTriples := rfl

theorem overwrites_withScalar :
    Overwrites (fun (c : Catalog) name => c.scalars.get name)
      (fun c (name, kind) => c.withScalar name kind.codec) Prod.fst
      (fun (_, kind) => ScalarKind.codec kind) :=
  fun c p name => Scalars.get_insert c.scalars p.1 p.2.codec name

theorem overwrites_withRename :
    Overwrites (fun (c : Catalog) (place : String × String) => c.rename? place.1 place.2)
      (fun c (typeName, field, accessor) => c.withRename typeName field accessor)
      (fun (typeName, field, _) => (typeName, field)) (fun (_, _, accessor) => some accessor) := by
  rintro c ⟨typeName, field, accessor⟩ ⟨t, f⟩
  simp only [rename?_withRename, Prod.mk.injEq]

@[simp]
theorem schema_withScalars (c : Catalog) (scalars : Entries ScalarKind) :
    (c.withScalars scalars).schema = c.schema := by
  induction scalars generalizing c with
  | nil => rfl
  | cons p rest ih => exact ih _

@[simp]
theorem rename?_withScalars (c : Catalog) (scalars : Entries ScalarKind) (typeName field : String) :
    (c.withScalars scalars).rename? typeName field = c.rename? typeName field := by
  induction scalars generalizing c with
  | nil => rfl
  | cons p rest ih => exact ih _

@[simp]
theorem schema_withRenames (c : Catalog) (triples : List (String × String × String)) :
    (c.withRenames triples).schema = c.schema := by
  induction triples generalizing c with
  | nil => rfl
  | cons p rest ih => exact ih _

@[simp]
theorem scalars_withRenames (c : Catalog) (triples : List (String × String × String)) :
    (c.withRenames triples).scalars = c.scalars := by
  induction triples generalizing c with
  | nil => rfl
  | cons p rest ih => exact ih _

variable {config config' : Config} (c : Catalog)

theorem schema_configured : (c.configured config).schema = c.schema := by
  rw [configured_eq, schema_withRenames, schema_withScalars]

/-- A configured catalog gives a scalar the codec of the configuration, else the one it had. -/
theorem get_configured (h : config.HasDistinctNames) (name : String) :
    (c.configured config).scalars.get name =
      ((config.scalars.get? name).map ScalarKind.codec).getD (c.scalars.get name) := by
  have hgiven (name : String) (codec : Scalar) :
      (config.scalars.get? name).map ScalarKind.codec = some codec ↔
        ∃ entry ∈ config.scalars, entry.1 = name ∧ entry.2.codec = codec := by
    simp only [Option.map_eq_some_iff, Entries.get?_eq_some_iff h.scalars]
    constructor
    · rintro ⟨kind, hmem, rfl⟩
      exact ⟨_, hmem, rfl, rfl⟩
    · rintro ⟨⟨_, kind⟩, hmem, rfl, rfl⟩
      exact ⟨kind, hmem, rfl⟩
  rw [configured_eq, scalars_withRenames]
  exact overwrites_withScalar.read_foldl_eq_getD c hgiven name

/-- A configured catalog gives a field the accessor name of the configuration, else the one that it
gave before. -/
theorem rename?_configured (h : config.HasDistinctNames) (typeName field : String) :
    (c.configured config).rename? typeName field =
      (config.renamed? typeName field).or (c.rename? typeName field) := by
  have hgiven (place : String × String) (value : Option String) :
      (config.renamed? place.1 place.2).map some = some value ↔
        ∃ triple ∈ config.renameTriples, (triple.1, triple.2.1) = place ∧
          some triple.2.2 = value := by
    simp only [Option.map_eq_some_iff, h.renamed?_eq_some_iff]
    constructor
    · rintro ⟨accessor, hmem, rfl⟩
      exact ⟨_, hmem, rfl, rfl⟩
    · rintro ⟨⟨_, _, accessor⟩, hmem, rfl, rfl⟩
      exact ⟨accessor, hmem, rfl⟩
  rw [configured_eq, ← c.rename?_withScalars config.scalars typeName field]
  refine (overwrites_withRename.read_foldl_eq_getD _ hgiven (typeName, field)).trans ?_
  cases config.renamed? typeName field <;> rfl

theorem accessorOf_configured (h : config.HasDistinctNames) (typeName field : String) :
    (c.configured config).accessorOf typeName field =
      (config.renamed? typeName field).getD (c.accessorOf typeName field) := by
  rw [accessorOf, accessorOf, c.rename?_configured h]
  cases config.renamed? typeName field <;> rfl

/-- Catalogs that are configured in two orders of the entries give the same answers. -/
theorem agrees_configured (hdistinct : config.HasDistinctNames)
    (hreorders : config.Reorders config') :
    (c.configured config).Agrees (c.configured config') where
  schema := by rw [schema_configured, schema_configured]
  codec name := by
    rw [c.get_configured hdistinct, c.get_configured (hdistinct.of_reorders hreorders),
      Entries.get?_perm hdistinct.scalars hreorders.scalars]
  rename typeName field := by
    rw [c.rename?_configured hdistinct, c.rename?_configured (hdistinct.of_reorders hreorders),
      hreorders.renamed?_eq hdistinct]

/-- **The order of the tables of a configuration.** A configured catalog gives a scalar the codec of
the configuration, else the one it had, and a field the accessor of the configuration, else the one
it had.  In whatever order the entries of the configuration are visited, the codecs and the
accessors are the same, and so are the namespaces, the texts of operations and the results. -/
theorem configured_reorders (hdistinct : config.HasDistinctNames)
    (hreorders : config.Reorders config') :
    (∀ name, (c.configured config).scalars.get name =
        ((config.scalars.get? name).map ScalarKind.codec).getD (c.scalars.get name) ∧
      (c.configured config').scalars.get name = (c.configured config).scalars.get name) ∧
    (∀ typeName field, (c.configured config).accessorOf typeName field =
        (config.renamed? typeName field).getD (c.accessorOf typeName field) ∧
      (c.configured config').accessorOf typeName field =
        (c.configured config).accessorOf typeName field) ∧
    (∀ typeName, (c.configured config').namespace? typeName =
      (c.configured config).namespace? typeName) ∧
    (∀ o, (c.configured config').render o = (c.configured config).render o) ∧
    ∀ o data, (c.configured config').inflate o data = (c.configured config).inflate o data := by
  have hagrees := (c.agrees_configured hdistinct hreorders).symm
  exact ⟨fun name => ⟨c.get_configured hdistinct name, hagrees.codec name⟩,
    fun typeName field => ⟨c.accessorOf_configured hdistinct typeName field,
      hagrees.accessorOf_eq typeName field⟩,
    hagrees.namespace?_eq, hagrees.render_eq, hagrees.inflate_eq⟩

/-! ### Two orders of the settings of a fleet -/

/-- A schema with two scalars and a type of ships. -/
def fleetText : String :=
  "scalar Date scalar Tag type Query \x7b flagship: Ship, allShips: [Ship] \x7d " ++
  "type Ship \x7b id: ID, built: Date, tags: [Tag] \x7d"

/-- Codecs for two scalars, and accessor names for the fields of two types. -/
def fleetConfig : Config :=
  { Config.ofUrl "http://localhost/graphql" with
    scalars := [("Date", .dateTime), ("Tag", .string)]
    renames := [("Query", [("allShips", "fleet"), ("flagship", "leader")]),
      ("Ship", [("id", "hull"), ("tags", "labels")])] }

/-- The settings of the fleet with every table in the other order. -/
def fleetConfigReordered : Config :=
  { Config.ofUrl "http://localhost/graphql" with
    scalars := [("Tag", .string), ("Date", .dateTime)]
    renames := [("Ship", [("tags", "labels"), ("id", "hull")]),
      ("Query", [("flagship", "leader"), ("allShips", "fleet")])] }

theorem fleetConfig_reorders : fleetConfig.Reorders fleetConfigReordered where
  scalars := .swap _ _ _
  renames := ⟨_, .swap _ _ _, .cons ⟨rfl, .swap _ _ _⟩ (.cons ⟨rfl, .swap _ _ _⟩ .nil)⟩

/-- In both orders the fleet has its own codec for dates and its own accessor for the ships, in
place of those that the catalog had, and keeps the others. -/
theorem configured_fleetConfig :
    ∃ schema c, Schema.parse? fleetText = some schema ∧
      c = ((ofSchema schema).withScalar "Date" .string).withRename "Query" "allShips" "ships" ∧
      fleetConfig.HasDistinctNames ∧ fleetConfig.Reorders fleetConfigReordered ∧
      c.scalars.get "Date" = .string ∧ c.accessorOf "Query" "allShips" = "ships" ∧
      (c.configured fleetConfig).scalars.get "Date" = .dateTime ∧
      (c.configured fleetConfigReordered).scalars.get "Date" = .dateTime ∧
      (c.configured fleetConfigReordered).scalars.get "ID" = .id ∧
      (c.configured fleetConfigReordered).accessorOf "Query" "allShips" = "fleet" ∧
      (c.configured fleetConfigReordered).accessorOf "Ship" "built" = "built" ∧
      ∀ typeName, (c.configured fleetConfigReordered).namespace? typeName =
        (c.configured fleetConfig).namespace? typeName := by
  have hparsed : (Schema.parse? fleetText).isSome := by
    decide +kernel
  obtain ⟨schema, hschema⟩ := Option.isSome_iff_exists.mp hparsed
  have hdistinct : fleetConfig.HasDistinctNames := ⟨by decide, by decide, by decide⟩
  obtain ⟨hcodec, haccessor, hnamespace, -, -⟩ := configured_reorders
    (((ofSchema schema).withScalar "Date" .string).withRename "Query" "allShips" "ships") hdistinct
    fleetConfig_reorders
  refine ⟨schema, _, hschema, rfl, hdistinct, fleetConfig_reorders, rfl, rfl, ?_, ?_, ?_, ?_, ?_,
    hnamespace⟩
  · exact (hcodec "Date").1
  · exact (hcodec "Date").2.trans (hcodec "Date").1
  · exact (hcodec "ID").2.trans (hcodec "ID").1
  · exact (haccessor "Query" "allShips").2.trans (haccessor "Query" "allShips").1
  · exact (haccessor "Ship" "built").2.trans (haccessor "Ship" "built").1

end Catalog

end GraphQLClient
