import GraphQLClient.Proofs.Config.Usability
import GraphQLClient.Proofs.Json.Reading
import GraphQLClient.Proofs.Record

/-!
# Configurations that are written

A configuration is written as a JSON object that leaves out what is not set, and a member that is
left out is read as what is not set.  So a configuration is read back as it was, with the entries of
its tables in the order in which they were written.  The text is then checked like any other: it is
loaded exactly if the configuration has no fault.

## Main definitions

* `Setting.ofJson` : what a JSON value says.

## Main results

* `Setting.record?_ofJson`, `Setting.map?_ofJson` : records and tables that are written.
* `Config.ofSetting?_written` : a configuration that is written is described by what is written.
* `Config.parse_written` : the text of a configuration is read as the configuration.
-/

namespace GraphQLClient

/-! ### Settings that are written -/

namespace Setting

/-- What a JSON value says. -/
def ofJson (j : Json) : Setting :=
  .ofSource (.ofJson j)

theorem ofJson_ofNat {n : Nat} (hn : n < 0x10000000000000000) : ofJson (.ofNat n) = .int n := by
  rw [Json.ofNat, Json.ofInt, dif_pos ⟨by omega, by omega⟩]
  rfl

/-- An object says a table of what its members say. -/
theorem ofJson_object (members : Entries Json) :
    ofJson (.object members) = .table (members.map fun p => (.string p.1, ofJson p.2)) := by
  have hmembers (members : Entries Json) :
      ofMembers (Json.Source.ofMembers members) =
        members.map fun p => (.string p.1, ofJson p.2) := by
    induction members with
    | nil => rfl
    | cons p rest ih => rw [Json.Source.ofMembers, ofMembers, ih]; rfl
  rw [← hmembers]
  rfl

theorem entries?_ofJson (members : Entries Json) :
    (ofJson (.object members)).entries? = some (members.mapValues ofJson) := by
  rw [ofJson_object, entries?]
  induction members with
  | nil => rfl
  | cons p rest ih => rw [List.map_cons, named?, string?, ih]; rfl

end Setting

/-- The record with given members that are written. -/
abbrev Record.ofJson (members : Entries Json) : Record Setting :=
  .written Setting.ofJson members

namespace Setting

/-- A record is read with the members that are written of it. -/
theorem record?_ofJson (d : Dialect) {names : List String} (hnames : names.Nodup)
    {members : Entries Json} (hmembers : members.keys.Sublist names) :
    record? d names (ofJson (.object members)) = some (.ofJson members) := by
  have hentries := entries?_ofJson members
  have hknown := Record.contains_of_mem_mapValues ofJson hmembers.subset
  rw [ofJson_object] at hentries ⊢
  simp only [record?, hentries, Option.bind_some]
  rw [if_pos (List.all_eq_true.mpr fun p hp => Bool.or_eq_true_iff.mpr (.inl (hknown p hp)))]
  exact Record.ofMembers?_written ofJson hmembers.subset (hnames.sublist hmembers)

variable {α : Type}

theorem mapM_mapValues {β : Type} {read : β → Option α} (write : α → β) {e : Entries α}
    (hread : ∀ p ∈ e, read (write p.2) = some p.2) :
    ((e.mapValues write).mapM fun entry => (read entry.2).map fun value => (entry.1, value)) =
      some e := by
  refine mapM_eq_some_iff.mpr (List.forall₂_map_left_iff.mpr (List.forall₂_same.mpr fun p hp => ?_))
  rw [hread p hp, Option.map_some]

/-- A table with distinct names is read back if its values are. -/
theorem map?_ofJson {read : Setting → Option α} {write : α → Json} {e : Entries α}
    (hnodup : e.keys.Nodup) (hread : ∀ p ∈ e, read (ofJson (write p.2)) = some p.2) :
    map? read (ofJson (.object (e.mapValues write))) = some e := by
  have hvalues : (e.mapValues write).mapValues ofJson = e.mapValues (ofJson ∘ write) :=
    List.map_map
  rw [map?, entries?_ofJson, Option.bind_some, hvalues, mapM_mapValues (ofJson ∘ write) hread,
    Option.map_some, Entries.putAll_nil_of_nodup hnodup]

end Setting

/-! ### Members that may be left out -/

namespace Config

variable {α : Type}

theorem keys_tableMember_sublist (name : String) (write : α → Json) (e : Entries α) :
    (Entries.keys (tableMember name write e)).Sublist [name] := by
  unfold tableMember
  split
  · exact List.nil_sublist _
  · exact List.Sublist.refl _

theorem keys_optionalMember_sublist (name : String) (write : α → Json) (a? : Option α) :
    (Entries.keys (optionalMember name write a?)).Sublist [name] := by
  cases a? with
  | none => exact List.nil_sublist _
  | some a => exact List.Sublist.refl _

@[simp]
theorem get?_tableMember (name : String) (write : α → Json) (e : Entries α) (other : String) :
    Entries.get? (tableMember name write e) other =
      if name = other ∧ e ≠ [] then some (.object (e.mapValues write)) else none := by
  cases e <;> simp [tableMember, Entries.get?_cons]

@[simp]
theorem get?_optionalMember (name : String) (write : α → Json) (a? : Option α) (other : String) :
    Entries.get? (optionalMember name write a?) other =
      if name = other then a?.map write else none := by
  cases a? <;> simp [optionalMember, Entries.get?_cons]

variable {members : Entries Json} {name : String}

/-- A table with distinct names is read back if its values are, whether it is left out or not. -/
theorem orElse_of_tableMember (write : α → Json) {e : Entries α} {read : Setting → Option α}
    (hget : members.get? name = Entries.get? (tableMember name write e) name)
    (hnodup : e.keys.Nodup) (hread : ∀ p ∈ e, read (.ofJson (write p.2)) = some p.2) :
    (Record.ofJson members).orElse name [] (Setting.map? read) = some e := by
  have htable := Setting.map?_ofJson hnodup hread
  rw [Record.orElse, Record.get?_written, hget, get?_tableMember]
  cases e with
  | nil => rw [if_neg (by simp)]; rfl
  | cons p rest => rw [if_pos (by simp)]; exact htable

/-- A setting that may be missing is read back, whether it is left out or not. -/
theorem optional_of_optionalMember {write : α → Json} {a? : Option α} {read : Setting → Option α}
    (hget : members.get? name = Entries.get? (optionalMember name write a?) name)
    (hread : ∀ a, Setting.nullable read (.ofJson (write a)) = some (some a)) :
    (Record.ofJson members).optional name (Setting.nullable read) = some a? := by
  rw [Record.optional, Record.get?_written, hget, get?_optionalMember, if_pos rfl]
  cases a? with
  | none => rfl
  | some a => exact hread a

end Config

/-! ### Configurations that are described by what is written -/

section Reading

variable (d : Setting.Dialect)

theorem Endpoint.seconds?_ofJson (n : UInt64) :
    Setting.nullable seconds? (.ofJson (.ofNat n.toNat)) = some (some n) := by
  have hn := n.toNat_lt
  rw [Setting.ofJson_ofNat hn, Setting.nullable]
  · simp [seconds?, Setting.below?, hn]
  all_goals simp

theorem Endpoint.repetitions?_ofJson (n : UInt32) :
    Setting.nullable repetitions? (.ofJson (.ofNat n.toNat)) = some (some n) := by
  have hn := n.toNat_lt
  rw [Setting.ofJson_ofNat (by omega), Setting.nullable]
  · simp [repetitions?, Setting.below?, hn]
  all_goals simp

/-- A table of texts with distinct names is read back. -/
theorem Config.map?_textsToJson {e : Entries String} (he : e.keys.Nodup) :
    Setting.map? Setting.string? (.ofJson (textsToJson e)) = some e :=
  Setting.map?_ofJson he fun _ _ => rfl

theorem Endpoint.keys_members_sublist (e : Endpoint) :
    e.members.keys.Sublist ["url", "headers", "timeout", "connectTimeout", "retries"] := by
  simp only [members, Entries.keys_append]
  exact ((((List.Sublist.refl _).append (Config.keys_tableMember_sublist _ _ _)).append
    (Config.keys_optionalMember_sublist _ _ _)).append
      (Config.keys_optionalMember_sublist _ _ _)).append
        (Config.keys_optionalMember_sublist _ _ _)

/-- Address settings are described by what is written of them. -/
theorem Endpoint.ofSetting?_members {e : Endpoint} (hheaders : e.headers.keys.Nodup) :
    Endpoint.ofSetting? d (.ofJson (.object e.members)) = some e := by
  have hurl : (Record.ofJson e.members).required "url" Setting.string? = some e.url :=
    Record.required_written rfl rfl
  have htable : (Record.ofJson e.members).orElse "headers" [] (Setting.map? Setting.string?) =
      some e.headers := by
    refine Config.orElse_of_tableMember .string ?_ hheaders fun _ _ => rfl
    simp [members, Entries.get?_append, Entries.get?_cons]
  have htimeout : (Record.ofJson e.members).optional "timeout" (Setting.nullable seconds?) =
      some e.timeout := by
    refine Config.optional_of_optionalMember ?_ seconds?_ofJson
    simp [members, Entries.get?_append, Entries.get?_cons]
  have hconnect : (Record.ofJson e.members).optional "connectTimeout"
      (Setting.nullable seconds?) = some e.connectTimeout := by
    refine Config.optional_of_optionalMember ?_ seconds?_ofJson
    simp [members, Entries.get?_append, Entries.get?_cons]
  have hretries : (Record.ofJson e.members).optional "retries" (Setting.nullable repetitions?) =
      some e.retries := by
    refine Config.optional_of_optionalMember ?_ repetitions?_ofJson
    simp [members, Entries.get?_append, Entries.get?_cons]
  rw [Endpoint.ofSetting?, Setting.record?_ofJson d (by decide) e.keys_members_sublist]
  simp only [Option.bind_eq_bind, Option.bind_some, hurl, htable, htimeout, hconnect, hretries]
  rfl

theorem SchemaSource.ofSetting?_written (source : SchemaSource) :
    SchemaSource.ofSetting? d (.ofJson source.written) = some source := by
  cases source with
  | document path => rfl
  | introspection => rfl

theorem ScalarKind.ofSetting?_word (kind : ScalarKind) :
    ScalarKind.ofSetting? d (.ofJson (.string kind.word)) = some kind :=
  ScalarKind.ofWord?_word kind

theorem Config.keys_members_sublist (c : Config) :
    c.members.keys.Sublist ["endpoint", "schema", "typename", "scalars", "renames"] := by
  simp only [members, Entries.keys_append]
  exact ((List.Sublist.refl _).append (keys_tableMember_sublist _ _ _)).append
    (keys_tableMember_sublist _ _ _)

/-- A configuration is described by what is written of it. -/
theorem Config.ofSetting?_written {c : Config} (hnames : c.HasDistinctNames)
    (hheaders : c.endpoint.headers.keys.Nodup) :
    Config.ofSetting? d (.ofJson c.written) = some c := by
  have hendpoint : (Record.ofJson c.members).required "endpoint" (Endpoint.ofSetting? d) =
      some c.endpoint :=
    Record.required_written rfl (Endpoint.ofSetting?_members d hheaders)
  have hschema : (Record.ofJson c.members).orElse "schema" .introspection
      (SchemaSource.ofSetting? d) = some c.schema :=
    Record.orElse_written _ rfl (SchemaSource.ofSetting?_written d c.schema)
  have htypename : (Record.ofJson c.members).orElse "typename" true Setting.bool? =
      some c.typename :=
    Record.orElse_written _ rfl rfl
  have hscalars : (Record.ofJson c.members).orElse "scalars" []
      (Setting.map? (ScalarKind.ofSetting? d)) = some c.scalars := by
    refine orElse_of_tableMember (fun kind => .string kind.word) ?_ hnames.scalars fun p _ =>
      ScalarKind.ofSetting?_word d p.2
    simp [members, Entries.get?_append, Entries.get?_cons]
  have hrenames : (Record.ofJson c.members).orElse "renames" []
      (Setting.map? (Setting.map? Setting.string?)) = some c.renames := by
    refine orElse_of_tableMember textsToJson ?_ hnames.renames fun p hp =>
      map?_textsToJson (hnames.fields p hp)
    simp [members, Entries.get?_append, Entries.get?_cons]
  rw [written, Config.ofSetting?, Setting.record?_ofJson d (by decide) c.keys_members_sublist]
  simp only [Option.bind_eq_bind, Option.bind_some, hendpoint, hschema, htypename, hscalars,
    hrenames]
  rfl

end Reading

/-! ### Texts of configurations -/

theorem Json.floats_object_eq_nil {members : Entries Json} (h : ∀ p ∈ members, p.2.floats = []) :
    (Json.object members).floats = [] := by
  rw [floats, membersFloats_eq_flatMap]
  exact List.flatMap_eq_nil_iff.mpr h

theorem Json.floats_ofNat {n : Nat} (hn : n < 0x10000000000000000) : (ofNat n).floats = [] := by
  rw [ofNat, ofInt, dif_pos ⟨by omega, by omega⟩, floats]

namespace Config

variable {α : Type} {name : String} {write : α → Json}

theorem floats_of_mem_tableMember (hwrite : ∀ a, (write a).floats = []) (e : Entries α) :
    ∀ p ∈ tableMember name write e, p.2.floats = [] := by
  unfold tableMember
  split
  · exact fun _ hp => absurd hp List.not_mem_nil
  · refine List.forall_mem_singleton.mpr (Json.floats_object_eq_nil fun p hp => ?_)
    obtain ⟨q, -, rfl⟩ := List.mem_map.mp hp
    exact hwrite q.2

theorem floats_of_mem_optionalMember (hwrite : ∀ a, (write a).floats = []) (a? : Option α) :
    ∀ p ∈ optionalMember name write a?, p.2.floats = [] := by
  cases a? with
  | none => exact fun _ hp => absurd hp List.not_mem_nil
  | some a => exact List.forall_mem_singleton.mpr (hwrite a)

/-- No floating-point number is written. -/
theorem floats_written (c : Config) : c.written.floats = [] := by
  have hword (n : UInt64) : (Json.ofNat n.toNat).floats = [] := Json.floats_ofNat n.toNat_lt
  have hretries (n : UInt32) : (Json.ofNat n.toNat).floats = [] :=
    Json.floats_ofNat (n.toNat_lt.trans (by decide))
  have htexts (e : Entries String) : (textsToJson e).floats = [] := by
    refine Json.floats_object_eq_nil fun p hp => ?_
    obtain ⟨q, -, rfl⟩ := List.mem_map.mp hp
    rfl
  have hendpoint : (Json.object c.endpoint.members).floats = [] := by
    refine Json.floats_object_eq_nil ?_
    simp only [Endpoint.members, List.forall_mem_append]
    exact ⟨⟨⟨⟨List.forall_mem_singleton.mpr rfl, floats_of_mem_tableMember (fun _ => rfl) _⟩,
      floats_of_mem_optionalMember hword _⟩, floats_of_mem_optionalMember hword _⟩,
      floats_of_mem_optionalMember hretries _⟩
  have hschema : c.schema.written.floats = [] := by
    cases c.schema <;> rfl
  refine Json.floats_object_eq_nil ?_
  simp only [members, List.forall_mem_append, List.forall_mem_cons]
  exact ⟨⟨⟨hendpoint, hschema, rfl, fun _ hp => absurd hp List.not_mem_nil⟩,
    floats_of_mem_tableMember (fun _ => rfl) _⟩, floats_of_mem_tableMember htexts _⟩

variable {path : FilePath} {c : Config}

/-- The text of a configuration is read as the configuration, which is then checked. -/
theorem parse_written (hpath : path.extension? = some "json") (hnames : c.HasDistinctNames)
    (hheaders : c.endpoint.headers.keys.Nodup) : parse path c.written.compact = check path c := by
  have hformat : Format.ofPath? path = some .json := by
    rw [Format.ofPath?, hpath]
    rfl
  have hsource : Json.Source.parse? c.written.compact = some (.ofJson c.written) := by
    refine Json.Source.parse?_compact fun x hx => ?_
    rw [floats_written] at hx
    cases hx
  have hsetting : (Format.json.setting? c.written.compact).bind
      (ofSetting? Format.json.dialect) = some c := by
    rw [Format.setting?, hsource]
    exact ofSetting?_written _ hnames hheaders
  rw [parse, hformat]
  simp only [hsetting]

/-- The text of a configuration without a fault is loaded as the configuration, whatever the order
of the entries of its tables. -/
theorem parse_written_of_fault?_eq_none (hpath : path.extension? = some "json")
    (hnames : c.HasDistinctNames) (hheaders : c.endpoint.headers.keys.Nodup)
    (hfault : c.fault? = none) : parse path c.written.compact = .ok c := by
  rw [parse_written hpath hnames hheaders, check, hfault]

/-- A configuration with settings of every kind. -/
def harborConfig : Config where
  endpoint :=
    { url := " https://localhost/graphql?\"q\"=\\ "
      headers := [("X-Harbor", "\x01\tü🚀\n"), ("", "")]
      timeout := some 18446744073709551615
      connectTimeout := some 0
      retries := some 4294967295 }
  schema := .document "schemas/harbor.graphql"
  typename := false
  scalars := [("Stardate", .dateTime), ("JSON", .custom), ("Cursor", .id)]
  renames := [("Ship", [("homePort", "port"), ("crew", "people")]), ("Droid", [])]

/-- It is loaded from the text that is written of it. -/
theorem parse_harborConfig :
    harborConfig.fault? = none ∧
      parse (.ofText "/srv/harbor.json") harborConfig.written.compact = .ok harborConfig := by
  have hfault : harborConfig.fault? = none := by decide +kernel
  exact ⟨hfault, parse_written_of_fault?_eq_none (by decide +kernel)
    ⟨by decide, by decide, by decide⟩ (by decide) hfault⟩

end Config

end GraphQLClient
