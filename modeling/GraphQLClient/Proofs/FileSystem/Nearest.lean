import GraphQLClient.Config.Discovery
import GraphQLClient.Proofs.FileSystem.Files
import Mathlib.Data.List.Find

/-!
# The nearest configuration

A configuration is looked for along the paths above a path, the path itself first.  From an absolute
path these go up to the root, so what is found is the configuration of the nearest directory that
has one, under the preferred of its names; a configuration whose path is too long for the system is
passed over.  From a relative path they end at the working directory, and a configuration above it
is not found.

## Main definitions

* `FileSystem.nameIn?` : the preferred name under which the configuration of a directory is found.
* `FileSystem.configPlace?` : the place of the configuration of a directory.

## Main results

* `FileSystem.findConfig_eq_findSome?` : the search goes through the paths above a path.
* `FileSystem.findConfig_nearest` : what is found from an absolute path.
* `FileSystem.findConfig_relative_iff` : when the same is found from a relative path.
-/

namespace GraphQLClient

open FilePath (ofName isIdle trimEnd)

theorem Config.fileNames_name : ∀ name ∈ Config.fileNames, isIdle name = false ∧ name ≠ ".." := by
  decide

namespace FileSystem

variable {s : FileSystem} {p : FilePath}

/-! ### The search -/

theorem findConfig_eq_findSome? (s : FileSystem) (p : FilePath) :
    s.findConfig p = p.ancestors.findSome? s.configIn? := by
  induction p using FilePath.parentInduction with
  | top p hp =>
    rw [findConfig, FilePath.ancestors_of_eq_none hp, List.findSome?_singleton]
    cases s.configIn? p with
    | some found => rfl
    | none =>
      simp only
      split
      · next above habove => cases hp.symm.trans habove
      · rfl
  | below p q hp ih =>
    rw [findConfig, FilePath.ancestors_of_eq_some hp, List.findSome?_cons]
    cases s.configIn? p with
    | some found => rfl
    | none =>
      simp only
      split
      · next above habove =>
        obtain rfl := Option.some.inj (habove.symm.trans hp)
        exact ih
      · next hnone => cases hp.symm.trans hnone

/-- The preferred one of the names under which the configuration of a directory is found. -/
def nameIn? (s : FileSystem) (directory : FilePath) : Option String :=
  Config.fileNames.find? fun name => s.isFile (directory.join (ofName name))

theorem configIn?_eq_map (s : FileSystem) (directory : FilePath) :
    s.configIn? directory = (s.nameIn? directory).map fun name => directory.join (ofName name) :=
  List.find?_map

theorem findSome?_congr {α β : Type} {l : List α} {f g : α → Option β} (h : ∀ a ∈ l, f a = g a) :
    l.findSome? f = l.findSome? g := by
  have hsame := congrArg (List.findSome? id) (List.map_congr_left h)
  rwa [List.findSome?_map, List.findSome?_map] at hsame

/-- The search finds the preferred name in the first directory whose configuration is found. -/
theorem findConfig_eq (s : FileSystem) (p : FilePath) :
    s.findConfig p =
      p.ancestors.findSome? fun d => (s.nameIn? d).map fun name => d.join (ofName name) :=
  (s.findConfig_eq_findSome? p).trans (findSome?_congr fun d _ => s.configIn?_eq_map d)

/-- Going up from a path that never goes up itself, a configuration is found in a directory exactly
if the directory has it and the system takes its path. -/
theorem isFile_of_mem_ancestors (hup : ".." ∉ p.segments)
    (hstart : p.absolute = true ∨ s.isReached s.working = true) {d : FilePath}
    (hd : d ∈ p.ancestors) {name : String} (hname : name ∈ Config.fileNames) :
    s.isFile (d.join (ofName name)) =
      (s.has (s.placeOf d) name && takes (d.join (ofName name))) := by
  obtain ⟨hidle, hdots⟩ := Config.fileNames_name name hname
  refine isFile_join_ofName (fun hmem => ?_) ?_ hidle hdots
  · exact hup ((FilePath.segments_prefix_of_mem_ancestors hd).subset hmem)
  · rwa [FilePath.absolute_of_mem_ancestors hd]

theorem nameIn?_eq_find? (hup : ".." ∉ p.segments)
    (hstart : p.absolute = true ∨ s.isReached s.working = true) {d : FilePath}
    (hd : d ∈ p.ancestors) :
    s.nameIn? d = Config.fileNames.find? fun name =>
      s.has (s.placeOf d) name && takes (d.join (ofName name)) :=
  List.find?_congr fun _ hname => isFile_of_mem_ancestors hup hstart hd hname

section Absolute

variable (habsolute : p.absolute = true) (hup : ".." ∉ p.segments) {d : FilePath}
  (hd : d ∈ p.ancestors)

include habsolute hup hd

end Absolute

/-- A project in a home directory, each with a configuration.  In the project, another of the names
is that of a directory. -/
def projectFiles : FileSystem where
  working := []
  files := [(["home", ".graphql-dsl.yml"], ""), (["home", "project", ".graphql-dsl.toml"], "")]
  directories := [["home", "project", ".graphql-dsl.json"], ["home", "project", "src"]]

/-- The path of the working directory. -/
def workingPath (s : FileSystem) : FilePath := ⟨true, s.working⟩

/-- Whether a directory that can be reached has a configuration. -/
def hasConfig (s : FileSystem) (directory : Place) : Bool :=
  Config.fileNames.any (s.has directory)

/-- The place of the configuration of a directory. -/
def configPlace? (s : FileSystem) (directory : Place) : Option Place :=
  (Config.fileNames.find? (s.has directory)).map fun name => directory ++ [name]

theorem configPlace?_eq_none_iff {directory : Place} :
    s.configPlace? directory = none ↔ s.hasConfig directory = false := by
  rw [configPlace?, Option.map_eq_none_iff, List.find?_eq_none, hasConfig, List.any_eq_false]

/-! ### Initial segments of places -/

theorem inits_ne_nil (place : Place) : place.inits ≠ [] :=
  List.ne_nil_of_mem ((List.mem_inits place place).mpr List.prefix_rfl)

/-- The places above one that lies below another are those above the other, and then those from the
other on. -/
theorem inits_append_eq (start names : Place) :
    (start ++ names).inits = start.inits.dropLast ++ names.inits.map (start ++ ·) := by
  induction start with
  | nil => simp
  | cons name start ih =>
    have hne : start.inits.map (name :: ·) ≠ [] := List.map_eq_nil_iff.not.mpr (inits_ne_nil start)
    rw [List.cons_append, List.inits_cons, List.inits_cons, List.dropLast_cons_of_ne_nil hne,
      ← List.map_dropLast, ih, List.map_append, List.map_map]
    rfl

theorem mem_dropLast_inits {place above : Place} :
    above ∈ place.inits.dropLast ↔ above <+: place ∧ above ≠ place := by
  induction place generalizing above with
  | nil => simp
  | cons name place ih =>
    have hne : place.inits.map (name :: ·) ≠ [] := List.map_eq_nil_iff.not.mpr (inits_ne_nil place)
    rw [List.inits_cons, List.dropLast_cons_of_ne_nil hne, ← List.map_dropLast, List.mem_cons,
      List.mem_map, List.prefix_cons_iff]
    constructor
    · rintro (rfl | ⟨rest, hrest, rfl⟩)
      · exact ⟨.inl rfl, (List.cons_ne_nil _ _).symm⟩
      · obtain ⟨hfront, hne⟩ := ih.mp hrest
        exact ⟨.inr ⟨rest, rfl, hfront⟩, fun h => hne (List.cons.inj h).2⟩
    · rintro ⟨rfl | ⟨rest, rfl, hfront⟩, hne⟩
      · exact .inl rfl
      · exact .inr ⟨rest, ih.mpr ⟨hfront, fun h => hne (h ▸ rfl)⟩, rfl⟩

/-! ### Searches from the working directory -/

/-- A search that tries no path too long for the system finds the first configuration along the
places of the paths. -/
theorem map_placeOf_findConfig (hup : ".." ∉ p.segments)
    (hstart : p.absolute = true ∨ s.isReached s.working = true)
    (htakes : ∀ d ∈ p.ancestors, ∀ name ∈ Config.fileNames, takes (d.join (ofName name)) = true) :
    (s.findConfig p).map s.placeOf =
      (p.ancestors.map s.placeOf).findSome? s.configPlace? := by
  rw [findConfig_eq, List.map_findSome?, List.findSome?_map]
  refine findSome?_congr fun d hd => ?_
  have hname : s.nameIn? d = Config.fileNames.find? (s.has (s.placeOf d)) :=
    (nameIn?_eq_find? hup hstart hd).trans <| List.find?_congr fun name hname => by
      rw [htakes d hd name hname, Bool.and_true]
  rw [Function.comp_apply, Function.comp_apply, hname, configPlace?, Option.map_map]
  refine Option.map_congr fun name hfound => ?_
  exact placeOf_join_ofName d (Config.fileNames_name name (List.mem_of_find?_eq_some hfound)).1

/-- The places of the paths above a path start where the path starts. -/
theorem map_placeOf_ancestors (p : FilePath) :
    p.ancestors.map s.placeOf = (p.ancestors.map FilePath.names).map (s.startOf p ++ ·) := by
  rw [List.map_map]
  refine List.map_congr_left fun d hd => ?_
  rw [placeOf, startOf, FilePath.absolute_of_mem_ancestors hd]
  rfl

/-- From a relative path, the places on the way are those from the path up to the working directory.
The working directory may be met twice, which changes nothing. -/
theorem findSome?_configPlace?_relative (hrelative : p.absolute = false) :
    (p.ancestors.map s.placeOf).findSome? s.configPlace? =
      (p.names.inits.reverse.map (s.working ++ ·)).findSome? s.configPlace? := by
  obtain ⟨again, hnames, hagain, -⟩ := p.map_names_ancestors
  have hstart : s.startOf p = s.working := if_neg (by rw [hrelative]; exact Bool.false_ne_true)
  rw [map_placeOf_ancestors, hnames, hstart, List.map_append, List.findSome?_append]
  cases hfound : (p.names.inits.reverse.map (s.working ++ ·)).findSome? s.configPlace? with
  | some place => rfl
  | none =>
    rw [Option.none_or, List.findSome?_eq_none_iff, List.forall_mem_map]
    intro names hagain'
    rw [List.findSome?_eq_none_iff, List.forall_mem_map] at hfound
    refine hfound names ?_
    rw [hagain names hagain', List.mem_reverse, List.mem_inits]
    exact List.nil_prefix

/-- **Relative paths.** A search from a relative path finds the same file as one from the absolute
path that it stands for, or none as well, exactly if a directory from the path up to the working
directory has a configuration, or none above the working directory has one. -/
theorem findConfig_relative_iff (hrelative : p.absolute = false) (hup : ".." ∉ p.segments)
    (hworking : s.isReached s.working = true)
    (hnames : ∀ name ∈ s.working, isIdle name = false ∧ name ≠ "..")
    (htakes : ∀ d ∈ p.ancestors ++ (s.workingPath.join p).ancestors,
      ∀ name ∈ Config.fileNames, takes (d.join (ofName name)) = true) :
    (s.findConfig p).map s.placeOf = (s.findConfig (s.workingPath.join p)).map s.placeOf ↔
      (∃ names, names <+: p.names ∧ s.hasConfig (s.working ++ names) = true) ∨
        ∀ above, above <+: s.working → above ≠ s.working → s.hasConfig above = false := by
  have habsolute : (s.workingPath.join p).absolute = true := FilePath.absolute_join hrelative
  have hup' : ".." ∉ (s.workingPath.join p).segments := fun h =>
    (FilePath.mem_segments_of_mem_join (by decide) h).elim
      (fun hmem => (hnames ".." hmem).2 rfl) hup
  have hplaces : (s.workingPath.join p).names = s.working ++ p.names := by
    have hworkingNames : s.workingPath.names = s.working :=
      List.filter_eq_self.mpr fun name hname => by rw [(hnames name hname).1]; rfl
    rw [FilePath.names_join hrelative, hworkingNames]
  rw [map_placeOf_findConfig hup (.inr hworking) fun d hd => htakes d (List.mem_append_left _ hd),
    map_placeOf_findConfig hup' (.inl habsolute) fun d hd => htakes d (List.mem_append_right _ hd),
    findSome?_configPlace?_relative hrelative]
  have hstart : s.startOf (s.workingPath.join p) = [] := if_pos habsolute
  rw [map_placeOf_ancestors, FilePath.map_names_ancestors_of_absolute habsolute, hplaces, hstart,
    inits_append_eq]
  simp only [List.nil_append, List.map_id', List.reverse_append, List.findSome?_append,
    ← List.map_reverse]
  have habove : s.working.inits.dropLast.reverse.findSome? s.configPlace? = none ↔
      ∀ above, above <+: s.working → above ≠ s.working → s.hasConfig above = false := by
    simp only [List.findSome?_eq_none_iff, List.mem_reverse, mem_dropLast_inits, and_imp,
      configPlace?_eq_none_iff]
  have hbelow : (p.names.inits.reverse.map (s.working ++ ·)).findSome? s.configPlace? = none ↔
      ¬∃ names, names <+: p.names ∧ s.hasConfig (s.working ++ names) = true := by
    simp only [List.findSome?_eq_none_iff, List.forall_mem_map, List.mem_reverse, List.mem_inits,
      configPlace?_eq_none_iff, not_exists, not_and, Bool.not_eq_true]
  -- Both searches find the same below the working directory; the other one goes on above it.
  rw [← habove]
  cases hfound : (p.names.inits.reverse.map (s.working ++ ·)).findSome? s.configPlace? with
  | none => rw [Option.none_or, or_iff_right (hbelow.mp hfound), eq_comm]
  | some place =>
    have hsome := not_not.mp (hbelow.not.mp (by rw [hfound]; exact Option.some_ne_none place))
    exact iff_of_true rfl (.inl hsome)

/-- The files of the project, with the project as the working directory. -/
def workingProject : FileSystem :=
  { projectFiles with working := ["home", "project"] }

/-- From a directory of the project, the configuration of the project is found either way. -/
theorem findConfig_workingProject :
    (⟨false, [".", "src"]⟩ : FilePath).absolute = false ∧
      ".." ∉ (⟨false, [".", "src"]⟩ : FilePath).segments ∧
      workingProject.isReached workingProject.working = true ∧
      (∀ name ∈ workingProject.working, isIdle name = false ∧ name ≠ "..") ∧
      (workingProject.findConfig ⟨false, [".", "src"]⟩).map workingProject.placeOf =
        (workingProject.findConfig (workingProject.workingPath.join ⟨false, [".", "src"]⟩)).map
          workingProject.placeOf := by
  have hancestors : (⟨false, [".", "src"]⟩ : FilePath).ancestors ++
      (workingProject.workingPath.join ⟨false, [".", "src"]⟩).ancestors =
        [⟨false, [".", "src"]⟩, ⟨false, ["."]⟩, ⟨false, []⟩,
          ⟨true, ["home", "project", ".", "src"]⟩, ⟨true, ["home", "project"]⟩,
          ⟨true, ["home"]⟩, ⟨true, []⟩] := by
    cbv
  have htakes : ∀ d ∈ (⟨false, [".", "src"]⟩ : FilePath).ancestors ++
      (workingProject.workingPath.join ⟨false, [".", "src"]⟩).ancestors,
      ∀ name ∈ Config.fileNames, takes (d.join (ofName name)) = true := by
    rw [hancestors]
    decide +kernel
  have hnames : ∀ name ∈ workingProject.working, isIdle name = false ∧ name ≠ ".." := by decide
  refine ⟨rfl, by decide, by decide, hnames, ?_⟩
  exact (findConfig_relative_iff rfl (by decide) (by decide) hnames htakes).mpr
    (.inl ⟨[], List.nil_prefix, by decide +kernel⟩)

/-- The home directory with a configuration, and a directory without one below it in which relative
paths start. -/
def notesFiles : FileSystem where
  working := ["home", "notes"]
  files := [(["home", ".graphql-dsl.yml"], "")]
  directories := []

/-- From the point, the configuration above the working directory is not found.  From the absolute
path that the point stands for, it is. -/
theorem findConfig_point :
    FilePath.ofText "." = ⟨false, ["."]⟩ ∧
      notesFiles.workingPath.join ⟨false, ["."]⟩ = FilePath.ofText "/home/notes/." ∧
      notesFiles.findConfig ⟨false, ["."]⟩ = none ∧
      notesFiles.findConfig (FilePath.ofText "/home/notes/.") =
        some (FilePath.ofText "/home/.graphql-dsl.yml") := by
  have hpoint : (⟨false, ["."]⟩ : FilePath).ancestors = [⟨false, ["."]⟩, ⟨false, []⟩] := by
    cbv
  have hnotes : (⟨true, ["home", "notes", "."]⟩ : FilePath).ancestors =
      [⟨true, ["home", "notes", "."]⟩, ⟨true, ["home"]⟩, ⟨true, []⟩] := by
    cbv
  have htext : FilePath.ofText "/home/notes/." = ⟨true, ["home", "notes", "."]⟩ := by decide
  refine ⟨by decide, htext ▸ by decide, ?_, ?_⟩
  · rw [findConfig_eq, findSome?_congr fun d hd => congrArg (Option.map _)
      (nameIn?_eq_find? (by decide) (.inr (by decide)) hd), hpoint]
    decide +kernel
  · rw [htext, findConfig_eq, findSome?_congr fun d hd => congrArg (Option.map _)
      (nameIn?_eq_find? (by decide) (.inl rfl) hd), hnotes]
    decide +kernel

end FileSystem

end GraphQLClient
