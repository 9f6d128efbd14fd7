import GraphQLClient.FileSystem
import GraphQLClient.Proofs.FilePath.Ancestors

/-!
# Files below directories

A path that never goes up leads to the place that its names tell, as long as there is a directory at
every place on the way.  So a name below a path leads to a regular file exactly if the system takes
the path, the directories are there, and the file is in the last of them.

## Main definitions

* `FileSystem.placeOf` : the place that the names of a path tell.
* `FileSystem.has` : whether a directory can be reached and has a regular file.
* `FileSystem.takes` : the paths that are neither too long nor hold a null character.

## Main results

* `FileSystem.isFile_join_ofName` : a name below a path leads to a regular file exactly if the
  directory has it and the system takes the path.
-/

namespace GraphQLClient

open FilePath (namesOf ofName isIdle)

namespace FileSystem

variable {s : FileSystem}

/-! ### Places -/

/-- Whether a directory is at a place. -/
def isDirectoryAt (s : FileSystem) (place : Place) : Bool :=
  match s.at? place with
  | some .directory => true
  | _ => false

/-- Whether a regular file is at a place. -/
def isFileAt (s : FileSystem) (place : Place) : Bool :=
  match s.at? place with
  | some (.file _) => true
  | _ => false

/-- Whether a directory is at a place and at every place above it. -/
def isReached (s : FileSystem) (place : Place) : Bool :=
  place.inits.all s.isDirectoryAt

/-- Whether a directory that can be reached has a regular file under a name. -/
def has (s : FileSystem) (directory : Place) (name : String) : Bool :=
  s.isReached directory && s.isFileAt (directory ++ [name])

/-- The place where a path starts. -/
def startOf (s : FileSystem) (p : FilePath) : Place :=
  if p.absolute then [] else s.working

/-- The place that the names of a path tell. -/
def placeOf (s : FileSystem) (p : FilePath) : Place :=
  s.startOf p ++ p.names

/-- Whether the system takes a path: neither the path nor a name in it is too long, and it holds no
null character. -/
def takes (p : FilePath) : Bool :=
  !p.toText.toList.contains '\x00' && p.toText.utf8ByteSize ≤ pathLimit &&
    p.segments.all fun name => name.utf8ByteSize ≤ nameLimit

theorem placeOf_join_ofName (p : FilePath) {name : String} (hname : isIdle name = false) :
    s.placeOf (p.join (ofName name)) = s.placeOf p ++ [name] := by
  have hnames : (p.join (ofName name)).names = p.names ++ [name] := by
    rw [FilePath.join_ofName, FilePath.names, List.filter_append, ← p.namesOf_front]
    simp [hname]
  rw [placeOf, placeOf, hnames, FilePath.join_ofName, List.append_assoc]
  rfl

/-! ### Following names -/

/-- A segment that does not go up is passed exactly if it stands in a directory and is not too
long. -/
theorem walk_cons_eq_ok_iff {segment : String} (hup : segment ≠ "..") (place : Place)
    (rest : List String) (reached : Place) :
    s.walk place (segment :: rest) = .ok reached ↔
      s.isDirectoryAt place = true ∧ segment.utf8ByteSize ≤ nameLimit ∧
        s.walk (place ++ namesOf [segment]) rest = .ok reached := by
  rw [walk, isDirectoryAt]
  cases s.at? place with
  | none => simp
  | some node =>
    cases node with
    | file text => simp
    | directory =>
      by_cases hlong : nameLimit < segment.utf8ByteSize
      · simp [hlong, Nat.not_le.mpr hlong]
      · rcases hidle : isIdle segment <;> simp [hlong, hidle, hup, Nat.not_lt.mp hlong]

/-- The last name of segments that never go up is reached exactly if there is a directory at every
place before it and no segment is too long. -/
theorem walk_concat_eq_ok_iff {segments : List String} (hup : ".." ∉ segments) {name : String}
    (hidle : isIdle name = false) (hname : name ≠ "..") (place reached : Place) :
    s.walk place (segments ++ [name]) = .ok reached ↔
      (∀ above, above <+: namesOf segments → s.isDirectoryAt (place ++ above) = true) ∧
        (∀ segment ∈ segments ++ [name], segment.utf8ByteSize ≤ nameLimit) ∧
        place ++ namesOf segments ++ [name] = reached := by
  induction segments generalizing place with
  | nil =>
    rw [List.nil_append, walk_cons_eq_ok_iff hname, walk]
    simp [hidle]
  | cons segment rest ih =>
    rw [List.mem_cons, not_or] at hup
    obtain ⟨hsegment, hrest⟩ := hup
    have hnames : namesOf (segment :: rest) = namesOf [segment] ++ namesOf rest :=
      List.filter_append [segment] rest
    -- The way past the first segment starts at its place, and goes on from there.
    have hway : (∀ above, above <+: namesOf (segment :: rest) →
          s.isDirectoryAt (place ++ above) = true) ↔ s.isDirectoryAt place = true ∧
        ∀ above, above <+: namesOf rest →
          s.isDirectoryAt (place ++ namesOf [segment] ++ above) = true := by
      have hplace (h : ∀ above, above <+: namesOf (segment :: rest) →
          s.isDirectoryAt (place ++ above) = true) : s.isDirectoryAt place = true := by
        simpa using h [] List.nil_prefix
      cases hidle : isIdle segment
      · have hfirst : namesOf [segment] = [segment] := by simp [hidle]
        rw [hnames, hfirst] at hplace ⊢
        refine ⟨fun h => ⟨hplace h, fun above habove => ?_⟩, fun ⟨hfree, h⟩ above habove => ?_⟩
        · simpa using h (segment :: above) ((List.prefix_cons_inj segment).mpr habove)
        · rcases List.prefix_cons_iff.mp habove with rfl | ⟨rest', rfl, hrest'⟩
          · simpa using hfree
          · simpa using h rest' hrest'
      · have hfirst : namesOf [segment] = [] := by simp [hidle]
        rw [hnames, hfirst] at hplace ⊢
        simp only [List.nil_append, List.append_nil] at hplace ⊢
        exact ⟨fun h => ⟨hplace h, h⟩, And.right⟩
    rw [List.cons_append, walk_cons_eq_ok_iff (Ne.symm hsegment), ih hrest, hway, hnames]
    simp only [List.forall_mem_cons, List.append_assoc]
    tauto

/-! ### Regular files -/

theorem isFile_eq_true_iff {p : FilePath} :
    s.isFile p = true ↔ ∃ text, s.follow p = .ok (.file text) := by
  unfold isFile
  split
  · next text h => exact iff_of_true rfl ⟨text, h⟩
  · next h => exact iff_of_false Bool.false_ne_true fun ⟨text, htext⟩ => h text htext

theorem isFileAt_eq_true_iff {place : Place} :
    s.isFileAt place = true ↔ ∃ text, s.at? place = some (.file text) := by
  unfold isFileAt
  split
  · next text h => exact iff_of_true rfl ⟨text, h⟩
  · next h => exact iff_of_false Bool.false_ne_true fun ⟨text, htext⟩ => h text htext

/-- A path with segments leads to a regular file exactly if the system takes it and the file is at
the place that the segments lead to. -/
theorem isFile_of_ne_nil {p : FilePath} (hne : p.segments ≠ []) :
    s.isFile p = true ↔ ('\x00' ∉ p.toText.toList ∧ p.toText.utf8ByteSize ≤ pathLimit) ∧
      ∃ place, s.walk (s.startOf p) p.segments = .ok place ∧ s.isFileAt place = true := by
  have hempty : (!p.absolute && p.segments.isEmpty) = false := by
    rw [List.isEmpty_eq_false_iff.mpr hne, Bool.and_false]
  simp only [isFile_eq_true_iff, follow, startOf, hempty, Bool.false_eq_true, if_false]
  rw [String.contains_char_eq]
  by_cases hnull : '\x00' ∈ p.toText.toList
  · simp [hnull]
  · by_cases hlong : pathLimit < p.toText.utf8ByteSize
    · simp [hnull, hlong, Nat.not_le.mpr hlong]
    · cases s.walk (if p.absolute then [] else s.working) p.segments with
      | error e => simp [hnull, hlong, Except.bind]
      | ok place =>
        cases hplace : s.at? place <;>
          simp [hnull, hlong, Nat.not_lt.mp hlong, Except.bind, isFileAt_eq_true_iff, hplace]

/-- A place behind a start is reached exactly if it is reached from the start. -/
theorem forall_prefix_append_iff {start : Place} (hstart : start = [] ∨ s.isReached start = true)
    (names : Place) :
    (∀ above, above <+: names → s.isDirectoryAt (start ++ above) = true) ↔
      s.isReached (start ++ names) = true := by
  simp only [isReached, List.all_eq_true, List.mem_inits]
  constructor
  · intro h above habove
    rcases List.prefix_or_prefix_of_prefix habove (List.prefix_append start names) with hle | hge
    · rcases hstart with rfl | hstart
      · simpa [List.prefix_nil.mp hle] using h [] List.nil_prefix
      · exact List.all_eq_true.mp hstart above ((List.mem_inits _ _).mpr hle)
    · obtain ⟨rest, rfl⟩ := hge
      exact h rest ((List.prefix_append_right_inj start).mp habove)
  · exact fun h above habove => h _ ((List.prefix_append_right_inj start).mpr habove)

/-- A name below a path that never goes up leads to a regular file exactly if the directory has one
under the name and the system takes the path of the file. -/
theorem isFile_join_ofName {p : FilePath} (hup : ".." ∉ p.segments)
    (hstart : p.absolute = true ∨ s.isReached s.working = true) {name : String}
    (hidle : isIdle name = false) (hname : name ≠ "..") :
    s.isFile (p.join (ofName name)) =
      (s.has (s.placeOf p) name && takes (p.join (ofName name))) := by
  have hfront : ".." ∉ p.front := fun h => hup (p.front_subset h)
  have hstart' : s.startOf p = [] ∨ s.isReached (s.startOf p) = true := by
    rw [startOf]
    cases h : p.absolute
    · exact .inr (hstart.resolve_left (by simp [h]))
    · exact .inl rfl
  have hwalk (place : Place) :
      s.walk (s.startOf p) (p.front ++ [name]) = .ok place ↔
        s.isReached (s.placeOf p) = true ∧
          (∀ segment ∈ p.front ++ [name], segment.utf8ByteSize ≤ nameLimit) ∧
          s.placeOf p ++ [name] = place := by
    rw [walk_concat_eq_ok_iff hfront hidle hname, p.namesOf_front,
      forall_prefix_append_iff hstart', placeOf]
  have hsegments : (p.join (ofName name)).segments = p.front ++ [name] := by
    rw [FilePath.join_ofName]
  have hsame : s.startOf (p.join (ofName name)) = s.startOf p := by
    rw [FilePath.join_ofName]
    rfl
  rw [Bool.eq_iff_iff, isFile_of_ne_nil (by rw [hsegments]; simp), hsame, hsegments]
  simp only [hwalk, takes, has, hsegments, Bool.and_eq_true, Bool.not_eq_true',
    List.contains_eq_mem, decide_eq_false_iff_not, decide_eq_true_eq, List.all_eq_true, and_assoc,
    exists_and_left, exists_eq_left']
  tauto

end FileSystem

end GraphQLClient
