/-!
# File paths

A path is the text by which a file or a directory is named: names between slashes, from the root of
the file system if the text starts with a slash.  Paths are joined and shortened as texts, without a
look at the files, and keep the way they were written.

## Main definitions

* `FilePath` : paths, with `FilePath.ofText` and `FilePath.toText`.
* `FilePath.join`, `FilePath.parent?` : a path below another, and the path above one.
* `FilePath.extension?` : what follows the last point of the last name.
-/

namespace GraphQLClient

/-- A path.  Segments between two slashes that follow each other are empty. -/
structure FilePath where
  /-- Whether the path starts at the root of the file system. -/
  absolute : Bool
  segments : List String
  deriving DecidableEq, Repr

namespace FilePath

/-- The texts between the slashes of a sequence of characters. -/
def splitSlash : List Char → List Char → List String
  | piece, [] => [String.ofList piece.reverse]
  | piece, c :: rest =>
    if c = '/' then String.ofList piece.reverse :: splitSlash [] rest
    else splitSlash (c :: piece) rest

/-- The segments of a text that does not start with a slash. -/
def segmentsOf (s : List Char) : List String :=
  if s.isEmpty then [] else splitSlash [] s

/-- The path that a text writes. -/
def ofText (s : String) : FilePath :=
  match s.toList with
  | '/' :: rest => ⟨true, segmentsOf rest⟩
  | chars => ⟨false, segmentsOf chars⟩

/-- The text of a path. -/
def toText (p : FilePath) : String :=
  (if p.absolute then "/" else "") ++ "/".intercalate p.segments

/-- The path of the directory in which relative paths start. -/
def here : FilePath := ⟨false, []⟩

/-- Whether a segment names nothing: it is empty, or it is the point that stands for the directory
itself. -/
def isIdle (segment : String) : Bool :=
  segment == "" || segment == "."

/-- The segments without the idle ones at the end.  The first segment of a relative path stays. -/
def trimEnd (absolute : Bool) (segments : List String) : List String :=
  match segments with
  | [] => []
  | first :: rest =>
    let rest := (rest.reverse.dropWhile isIdle).reverse
    if absolute && rest.isEmpty && isIdle first then [] else first :: rest

/-- The segments of a path that name something, in order. -/
def names (p : FilePath) : List String :=
  p.segments.filter fun s => !isIdle s

/-- The path without its last name, if it has one. -/
def parent? (p : FilePath) : Option FilePath :=
  match trimEnd p.absolute p.segments with
  | [] => none
  | first :: rest => some ⟨p.absolute, trimEnd p.absolute (first :: rest).dropLast⟩

/-- A path below another one; an absolute path stands for itself. -/
def join (p q : FilePath) : FilePath :=
  if q.absolute then q
  else if p.segments.isEmpty then ⟨p.absolute, q.segments⟩
  else
    let front := if p.segments.getLast? = some "" then p.segments.dropLast else p.segments
    ⟨p.absolute, front ++ if q.segments.isEmpty then [""] else q.segments⟩

/-- The last name of a path, unless the path ends by going up. -/
def fileName? (p : FilePath) : Option String :=
  match p.names.getLast? with
  | some ".." => none
  | found => found

/-- What follows the last point of the last name.  A point at the start of the name does not
count. -/
def extension? (p : FilePath) : Option String :=
  p.fileName?.bind fun name =>
    let (after, before) := name.toList.reverse.span fun c => c != '.'
    match before with
    | '.' :: _ :: _ => some (String.ofList after.reverse)
    | _ => none

theorem length_trimEnd_le (absolute : Bool) (segments : List String) :
    (trimEnd absolute segments).length ≤ segments.length := by
  cases segments with
  | nil => simp [trimEnd]
  | cons first rest =>
    have h : (rest.reverse.dropWhile isIdle).length ≤ rest.length := by
      simpa using (List.dropWhile_sublist (l := rest.reverse) isIdle).length_le
    simp only [trimEnd]
    split <;> simp [h]

/-- The path above another one is shorter. -/
theorem length_parent_lt {p q : FilePath} (h : p.parent? = some q) :
    q.segments.length < p.segments.length := by
  unfold parent? at h
  have hp := length_trimEnd_le p.absolute p.segments
  split at h
  · simp at h
  · rename_i first rest heq
    obtain rfl := Option.some.inj h
    have hq := length_trimEnd_le p.absolute (first :: rest).dropLast
    rw [heq] at hp
    simp only [List.length_dropLast, List.length_cons] at hq hp ⊢
    omega

end FilePath

end GraphQLClient
