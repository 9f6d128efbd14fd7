import GraphQLClient.Document.Build
import GraphQLClient.Proofs.Name.Respelling

/-!
# Arguments and keys given by their accessors

A field of a type is looked up by an accessor that is kept for it.  An argument of a field, and a
key of an input object, is looked up by its declared name instead, first as it is given and then
in the wire form of what is given.  The accessor of a declared name leads back to it this way only
if the name is its own respelling.  The accessor of a name with a capital that starts no word leads
to nothing, even if no other declared name has that accessor.

## Main results

* `Catalog.inputField?_toAccessor` : the field of an input object that an accessor leads to.
* `Catalog.lookups_toAccessor` : the same for arguments and for keys, and what is written.
-/

namespace GraphQLClient

namespace Catalog

variable {definitions : List Sdl.InputValue} {d : Sdl.InputValue}

/-- A declared name is found unless it is the name of another one. -/
theorem find?_name_eq (name : String) (hd : d ∈ definitions)
    (hunique : ∀ e ∈ definitions, e.name = name → e = d) :
    definitions.find? (fun e => e.name == name) = if d.name = name then some d else none := by
  split
  next h =>
    have hsome : (definitions.find? fun e => e.name == name).isSome = true :=
      List.find?_isSome.mpr ⟨d, hd, by simp [h]⟩
    obtain ⟨e, he⟩ := Option.isSome_iff_exists.mp hsome
    rw [he, hunique e (List.mem_of_find?_eq_some he) (by simpa using List.find?_some he)]
  next h =>
    refine List.find?_eq_none.mpr fun e he hname => h ?_
    have hname : e.name = name := by simpa using hname
    rw [← hunique e he hname, hname]

/-- A field of an input object that is told apart by its accessor is found by it exactly if all
capitals of its name start words. -/
theorem inputField?_toAccessor (hd : d ∈ definitions)
    (hunderscore : '_' ∉ d.name.toList.dropWhile (· = '_'))
    (hunique : ∀ e ∈ definitions, Name.toAccessor e.name = Name.toAccessor d.name → e = d) :
    inputField? definitions (Name.toAccessor d.name) =
      if Name.isSpelledOut d.name then some d else none := by
  -- whatever has the accessor for its name, or the respelling, has the accessor of `d`
  have hexact := find?_name_eq (Name.toAccessor d.name) hd fun e he hname =>
    hunique e he (by rw [hname, Name.toAccessor_toAccessor])
  have hwire := find?_name_eq (Name.toWire (Name.toAccessor d.name)) hd fun e he hname =>
    hunique e he (by rw [hname, Name.toAccessor_toWire_toAccessor hunderscore])
  rw [inputField?, hexact, hwire]
  by_cases hspelled : Name.isSpelledOut d.name = true
  · rw [if_pos hspelled, if_pos ((Name.toWire_toAccessor_eq_iff hunderscore).mpr hspelled).symm]
    split <;> rfl
  · have hrespelled : d.name ≠ Name.toWire (Name.toAccessor d.name) := fun h =>
      hspelled ((Name.toWire_toAccessor_eq_iff hunderscore).mp h.symm)
    have haccessor : d.name ≠ Name.toAccessor d.name := fun h =>
      hrespelled (by rw [← h, Name.toWire_of_notMem hunderscore])
    rw [if_neg hspelled, if_neg hrespelled, if_neg haccessor, Option.or_none]

theorem argument?_eq_inputField? (h : FieldHead) (name : String) :
    h.argument? name = inputField? h.definition.args name := rfl

/-- A declared name leads to its own definition. -/
theorem inputField?_name (hd : d ∈ definitions)
    (hunique : ∀ e ∈ definitions, Name.toAccessor e.name = Name.toAccessor d.name → e = d) :
    inputField? definitions d.name = some d := by
  have hexact := find?_name_eq d.name hd fun e he hname => hunique e he (by rw [hname])
  rw [inputField?, hexact, if_pos rfl, Option.some_or]

/-! ### Arguments and keys that are written -/

/-- Two names that lead to the same definition are written alike as arguments. -/
theorem argumentsOf_eq_ok_congr (c : Catalog) {h : FieldHead} {name name' : String}
    (hname : h.argument? name = some d) (hname' : h.argument? name' = some d) (v : Value)
    (rest : Entries Value) (table : Variables) (p : List (String × Literal) × Variables) :
    c.argumentsOf h ((name, v) :: rest) table = .ok p ↔
      c.argumentsOf h ((name', v) :: rest) table = .ok p := by
  rw [argumentsOf, argumentsOf, hname, hname']
  dsimp only
  cases c.serialize d.type v table with
  | mk written table' =>
    cases written with
    | error e => simp
    | ok l => rfl

/-- A name that leads to no definition is refused as an argument. -/
theorem argumentsOf_of_undeclared (c : Catalog) {h : FieldHead} {name : String}
    (hname : h.argument? name = none) (v : Value) (rest : Entries Value) (table : Variables) :
    c.argumentsOf h ((name, v) :: rest) table =
      .error (.argument h.qualifiedName name .undeclared) := by
  rw [argumentsOf, hname]

/-- Two keys that lead to the same definition are written alike. -/
theorem serializeFields_congr (c : Catalog) (typeName : String) {key key' : String}
    (hkey : inputField? definitions key = some d) (hkey' : inputField? definitions key' = some d)
    (v : Value) (rest : List (String × Value)) (table : Variables) :
    c.serializeFields typeName definitions ((key, v) :: rest) table =
      c.serializeFields typeName definitions ((key', v) :: rest) table := by
  rw [serializeFields, serializeFields, hkey, hkey']

/-- A key that leads to no definition is refused. -/
theorem serializeFields_of_undeclared (c : Catalog) (typeName : String) {key : String}
    (hkey : inputField? definitions key = none) (v : Value) (rest : List (String × Value))
    (table : Variables) :
    c.serializeFields typeName definitions ((key, v) :: rest) table =
      (.error (.unknownField key typeName), table) := by
  rw [serializeFields, hkey]

/-- **What the accessor of a declared name leads to.** An argument of a field, and a field of an
input object, that no other one shares its accessor with, is found by its accessor if all capitals
of its name start words, and is then written as under its name; if not, nothing is found, and a
field or an object that is given the accessor cannot be written. -/
theorem lookups_toAccessor (hd : d ∈ definitions)
    (hunderscore : '_' ∉ d.name.toList.dropWhile (· = '_'))
    (hunique : ∀ e ∈ definitions, Name.toAccessor e.name = Name.toAccessor d.name → e = d) :
    (∀ h : FieldHead, h.definition.args = definitions →
        h.argument? (Name.toAccessor d.name) =
          if Name.isSpelledOut d.name then some d else none) ∧
      (inputField? definitions (Name.toAccessor d.name) =
        if Name.isSpelledOut d.name then some d else none) ∧
      ∀ (c : Catalog) (v : Value) (table : Variables),
        (∀ (h : FieldHead) (rest : Entries Value), h.definition.args = definitions →
          if Name.isSpelledOut d.name then
            ∀ p, c.argumentsOf h ((Name.toAccessor d.name, v) :: rest) table = .ok p ↔
              c.argumentsOf h ((d.name, v) :: rest) table = .ok p
          else
            c.argumentsOf h ((Name.toAccessor d.name, v) :: rest) table =
              .error (.argument h.qualifiedName (Name.toAccessor d.name) .undeclared)) ∧
        ∀ (typeName : String) (rest : List (String × Value)),
          c.serializeFields typeName definitions ((Name.toAccessor d.name, v) :: rest) table =
            if Name.isSpelledOut d.name then
              c.serializeFields typeName definitions ((d.name, v) :: rest) table
            else (.error (.unknownField (Name.toAccessor d.name) typeName), table) := by
  have hfield := inputField?_toAccessor hd hunderscore hunique
  have hname := inputField?_name hd hunique
  have hargument (h : FieldHead) (hargs : h.definition.args = definitions) (name : String) :
      h.argument? name = inputField? definitions name := by
    rw [argument?_eq_inputField?, hargs]
  refine ⟨fun h hargs => (hargument h hargs _).trans hfield, hfield, fun c v table => ?_⟩
  cases hspelled : Name.isSpelledOut d.name with
  | true =>
    rw [hspelled, if_pos rfl] at hfield
    refine ⟨fun h rest hargs p => ?_, fun typeName rest => ?_⟩
    · exact argumentsOf_eq_ok_congr c ((hargument h hargs _).trans hfield)
        ((hargument h hargs _).trans hname) v rest table p
    · exact serializeFields_congr c typeName hfield hname v rest table
  | false =>
    rw [hspelled, if_neg Bool.false_ne_true] at hfield
    refine ⟨fun h rest hargs => ?_, fun typeName rest => ?_⟩
    · exact argumentsOf_of_undeclared c ((hargument h hargs _).trans hfield) v rest table
    · exact serializeFields_of_undeclared c typeName hfield v rest table

/-! ### A search by the identifier of a user -/

/-- The identifier of a user. -/
def userID : Sdl.InputValue := ⟨none, "userID", .named "Int" false, none, []⟩

/-- The largest number of results. -/
def maxSize : Sdl.InputValue := ⟨none, "maxSize", .named "Int" false, none, []⟩

/-- A search that is given both. -/
def userSearch : FieldHead :=
  ⟨"Query", ⟨none, "search", [userID, maxSize], .named "Int" false, []⟩, none, "search", []⟩

theorem eq_of_toAccessor_eq {d : Sdl.InputValue} (hd : d ∈ [userID, maxSize]) :
    ∀ e ∈ [userID, maxSize], Name.toAccessor e.name = Name.toAccessor d.name → e = d := by
  have hnodup : ([userID, maxSize].map fun d => Name.toAccessor d.name).Nodup := by decide
  exact fun e he h => List.inj_on_of_nodup_map hnodup he hd h

theorem lookups_maxSize :
    maxSize ∈ [userID, maxSize] ∧ '_' ∉ maxSize.name.toList.dropWhile (· = '_') ∧
      (∀ e ∈ [userID, maxSize], Name.toAccessor e.name = Name.toAccessor maxSize.name →
        e = maxSize) ∧
      userSearch.argument? (Name.toAccessor maxSize.name) = some maxSize ∧
      inputField? [userID, maxSize] (Name.toAccessor maxSize.name) = some maxSize := by
  have hd : maxSize ∈ [userID, maxSize] := by simp
  have hunderscore : '_' ∉ maxSize.name.toList.dropWhile (· = '_') := by decide
  have hunique := eq_of_toAccessor_eq hd
  obtain ⟨harguments, hfields, -⟩ := lookups_toAccessor hd hunderscore hunique
  exact ⟨hd, hunderscore, hunique, harguments userSearch rfl, hfields⟩

/-- The accessor `user_id` is that of `userID` and of no other name, and leads to nothing. -/
theorem lookups_userID :
    userID ∈ [userID, maxSize] ∧ '_' ∉ userID.name.toList.dropWhile (· = '_') ∧
      (∀ e ∈ [userID, maxSize], Name.toAccessor e.name = Name.toAccessor userID.name →
        e = userID) ∧
      Name.toAccessor userID.name = "user_id" ∧
      userSearch.definition.args = [userID, maxSize] ∧ userSearch.argument? "user_id" = none ∧
      inputField? [userID, maxSize] "user_id" = none := by
  have hd : userID ∈ [userID, maxSize] := by simp
  exact ⟨hd, by decide, eq_of_toAccessor_eq hd, by decide, rfl, by decide, by decide⟩

end Catalog

end GraphQLClient
