import GraphQLClient.Proofs.Json.Parts
import GraphQLClient.Proofs.Json.Reading
import GraphQLClient.Response

/-!
# Payloads that are written

A payload is written as an object that leaves out what an error lacks, and the errors if there are
none.  What is left out is read as missing, and null as well, so data that is missing may be written
as null.  Nothing that has been read is lost in this way: data that has been read is never null
itself, and the values in a payload that has been read are the values of their own parts.

The order of the members is not seen, neither that of a payload nor that of an error.

## Main definitions

* `Response.IsWritten` : the JSON values that are written of a payload.
* `Response.Fits` : the payloads whose values are read again.

## Main results

* `Response.fits_of_ofSource?` : the values of a payload that is read are read again.
* `Response.ofSource?_ofJson` : a payload is read from what is written of it.
* `Response.parse?_written` : a payload that is read from a text is read from its own text.
-/

namespace GraphQLClient.Response

open Json (Source)

/-! ### What is written -/

/-- An error is written as an object with its members in any order. -/
def Error.IsWritten (e : Error) (j : Json) : Prop :=
  ∃ members : Entries Json, e.members.Perm members ∧ j = .object members

/-- A payload is written as an object with its members in any order, its errors as well. -/
def IsWritten (r : Response) (j : Json) : Prop :=
  ∃ (errors : List Json) (members : Entries Json),
    List.Forall₂ Error.IsWritten r.errors errors ∧ (r.members errors).Perm members ∧
      j = .object members

theorem Error.keys_members_sublist (e : Error) :
    e.members.keys.Sublist ["message", "path", "extensions"] := by
  rcases e with ⟨message, _ | path, _ | extensions⟩ <;> simp [members]

theorem Error.nodup_keys_members (e : Error) : e.members.keys.Nodup :=
  e.keys_members_sublist.nodup (by decide)

theorem Error.get?_path (e : Error) : e.members.get? "path" = e.path.map .array := by
  rcases e with ⟨message, _ | path, _ | extensions⟩ <;> simp [members, Entries.get?_cons]

theorem Error.get?_extensions (e : Error) :
    e.members.get? "extensions" = e.extensions.map .object := by
  rcases e with ⟨message, _ | path, _ | extensions⟩ <;> simp [members, Entries.get?_cons]

theorem keys_members_sublist (r : Response) (errors : List Json) :
    (r.members errors).keys.Sublist ["data", "errors"] := by
  cases errors <;> simp [members]

theorem nodup_keys_members (r : Response) (errors : List Json) :
    (r.members errors).keys.Nodup :=
  (r.keys_members_sublist errors).nodup (by decide)

theorem Error.isWritten_toJson (e : Error) : e.IsWritten e.toJson :=
  ⟨_, Entries.perm_ofList e.nodup_keys_members, rfl⟩

/-- The JSON form of a payload is written of it. -/
theorem isWritten_toJson (r : Response) : r.IsWritten r.toJson := by
  refine ⟨_, _, ?_, Entries.perm_ofList (r.nodup_keys_members _), rfl⟩
  exact List.forall₂_map_right_iff.mpr (List.forall₂_same.mpr fun e _ => e.isWritten_toJson)

/-! ### What is read -/

/-- The values in an error are the values of their own parts. -/
structure Error.Fits (depth : Nat) (e : Error) : Prop where
  path : ∀ path ∈ e.path, ∀ j ∈ path, j.Fits (depth - 2)
  extensions : ∀ extensions ∈ e.extensions, (Json.object extensions).Fits (depth - 1)

/-- The values in a payload are the values of their own parts, and its data is not null. -/
structure Fits (depth : Nat) (r : Response) : Prop where
  data : ∀ data ∈ r.data, data ≠ .null ∧ data.Fits (depth - 1)
  errors : ∀ e ∈ r.errors, e.Fits (depth - 2)

theorem fits_of_members? {depth : Nat} {s : Source} {members : Entries Json}
    (h : members? depth s = some members) : (Json.object members).Fits depth := by
  unfold members? at h
  split at h
  · next values hvalues =>
    obtain rfl := Option.some.inj h
    exact Source.fits_of_toJson? s hvalues
  · cases h

theorem Error.fits_of_ofSource? {depth : Nat} {s : Source} {e : Error}
    (h : Error.ofSource? depth s = some e) : e.Fits depth := by
  simp only [Error.ofSource?, Option.bind_eq_bind, Option.bind_eq_some_iff, Option.pure_def,
    Option.some_inj] at h
  obtain ⟨r, -, message, -, path, hpath, extensions, hextensions, rfl⟩ := h
  constructor
  · refine Record.of_orElse (fun path? => ∀ path ∈ path?, ∀ j ∈ path, j.Fits (depth - 2)) hpath
      (by simp) fun s _ h => ?_
    exact Source.of_nullable _ h fun s _ _ h => Source.of_list? _ h fun s _ => s.fits_of_toJson?
  · refine Record.of_orElse (fun extensions? => ∀ extensions ∈ extensions?,
      (Json.object extensions).Fits (depth - 1)) hextensions (by simp) fun s _ h => ?_
    exact Source.of_nullable _ h fun s _ _ => fits_of_members?

/-- The values of a payload that is read are the values of their own parts. -/
theorem fits_of_ofSource? {depth : Nat} {s : Source} {r : Response}
    (h : ofSource? depth s = some r) : r.Fits depth := by
  simp only [ofSource?, Option.bind_eq_bind, Option.bind_eq_some_iff, Option.pure_def,
    Option.some_inj] at h
  obtain ⟨record, -, data, hdata, errors, herrors, rfl⟩ := h
  constructor
  · refine Record.of_orElse (fun data? => ∀ data ∈ data?, data ≠ .null ∧ data.Fits (depth - 1))
      hdata (by simp) fun s _ h => ?_
    exact Source.of_nullable _ h fun s _ hs h =>
      ⟨Source.ne_null_of_toJson? hs h, s.fits_of_toJson? h⟩
  · refine Record.of_orElse (fun errors => ∀ e ∈ errors, e.Fits (depth - 2)) herrors (by simp)
      fun s _ h => ?_
    exact Source.of_list? _ h fun s _ => Error.fits_of_ofSource?

/-! ### Reading what is written -/

theorem members?_ofJson {depth : Nat} {members : Entries Json}
    (h : (Json.object members).Fits depth) :
    members? depth (.ofJson (.object members)) = some members := by
  rw [Json.Fits] at h
  rw [members?, h]

/-- An error is read from what is written of it. -/
theorem Error.ofSource?_ofJson {depth : Nat} {e : Error} {j : Json} (he : e.Fits depth)
    (hj : e.IsWritten j) : Error.ofSource? depth (.ofJson j) = some e := by
  obtain ⟨written, hperm, rfl⟩ := hj
  have hget (name : String) : written.get? name = e.members.get? name :=
    (Entries.get?_perm e.nodup_keys_members hperm name).symm
  have hmessage : (Record.written Source.ofJson written).required "message" Source.string? =
      some e.message :=
    Record.required_written (hget _) rfl
  have hpath : (Record.written Source.ofJson written).orElse "path" none
      (Source.nullable (Source.list? (Source.toJson? (depth - 2)))) = some e.path := by
    refine Record.orElse_written_map .array ((hget _).trans e.get?_path) fun path hpath => ?_
    rw [Source.nullable_ofJson (by simp),
      Source.list?_ofJson (List.forall₂_same.mpr (he.path path hpath)), Option.map_some]
  have hextensions : (Record.written Source.ofJson written).orElse "extensions" none
      (Source.nullable (members? (depth - 1))) = some e.extensions := by
    refine Record.orElse_written_map .object ((hget _).trans e.get?_extensions)
      fun extensions hextensions => ?_
    rw [Source.nullable_ofJson (by simp), members?_ofJson (he.extensions _ hextensions),
      Option.map_some]
  rw [Error.ofSource?, Source.record?_ofJson (by decide) e.keys_members_sublist hperm]
  simp only [Option.bind_eq_bind, Option.bind_some, hmessage, hpath, hextensions]
  rfl

/-- A payload is read from what is written of it. -/
theorem ofSource?_ofJson {depth : Nat} {r : Response} {j : Json} (hr : r.Fits depth)
    (hj : r.IsWritten j) : ofSource? depth (.ofJson j) = some r := by
  obtain ⟨errors, written, hwritten, hperm, rfl⟩ := hj
  have hget (name : String) : written.get? name = (r.members errors).get? name :=
    (Entries.get?_perm (r.nodup_keys_members errors) hperm name).symm
  have hdata : (Record.written Source.ofJson written).orElse "data" none
      (Source.nullable (Source.toJson? (depth - 1))) = some r.data := by
    refine Record.orElse_written none ((hget _).trans rfl) ?_
    -- Missing data is written as null, so what is not missing must not be null.
    cases hdata : r.data with
    | none => rfl
    | some data =>
      obtain ⟨hne, hfits⟩ := hr.data data hdata
      rw [Option.getD_some, Source.nullable_ofJson hne, hfits, Option.map_some]
  have herrors : (Record.written Source.ofJson written).orElse "errors" []
      (Source.list? (Error.ofSource? (depth - 2))) = some r.errors := by
    have hread : List.Forall₂ (fun j e => Error.ofSource? (depth - 2) (.ofJson j) = some e)
        errors r.errors :=
      (((List.forall₂_and_left _ _).mpr ⟨hr.errors, hwritten⟩).imp
        fun _ _ h => Error.ofSource?_ofJson h.1 h.2).flip
    cases errors with
    | nil =>
      have hnone : r.errors = [] := List.forall₂_nil_left_iff.mp hread
      rw [hnone]
      exact Record.orElse_written_of_eq_none _ _ (hget _)
    | cons error rest => exact Record.orElse_written _ (hget _) (Source.list?_ofJson hread)
  rw [ofSource?, Source.record?_ofJson (by decide) (r.keys_members_sublist errors) hperm]
  simp only [Option.bind_eq_bind, Option.bind_some, hdata, herrors]
  rfl

/-- **Payloads that are written.** A payload that is read from a text, in either form and whatever
else stands in it, is read again from the text of all that is written of it: the same data, and the
same errors in the same order.  Floating-point numbers have to be read back from their texts. -/
theorem parse?_written {text : String} {r : Response} (h : parse? text = some r) :
    r.IsWritten r.toJson ∧
      ∀ j, r.IsWritten j → (∀ x ∈ j.floats, (Json.Number.float x).IsReadBack) →
        parse? j.compact = some r := by
  obtain ⟨s, -, hs⟩ := Option.bind_eq_some_iff.mp h
  refine ⟨r.isWritten_toJson, fun j hj hread => ?_⟩
  rw [parse?, Source.parse?_compact hread, Option.bind_some]
  exact ofSource?_ofJson (fits_of_ofSource? hs) hj

/-- A payload without data, with an error in either form and with names that are passed over. -/
def adriftText : String :=
  "\x7b\"errors\": [[\"adrift\", [\"crew\", 0.5]], \x7b\"path\": null, \"message\": \"lost\", " ++
    "\"extensions\": \x7b\"b\": 1, \"a\": []\x7d\x7d], \"hint\": 2.5\x7d"

/-- The text that is written of it. -/
def adriftWritten : String :=
  "\x7b\"data\":null,\"errors\":[\x7b\"message\":\"adrift\",\"path\":[\"crew\",0.5]\x7d," ++
    "\x7b\"extensions\":\x7b\"a\":[],\"b\":1\x7d,\"message\":\"lost\"\x7d]\x7d"

/-- The same payload is read from both. -/
theorem parse?_adriftText :
    ∃ r, parse? adriftText = some r ∧ parse? adriftWritten = some r := by
  have htext : (parse? adriftText).map (fun r => (r.toJson.compact, r.toJson.floats)) =
      some (adriftWritten, [⟨false, 1022, 0⟩]) := by
    decide +kernel
  have hhalf : (Json.Number.float ⟨false, 1022, 0⟩).IsReadBack :=
    Json.Number.isReadBack_of_takeNumber? (by decide +kernel)
  obtain ⟨r, hr, hwritten⟩ := Option.map_eq_some_iff.mp htext
  obtain ⟨hcompact, hfloats⟩ := Prod.mk.inj hwritten
  obtain ⟨htoJson, hread⟩ := parse?_written hr
  refine ⟨r, hr, hcompact ▸ hread _ htoJson ?_⟩
  rw [hfloats]
  exact List.forall_mem_singleton.mpr hhalf

end GraphQLClient.Response
