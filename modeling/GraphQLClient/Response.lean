import GraphQLClient.Json.Printer
import GraphQLClient.Record

/-!
# Responses

The payload with which a server answers: data, errors, or both.  Data that is null and data that
is missing are the same.

## Main definitions

* `Response`, `Response.Error` : payloads and the errors in them.
* `Response.parse?` : the payload of a text.
* `Response.toJson` : the JSON form of a payload.
-/

namespace GraphQLClient

/-- An error in a payload. -/
structure Response.Error where
  message : String
  /-- The response keys and list indices down to the value that failed. -/
  path : Option (List Json)
  extensions : Option (List (String × Json))

/-- The payload with which a server answers. -/
structure Response where
  data : Option Json
  errors : List Response.Error

namespace Response

/-- A payload of data. -/
def ofData (data : Json) : Response := ⟨some data, []⟩

/-- A payload of errors that only have a message. -/
def ofMessages (messages : List String) : Response :=
  ⟨none, messages.map fun message => ⟨message, none, none⟩⟩

open Json (Source)

/-- An object by its members, in order of their names. -/
def members? (depth : Nat) (s : Source) : Option (List (String × Json)) :=
  match s.toJson? depth with
  | some (.object members) => some members
  | _ => none

/-- The error in a part of a text that may be nested `depth` deep. -/
def Error.ofSource? (depth : Nat) (s : Source) : Option Error := do
  let r ← s.record? ["message", "path", "extensions"]
  let message ← r.required "message" Source.string?
  let path ← r.orElse "path" none
    (Source.nullable (Source.list? (Source.toJson? (depth - 2))))
  let extensions ← r.orElse "extensions" none (Source.nullable (members? (depth - 1)))
  pure ⟨message, path, extensions⟩

/-- The payload in a text that may be nested `depth` deep. -/
def ofSource? (depth : Nat) (s : Source) : Option Response := do
  let r ← s.record? ["data", "errors"]
  let data ← r.orElse "data" none (Source.nullable (Source.toJson? (depth - 1)))
  let errors ← r.orElse "errors" [] (Source.list? (Error.ofSource? (depth - 2)))
  pure ⟨data, errors⟩

/-- The payload of a text. -/
def parse? (text : String) : Option Response :=
  (Source.parse? text).bind (ofSource? Json.maxDepth)

/-- The members that are written of an error; what it lacks is left out. -/
def Error.members (e : Error) : Entries Json :=
  [("message", .string e.message)] ++
    (match e.path with
      | some path => [("path", .array path)]
      | none => []) ++
    match e.extensions with
    | some extensions => [("extensions", .object extensions)]
    | none => []

/-- The JSON form of an error. -/
def Error.toJson (e : Error) : Json :=
  .ofMembers e.members

/-- The members that are written of a payload, given how its errors are written: data always,
errors only if there are any. -/
def members (r : Response) (errors : List Json) : Entries Json :=
  [("data", r.data.getD .null)] ++ if errors.isEmpty then [] else [("errors", .array errors)]

/-- The JSON form of a payload. -/
def toJson (r : Response) : Json :=
  .ofMembers (r.members (r.errors.map Error.toJson))

end Response

end GraphQLClient
