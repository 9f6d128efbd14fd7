import GraphQLClient.Codec
import GraphQLClient.Fragment
import GraphQLClient.Operation

/-!
# Results of responses

The data of a response is read along the selection that asked for it.  A value stands under the
response key of its field, a missing one reads as null, and the result goes under the accessor name.
The first value that has not the shape its place asks for ends the reading.

## Main definitions

* `ShapeError` : the place of a value of the wrong shape, and what is wrong with it.
* `Catalog.inflateField` : the result of a field.
* `Catalog.inflate` : the result of an operation.
-/

namespace GraphQLClient

/-- A step from a value to one of its parts. -/
inductive PathStep where
  | key (name : String)
  | index (n : Nat)
  deriving DecidableEq, Repr

/-- The place of a value in a response, from the outside. -/
abbrev Path := List PathStep

/-- The text of a place: keys joined with points, each followed by the indices after it. -/
def Path.toText (p : Path) : String :=
  p.foldl (fun s step =>
    match step with
    | .key name => if s.isEmpty then name else s ++ "." ++ name
    | .index n => s ++ "[" ++ String.ofList (Decimal.natChars n) ++ "]") ""

/-- What is wrong with a value. -/
inductive ShapeReason where
  | notList (j : Json)
  | notObject (j : Json)
  | rootNotObject (j : Json)
  | codec (e : CodecError)

/-- The text of what is wrong with a value. -/
def ShapeReason.message : ShapeReason → String
  | .notList j => "expected a list, got " ++ j.compact
  | .notObject j => "expected an object, got " ++ j.compact
  | .rootNotObject j => "expected the response data to be an object, got " ++ j.compact
  | .codec e => e.message

/-- The place of a value of the wrong shape, and what is wrong with it. -/
structure ShapeError where
  path : Path
  reason : ShapeReason

/-- The text about a place and a reason. -/
def shapeMessage (path reason : String) : String :=
  "Response does not match the selection at " ++ path ++ ": " ++ reason

/-- The text of a value of the wrong shape. -/
def ShapeError.message (e : ShapeError) : String :=
  shapeMessage e.path.toText e.reason.message

/-- Reads the items of an array one after the other, with their places. -/
def inflateItems (read : Json → Path → Except ShapeError Result) (path : Path) :
    Nat → List Json → Except ShapeError (List Result)
  | _, [] => .ok []
  | n, item :: rest =>
    match read item (path ++ [.index n]) with
    | .error e => .error e
    | .ok r => (inflateItems read path (n + 1) rest).map (r :: ·)

/-- Reads a value of a composite type through the lists of the type; at the name an object is read
as a fragment. -/
def inflateLayers
    (object : String → List (String × Json) → Path → Except ShapeError Result) :
    TypeExpr → Json → Path → Except ShapeError Result
  | _, .null, _ => .ok .null
  | .list item _, .array items, path =>
    (inflateItems (inflateLayers object item) path 0 items).map .list
  | .list _ _, j, path => .error ⟨path, .notList j⟩
  | .named typeName _, .object members, path => object typeName members path
  | .named _ _, j, path => .error ⟨path, .notObject j⟩

/-- The name of the type of an object: the one it carries, else the declared one. -/
def typeNameOf (declared : String) (members : List (String × Json)) : String :=
  match Entries.get? members "__typename" with
  | some (.string name) => name
  | _ => declared

namespace Catalog

mutual

/-- The result of a field, from the value under its response key. -/
def inflateField (c : Catalog) (f : Field) (j : Json) (path : Path) :
    Except ShapeError Result :=
  match f with
  | .leaf h =>
    match c.deserialize h.definition.type j with
    | .ok v => .ok (.leaf v)
    | .error e => .error ⟨path, .codec e⟩
  | .composite h children =>
    inflateLayers
      (fun typeName members path =>
        (inflateFields c children members path).map fun pairs =>
          (Fragment.ofPairs (typeNameOf typeName members) pairs).toResult)
      h.definition.type j path

/-- The results of fields, under their accessor names, from the members of an object. -/
def inflateFields (c : Catalog) (fields : List Field) (members : List (String × Json))
    (path : Path) : Except ShapeError (Entries Result) :=
  match fields with
  | [] => .ok []
  | f :: rest =>
    match inflateField c f ((Entries.get? members f.responseKey).getD .null)
        (path ++ [.key f.responseKey]) with
    | .error e => .error e
    | .ok r => (inflateFields c rest members path).map ((f.accessor, r) :: ·)

end

/-- The result of an operation, from the data of a response. -/
def inflate (c : Catalog) (o : Operation) (data : Json) : Except ShapeError Fragment :=
  match data with
  | .object members =>
    (c.inflateFields o.selections members []).map fun pairs =>
      Fragment.ofPairs (typeNameOf o.rootType members) pairs
  | j => .error ⟨[], .rootNotObject j⟩

/-- The result of a field on its own. -/
def inflateAlone (c : Catalog) (f : Field) (j : Json) : Except ShapeError Result :=
  c.inflateField f j [.key f.responseKey]

end Catalog

end GraphQLClient
