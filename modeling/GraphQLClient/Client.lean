import GraphQLClient.Document.Build
import GraphQLClient.Fragment.Inflate
import GraphQLClient.Transport

/-!
# Executing operations

An operation is executed by sending one request.  A payload with any error in it fails the whole
execution, even if data came with it; else the data is read along the selection.

## Main definitions

* `ExecutionError` : how an execution fails, with `ExecutionError.message`.
* `Catalog.requestOf` : the request of an operation.
* `Catalog.conclude` : what a reply means for the operation that asked for it.
* `Catalog.execute`, `Catalog.run` : executing an operation, and running selections of a root type.
* `numberedLines` : messages, one on each line.
-/

namespace GraphQLClient

/-- How an execution fails. -/
inductive ExecutionError where
  | lookup (e : LookupError)
  | build (e : BuildError)
  | transport (e : TransportError)
  /-- The payload holds errors. -/
  | server (errors : List Response.Error)
  /-- The payload holds neither data nor errors. -/
  | noData
  | shape (e : ShapeError)

/-- The text about errors in a payload: their number, and the first of them. -/
def serverMessage (errors : List Response.Error) : String :=
  "Server returned " ++ String.ofList (Decimal.natChars errors.length) ++ " error(s): " ++
    match errors with
    | [] => ""
    | e :: _ => e.message

/-- The text of a failure. -/
def ExecutionError.message : ExecutionError → String
  | .lookup e => e.message
  | .build e => e.message
  | .transport e => e.message
  | .server errors => serverMessage errors
  | .noData => shapeMessage "" "response has neither data nor errors"
  | .shape e => e.message

namespace Catalog

/-- The request of an operation. -/
def requestOf (c : Catalog) (o : Operation) (variables? : Option (List (String × Json))) :
    Except BuildError Request :=
  (c.render o).map fun query => ⟨query, o.name, variables?⟩

/-- What a reply means for the operation that asked for it. -/
def conclude (c : Catalog) (o : Operation) : Reply → Except ExecutionError Fragment
  | .error e => .error (.transport e)
  | .ok r =>
    if r.errors.isEmpty then
      match r.data with
      | none => .error .noData
      | some data => (c.inflate o data).mapError .shape
    else .error (.server r.errors)

/-- Executes an operation over a scripted transport.  An operation without a document sends
nothing. -/
def execute (c : Catalog) (s : Script) (o : Operation)
    (variables? : Option (List (String × Json))) : Except ExecutionError Fragment × Script :=
  match c.requestOf o variables? with
  | .error e => (.error (.build e), s)
  | .ok r =>
    let (reply, s) := s.send r
    (c.conclude o reply, s)

/-- The operation that a client runs for selections of a root type. -/
def clientOperation (c : Catalog) (typename : Bool) (kind : OperationKind)
    (fields : List Field) : Except LookupError Operation :=
  (c.operation? kind).map fun o => (o.withTypename typename).select fields

/-- Runs selections of a root type over a scripted transport. -/
def run (c : Catalog) (typename : Bool) (s : Script) (kind : OperationKind)
    (fields : List Field) : Except ExecutionError Fragment × Script :=
  match c.clientOperation typename kind fields with
  | .error e => (.error (.lookup e), s)
  | .ok o => c.execute s o none

end Catalog

/-- A numbered line for each message. -/
def numberedLines (messages : List String) : String :=
  if messages.isEmpty then "(no errors)"
  else
    "\n".intercalate (messages.zipIdx.map fun (m, i) =>
      "[" ++ String.ofList (Decimal.natChars (i + 1)) ++ "] " ++ m)

end GraphQLClient
