import GraphQLClient.Response

/-!
# Requests and transports

A request is sent to a server by a transport, which hands back a payload or fails.  A scripted
transport answers from a list of replies prepared in advance and keeps a log of the requests.

## Main definitions

* `Request` : requests, with `Request.toJson`.
* `TransportError` : how a transport fails, with `TransportError.message`.
* `Script` : scripted transports, with `Script.send`.
-/

namespace GraphQLClient

/-- A rendered operation with the values of its variables. -/
structure Request where
  query : String
  operationName : Option String
  variables? : Option (List (String × Json))

/-- The JSON form of a request; what it lacks is left out. -/
def Request.toJson (r : Request) : Json :=
  .ofMembers <| [("query", .string r.query)] ++
    (match r.operationName with
      | some name => [("operationName", .string name)]
      | none => []) ++
    match r.variables? with
    | some members => [("variables", .object members)]
    | none => []

/-- How a transport fails. -/
inductive TransportError where
  | network (reason : String)
  | http (status : Nat) (body : String)
  /-- The answer is no payload. -/
  | parse (reason : String)
  | invalid (reason : String)
  deriving DecidableEq, Repr

/-- The text of a failure. -/
def TransportError.message : TransportError → String
  | .network reason => "Network error: " ++ reason
  | .http status body => "HTTP error " ++ String.ofList (Decimal.natChars status) ++ ": " ++ body
  | .parse reason => "Failed to parse response: " ++ reason
  | .invalid reason => "Invalid response: " ++ reason

/-- What a transport hands back. -/
abbrev Reply := Except TransportError Response

/-- A scripted transport: the replies that are left, and the requests that were sent. -/
structure Script where
  replies : List Reply
  requests : List Request

namespace Script

/-- A script that has not been used. -/
def ofReplies (replies : List Reply) : Script := ⟨replies, []⟩

/-- Queues a reply behind the others. -/
def queue (s : Script) (reply : Reply) : Script :=
  { s with replies := s.replies ++ [reply] }

/-- The number of replies that are left. -/
def pending (s : Script) : Nat := s.replies.length

/-- Sends a request: it is logged, and the oldest reply that is left comes back.  When none is left
the failure names the number of requests sent so far. -/
def send (s : Script) (r : Request) : Reply × Script :=
  let requests := s.requests ++ [r]
  match s.replies with
  | reply :: rest => (reply, ⟨rest, requests⟩)
  | [] =>
    (.error (.invalid
      ("no scripted reply for request #" ++ String.ofList (Decimal.natChars requests.length))),
      ⟨[], requests⟩)

/-- The requests sent after the first `n`. -/
def requestsSince (s : Script) (n : Nat) : List Request :=
  s.requests.drop n

end Script

end GraphQLClient
