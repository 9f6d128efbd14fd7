import GraphQLClient.Http.Transport

/-!
# Servers

A server as a client sees it: it answers each connection as a script tells, with a status and a body
or by closing the connection.  It takes no connection when the script has come to its end, or when
it does not listen.

## Main definitions

* `Http.Server` : servers, with the requests that reached them.
* `Http.Server.send` : one request to a server.
* `Http.Transport.execute` : a request, repeated as the transport allows.
-/

namespace GraphQLClient.Http

/-- A request as it reaches a server. -/
structure Arrival where
  headers : Headers
  body : Json

/-- The first line of every request. -/
def requestLine : String := "POST /graphql HTTP/1.1"

/-- A server. -/
structure Server where
  /-- Whether connections are taken at all. -/
  listening : Bool
  /-- A status and a body for each connection; without them the connection is closed. -/
  script : List (Option (Nat × String))
  arrivals : List Arrival

namespace Server

/-- A server that takes no connection. -/
def silent : Server := ⟨false, [], []⟩

/-- A request as a transport sends it. -/
def arrival (t : Transport) (r : Request) : Arrival :=
  ⟨t.headers.sent, r.toJson⟩

/-- Sends one request to a server. -/
def send (t : Transport) (r : Request) (s : Server) : Reply × Server :=
  if s.listening then
    match s.script with
    | [] => (.error (.network "connection refused"), s)
    | answer :: rest =>
      let s := ⟨true, rest, s.arrivals ++ [arrival t r]⟩
      match answer with
      | some (status, body) => (outcome status body, s)
      | none => (.error (.network "connection closed"), s)
  else (.error (.network "connection refused"), s)

end Server

/-- Sends a request to a server, repeated as the transport allows. -/
def Transport.execute (t : Transport) (r : Request) (s : Server) : Reply × Server :=
  exchange (Server.send t r) t.retries s

end GraphQLClient.Http
