import GraphQLClient.Http.Header

/-!
# Transport over HTTP

A request is posted to an address.  When the network fails or the server is at fault, the request is
sent again, up to a number of times; any other outcome ends the exchange.

## Main definitions

* `Http.Transport` : an address with headers and a number of repetitions.
* `Http.outcome` : what the status and the body of an answer mean.
* `TransportError.isRetryable` : whether a failure is worth another attempt.
* `Http.exchange` : sending until there is an outcome that counts.
-/

namespace GraphQLClient

/-- Whether a failure is worth another attempt: the network failed, or the server is at fault. -/
def TransportError.isRetryable : TransportError → Bool
  | .network _ => true
  | .http status _ => 500 ≤ status
  | .parse _ => false
  | .invalid _ => false

namespace Http

/-- An address to which requests are posted. -/
structure Transport where
  url : String
  /-- The headers of every request. -/
  headers : Headers
  /-- How often a request is sent again after a failure. -/
  retries : Nat

namespace Transport

/-- The transport to a configured address. -/
def ofEndpoint (e : Endpoint) : Except TransportError Transport :=
  match Headers.ofConfigured e.headers with
  | .ok headers => .ok ⟨e.url, headers, e.retriesOrDefault.toNat⟩
  | .error e => .error (.invalid e.message)

/-- The transport to an address with every other setting at its default. -/
def ofUrl (url : String) : Except TransportError Transport :=
  ofEndpoint (.ofUrl url)

end Transport

/-- Whether a status tells success. -/
def isSuccess (status : Nat) : Bool :=
  200 ≤ status && status < 300

/-- What the status and the body of an answer mean. -/
def outcome (status : Nat) (body : String) : Reply :=
  if isSuccess status then
    match Response.parse? body with
    | some r => .ok r
    | none => .error (.parse "the body is no payload")
  else .error (.http status body)

/-- Sends until the outcome is none to repeat, at most `retries` times more than once.  What sending
changes is carried along. -/
def exchange {σ : Type} (send : σ → Reply × σ) : Nat → σ → Reply × σ
  | 0, s => send s
  | retries + 1, s =>
    match send s with
    | (.error e, s) => if e.isRetryable then exchange send retries s else (.error e, s)
    | (.ok r, s) => (.ok r, s)

end Http

end GraphQLClient
