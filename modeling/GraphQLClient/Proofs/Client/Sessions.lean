import GraphQLClient.Client
import GraphQLClient.Proofs.Fragment.Complete
import Mathlib.Data.List.DropRight
import Mathlib.Logic.Function.Basic

/-!
# Sessions

In a session replies are queued on scripted transports, clients send operations over them, and their
logs are read, in any order.  A client whose operation has no document sends nothing.  Else it sends
one request, and gets the oldest of the queued replies that no request took before.  So what a
transport logged and what is left of its replies can be told from the events alone, and with them
the outcome of every event.

## Main definitions

* `Client`, `Client.Call` : clients and what they are asked to do, with `Client.prepare`.
* `Session.Event`, `Session.Outcome` : what happens in a session and what comes of it.
* `Session.run` : the outcomes of events, and the transports after them.
* `Session.sent`, `Session.queued`, `Session.left`, `Session.waiting` : what events leave behind.
* `Catalog.Concludes`, `Session.Event.Gives` : the outcomes that events must have.

## Main results

* `Catalog.concludes_conclude` : what every reply means.
* `Session.Tracks.step` : one event.
* `Session.run_gives` : sessions.
-/

namespace GraphQLClient

/-- A catalog to build operations from, and the transport that operations are sent over.  A
transport and its clones are one number. -/
structure Client where
  catalog : Catalog
  transport : Nat
  /-- Whether the types of objects are asked for in the operations that the client builds. -/
  typename : Bool

/-- What a client is asked to do: to execute an operation, which comes with the catalog that it was
built from, or to run selections of a root type. -/
inductive Client.Call where
  | execute (c : Catalog) (o : Operation) (variables? : Option (List (String × Json)))
  | run (kind : OperationKind) (fields : List Field)

/-- A call that can be made: its operation, with the catalog of the operation, and its request. -/
structure Client.Prepared where
  catalog : Catalog
  operation : Operation
  request : Request

namespace Client

/-- The values that are sent for variables. -/
def Call.variables? : Call → Option (List (String × Json))
  | .execute _ _ variables? => variables?
  | .run _ _ => none

/-- A call over a transport. -/
def perform (k : Client) (s : Script) : Call → Except ExecutionError Fragment × Script
  | .execute c o variables? => c.execute s o variables?
  | .run kind fields => k.catalog.run k.typename s kind fields

/-- The operation of a call, with its catalog. -/
def operation (k : Client) : Call → Except ExecutionError (Catalog × Operation)
  | .execute c o _ => .ok (c, o)
  | .run kind fields =>
    match k.catalog.schema.root? kind.root with
    | none => .error (.lookup (.missingRoot kind))
    | some rootType => .ok (k.catalog, ⟨kind, none, rootType, fields, k.typename⟩)

/-- A call as it can be made, or why it cannot. -/
def prepare (k : Client) (call : Call) : Except ExecutionError Prepared :=
  match k.operation call with
  | .error e => .error e
  | .ok (c, o) =>
    match c.documentOf o with
    | .error e => .error (.build e)
    | .ok d => .ok ⟨c, o, d.toText, o.name, call.variables?⟩

end Client

/-! ### Replies -/

namespace Catalog

/-- What the result of an operation is after a reply.  It is a fragment exactly if the reply is data
without errors, and the data is an object that can be read along the selection. -/
structure Concludes (c : Catalog) (o : Operation) (reply : Reply)
    (result : Except ExecutionError Fragment) : Prop where
  ok_iff : ∀ r, result = .ok r ↔
    ∃ members, reply = .ok ⟨some (.object members), []⟩ ∧ c.inflate o (.object members) = .ok r
  server_iff : ∀ errors, result = .error (.server errors) ↔
    errors ≠ [] ∧ ∃ data, reply = .ok ⟨data, errors⟩
  transport_iff : ∀ e, result = .error (.transport e) ↔ reply = .error e
  noData_iff : result = .error .noData ↔ reply = .ok ⟨none, []⟩
  shape_iff : ∀ e, result = .error (.shape e) ↔
    ∃ data, reply = .ok ⟨some data, []⟩ ∧ c.inflate o data = .error e

theorem concludes_conclude (c : Catalog) (o : Operation) (reply : Reply) :
    c.Concludes o reply (c.conclude o reply) := by
  rcases reply with e | ⟨data, errors⟩
  · -- The transport failed, so nothing is said about the payload.
    constructor <;> simp [conclude]
  by_cases herrors : errors = []
  · subst herrors
    cases data with
    | none => constructor <;> simp [conclude]
    | some data =>
      have hconclude : c.conclude o (.ok ⟨some data, []⟩) =
          (c.inflate o data).mapError .shape := rfl
      rw [hconclude]
      cases hinflate : c.inflate o data with
      | error e =>
        have hfails : ∀ r members, data = .object members →
            c.inflate o (.object members) ≠ .ok r := by
          rintro r members rfl
          simp [hinflate]
        refine ⟨by simpa [Except.mapError] using hfails, ?_, ?_, ?_, ?_⟩ <;>
          simp [Except.mapError, hinflate]
      | ok r =>
        obtain ⟨members, -, rfl, -⟩ := inflate_eq_ok hinflate
        constructor <;> simp [Except.mapError, hinflate]
  · have hconclude : c.conclude o (.ok ⟨data, errors⟩) = .error (.server errors) := by
      simp [conclude, herrors]
    rw [hconclude]
    constructor <;> simp [herrors]

end Catalog

/-! ### Requests -/

namespace Script

variable (s : Script) (r : Request)

theorem send_requests : (s.send r).2.requests = s.requests ++ [r] := by
  cases hreplies : s.replies <;> simp [send, hreplies]

theorem send_replies : (s.send r).2.replies = s.replies.tail := by
  cases hreplies : s.replies <;> simp [send, hreplies]

theorem send_reply : (s.send r).1 =
    s.replies.head?.getD (.error (.invalid ("no scripted reply for request #" ++
      String.ofList (Decimal.natChars (s.requests.length + 1))))) := by
  cases hreplies : s.replies <;> simp [send, hreplies]

end Script

theorem Catalog.execute_eq (c : Catalog) (s : Script) (o : Operation)
    (variables? : Option (List (String × Json))) :
    c.execute s o variables? =
      match c.documentOf o with
      | .error e => (.error (.build e), s)
      | .ok d =>
        let (reply, s) := s.send ⟨d.toText, o.name, variables?⟩
        (c.conclude o reply, s) := by
  rw [execute, requestOf, render]
  cases c.documentOf o <;> rfl

namespace Client

theorem perform_eq_execute (k : Client) (s : Script) (call : Call) :
    k.perform s call =
      match k.operation call with
      | .error e => (.error e, s)
      | .ok (c, o) => c.execute s o call.variables? := by
  cases call with
  | execute c o variables? => rfl
  | run kind fields =>
    rw [perform, Catalog.run, Catalog.clientOperation, Catalog.operation?, operation]
    cases k.catalog.schema.root? kind.root <;> rfl

/-- A call that cannot be prepared leaves the transport as it is.  Else its request is sent, and
the reply decides. -/
theorem perform_eq (k : Client) (s : Script) (call : Call) :
    k.perform s call =
      match k.prepare call with
      | .error e => (.error e, s)
      | .ok p =>
        (p.catalog.conclude p.operation (s.send p.request).1, (s.send p.request).2) := by
  rw [perform_eq_execute, prepare]
  cases k.operation call with
  | error e => rfl
  | ok built =>
    dsimp only
    rw [Catalog.execute_eq]
    cases built.1.documentOf built.2 <;> rfl

end Client

/-! ### Events -/

namespace Session

/-- What happens in a session.  A read asks for the requests after the first `since`. -/
inductive Event where
  | queue (transport : Nat) (reply : Reply)
  | ask (client : Client) (call : Client.Call)
  | read (transport : Nat) (since : Nat)

/-- What comes of an event. -/
inductive Outcome where
  | queued
  | result (result : Except ExecutionError Fragment)
  | log (requests : List Request) (checkpoint pending : Nat)

/-- Scripted transports by their numbers. -/
abbrev Transports := Nat → Script

/-- Transports that were not used. -/
def fresh : Transports := fun _ => .ofReplies []

/-- An event, and the transports after it. -/
def step (ts : Transports) : Event → Outcome × Transports
  | .queue t reply => (.queued, Function.update ts t ((ts t).queue reply))
  | .ask k call =>
    let (result, s) := k.perform (ts k.transport) call
    (.result result, Function.update ts k.transport s)
  | .read t since =>
    (.log ((ts t).requestsSince since) (ts t).requests.length (ts t).pending, ts)

/-- The outcomes of events one after the other, and the transports after them. -/
def run (ts : Transports) : List Event → List Outcome × Transports
  | [] => ([], ts)
  | e :: rest =>
    let (outcome, ts) := step ts e
    let (outcomes, ts) := run ts rest
    (outcome :: outcomes, ts)

/-! ### What events leave behind -/

/-- The request that an event sends over a transport. -/
def Event.request? (t : Nat) : Event → Option Request
  | .ask k call =>
    if k.transport = t then (k.prepare call).toOption.map Client.Prepared.request else none
  | .queue _ _ | .read _ _ => none

/-- The reply that an event queues on a transport. -/
def Event.reply? (t : Nat) : Event → Option Reply
  | .queue u reply => if u = t then some reply else none
  | .ask _ _ | .read _ _ => none

/-- The number of replies left on a transport after an event, from the number before it. -/
def Event.leftOf (t n : Nat) (e : Event) : Nat :=
  if (e.reply? t).isSome then n + 1 else if (e.request? t).isSome then n - 1 else n

variable (t : Nat) (events : List Event)

/-- The requests that were sent over a transport. -/
def sent : List Request := events.filterMap (Event.request? t)

/-- The replies that were queued on a transport. -/
def queued : List Reply := events.filterMap (Event.reply? t)

/-- The number of replies that no request took: each takes one, if there is any. -/
def left : Nat := events.foldl (Event.leftOf t) 0

/-- The replies that no request took, which are the last ones. -/
def waiting : List Reply := (queued t events).rtake (left t events)

/-- The reply to the next request. -/
def nextReply : Reply :=
  (waiting t events).head?.getD (.error (.invalid ("no scripted reply for request #" ++
    String.ofList (Decimal.natChars ((sent t events).length + 1)))))

/-- The outcomes that an event may have after other events.  A read that skips more requests than
were sent may yield anything. -/
inductive Event.Gives (before : List Event) : Event → Outcome → Prop
  | queued (t : Nat) (reply : Reply) : Event.Gives before (.queue t reply) .queued
  | refused {k : Client} {call : Client.Call} {e : ExecutionError}
      (hprepare : k.prepare call = .error e) :
      Event.Gives before (.ask k call) (.result (.error e))
  | answered {k : Client} {call : Client.Call} {p : Client.Prepared}
      {result : Except ExecutionError Fragment} (hprepare : k.prepare call = .ok p)
      (hresult : p.catalog.Concludes p.operation (nextReply k.transport before) result) :
      Event.Gives before (.ask k call) (.result result)
  | log {t since : Nat} {requests : List Request}
      (hrequests : since ≤ (sent t before).length → requests = (sent t before).drop since) :
      Event.Gives before (.read t since)
        (.log requests (sent t before).length (left t before))

/-- A transport has the log and the replies that the events leave behind. -/
structure Tracks (s : Script) : Prop where
  requests : s.requests = sent t events
  suffix : s.replies <:+ queued t events
  pending : s.pending = left t events

variable {t events} {s : Script} {before : List Event} {ts : Transports}

theorem sent_append_singleton (t : Nat) (before : List Event) (e : Event) :
    sent t (before ++ [e]) = sent t before ++ (e.request? t).toList := by
  cases he : e.request? t <;> simp [sent, he]

theorem queued_append_singleton (t : Nat) (before : List Event) (e : Event) :
    queued t (before ++ [e]) = queued t before ++ (e.reply? t).toList := by
  cases he : e.reply? t <;> simp [queued, he]

theorem left_append_singleton (t : Nat) (before : List Event) (e : Event) :
    left t (before ++ [e]) = e.leftOf t (left t before) := by
  rw [left, left, List.foldl_append, List.foldl_cons, List.foldl_nil]

namespace Tracks

theorem replies (h : Tracks t events s) : s.replies = waiting t events := by
  rw [waiting, List.rtake, ← h.pending]
  exact List.suffix_iff_eq_drop.mp h.suffix

/-- The reply to the next request. -/
theorem send_reply (h : Tracks t before s) (r : Request) : (s.send r).1 = nextReply t before := by
  rw [Script.send_reply, h.replies, h.requests, nextReply]

theorem queue {e : Event} {reply : Reply} (h : Tracks t before s) (he : e.reply? t = some reply)
    (hsilent : e.request? t = none) : Tracks t (before ++ [e]) (s.queue reply) where
  requests := by
    rw [sent_append_singleton, hsilent, ← h.requests]
    exact (List.append_nil _).symm
  suffix := by
    obtain ⟨used, hused⟩ := h.suffix
    refine ⟨used, ?_⟩
    rw [queued_append_singleton, he, ← hused, List.append_assoc]
    rfl
  pending := by
    rw [left_append_singleton, Event.leftOf, he, ← h.pending]
    exact List.length_append

theorem send {e : Event} {r : Request} (h : Tracks t before s) (he : e.request? t = some r)
    (hsilent : e.reply? t = none) : Tracks t (before ++ [e]) (s.send r).2 where
  requests := by
    rw [Script.send_requests, sent_append_singleton, he, h.requests]
    rfl
  suffix := by
    rw [Script.send_replies, queued_append_singleton, hsilent]
    exact (List.append_nil (queued t before)).symm ▸ (List.tail_suffix _).trans h.suffix
  pending := by
    rw [Script.pending, Script.send_replies, List.length_tail, left_append_singleton, Event.leftOf,
      he, hsilent, ← h.pending]
    rfl

theorem silent {e : Event} (h : Tracks t before s) (hrequest : e.request? t = none)
    (hreply : e.reply? t = none) : Tracks t (before ++ [e]) s where
  requests := by
    rw [sent_append_singleton, hrequest, h.requests]
    exact (List.append_nil _).symm
  suffix := by
    rw [queued_append_singleton, hreply]
    exact (List.append_nil (queued t before)).symm ▸ h.suffix
  pending := by
    rw [left_append_singleton, Event.leftOf, hrequest, hreply, h.pending]
    rfl

/-- **One event.** -/
theorem step {ts : Transports} {before : List Event} (h : ∀ t, Tracks t before (ts t)) (e : Event)
    (t : Nat) : Tracks t (before ++ [e]) ((step ts e).2 t) := by
  cases e with
  | queue u reply =>
    dsimp only [Session.step]
    by_cases hu : u = t
    · subst hu
      rw [Function.update_self]
      exact (h u).queue (if_pos rfl) rfl
    · rw [Function.update_of_ne (Ne.symm hu)]
      exact (h t).silent rfl (if_neg hu)
  | ask k call =>
    rw [Session.step, Client.perform_eq]
    dsimp only
    by_cases hk : k.transport = t
    · subst hk
      have hrequest : (Event.ask k call).request? k.transport =
          (k.prepare call).toOption.map Client.Prepared.request :=
        if_pos rfl
      rw [Function.update_self]
      cases hprepare : k.prepare call with
      | error e =>
        rw [hprepare] at hrequest
        exact (h k.transport).silent hrequest rfl
      | ok p =>
        rw [hprepare] at hrequest
        exact (h k.transport).send hrequest rfl
    · rw [Function.update_of_ne (Ne.symm hk)]
      exact (h t).silent (if_neg hk) rfl
  | read u since => exact (h t).silent rfl rfl

end Tracks

theorem step_gives (h : ∀ t, Tracks t before (ts t)) (e : Event) :
    e.Gives before (step ts e).1 := by
  cases e with
  | queue t reply => exact .queued t reply
  | ask k call =>
    rw [step, Client.perform_eq]
    cases hprepare : k.prepare call with
    | error e => exact .refused hprepare
    | ok p =>
      refine .answered hprepare ?_
      rw [← (h k.transport).send_reply p.request]
      exact Catalog.concludes_conclude ..
  | read t since =>
    rw [step, (h t).pending, (h t).requests]
    refine .log fun _ => ?_
    rw [Script.requestsSince, (h t).requests]

/-! ### Sessions -/

/-- Events one after the other, after others. -/
theorem run_gives_of_tracks (h : ∀ t, Tracks t before (ts t)) (events : List Event) :
    (∀ t, Tracks t (before ++ events) ((run ts events).2 t)) ∧
      (run ts events).1.length = events.length ∧
      ∀ (i : Nat) (e : Event), events[i]? = some e →
        ∃ outcome, (run ts events).1[i]? = some outcome ∧
          e.Gives (before ++ events.take i) outcome := by
  induction events generalizing before ts with
  | nil => simpa [run] using h
  | cons e rest ih =>
    obtain ⟨htracks, hlength, hrest⟩ := ih fun t => Tracks.step h e t
    rw [run]
    dsimp only
    rw [List.append_assoc, List.singleton_append] at htracks
    refine ⟨htracks, congrArg (· + 1) hlength, fun i e' he => ?_⟩
    cases i with
    | zero =>
      obtain rfl : e = e' := Option.some.inj he
      exact ⟨_, rfl, (List.append_nil before).symm ▸ step_gives h e⟩
    | succ i =>
      obtain ⟨outcome, houtcome, hgives⟩ := hrest i e' he
      rw [List.append_assoc, List.singleton_append] at hgives
      exact ⟨outcome, houtcome, hgives⟩

theorem tracks_fresh (t : Nat) : Tracks t [] (fresh t) :=
  ⟨rfl, List.suffix_rfl, rfl⟩

/-- **Sessions.** Every call that can be prepared sends its one request and takes the oldest reply
that is left, which decides its outcome; every other call sends and takes nothing.  So the log of a
transport is made of the requests of such calls in order, what is left of its replies are the last
ones, as many as were queued and not taken, and the outcome of every event follows from the events
before it. -/
theorem run_gives (events : List Event) :
    (∀ t, ((run fresh events).2 t).requests = sent t events ∧
      ((run fresh events).2 t).replies = waiting t events ∧
      ((run fresh events).2 t).pending = left t events) ∧
    (run fresh events).1.length = events.length ∧
    ∀ (i : Nat) (e : Event), events[i]? = some e →
      ∃ outcome, (run fresh events).1[i]? = some outcome ∧ e.Gives (events.take i) outcome := by
  obtain ⟨htracks, hlength, houtcomes⟩ := run_gives_of_tracks tracks_fresh events
  refine ⟨fun t => ?_, hlength, houtcomes⟩
  have h : Tracks t events ((run fresh events).2 t) := htracks t
  exact ⟨h.requests, h.replies, h.pending⟩

/-! ### The crews asked for twice -/

/-- A client for crews, which sends over the transport of number zero. -/
def crewClient : Client := ⟨Catalog.crews, 0, true⟩

/-- The crews asked for, with values for variables or without. -/
def crewCall (variables? : Option (List (String × Json))) : Client.Call :=
  .execute Catalog.crews Catalog.crewOperation variables?

/-- One payload for three calls, of which the first has no root type to select on. -/
def crewSession : List Event :=
  [.queue 0 (.ok (.ofData Catalog.crewData)), .ask crewClient (.run .mutation []),
    .ask crewClient (crewCall none), .ask crewClient (crewCall (some [])), .read 0 1]

/-- The document of the crews. -/
def crewText : String :=
  "\x7b\n  crews \x7b\n    __typename\n    name\n    born: yearOfBirth\n  \x7d\n\x7d"

theorem run_crewSession :
    ((run fresh crewSession).2 0).requests =
        [⟨crewText, none, none⟩, ⟨crewText, none, some []⟩] ∧
      ((run fresh crewSession).2 0).pending = 0 ∧
      (run fresh crewSession).1[1]? =
        some (.result (.error (.lookup (.missingRoot .mutation)))) ∧
      (run fresh crewSession).1[2]? = some (.result (.ok Catalog.crewResult)) ∧
      (run fresh crewSession).1[3]? =
        some (.result (.error (.transport (.invalid "no scripted reply for request #2")))) := by
  obtain ⟨htransports, -, houtcomes⟩ := run_gives crewSession
  obtain ⟨hrequests, -, hpending⟩ := htransports 0
  have hprepare : ∀ variables?, ∃ r, crewClient.prepare (crewCall variables?) =
      .ok ⟨Catalog.crews, Catalog.crewOperation, r⟩ :=
    fun _ => ⟨_, rfl⟩
  refine ⟨?_, hpending ▸ rfl, ?_, ?_, ?_⟩
  · rw [hrequests]
    rfl
  · obtain ⟨outcome, houtcome, hgives⟩ := houtcomes 1 _ rfl
    rw [houtcome]
    cases hgives with
    | refused h => cases h; rfl
    | answered h hresult => cases h
  · obtain ⟨outcome, houtcome, hgives⟩ := houtcomes 2 _ rfl
    obtain ⟨r, hr⟩ := hprepare none
    rw [houtcome]
    cases hgives with
    | refused h => rw [hr] at h; cases h
    | answered h hresult =>
      rw [hr] at h
      cases h
      rw [(hresult.ok_iff Catalog.crewResult).mpr ⟨_, rfl, rfl⟩]
  · obtain ⟨outcome, houtcome, hgives⟩ := houtcomes 3 _ rfl
    obtain ⟨r, hr⟩ := hprepare (some [])
    rw [houtcome]
    cases hgives with
    | refused h => rw [hr] at h; cases h
    | answered h hresult =>
      rw [hr] at h
      cases h
      have hreply : nextReply 0 (crewSession.take 3) =
          .error (.invalid "no scripted reply for request #2") := rfl
      rw [(hresult.transport_iff _).mpr hreply]

end Session

end GraphQLClient
