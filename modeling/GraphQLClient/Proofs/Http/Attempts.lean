import GraphQLClient.Http.Server
import Mathlib.Data.Nat.Find
import Mathlib.Logic.Function.Iterate
import Mathlib.Order.Bounds.Defs

/-!
# Requests that are sent again

What a request is sent to may be in another state each time.  So the replies to a request that is
sent again and again are a sequence, and the exchange runs along this sequence up to the first reply
that settles it, or until it has used up its repetitions.  It hands back the reply where it stops.
All before that was a failure of the network or of the server, and nothing is sent after it.

## Main definitions

* `Http.settles` : the replies that end an exchange.
* `Http.stateAfter`, `Http.replyAfter` : sending again and again.
* `Http.IsLast` : where an exchange stops.
* `Http.logged` : sending with a log of the requests.
* `Http.Server.answers`, `Http.Server.reply` : what a server answers.

## Main results

* `Http.exchange_eq` : an exchange in terms of the replies.
* `Http.exchange_logged` : the attempts that an exchange makes.
* `Http.Transport.execute_logged` : the attempts of a request over a transport.
-/

namespace GraphQLClient.Http

/-! ### Replies that end an exchange -/

/-- Whether a reply ends an exchange: it is no failure of the network or of the server. -/
def settles : Reply → Bool
  | .ok _ => true
  | .error (.network _) => false
  | .error (.http status _) => status < 500
  | .error (.parse _) => true
  | .error (.invalid _) => true

theorem settles_error (e : TransportError) : settles (.error e) = !e.isRetryable := by
  cases e with
  | network _ | parse _ | invalid _ => rfl
  | http status body =>
    simp only [settles, TransportError.isRetryable, ← decide_not, Nat.not_le]

theorem settles_eq_false_iff {reply : Reply} :
    settles reply = false ↔
      (∃ reason, reply = .error (.network reason)) ∨
        ∃ status body, reply = .error (.http status body) ∧ 500 ≤ status := by
  rcases reply with (reason | ⟨status, body⟩ | _ | _) | _ <;> simp [settles]

/-! ### Sending again and again -/

section

variable {σ : Type} (send : σ → Reply × σ) (s : σ)

/-- The state after sending `n` times. -/
def stateAfter (n : Nat) : σ :=
  (fun s => (send s).2)^[n] s

/-- The reply to what was sent `n` times before. -/
def replyAfter (n : Nat) : Reply :=
  (send (stateAfter send s n)).1

/-- After `n` repetitions an exchange stops: its reply is the first to settle it, or no more
repetitions are allowed. -/
def IsLast (retries n : Nat) : Prop :=
  IsLeast {m | settles (replyAfter send s m) = true ∨ m = retries} n

theorem stateAfter_succ (n : Nat) :
    stateAfter send s (n + 1) = (send (stateAfter send s n)).2 :=
  Function.iterate_succ_apply' _ _ _

theorem exists_isLast (retries : Nat) : ∃ n, IsLast send s retries n := by
  have h : ∃ m, settles (replyAfter send s m) = true ∨ m = retries := ⟨retries, .inr rfl⟩
  exact ⟨Nat.find h, Nat.find_spec h, fun _ hm => Nat.find_min' h hm⟩

/-- One step of an exchange that may be repeated. -/
theorem exchange_succ (retries : Nat) :
    exchange send (retries + 1) s =
      if settles (send s).1 then send s else exchange send retries (send s).2 := by
  rw [exchange]
  split
  next e s' h =>
    rw [h, settles_error]
    cases e.isRetryable <;> rfl
  next r s' h => rw [h, settles, if_pos rfl]

end

section

variable {σ : Type} {send : σ → Reply × σ} {s : σ} {retries n : Nat}

theorem IsLast.le (h : IsLast send s retries n) : n ≤ retries :=
  h.2 (.inr rfl)

theorem IsLast.settles_eq_false (h : IsLast send s retries n) {m : Nat} (hm : m < n) :
    settles (replyAfter send s m) = false :=
  Bool.eq_false_iff.mpr fun hsettles => Nat.not_le.mpr hm (h.2 (.inl hsettles))

/-- Where an exchange stops that goes on after its first reply. -/
theorem IsLast.tail (h : IsLast send s (retries + 1) (n + 1)) :
    IsLast send (send s).2 retries n := by
  refine ⟨h.1.imp_right Nat.succ.inj, fun m hm => ?_⟩
  exact Nat.le_of_succ_le_succ (h.2 (hm.imp_right (congrArg Nat.succ)))

/-- An exchange hands back the reply where it stops, and sends nothing after it. -/
theorem exchange_eq (h : IsLast send s retries n) :
    exchange send retries s = (replyAfter send s n, stateAfter send s (n + 1)) := by
  induction retries generalizing s n with
  | zero =>
    obtain rfl : n = 0 := Nat.le_zero.mp h.le
    rfl
  | succ retries ih =>
    rw [exchange_succ]
    cases n with
    | zero =>
      have hsettles : settles (send s).1 = true := h.1.resolve_right (Nat.succ_ne_zero retries).symm
      rw [if_pos hsettles]
      rfl
    | succ n =>
      have hgoes : settles (send s).1 = false := h.settles_eq_false (Nat.succ_pos n)
      rw [hgoes, if_neg Bool.false_ne_true, ih h.tail]
      rfl

end

/-! ### The requests that are sent -/

section

variable {σ : Type} (send : Request → σ → Reply × σ) (r : Request) (s : σ)

/-- Sending with a log of the requests. -/
def logged (p : σ × List Request) : Reply × σ × List Request :=
  ((send r p.1).1, (send r p.1).2, p.2 ++ [r])

theorem stateAfter_logged (log : List Request) (n : Nat) :
    stateAfter (logged send r) (s, log) n =
      (stateAfter (send r) s n, log ++ List.replicate n r) := by
  induction n with
  | zero => simp [stateAfter]
  | succ n ih =>
    rw [stateAfter_succ, ih, logged, stateAfter_succ, List.append_assoc, List.replicate_succ']

theorem replyAfter_logged (log : List Request) (n : Nat) :
    replyAfter (logged send r) (s, log) n = replyAfter (send r) s n := by
  rw [replyAfter, stateAfter_logged, logged, replyAfter]

theorem isLast_logged_iff {retries n : Nat} (log : List Request) :
    IsLast (logged send r) (s, log) retries n ↔ IsLast (send r) s retries n := by
  simp only [IsLast, replyAfter_logged]

/-- Whatever a request is sent to, an exchange stops at the first reply that settles it, or after
all repetitions; it hands back the reply where it stops.  The same request was sent every time, all
replies before were failures of the network or of the server, and nothing is sent after it. -/
theorem exchange_logged (retries : Nat) :
    ∃ n, IsLeast {m | settles (replyAfter (send r) s m) = true ∨ m = retries} n ∧ n ≤ retries ∧
      (∀ m < n, (∃ reason, replyAfter (send r) s m = .error (.network reason)) ∨
        ∃ status body, replyAfter (send r) s m = .error (.http status body) ∧ 500 ≤ status) ∧
      exchange (send r) retries s =
        (replyAfter (send r) s n, stateAfter (send r) s (n + 1)) ∧
      exchange (logged send r) retries (s, []) =
        (replyAfter (send r) s n, stateAfter (send r) s (n + 1), List.replicate (n + 1) r) := by
  obtain ⟨n, hn⟩ := exists_isLast (send r) s retries
  have hlog := exchange_eq ((isLast_logged_iff send r s []).mpr hn)
  rw [replyAfter_logged, stateAfter_logged, List.nil_append] at hlog
  exact ⟨n, hn, hn.le, fun m hm => settles_eq_false_iff.mp (hn.settles_eq_false hm),
    exchange_eq hn, hlog⟩

end

/-! ### Requests that reach a server -/

namespace Server

/-- The answers that a server has left; one that takes no connection has none. -/
def answers (s : Server) : List (Option (Nat × String)) :=
  if s.listening then s.script else []

/-- The reply to a connection by its answer; without an answer the connection is not taken. -/
def reply : Option (Option (Nat × String)) → Reply
  | none => .error (.network "connection refused")
  | some none => .error (.network "connection closed")
  | some (some (status, body)) => outcome status body

variable (t : Transport) (r : Request) (s : Server)

/-- A request takes the next answer, and arrives if there is one. -/
theorem send_eq :
    (send t r s).1 = reply s.answers.head? ∧ (send t r s).2.answers = s.answers.tail ∧
      (send t r s).2.arrivals =
        s.arrivals ++ List.replicate (min 1 s.answers.length) (arrival t r) := by
  obtain ⟨_ | _, _ | ⟨_ | answer, rest⟩, arrivals⟩ := s <;> simp [send, reply, answers]

theorem stateAfter_send (n : Nat) :
    (stateAfter (send t r) s n).answers = s.answers.drop n ∧
      (stateAfter (send t r) s n).arrivals =
        s.arrivals ++ List.replicate (min n s.answers.length) (arrival t r) := by
  induction n with
  | zero => simp [stateAfter]
  | succ n ih =>
    obtain ⟨hanswers, harrivals⟩ := ih
    obtain ⟨-, htail, harrived⟩ := send_eq t r (stateAfter (send t r) s n)
    have hcount : min n s.answers.length + min 1 (s.answers.length - n) =
        min (n + 1) s.answers.length := by
      omega
    rw [stateAfter_succ, htail, harrived, hanswers, harrivals, List.tail_drop, List.length_drop,
      List.append_assoc, List.replicate_append_replicate, hcount]
    exact ⟨rfl, rfl⟩

theorem replyAfter_send (n : Nat) : replyAfter (send t r) s n = reply s.answers[n]? := by
  rw [replyAfter, (send_eq t r _).1, (stateAfter_send t r s n).1, List.head?_drop]

end Server

/-- **The attempts of a request.** Whatever a request is sent to, an exchange stops at the first
reply that settles it, or after all repetitions; it hands back the reply where it stops.  The same
request was sent every time, all replies before were failures of the network or of the server, and
nothing is sent after it.  So a transport sends a request to a server until an answer of the server
settles the exchange, at most once more than it has repetitions; it hands back the reply by that
answer, and as many equal requests have arrived as answers were taken. -/
theorem Transport.execute_logged (t : Transport) (r : Request) :
    (∀ {σ : Type} (send : Request → σ → Reply × σ) (s : σ) (retries : Nat),
      ∃ n, IsLeast {m | settles (replyAfter (send r) s m) = true ∨ m = retries} n ∧ n ≤ retries ∧
        (∀ m < n, (∃ reason, replyAfter (send r) s m = .error (.network reason)) ∨
          ∃ status body, replyAfter (send r) s m = .error (.http status body) ∧ 500 ≤ status) ∧
        exchange (send r) retries s =
          (replyAfter (send r) s n, stateAfter (send r) s (n + 1)) ∧
        exchange (logged send r) retries (s, []) =
          (replyAfter (send r) s n, stateAfter (send r) s (n + 1), List.replicate (n + 1) r)) ∧
      ∀ s : Server,
        ∃ n, IsLeast {m | settles (Server.reply s.answers[m]?) = true ∨ m = t.retries} n ∧
          n ≤ t.retries ∧
          (∀ m < n, (∃ reason, Server.reply s.answers[m]? = .error (.network reason)) ∨
            ∃ status body, Server.reply s.answers[m]? = .error (.http status body) ∧
              500 ≤ status) ∧
          (t.execute r s).1 = Server.reply s.answers[n]? ∧
          (t.execute r s).2.answers = s.answers.drop (n + 1) ∧
          (t.execute r s).2.arrivals =
            s.arrivals ++ List.replicate (min (n + 1) s.answers.length) (Server.arrival t r) := by
  refine ⟨fun send s retries => exchange_logged send r s retries, fun s => ?_⟩
  obtain ⟨n, hn, hle, hbefore, hexecute, -⟩ := exchange_logged (Server.send t) r s t.retries
  obtain ⟨hanswers, harrivals⟩ := Server.stateAfter_send t r s (n + 1)
  simp only [Server.replyAfter_send] at hn hbefore hexecute
  rw [Transport.execute, hexecute]
  exact ⟨n, hn, hle, hbefore, rfl, hanswers, harrivals⟩

end GraphQLClient.Http
