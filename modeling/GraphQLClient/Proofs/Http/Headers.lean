import GraphQLClient.Http.Transport
import GraphQLClient.Proofs.Entries
import GraphQLClient.Proofs.Writes

/-!
# The order of configured headers

Capitals make a difference to the names in a table of a configuration, and none to the names of
headers.  So two entries of the table may be meant for one header, and then the header has the value
of the entry that is written last.  The headers of every request depend on the order of the table
exactly if two such entries have different values.

## Main definitions

* `Http.Headers.write` : writing a header.
* `Endpoint.HasValidHeaders` : headers that can be sent.

## Main results

* `Http.Transport.ofEndpoint_eq_ok` : the transport to an address whose headers can be sent.
* `Http.Transport.ofEndpoint_headers_perm_iff` : when the order of the table makes no difference.
-/

namespace GraphQLClient

/-- The headers of an address can be sent. -/
def Endpoint.HasValidHeaders (e : Endpoint) : Prop :=
  ∀ p ∈ e.headers, Http.isHeaderName p.1 = true ∧ Http.isHeaderValue p.2 = true

namespace Http

namespace Headers

/-- Writes a header over one of the same name. -/
def write (h : Headers) (p : String × String) : Headers :=
  h.put p.1.toLower p.2

theorem toLower_eq (name : String) :
    name.toLower = String.ofList (name.toList.map Char.toLower) := by
  rw [← String.toList_inj, String.toList_ofList]
  exact String.toList_map

theorem toLower_eq_iff {name other : String} :
    name.toLower = other.toLower ↔
      name.toList.map Char.toLower = other.toList.map Char.toLower := by
  rw [toLower_eq, toLower_eq, String.ofList_inj]

theorem overwrites_write :
    Overwrites (Entries.get? (α := String)) write (fun p => p.1.toLower) (fun p => some p.2) :=
  fun h p name => Entries.get?_put h p.1.toLower p.2 name

theorem nodup_keys_foldl_write {h : Headers} (hnodup : h.keys.Nodup) (configured : Entries String) :
    (Entries.keys (configured.foldl write h)).Nodup := by
  induction configured generalizing h with
  | nil => exact hnodup
  | cons p rest ih => exact ih (Entries.nodup_keys_put hnodup p.1.toLower p.2)

/-- Headers that can be sent are written one after the other. -/
theorem addAll?_eq_ok {configured : Entries String}
    (hvalid : ∀ p ∈ configured, isHeaderName p.1 = true ∧ isHeaderValue p.2 = true) (h : Headers) :
    addAll? h configured = .ok (configured.foldl write h) := by
  induction configured generalizing h with
  | nil => rfl
  | cons p rest ih =>
    obtain ⟨name, value⟩ := p
    obtain ⟨⟨hname, hvalue⟩, hrest⟩ := List.forall_mem_cons.mp hvalid
    have hadd : h.add? name value = .ok (h.write (name, value)) := by
      rw [add?, if_pos hname, if_pos hvalue, write]
    rw [addAll?, hadd]
    exact ih hrest _

end Headers

namespace Transport

/-- The headers of every request to an address whose headers can be sent. -/
theorem ofEndpoint_eq_ok {e : Endpoint} (hvalid : e.HasValidHeaders) :
    ofEndpoint e = .ok ⟨e.url, e.headers.foldl Headers.write [Headers.jsonContent],
      e.retriesOrDefault.toNat⟩ := by
  rw [ofEndpoint, Headers.ofConfigured, Headers.addAll?_eq_ok hvalid]

/-- **The order of configured headers.** The headers that are sent with every request to an address
are the same for every order of the configured headers exactly if the entries for one header, in
whatever spelling, have one value. -/
theorem ofEndpoint_headers_perm_iff {e : Endpoint} (hvalid : e.HasValidHeaders) :
    (∀ order, e.headers.Perm order → ∃ t t', ofEndpoint e = .ok t ∧
        ofEndpoint { e with headers := order } = .ok t' ∧ t.headers.Perm t'.headers) ↔
      ∀ p ∈ e.headers, ∀ q ∈ e.headers, p.1.toLower = q.1.toLower → p.2 = q.2 := by
  have hnodup (order : Entries String) :
      (Entries.keys (order.foldl Headers.write [Headers.jsonContent])).Nodup :=
    Headers.nodup_keys_foldl_write (h := [Headers.jsonContent]) (List.pairwise_singleton _ _) order
  calc
    _ ↔ ∀ order, e.headers.Perm order → ∀ name,
          Entries.get? (e.headers.foldl Headers.write [Headers.jsonContent]) name =
            Entries.get? (order.foldl Headers.write [Headers.jsonContent]) name := by
      refine forall₂_congr fun order horder => ?_
      have hvalid' : ({ e with headers := order } : Endpoint).HasValidHeaders := fun p hp =>
        hvalid p (horder.mem_iff.mpr hp)
      constructor
      · rintro ⟨t, t', ht, ht', hperm⟩ name
        obtain rfl := Except.ok.inj ((ofEndpoint_eq_ok hvalid).symm.trans ht)
        obtain rfl := Except.ok.inj ((ofEndpoint_eq_ok hvalid').symm.trans ht')
        exact Entries.get?_perm (hnodup _) hperm name
      · intro hget
        exact ⟨_, _, ofEndpoint_eq_ok hvalid, ofEndpoint_eq_ok hvalid',
          Entries.perm_of_get?_eq (hnodup _) (hnodup _) hget⟩
    _ ↔ _ := by
      simp only [Headers.overwrites_write.forall_perm_iff, Option.some_inj]

/-! ### One header in two spellings -/

/-- An address with a token, and with a content type and a trace in other spellings. -/
def tracedEndpoint : Endpoint :=
  { Endpoint.ofUrl "http://localhost/graphql" with
    headers := [("Authorization", "Bearer a"), ("Content-Type", "text/plain"), ("x-trace", "7"),
      ("X-Trace", "7")] }

/-- A header in two spellings has one value, so that the order makes no difference. -/
theorem ofEndpoint_tracedEndpoint :
    tracedEndpoint.HasValidHeaders ∧ tracedEndpoint.headers.keys.Nodup ∧
      ∀ order, tracedEndpoint.headers.Perm order → ∃ t t', ofEndpoint tracedEndpoint = .ok t ∧
        ofEndpoint { tracedEndpoint with headers := order } = .ok t' ∧
          t.headers.Perm t'.headers := by
  have hvalid : tracedEndpoint.HasValidHeaders := by
    unfold Endpoint.HasValidHeaders
    decide +kernel
  have hvalues : ∀ p ∈ tracedEndpoint.headers, ∀ q ∈ tracedEndpoint.headers,
      p.1.toList.map Char.toLower = q.1.toList.map Char.toLower → p.2 = q.2 := by
    decide +kernel
  exact ⟨hvalid, by decide, (ofEndpoint_headers_perm_iff hvalid).mpr fun p hp q hq hname =>
    hvalues p hp q hq (Headers.toLower_eq_iff.mp hname)⟩

/-- An address with two tokens, in two spellings of one header. -/
def twoTokens : Endpoint :=
  { Endpoint.ofUrl "http://localhost/graphql" with
    headers := [("Authorization", "Bearer a"), ("authorization", "Bearer b")] }

/-- The names of the two entries differ and both headers can be sent, but the order of the entries
decides which token is. -/
theorem ofEndpoint_twoTokens :
    twoTokens.HasValidHeaders ∧ twoTokens.headers.keys.Nodup ∧
      ∃ order t t', twoTokens.headers.Perm order ∧ ofEndpoint twoTokens = .ok t ∧
        ofEndpoint { twoTokens with headers := order } = .ok t' ∧
        t.headers.get? "authorization" = some "Bearer b" ∧
        t'.headers.get? "authorization" = some "Bearer a" ∧ ¬t.headers.Perm t'.headers := by
  have hvalid : twoTokens.HasValidHeaders := by
    unfold Endpoint.HasValidHeaders
    decide +kernel
  have hvalid' : Endpoint.HasValidHeaders { twoTokens with headers := twoTokens.headers.reverse } :=
    fun p hp => hvalid p (List.mem_reverse.mp hp)
  have hcapital : "Authorization".toLower = "authorization" := Headers.toLower_eq _
  have hsmall : "authorization".toLower = "authorization" := Headers.toLower_eq _
  have hwritten : twoTokens.headers.foldl Headers.write [Headers.jsonContent] =
      [Headers.jsonContent, ("authorization", "Bearer b")] := by
    simp only [twoTokens, List.foldl_cons, List.foldl_nil, Headers.write, hcapital, hsmall]
    decide
  have hreversed : twoTokens.headers.reverse.foldl Headers.write [Headers.jsonContent] =
      [Headers.jsonContent, ("authorization", "Bearer a")] := by
    simp only [twoTokens, List.reverse_cons, List.reverse_nil, List.nil_append, List.cons_append,
      List.foldl_cons, List.foldl_nil, Headers.write, hcapital, hsmall]
    decide
  refine ⟨hvalid, by decide, _, _, _, (List.reverse_perm _).symm, ofEndpoint_eq_ok hvalid,
    ofEndpoint_eq_ok hvalid', ?_⟩
  rw [hwritten, hreversed]
  exact ⟨rfl, rfl, by decide⟩

end Transport

end Http

end GraphQLClient
