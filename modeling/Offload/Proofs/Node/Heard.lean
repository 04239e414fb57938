import Offload.Proofs.Node.Contained

namespace Offload.Node

variable {α : Type} {node : Node} {allowed : Link.Command → Prop} {query : Query α} {reply : Json}

/-- What arrives for the exchange of a question within the time for it. -/
def arrival? (node : Node) (query : Query α) (body : Bytes) : Option Delivery :=
  node.link.arrival? (utf8 "/rpc/" ++ utf8 query.method) body (node.timeout query.patience)

/-- The node is connected, the question can be written, and in time for it a reply with the status 200
arrives, whose body is the value. -/
structure Hears (node : Node) (query : Query α) (reply : Json) : Prop where
  connected : node.isConnected = true
  brief : query.overlong = false
  arrives : ∃ body text, query.params.dump .compact = .ok body ∧
    node.arrival? query body = some (.reply 200 text) ∧ Json.parse text = .ok reply

/-- Just what is heard is told by the invocation. -/
theorem Reached.invoke_eq_ok_iff (hreached : node.Reached allowed) :
    (node.invoke query).1 = .ok reply ↔ node.Hears query reply := by
  obtain ⟨account, hfits⟩ := hreached.fits
  by_cases hable : node.isConnected = true ∧ query.params.WellEncoded ∧ query.overlong = false
  · obtain ⟨hconnected, hencoded, hbrief⟩ := hable
    obtain ⟨body, hbody⟩ := Json.exists_dump_iff.mpr hencoded
    obtain ⟨loop, hlive⟩ := Link.live_of_connected hconnected
    have hanswer := hreached.numbered.invoke_of_arrival hlive (utf8 query.method) hbody
      (node.timeout query.patience)
    change _ = ((node.arrival? query body).map Delivery.decode).getD _ at hanswer
    rw [invoke_of_brief hbrief, hanswer]
    constructor
    · intro hvalue
      cases harrival : node.arrival? query body with
      | none => simp [harrival] at hvalue
      | some delivery =>
        rw [harrival, Option.map_some, Option.getD_some, Delivery.decode_eq_ok_iff] at hvalue
        obtain ⟨text, rfl, hparse⟩ := hvalue
        exact ⟨hconnected, hbrief, body, text, hbody, harrival, hparse⟩
    · rintro ⟨-, -, body', text, hbody', harrival, hparse⟩
      cases hbody.symm.trans hbody'
      rw [harrival]
      exact Delivery.decode_of_value hparse
  · have hunable : node.isConnected = false ∨ ¬ query.params.WellEncoded ∨ query.overlong = true := by
      simpa [Classical.or_iff_not_imp_left] using hable
    obtain ⟨failure, hfailed⟩ := invoke_of_unable hfits hunable
    rw [hfailed]
    refine ⟨nofun, fun hheard => (hable ⟨hheard.connected, ?_, hheard.brief⟩).elim⟩
    obtain ⟨body, _, hbody, _⟩ := hheard.arrives
    exact Json.exists_dump_iff.mp ⟨body, hbody⟩

theorem Hears.unique (hheard : node.Hears query reply) {other : Json} (hother : node.Hears query other) :
    reply = other := by
  obtain ⟨body, text, hbody, harrival, hparse⟩ := hheard.arrives
  obtain ⟨body', text', hbody', harrival', hparse'⟩ := hother.arrives
  cases hbody.symm.trans hbody'
  cases harrival.symm.trans harrival'
  exact Except.ok.inj (hparse.symm.trans hparse')

theorem Reached.ask_of_heard (hreached : node.Reached allowed) (hheard : node.Hears query reply) :
    (node.ask query).1 = query.answered (.ok reply) := by
  rw [(node.ask_eq query).1, hreached.invoke_eq_ok_iff.mpr hheard]

theorem Reached.ask_cases (hreached : node.Reached allowed) (query : Query α) :
    (∃ reply, node.Hears query reply ∧ (node.ask query).1 = query.answered (.ok reply)) ∨
      (∀ reply, ¬ node.Hears query reply) ∧ ∃ failure, (node.ask query).1 = query.failed failure := by
  cases hinvoke : (node.invoke query).1 with
  | ok reply =>
    have hheard := hreached.invoke_eq_ok_iff.mp hinvoke
    exact .inl ⟨reply, hheard, hreached.ask_of_heard hheard⟩
  | error failure =>
    refine .inr ⟨fun reply hheard => ?_, failure, ?_⟩
    · cases hinvoke.symm.trans (hreached.invoke_eq_ok_iff.mpr hheard)
    · rw [(node.ask_eq query).1, hinvoke]
      rfl

/-- Where nothing is left to do on the loop the exchange begins at once, and what is heard is what the peer
makes of the next exchange. -/
theorem Reached.hears_iff_of_receptive (hreached : node.Reached allowed) {loop : Loop}
    (hlive : node.link.live = some loop) (hreceptive : loop.Receptive) :
    node.Hears query reply ↔
      node.isConnected = true ∧ query.overlong = false ∧ ∃ body text,
        query.params.dump .compact = .ok body ∧
        node.link.env.takeScript.1.inTime? (node.link.env.span (node.timeout query.patience)) =
          some (.reply 200 text) ∧
        Json.parse text = .ok reply := by
  have hnext : ∀ body, node.arrival? query body =
      node.link.env.takeScript.1.inTime? (node.link.env.span (node.timeout query.patience)) := fun body =>
    (hreached.numbered.call_of_receptive hlive hreceptive _ body _).1
  constructor
  · rintro ⟨hconnected, hbrief, body, text, hbody, harrival, hparse⟩
    exact ⟨hconnected, hbrief, body, text, hbody, (hnext body).symm.trans harrival, hparse⟩
  · rintro ⟨hconnected, hbrief, body, text, hbody, harrival, hparse⟩
    exact ⟨hconnected, hbrief, body, text, hbody, (hnext body).trans harrival, hparse⟩

/-- A node whose answer to the next question is the given text. -/
def answering (text : Bytes) : Node :=
  let opened := ofConfig {} Link.polite.env
  let joined := { opened with link := opened.link.perform (.connect (utf8 "peer") 7000) }
  { joined with link := joined.link.perform (.lay [{ conduct := .answer 200 text }] []) }

theorem answering_reached (text : Bytes) : (answering text).Reached Link.Command.IsPlain :=
  .perform (.perform (.opened {} Link.polite.env) (.connect (utf8 "peer") 7000) trivial)
    (.lay [{ conduct := .answer 200 text }] []) trivial

end Offload.Node
