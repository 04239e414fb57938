import Offload.Proofs.Link.Steady
import Offload.Proofs.Node.Query
import Offload.Proofs.Session.History

namespace Offload

namespace Node

/-- What becomes of the invocation of a question. -/
def answer {α : Type} (node : Node) (query : Query α) : Except Failure Json :=
  if query.overlong then .error .base64Overlong
  else node.link.answer query.params (node.timeout query.patience)

/-- The requests sent once a question has been asked, the latest first. -/
def requestsAfter {α : Type} (node : Node) (query : Query α) : List Request :=
  if query.overlong then node.link.env.requests
  else node.link.requestsAfter (utf8 query.method) query.params (node.timeout query.patience)

theorem answer_eq_ok_iff {α : Type} {node : Node} {query : Query α} {reply : Json} :
    node.answer query = .ok reply ↔
      query.overlong = false ∧ node.isConnected = true ∧
        (∃ body, query.params.dump .compact = .ok body) ∧
        node.link.env.takeScript.1.result (node.link.env.span (node.timeout query.patience))
          (node.timeout query.patience) = .ok reply := by
  unfold answer
  cases query.overlong with
  | true => simp
  | false =>
    rw [if_neg Bool.false_ne_true, Link.answer_eq_ok_iff]
    exact ⟨fun hreply => ⟨rfl, hreply⟩, fun hreply => hreply.2⟩

theorem requestsAfter_cases {α : Type} (node : Node) (query : Query α) :
    node.requestsAfter query = node.link.env.requests ∨
      ∃ body, query.params.dump .compact = .ok body ∧ node.requestsAfter query =
        ⟨node.link.host, utf8 "/rpc/" ++ utf8 query.method, body⟩ :: node.link.env.requests := by
  unfold requestsAfter
  split
  · exact .inl rfl
  · unfold Link.requestsAfter
    split
    · exact .inl rfl
    · next body hbody =>
      split
      · exact .inr ⟨body, hbody, rfl⟩
      · exact .inl rfl

theorem requestsAfter_of_answer {α : Type} {node : Node} {query : Query α} {reply : Json}
    (hanswer : node.answer query = .ok reply) :
    node.requestsAfter query ≠ node.link.env.requests := by
  obtain ⟨hbrief, hconnected, ⟨body, hbody⟩, hresult⟩ := answer_eq_ok_iff.mp hanswer
  obtain ⟨_, hreply, _⟩ := Script.result_eq_ok_iff.mp hresult
  have hjoined : node.link.isConnected = true := hconnected
  rw [requestsAfter, hbrief, if_neg Bool.false_ne_true, Link.requestsAfter, hbody]
  simp only [hjoined, Script.sends_of_reply hreply, Bool.and_self, if_true]
  exact List.cons_ne_self _ _

theorem invoke_of_steady {α : Type} {node : Node} (hsteady : node.link.Steady) (query : Query α) :
    (node.invoke query).1 = node.answer query ∧
      (node.invoke query).2.env.requests = node.requestsAfter query ∧
      (node.invoke query).2.Steady := by
  unfold invoke answer requestsAfter
  split
  · exact ⟨rfl, rfl, hsteady⟩
  · exact hsteady.invoke _ _ _

theorem ask_of_steady {α : Type} {node : Node} (hsteady : node.link.Steady) (query : Query α) :
    (node.ask query).1 =
        query.answered (node.answer query) ∧
      (node.ask query).2.link.env.requests =
        node.requestsAfter query ∧
      (node.ask query).2.link.Steady := by
  obtain ⟨houtcome, hrequests, hafter⟩ := invoke_of_steady hsteady query
  obtain ⟨hanswer, journal, hasked⟩ := node.ask_eq query
  rw [hanswer, hasked, ← houtcome, ← hrequests]
  exact ⟨rfl, rfl, hafter.env _⟩

end Node

namespace Session

def Steady (session : Session) : Prop := session.node.link.Steady

def requests (session : Session) : List Request := session.node.link.env.requests

variable {session : Session}

theorem ask_of_steady {α : Type} (hsteady : session.Steady) (query : Query α) :
    (session.ask query).1 = query.answered
        (session.node.answer query) ∧
      (session.ask query).2.requests =
        session.node.requestsAfter query ∧
      (session.ask query).2.Steady :=
  Node.ask_of_steady hsteady query

/-- The session has used its link, and has neither connected nor disconnected it. -/
def Uses (session after : Session) : Prop := session.node.link.Used after.node.link

theorem Uses.trans {middle after : Session} (hfirst : session.Uses middle)
    (hsecond : middle.Uses after) : session.Uses after :=
  Relation.ReflTransGen.trans hfirst hsecond

theorem uses_log (session : Session) (entry : Entry) : session.Uses (session.log entry) :=
  .single (.noted _ _)

theorem uses_logAll (session : Session) (entries : List Entry) :
    session.Uses (session.logAll entries) :=
  .single (.noted _ _)

theorem uses_sleep (session : Session) (milliseconds : Nat) :
    session.Uses (session.sleep milliseconds) :=
  .single (.driven _ _ _)

theorem uses_ask {α : Type} (session : Session) (query : Query α) :
    session.Uses (session.ask query).2 := by
  obtain ⟨_, journal, hasked⟩ := session.node.ask_eq query
  have hlink := congrArg Node.link hasked
  rw [Uses, show (session.ask query).2.node.link = _ from hlink]
  obtain ⟨params, hinvoked⟩ := session.node.invoke_link query
  rw [hinvoked]
  exact .tail (.single (.invoked _ _ _ _)) (.noted _ journal)

theorem uses_expire (session : Session) (id : Bytes) (record : JobRecord) :
    session.Uses (session.expire id record).2 :=
  (session.put id _).uses_logAll _

theorem uses_runLocally (session : Session) (id : Bytes) (record : JobRecord) :
    session.Uses (session.runLocally id record) :=
  (session.uses_sleep record.work.elapsed).trans (((session.labour record.work).put id _).uses_logAll _)

theorem uses_assign (session : Session) (id : Bytes) (record : JobRecord) (answer : Bool × Bytes) :
    session.Uses (session.assign id record answer) := by
  unfold assign
  split
  · split
    · exact (session.put id _).uses_log _
    · exact (session.uses_log _).trans (((session.log _).put id _).uses_log _)
  · exact (session.uses_log _).trans ((session.log _).uses_runLocally id record)

theorem uses_announce (session : Session) (definition : Definition) (input : Bytes)
    (manifest : Manifest) : session.Uses (session.announce definition input manifest) :=
  (session.uses_logAll _).trans ((session.logAll _).uses_log _)

theorem uses_submit (session : Session) (definition : Definition) (input : Bytes)
    (options : Options) : session.Uses (session.submit definition input options).2 := by
  cases hmanifest : definition.validate.value.toManifest input options with
  | error failure =>
    rw [submit_of_refused hmanifest]
    exact session.uses_logAll _
  | ok manifest =>
    have hannounced := session.uses_announce definition input manifest
    have hasked := hannounced.trans (uses_ask _ (Query.submitJob manifest))
    simp only [submit_of_accepted hmanifest]
    exact hasked.trans (uses_assign _ manifest.id _ _)

theorem uses_poll (session : Session) (id : Bytes) (timeout : Int) (remaining : Nat)
    (record : JobRecord) : session.Uses (poll id timeout remaining record session).2 := by
  have hended : ∀ (record : JobRecord) (session : Session),
      session.Uses (session.expire id record).2 := fun record session => session.uses_expire id record
  refine poll_induction (motive := fun _ session told => session.Uses told.2)
    ?_ hended hended ?_ remaining record session
  · intro record session _ _
    exact hended record session
  · intro record session milliseconds told htold
    exact ((hended record session).trans (uses_sleep _ milliseconds)).trans htold

theorem uses_result (session : Session) (id : Bytes) (timeout : Int) :
    session.Uses (session.result id timeout).2 := by
  unfold result
  split
  · exact .refl
  · next found _ =>
    have hexpired := session.uses_expire id found
    simp only
    split
    · have hasked := hexpired.trans
        (uses_ask _ (Query.jobResult id (UInt32.ofInt (max timeout 0))))
      split
      · exact hasked
      · exact (hasked.trans (uses_log _ _)).trans (uses_poll _ _ _ _ _)
    · exact hexpired.trans (uses_poll _ _ _ _ _)

theorem uses_status (session : Session) (id : Bytes) : session.Uses (session.status id).2 := by
  unfold status
  split
  · have hasked := session.uses_ask (Query.jobStatus id)
    simp only
    split <;> exact hasked
  · next found _ =>
    have hexpired := session.uses_expire id found
    simp only
    split
    · have hasked := hexpired.trans (uses_ask _ (Query.jobStatus id))
      split <;> exact hasked
    · exact hexpired

theorem uses_cancel (session : Session) (id : Bytes) : session.Uses (session.cancel id).2 := by
  unfold cancel
  split
  · exact session.uses_log _
  · have hasked := session.uses_ask (Query.cancelJob id)
    simp only
    split
    · exact hasked.trans (uses_log _ _)
    · exact session.uses_log _

theorem Uses.steady {after : Session} (hused : session.Uses after) (hsteady : session.Steady) :
    after.Steady :=
  Link.Used.steady hused hsteady

theorem Steady.ask {α : Type} (hsteady : session.Steady) (query : Query α) :
    (session.ask query).2.Steady :=
  (session.uses_ask query).steady hsteady

theorem Steady.announce (hsteady : session.Steady) (definition : Definition) (input : Bytes)
    (manifest : Manifest) : (session.announce definition input manifest).Steady :=
  (session.uses_announce definition input manifest).steady hsteady

theorem Steady.sleep_requests (hsteady : session.Steady) (milliseconds : Nat) :
    (session.sleep milliseconds).requests = session.requests := by
  obtain ⟨_, clock, henv⟩ := Link.Steady.sleep hsteady milliseconds
  have hrequests := congrArg Environment.requests henv
  exact hrequests

theorem Steady.assign (hsteady : session.Steady) (id : Bytes) (record : JobRecord)
    (answer : Bool × Bytes) :
    (session.assign id record answer).Steady ∧
      (session.assign id record answer).requests = session.requests := by
  refine ⟨(session.uses_assign id record answer).steady hsteady, ?_⟩
  unfold Session.assign
  split
  · split <;> rfl
  · exact Steady.sleep_requests ((session.uses_log _).steady hsteady) record.work.elapsed

/-- Every step of a run leaves the link steady. -/
theorem Steady.perform (hsteady : session.Steady) (command : Command) :
    (session.perform command).Steady := by
  cases command with
  | connect => exact Link.Steady.connect hsteady _ _
  | disconnect => exact Link.Steady.disconnect hsteady
  | submit definition input options =>
    exact (session.uses_submit definition input options).steady hsteady
  | status id => exact (session.uses_status id).steady hsteady
  | result id timeout => exact (session.uses_result id timeout).steady hsteady
  | cancel id => exact (session.uses_cancel id).steady hsteady
  | cleanup id => exact hsteady
  | capacity host => exact hsteady.ask Query.computeCapacity
  | connectTo host port => exact Link.Steady.connect hsteady host port
  | call method params timeout =>
    obtain ⟨_, _, hafter⟩ := Link.Steady.invoke hsteady method params timeout
    exact hafter
  | pass milliseconds => exact (session.uses_sleep milliseconds).steady hsteady
  | lay scripts resolutions starts => exact Link.Steady.env hsteady _

theorem Reachable.steady (hreach : session.Reachable) : session.Steady := by
  induction hreach with
  | opened config env defaults => exact .apart _ rfl rfl rfl
  | step _ command ih => exact ih.perform command

end Session

end Offload
