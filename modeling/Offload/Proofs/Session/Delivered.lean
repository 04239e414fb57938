import Offload.Proofs.Node.Handover
import Offload.Proofs.Session.Soundness
import Offload.Proofs.Session.Submit

namespace Offload

namespace JobRecord

/-- The result is there, and so is the name of who delivered it. -/
structure Delivered (record : JobRecord) : Prop where
  completed : record.status = .completed
  worker : record.worker ≠ []

theorem Delivered.isTerminal {record : JobRecord} (hdelivered : record.Delivered) :
    record.status.isTerminal = true := by
  rw [hdelivered.completed]
  rfl

theorem Delivered.status_ne {record : JobRecord} (hdelivered : record.Delivered) :
    record.status ≠ .timeout := by
  rw [hdelivered.completed]
  decide

theorem Delivered.isSettled {record : JobRecord} (hdelivered : record.Delivered) :
    record.isSettled = true := by
  simp [JobRecord.isSettled, hdelivered.worker]

/-- The record once the node has handed the result over and named a worker, or none. -/
def received (record : JobRecord) (data name : Bytes) : JobRecord :=
  { record with
    result := data
    worker := if name = [] then remoteWorker else name
    status := .completed }

theorem received_delivered (record : JobRecord) (data name : Bytes) :
    (record.received data name).Delivered := by
  refine ⟨rfl, ?_⟩
  simp only [received]
  split
  · decide
  · assumption

theorem expire_cases (record : JobRecord) (clock : Nat) :
    record.expire clock = ⟨record, []⟩ ∨ (record.expire clock).value.status = .timeout := by
  unfold expire
  split
  · exact .inr rfl
  · exact .inl rfl

theorem Submitted.not_delivered {definition : Definition} {input : Bytes} {record : JobRecord}
    (hsubmitted : Submitted definition input record) (hremote : record.remote = true) :
    ¬ record.Delivered := by
  rintro ⟨hcompleted, _⟩
  cases hsubmitted with
  | assigned => cases hcompleted
  | concluded manifest options started hmanifest outcome =>
    cases outcome <;> cases hremote

end JobRecord

namespace Session

open JobRecord

/-- The step cancels or forgets the job, or submits it anew under options that are taken. -/
def Command.Disturbs (id : Bytes) : Command → Prop
  | submit definition input options => Identity.make definition.name input = id ∧ options.Valid
  | cancel other | cleanup other => other = id
  | _ => False

variable {session : Session} {id : Bytes} {found record : JobRecord}

theorem status_of_delivered (hrecord : session.record? id = some record)
    (hdelivered : record.Delivered) : session.status id = (.ok (record.report id), session) :=
  status_of_settled hrecord hdelivered.isTerminal (.inr hdelivered.isSettled)

theorem submit_record?_of_undisturbed {definition : Definition} {input : Bytes} {options : Options}
    (hkept : ¬ (Command.submit definition input options).Disturbs id) :
    (session.submit definition input options).2.record? id = session.record? id := by
  by_cases hid : Identity.make definition.name input = id
  · cases hmanifest : definition.validate.value.toManifest input options with
    | error failure =>
      rw [submit_of_refused hmanifest]
      rfl
    | ok manifest =>
      have hvalid := ((Definition.toManifest_eq_ok_iff _).mp hmanifest).1
      exact (hkept ⟨hid, hvalid⟩).elim
  · exact submit_record?_of_ne session options hid

theorem perform_delivered {command : Command} (hrecord : session.record? id = some record)
    (hdelivered : record.Delivered) (hkept : ¬ command.Disturbs id) :
    (session.perform command).record? id = some record := by
  cases command with
  | connect | disconnect | capacity | connectTo | call | pass | lay => exact hrecord
  | submit definition input options => exact (submit_record?_of_undisturbed hkept).trans hrecord
  | status other =>
    by_cases hother : other = id
    · subst hother
      rw [perform, status_of_delivered hrecord hdelivered]
      exact hrecord
    · exact (status_record?_of_ne session hother).trans hrecord
  | result other timeout =>
    by_cases hother : other = id
    · subst hother
      rw [perform, result_of_delivered hrecord hdelivered.completed hdelivered.worker]
      exact hrecord
    · exact (result_record?_of_ne session hother timeout).trans hrecord
  | cancel other => exact (cancel_record?_of_ne session hkept).trans hrecord
  | cleanup other => exact (cleanup_record?_of_ne session hkept).trans hrecord

theorem run_delivered {commands : List Command} (hrecord : session.record? id = some record)
    (hdelivered : record.Delivered) (hkept : ∀ command ∈ commands, ¬ command.Disturbs id) :
    (session.run commands).record? id = some record := by
  induction commands generalizing session with
  | nil => exact hrecord
  | cons command rest ih =>
    have hnext := perform_delivered hrecord hdelivered (hkept command List.mem_cons_self)
    exact ih hnext fun command hmem => hkept command (List.mem_cons_of_mem _ hmem)

theorem expire_fst_cases (session : Session) (id : Bytes) (found : JobRecord) :
    (session.expire id found).1 = found ∨ (session.expire id found).1.status = .timeout :=
  (found.expire_cases session.clock).imp (congrArg Logged.value) fun htimeout => htimeout

theorem expire_of_status_ne (hfound : session.record? id = some found)
    (hstatus : (session.expire id found).1.status ≠ .timeout) :
    session.expire id found = (found, session) := by
  rcases found.expire_cases session.clock with hsame | htimeout
  · simp only [expire, hsame, put_of_record? session hfound, logAll_nil]
  · exact (hstatus htimeout).elim

/-- Waiting delivers nothing: the record at its end was there at its beginning, or has expired, and a
result is what the record holds. -/
theorem poll_record? (id : Bytes) (timeout : Int) (remaining : Nat) (found : JobRecord)
    (session : Session) :
    ∃ record, (poll id timeout remaining found session).2.record? id = some record ∧
      (record = found ∨ record.status = .timeout) ∧
      ∀ result, (poll id timeout remaining found session).1 = .ok result →
        record.Delivered ∧ result = ⟨record.result, record.worker⟩ := by
  have hended : ∀ (found : JobRecord) (session : Session) (failure : Failure),
      ∃ record, (session.expire id found).2.record? id = some record ∧
        (record = found ∨ record.status = .timeout) ∧
        ∀ result, (.error failure : Except Failure JobResult) = .ok result →
          record.Delivered ∧ result = ⟨record.result, record.worker⟩ :=
    fun found session _ => ⟨_, expire_record? session id found, expire_fst_cases session id found, nofun⟩
  refine poll_induction (motive := fun found _ told => ∃ record, told.2.record? id = some record ∧
    (record = found ∨ record.status = .timeout) ∧ ∀ result, told.1 = .ok result →
      record.Delivered ∧ result = ⟨record.result, record.worker⟩) ?_
    (fun found session => hended found session _) (fun found session => hended found session _) ?_
    remaining found session
  · intro found session hcompleted hworker
    refine ⟨_, expire_record? session id found, expire_fst_cases session id found, ?_⟩
    intro result hresult
    exact ⟨⟨hcompleted, hworker⟩, (Except.ok.inj hresult).symm⟩
  · rintro found session _ told ⟨record, hget, hsame, hresult⟩
    refine ⟨record, hget, ?_, hresult⟩
    rcases hsame with rfl | htimeout
    · exact expire_fst_cases session id found
    · exact .inr htimeout

/-- The node, asked for the result of a job that is not settled, hands it over. -/
structure Receives (session : Session) (id : Bytes) (timeout : Int) (data worker : Bytes) : Prop where
  awaited : ∃ record, session.record? id = some record ∧ record.remote = true ∧
    record.isSettled = false
  replied : ∃ body reply,
    session.treatment.inTime? (session.node.link.env.span
        (session.node.timeout (.result (UInt32.ofInt (max timeout 0))))) = some (.reply 200 body) ∧
      Json.parse body = .ok reply ∧ reply.Hands data worker
  sent : ∃ body,
    (Query.jobResult id (UInt32.ofInt (max timeout 0))).params.dump .compact = .ok body ∧
      (session.result id timeout).2.requests =
        ⟨session.node.link.host, utf8 "/rpc/getComputeJobResult", body⟩ :: session.requests

/-- The question for the result of a job, for which to wait the given milliseconds. -/
private abbrev asking (id : Bytes) (timeout : Int) : Query Query.ResultReply :=
  Query.jobResult id (UInt32.ofInt (max timeout 0))

private theorem result_of_open (hfound : session.record? id = some found)
    (hremote : found.remote = true) (hopen : found.isSettled = false)
    (hsame : session.expire id found = (found, session)) (timeout : Int) :
    (∃ data, (session.ask (asking id timeout)).1.data = some data ∧
      session.result id timeout =
        (.ok ⟨data, (found.received data (session.ask (asking id timeout)).1.worker).worker⟩,
          (session.ask (asking id timeout)).2.put id
            (found.received data (session.ask (asking id timeout)).1.worker))) ∨
      ∃ remaining warned, session.result id timeout = poll id timeout remaining found warned := by
  unfold result
  rw [hfound]
  simp only [hsame]
  rw [if_pos ⟨hremote, hopen⟩]
  cases hdata : (session.ask (asking id timeout)).1.data with
  | some data => exact .inl ⟨data, rfl, rfl⟩
  | none => exact .inr ⟨_, _, rfl⟩

private theorem receives_of_data (hsteady : session.Steady) (hfound : session.record? id = some found)
    (hremote : found.remote = true) (hopen : found.isSettled = false) {timeout : Int} {data : Bytes}
    (hdata : (session.ask (asking id timeout)).1.data = some data)
    (hsent : (session.result id timeout).2.requests =
      (session.ask (asking id timeout)).2.requests) :
    session.Receives id timeout data
      (found.received data (session.ask (asking id timeout)).1.worker).worker := by
  obtain ⟨hanswer, hrequests, _⟩ := ask_of_steady hsteady (asking id timeout)
  obtain ⟨reply, houtcome, hhands⟩ := Query.jobResult_answered hanswer.symm hdata
  obtain ⟨_, _, _, hresult⟩ := Node.answer_eq_ok_iff.mp houtcome
  obtain ⟨body, hreply, hparse⟩ := Script.result_eq_ok_iff.mp hresult
  have htarget : utf8 "/rpc/" ++ utf8 (asking id timeout).method =
      utf8 "/rpc/getComputeJobResult" := (utf8_append _ _).symm
  refine ⟨⟨found, hfound, hremote, hopen⟩, ⟨body, reply, hreply, hparse, hhands⟩, ?_⟩
  rcases session.node.requestsAfter_cases (asking id timeout) with hnone | ⟨written, hwritten, hasked⟩
  · exact (Node.requestsAfter_of_answer houtcome hnone).elim
  · rw [htarget] at hasked
    exact ⟨written, hwritten, hsent.trans (hrequests.trans hasked)⟩

/-- To ask for a result is to wait for it, or to have it handed over by the node. -/
private theorem result_cases (hsteady : session.Steady) (hfound : session.record? id = some found)
    (timeout : Int) :
    (∃ remaining waiting, session.result id timeout =
        poll id timeout remaining (session.expire id found).1 waiting) ∨
      ∃ data name after, session.result id timeout =
          (.ok ⟨data, (found.received data name).worker⟩, after) ∧
        after.record? id = some (found.received data name) ∧
        session.Receives id timeout data (found.received data name).worker := by
  by_cases hask : (session.expire id found).1.remote = true ∧
      (session.expire id found).1.isSettled = false
  · have hstatus : (session.expire id found).1.status ≠ .timeout := by
      intro htimeout
      have hsettled := @isSettled_of_ended (session.expire id found).1 (by rw [htimeout]; rfl)
      rw [hask.2] at hsettled
      cases hsettled
    have hsame := expire_of_status_ne hfound hstatus
    rw [hsame] at hask ⊢
    rcases result_of_open hfound hask.1 hask.2 hsame timeout with ⟨data, hdata, hresult⟩ | hpoll
    · refine .inr ⟨data, _, _, hresult, SortedMap.get?_insert_self _ _ _, ?_⟩
      exact receives_of_data hsteady hfound hask.1 hask.2 hdata (by rw [hresult]; rfl)
    · exact .inl hpoll
  · refine .inl ⟨(session.node.link.env.instant timeout - (session.expire id found).2.clock).toNat,
      (session.expire id found).2, ?_⟩
    unfold result
    rw [hfound]
    simp only
    rw [if_neg hask]

/-- A result that is there after it was asked for was there before, or the node has handed it over. -/
theorem result_record? (hsteady : session.Steady) (hfound : session.record? id = some found)
    (timeout : Int) :
    ∃ record, (session.result id timeout).2.record? id = some record ∧
      (∀ result, (session.result id timeout).1 = .ok result →
        record.Delivered ∧ result = ⟨record.result, record.worker⟩) ∧
      (record.Delivered →
        record = found ∨ session.Receives id timeout record.result record.worker) := by
  rcases result_cases hsteady hfound timeout with
    ⟨remaining, waiting, hpoll⟩ | ⟨data, name, after, hresult, hkept, hreceives⟩
  · obtain ⟨record, hrecord, hsame, hresult⟩ :=
      poll_record? id timeout remaining (session.expire id found).1 waiting
    rw [hpoll]
    refine ⟨record, hrecord, hresult, fun hdelivered => .inl ?_⟩
    rcases hsame with rfl | htimeout
    · exact (expire_fst_cases session id found).resolve_right hdelivered.status_ne
    · exact (hdelivered.status_ne htimeout).elim
  · refine ⟨found.received data name, ?_, ?_, fun _ => .inr hreceives⟩
    · rw [hresult]
      exact hkept
    · intro result hok
      rw [hresult] at hok
      exact ⟨received_delivered _ _ _, (Except.ok.inj hok).symm⟩

theorem status_record? (hfound : session.record? id = some found) :
    ∃ record, (session.status id).2.record? id = some record ∧
      (record.Delivered → record = found) := by
  have hkept := expire_record? session id found
  have hexpired : (session.expire id found).1.Delivered → (session.expire id found).1 = found :=
    fun hdelivered => (expire_fst_cases session id found).resolve_right hdelivered.status_ne
  unfold status
  rw [hfound]
  simp only
  split
  · next hask =>
    split
    · refine ⟨_, SortedMap.get?_insert_self _ _ _, fun hdelivered => ?_⟩
      have hworker : (session.expire id found).1.worker = [] := worker_of_open hask.2
      exact (hdelivered.worker hworker).elim
    · exact ⟨_, hkept, hexpired⟩
  · exact ⟨_, hkept, hexpired⟩

theorem submitted_of_disturbs {definition : Definition} {input : Bytes} {options : Options}
    (hdisturbs : (Command.submit definition input options).Disturbs id)
    (hrecord : (session.submit definition input options).2.record? id = some record) :
    Submitted definition input record := by
  obtain ⟨hid, hvalid⟩ := hdisturbs
  have hmanifest := definition.validate.value.toManifest_of_valid hvalid input
  rw [Definition.validate_manifest] at hmanifest
  obtain ⟨new, hnew, hsubmitted⟩ := submit_record? session hmanifest
  rw [show (definition.manifest input options).id = id from hid] at hnew
  cases Option.some.inj (hnew.symm.trans hrecord)
  exact hsubmitted

theorem submit_remote_not_delivered {definition : Definition} {input : Bytes} {options : Options}
    (hdisturbs : (Command.submit definition input options).Disturbs id)
    (hrecord : (session.submit definition input options).2.record? id = some record)
    (hremote : record.remote = true) : ¬ record.Delivered :=
  (submitted_of_disturbs hdisturbs hrecord).not_delivered hremote

/-- A result from the node that is there after a step was there before, or the node has been asked for
it and has handed it over. -/
theorem perform_delivered_origin (hsteady : session.Steady) {command : Command}
    (hrecord : (session.perform command).record? id = some record) (hdelivered : record.Delivered)
    (hremote : record.remote = true) :
    session.record? id = some record ∧ ¬ command.Disturbs id ∨
      ∃ timeout, command = .result id timeout ∧
        session.Receives id timeout record.result record.worker := by
  rcases perform_record? hrecord with ⟨found, hfound, _⟩ | ⟨_, _, _, hsubmitted⟩
  · cases command with
    | connect | disconnect | capacity | connectTo | call | pass | lay =>
      exact .inl ⟨hrecord, fun hdisturbs => hdisturbs⟩
    | submit definition input options =>
      by_cases hdisturbs : (Command.submit definition input options).Disturbs id
      · exact (submit_remote_not_delivered hdisturbs hrecord hremote hdelivered).elim
      · exact .inl ⟨(submit_record?_of_undisturbed hdisturbs).symm.trans hrecord, hdisturbs⟩
    | status other =>
      refine .inl ⟨?_, fun hdisturbs => hdisturbs⟩
      by_cases hother : other = id
      · subst hother
        obtain ⟨after, hafter, hsame⟩ := status_record? hfound
        cases Option.some.inj (hafter.symm.trans hrecord)
        rw [hsame hdelivered, hfound]
      · exact (status_record?_of_ne session hother).symm.trans hrecord
    | result other timeout =>
      by_cases hother : other = id
      · subst hother
        obtain ⟨after, hafter, _, horigin⟩ := result_record? hsteady hfound timeout
        cases Option.some.inj (hafter.symm.trans hrecord)
        rcases horigin hdelivered with hsame | hreceives
        · rw [hsame]
          exact .inl ⟨hfound, fun hdisturbs => hdisturbs⟩
        · exact .inr ⟨timeout, rfl, hreceives⟩
      · refine .inl ⟨?_, fun hdisturbs => hdisturbs⟩
        exact (result_record?_of_ne session hother timeout).symm.trans hrecord
    | cancel other =>
      by_cases hother : other = id
      · subst hother
        cases Option.some.inj ((cancel_record? hfound).symm.trans hrecord)
        cases hdelivered.completed
      · exact .inl ⟨(cancel_record?_of_ne session hother).symm.trans hrecord, hother⟩
    | cleanup other =>
      by_cases hother : other = id
      · subst hother
        cases (cleanup_record? session _).symm.trans hrecord
      · exact .inl ⟨(cleanup_record?_of_ne session hother).symm.trans hrecord, hother⟩
  · exact (hsubmitted.not_delivered hremote hdelivered).elim

/-- The session is what became of one that received the result from the node, and nothing has disturbed
the job since. -/
def HandedOver (session : Session) (id data worker : Bytes) : Prop :=
  ∃ (asked : Session) (timeout : Int) (commands : List Command), asked.Reachable ∧
    asked.Receives id timeout data worker ∧
    (∀ command ∈ commands, ¬ command.Disturbs id) ∧
    session = (asked.result id timeout).2.run commands

/-- Wherever a result of the node's is there, it was handed over. -/
theorem Reachable.handedOver (hreach : session.Reachable)
    (hrecord : session.record? id = some record) (hdelivered : record.Delivered)
    (hremote : record.remote = true) : session.HandedOver id record.result record.worker := by
  induction hreach with
  | opened config env defaults => cases hrecord
  | step hreach command ih =>
    rcases perform_delivered_origin hreach.steady hrecord hdelivered hremote with
      ⟨hbefore, hkept⟩ | ⟨timeout, rfl, hreceives⟩
    · obtain ⟨asked, timeout, commands, hasked, hreceives, hundisturbed, rfl⟩ := ih hbefore
      refine ⟨asked, timeout, commands ++ [command], hasked, hreceives, ?_, ?_⟩
      · intro other hmem
        rcases List.mem_append.mp hmem with hmem | hmem
        · exact hundisturbed other hmem
        · rw [List.mem_singleton.mp hmem]
          exact hkept
      · rw [Session.run, Session.run, List.foldl_append]
        rfl
    · exact ⟨_, timeout, [], hreach, hreceives, nofun, rfl⟩

/-- A result that was told once is told for good. As long as its job is not cancelled, forgotten or
submitted anew, every later question for it has the same answer, every question for where the job
stands says completed, and neither changes the session, so that nothing is sent and no time passes. A
result of the node's is what the node handed over in one reply, to the one question that was not
answered from the record. -/
theorem delivered_result_stable (hreach : session.Reachable) {timeout : Int} {data worker : Bytes}
    (hresult : (session.result id timeout).1 = .ok ⟨data, worker⟩) :
    worker ≠ [] ∧
      (∀ commands : List Command, (∀ command ∈ commands, ¬ command.Disturbs id) →
        ∀ later, later = (session.result id timeout).2.run commands →
          (∀ patience, later.result id patience = (.ok ⟨data, worker⟩, later)) ∧
          ∃ report, later.status id = (.ok report, later) ∧ report.id = id ∧
            report.status = .completed ∧ report.progress = Number.Single.ofInt 1) ∧
      ∀ record, (session.result id timeout).2.record? id = some record → record.remote = true →
        (session.result id timeout).2.HandedOver id data worker := by
  have hafter : (session.result id timeout).2.Reachable := hreach.step (.result id timeout)
  cases hfound : session.record? id with
  | none =>
    rw [result, hfound] at hresult
    cases hresult
  | some found =>
    obtain ⟨record, hrecord, htold, _⟩ := result_record? hreach.steady hfound timeout
    obtain ⟨hdelivered, hparts⟩ := htold _ hresult
    cases hparts
    refine ⟨hdelivered.worker, ?_, ?_⟩
    · rintro commands hkept later rfl
      have hlater := run_delivered hrecord hdelivered hkept
      refine ⟨result_of_delivered hlater hdelivered.completed hdelivered.worker, ?_⟩
      refine ⟨_, status_of_delivered hlater hdelivered, rfl, hdelivered.completed, ?_⟩
      simp only [report, hdelivered.completed]
      decide
    · intro other hother hremote
      cases Option.some.inj (hother.symm.trans hrecord)
      exact hafter.handedOver hrecord hdelivered hremote

theorem delivered_result_stable_plain :
    ∃ session : Session, ∃ id, session.Reachable ∧
      (session.result id 5).1 = .ok ⟨[97, 98], utf8 "local"⟩ ∧
      ∃ later, later = (session.result id 5).2.run [.connect, .status id, .pass 7] ∧
        later.result id 0 = (.ok ⟨[97, 98], utf8 "local"⟩, later) := by
  have hmanifest := plainJob.validate.value.toManifest_of_valid Options.valid_default [97, 98]
  rw [Definition.validate_manifest] at hmanifest
  have hsubmitted := fresh_reachable.step (.submit plainJob [97, 98] {})
  have hresult := result_of_declined fresh_reachable.steady hmanifest (.unconnected rfl) 5
  refine ⟨_, _, hsubmitted, hresult, _, rfl, ?_⟩
  have hstable := (delivered_result_stable hsubmitted hresult).2.1
  refine (hstable [.connect, .status _, .pass 7] ?_ _ rfl).1 0
  simp [Command.Disturbs]

end Session

end Offload
