import Offload.Proofs.Job.Work
import Offload.Proofs.Session.Settled
import Offload.Proofs.Session.Steady

namespace Offload

/-- The record shows what came of a run of its job. -/
def JobRecord.Shows (record : JobRecord) : Except Failure Bytes → Prop
  | .ok data => record.status = .completed ∧ record.result = data
  | .error failure => record.status = .failed ∧ record.error = failure.message

theorem JobRecord.concludeLocally_shows (record : JobRecord)
    (outcome : Except Failure (List Bytes × Bytes)) :
    let concluded := (record.concludeLocally outcome).value
    concluded.Shows (outcome.map Prod.snd) ∧ concluded.worker = localWorker ∧
      concluded.remote = record.remote := by
  cases outcome with
  | error failure => exact ⟨⟨rfl, rfl⟩, rfl, rfl⟩
  | ok parts => exact ⟨⟨rfl, rfl⟩, rfl, rfl⟩

theorem Query.submitJob_dump {manifest : Manifest} :
    (∃ body, (Query.submitJob manifest).params.dump .compact = .ok body) ↔
      ∃ text, manifest.toJson.dump .compact = .ok text := by
  have hparams : (Query.submitJob manifest).params = .object [(utf8 "manifest", manifest.toJson)] := rfl
  have hkey : Json.Utf8.fault? (utf8 "manifest") = none := by decide
  simp only [hparams, Json.dump, Json.textFault?, Json.membersFault?, hkey, Option.none_or,
    Option.or_none]
  cases manifest.toJson.textFault? <;> simp

namespace Session

/-- How the peer treats the next exchange. -/
def treatment (session : Session) : Script := session.node.link.env.takeScript.1

/-- How long the node may take to answer a submission. -/
def patience (session : Session) : Nat := session.node.link.env.span (session.node.timeout .control)

/-- The node takes the job on: its manifest reaches a connected node, which replies in time and with
success. -/
structure Accepts (session : Session) (manifest : Manifest) : Prop where
  connected : session.isConnected = true
  brief : (Query.submitJob manifest).overlong = false
  writable : ∃ text, manifest.toJson.dump .compact = .ok text
  replied : ∃ body reply,
    session.treatment.inTime? session.patience = some (.reply 200 body) ∧
      Json.parse body = .ok reply ∧ reply.get? (utf8 "success") = some (.bool true)

/-- The ways in which a job is not taken on by the node. -/
inductive Declines (session : Session) (manifest : Manifest) : Prop
  | unconnected (happart : session.isConnected = false)
  | overlong (hoverlong : (Query.submitJob manifest).overlong = true)
  | unwritable (fault : Json.Fault) (hfault : manifest.toJson.dump .compact = .error fault)
  | late (hlate : session.treatment.inTime? session.patience = none)
  | transport (reason : Bytes)
    (hfailed : session.treatment.inTime? session.patience = some (.failed reason))
  | status (status : Int) (body : Bytes) (hstatus : status ≠ 200)
    (hreply : session.treatment.inTime? session.patience = some (.reply status body))
  | malformed (body : Bytes) (fault : Json.Fault)
    (hreply : session.treatment.inTime? session.patience = some (.reply 200 body))
    (hparse : Json.parse body = .error fault)
  | rejected (body : Bytes) (reply : Json)
    (hreply : session.treatment.inTime? session.patience = some (.reply 200 body))
    (hparse : Json.parse body = .ok reply)
    (hrefused : reply.get? (utf8 "success") ≠ some (.bool true))

variable {session : Session} {manifest : Manifest}

/-- There are no other ways. -/
theorem declines_iff : session.Declines manifest ↔ ¬ session.Accepts manifest := by
  constructor
  · rintro hdeclines ⟨hconnected, hbrief, ⟨text, htext⟩, body, reply, hreply, hparse, hsuccess⟩
    cases hdeclines with
    | unconnected happart =>
      rw [hconnected] at happart
      cases happart
    | overlong hoverlong =>
      rw [hbrief] at hoverlong
      cases hoverlong
    | unwritable fault hfault =>
      rw [htext] at hfault
      cases hfault
    | late hlate =>
      rw [hreply] at hlate
      cases hlate
    | transport reason hfailed =>
      rw [hreply] at hfailed
      cases hfailed
    | status status other hstatus hother =>
      rw [hreply] at hother
      cases hother
      exact hstatus rfl
    | malformed other fault hother hfault =>
      rw [hreply] at hother
      cases hother
      rw [hparse] at hfault
      cases hfault
    | rejected other answer hother hanswer hrefused =>
      rw [hreply] at hother
      cases hother
      rw [hparse] at hanswer
      cases hanswer
      exact hrefused hsuccess
  · intro hrefused
    cases hconnected : session.isConnected with
    | false => exact .unconnected hconnected
    | true =>
      cases hbrief : (Query.submitJob manifest).overlong with
      | true => exact .overlong hbrief
      | false =>
        cases htext : manifest.toJson.dump .compact with
        | error fault => exact .unwritable fault htext
        | ok text =>
          cases hend : session.treatment.inTime? session.patience with
          | none => exact .late hend
          | some delivery =>
            cases delivery with
            | aborted => exact (Script.inTime?_ne_aborted _ _ hend).elim
            | failed reason => exact .transport reason hend
            | reply status body =>
              by_cases hstatus : status = 200
              · subst hstatus
                cases hparse : Json.parse body with
                | error fault => exact .malformed body fault hend hparse
                | ok reply =>
                  refine .rejected body reply hend hparse fun hsuccess => hrefused ?_
                  exact ⟨hconnected, hbrief, ⟨text, htext⟩, body, reply, hend, hparse, hsuccess⟩
              · exact .status status body hstatus hend

theorem announce_treatment (session : Session) (definition : Definition) (input : Bytes)
    (manifest : Manifest) :
    (session.announce definition input manifest).treatment = session.treatment := by
  unfold treatment
  rw [Environment.takeScript_fst, Environment.takeScript_fst]
  rfl

theorem announce_answer_eq_ok_iff {definition : Definition} {input : Bytes} {reply : Json} :
    (session.announce definition input manifest).node.answer (Query.submitJob manifest) = .ok reply ↔
      (Query.submitJob manifest).overlong = false ∧ session.isConnected = true ∧
        (∃ body, (Query.submitJob manifest).params.dump .compact = .ok body) ∧
        session.treatment.result session.patience (session.node.timeout .control) = .ok reply := by
  rw [← announce_treatment session definition input manifest]
  exact Node.answer_eq_ok_iff

theorem ask_submitJob (hsteady : session.Steady) (definition : Definition) (input : Bytes) :
    ((session.announce definition input manifest).ask (Query.submitJob manifest)).1.1 = true ↔
      session.Accepts manifest := by
  obtain ⟨hanswer, _, _⟩ := ask_of_steady (hsteady.announce definition input manifest)
    (Query.submitJob manifest)
  rw [hanswer, Query.submitJob_answered]
  constructor
  · rintro ⟨reply, houtcome, hsuccess⟩
    obtain ⟨hbrief, hconnected, hwritable, hresult⟩ := announce_answer_eq_ok_iff.mp houtcome
    obtain ⟨body, hreply, hparse⟩ := Script.result_eq_ok_iff.mp hresult
    exact ⟨hconnected, hbrief, Query.submitJob_dump.mp hwritable, body, reply, hreply, hparse, hsuccess⟩
  · rintro ⟨hconnected, hbrief, hwritable, body, reply, hreply, hparse, hsuccess⟩
    refine ⟨reply, ?_, hsuccess⟩
    exact announce_answer_eq_ok_iff.mpr ⟨hbrief, hconnected, Query.submitJob_dump.mpr hwritable,
      Script.result_eq_ok_iff.mpr ⟨body, hreply, hparse⟩⟩

theorem ask_submitJob_requests (hsteady : session.Steady) (definition : Definition) (input : Bytes) :
    ((session.announce definition input manifest).ask (Query.submitJob manifest)).2.requests =
          session.requests ∧ ¬ session.Accepts manifest ∨
      ∃ body, (Query.submitJob manifest).params.dump .compact = .ok body ∧
        ((session.announce definition input manifest).ask (Query.submitJob manifest)).2.requests =
          ⟨session.node.link.host, utf8 "/rpc/submitComputeJob", body⟩ :: session.requests := by
  let announced := session.announce definition input manifest
  have hannounced : announced.Steady := hsteady.announce definition input manifest
  obtain ⟨hanswer, hrequests, _⟩ := ask_of_steady hannounced (Query.submitJob manifest)
  have htarget : utf8 "/rpc/" ++ utf8 (Query.submitJob manifest).method =
      utf8 "/rpc/submitComputeJob" := (utf8_append _ _).symm
  rw [hrequests]
  rcases announced.node.requestsAfter_cases (Query.submitJob manifest) with hnone | ⟨body, hbody, hsent⟩
  · refine .inl ⟨hnone, fun haccepts => ?_⟩
    have hyes := (ask_submitJob hsteady definition input).mpr haccepts
    rw [hanswer, Query.submitJob_answered] at hyes
    obtain ⟨reply, houtcome, _⟩ := hyes
    exact Node.requestsAfter_of_answer houtcome hnone
  · rw [htarget] at hsent
    exact .inr ⟨body, hbody, hsent⟩

theorem announce_ran (session : Session) (definition : Definition) (input : Bytes)
    (manifest : Manifest) : (session.announce definition input manifest).ran = session.ran := rfl

theorem assign_ran (session : Session) (id : Bytes) (record : JobRecord) (answer : Bool × Bytes) :
    (session.assign id record answer).ran =
      session.ran ++ if answer.1 then [] else record.work.invocations := by
  unfold assign
  split
  · rw [List.append_nil]
    simp only
    split <;> rfl
  · rfl

open JobRecord in
theorem announced_runs (definition : Definition) (input : Bytes) (manifest : Manifest)
    (started : Nat) :
    let work := (announced definition input manifest started).work
    definition.Runs input work.invocations (work.outcome.map Prod.snd) := by
  obtain ⟨_, houtcome, hcalls⟩ := (announced definition input manifest started).work_eq_run
  rw [definition.runs_iff, ← hcalls, ← houtcome]
  exact ⟨congrArg (fun run => (run input).invocations) definition.validate_run,
    congrArg (fun run => (run input).outcome) definition.validate_run⟩

/-- An accepted submission asks the node once and then goes by its answer, which is yes just if the node
takes the job on. -/
theorem submit_of_steady (hsteady : session.Steady) {definition : Definition} {input : Bytes}
    {options : Options}
    (hmanifest : definition.validate.value.toManifest input options = .ok manifest) :
    ∃ (asked : Session) (answer : Bool × Bytes),
      session.submit definition input options =
        (.ok manifest.id, asked.assign manifest.id
          (JobRecord.announced definition input manifest session.clock) answer) ∧
      (answer.1 = true ↔ session.Accepts manifest) ∧ asked.Steady ∧ asked.ran = session.ran ∧
      (asked.requests = session.requests ∧ ¬ session.Accepts manifest ∨
        ∃ body, (Query.submitJob manifest).params.dump .compact = .ok body ∧
          asked.requests =
            ⟨session.node.link.host, utf8 "/rpc/submitComputeJob", body⟩ :: session.requests) := by
  refine ⟨_, _, submit_of_accepted hmanifest, ask_submitJob hsteady definition input,
    (hsteady.announce definition input manifest).ask _, ?_,
    ask_submitJob_requests hsteady definition input⟩
  rw [ask_ran, announce_ran]

/-- Every job that a submission accepts is handled on one path. The node takes it on, just if it accepts
it, and none of the job's functions is called here; or they are called here, for one run of the job, and
the record shows what has come of that. The identity that is returned is the job's own either way. -/
theorem submit_takes_one_path (hreach : session.Reachable) (definition : Definition) (input : Bytes)
    {options : Options} (hvalid : options.Valid) :
    ∃ after record,
      session.submit definition input options =
        (.ok (Identity.make definition.name input), after) ∧
      after.record? (Identity.make definition.name input) = some record ∧
      (session.Accepts (definition.manifest input options) ∧
          record.remote = true ∧ record.status = .assigned ∧ record.worker = [] ∧
          after.ran = session.ran ∧
          (∃ body, (Query.submitJob (definition.manifest input options)).params.dump .compact = .ok body ∧
            after.requests =
              ⟨session.node.link.host, utf8 "/rpc/submitComputeJob", body⟩ :: session.requests) ∨
        ¬ session.Accepts (definition.manifest input options) ∧
          record.remote = false ∧ record.worker = utf8 "local" ∧
          (∃ calls outcome, definition.Runs input calls outcome ∧
            after.ran = session.ran ++ calls ∧ record.Shows outcome) ∧
          (after.requests = session.requests ∨
            ∃ request, after.requests = request :: session.requests)) := by
  have hmanifest := definition.validate.value.toManifest_of_valid hvalid input
  rw [Definition.validate_manifest] at hmanifest
  have hid : (definition.manifest input options).id = Identity.make definition.name input := rfl
  generalize definition.manifest input options = manifest at hmanifest hid ⊢
  obtain ⟨asked, answer, hsubmit, hanswer, hsteady, hran, hsent⟩ :=
    submit_of_steady hreach.steady hmanifest
  let record := JobRecord.announced definition input manifest session.clock
  obtain ⟨_, hrequests⟩ := hsteady.assign manifest.id record answer
  have hcalls := assign_ran asked manifest.id record answer
  rw [hran] at hcalls
  rw [← hid]
  refine ⟨_, _, hsubmit, assign_record? _ _ _ _, ?_⟩
  by_cases haccepts : session.Accepts manifest
  · have hyes := hanswer.mpr haccepts
    rw [if_pos hyes, List.append_nil] at hcalls
    rw [if_pos hyes]
    rcases hsent with ⟨_, hrefused⟩ | ⟨body, hbody, hsent⟩
    · exact (hrefused haccepts).elim
    · exact .inl ⟨haccepts, rfl, rfl, rfl, hcalls, body, hbody, hrequests.trans hsent⟩
  · have hno : ¬ answer.1 = true := fun hyes => haccepts (hanswer.mp hyes)
    rw [if_neg hno] at hcalls
    rw [if_neg hno]
    obtain ⟨hshows, hworker, hremote⟩ := record.concludeLocally_shows record.work.outcome
    refine .inr ⟨haccepts, hremote, hworker,
      ⟨_, _, announced_runs definition input manifest session.clock, hcalls, hshows⟩, ?_⟩
    rcases hsent with ⟨hsent, _⟩ | ⟨body, _, hsent⟩
    · exact .inl (hrequests.trans hsent)
    · exact .inr ⟨_, hrequests.trans hsent⟩

theorem submit_takes_one_path_plain :
    ¬ fresh.Accepts (plainJob.manifest [97] {}) ∧
      ∃ after record,
        fresh.submit plainJob [97] {} = (.ok (Identity.make (utf8 "plain") [97]), after) ∧
        after.record? (Identity.make (utf8 "plain") [97]) = some record ∧
        record.worker = utf8 "local" ∧ record.Shows (.ok [97]) ∧
        after.ran = [.split [97], .execute [97], .merge [[97]]] := by
  have happart : ¬ fresh.Accepts (plainJob.manifest [97] {}) := fun haccepts =>
    Bool.false_ne_true haccepts.connected
  refine ⟨happart, ?_⟩
  obtain ⟨after, record, hsubmit, hrecord, hpath⟩ :=
    submit_takes_one_path fresh_reachable plainJob [97] Options.valid_default
  rcases hpath with ⟨haccepts, _⟩ | ⟨_, _, hworker, ⟨calls, outcome, hruns, hran, hshows⟩, _⟩
  · exact (happart haccepts).elim
  · obtain ⟨rfl, rfl⟩ := plainJob.runs_iff.mp hruns
    exact ⟨after, record, hsubmit, hrecord, hworker, hshows, hran⟩

open JobRecord in
theorem record?_of_declined (hsteady : session.Steady) {definition : Definition} {input : Bytes}
    {options : Options}
    (hmanifest : definition.validate.value.toManifest input options = .ok manifest)
    (hdeclines : session.Declines manifest) :
    (session.submit definition input options).2.record? manifest.id =
      some ((announced definition input manifest session.clock).concludeLocally
        (announced definition input manifest session.clock).work.outcome).value := by
  obtain ⟨asked, answer, hsubmit, hanswer, _⟩ := submit_of_steady hsteady hmanifest
  have hno : ¬ answer.1 = true := fun hyes => declines_iff.mp hdeclines (hanswer.mp hyes)
  have hrecord := assign_record? asked manifest.id
    (announced definition input manifest session.clock) answer
  rw [if_neg hno] at hrecord
  rw [hsubmit]
  exact hrecord

open JobRecord in
theorem submit_of_declined (hsteady : session.Steady) {definition : Definition} {input : Bytes}
    {options : Options}
    (hmanifest : definition.validate.value.toManifest input options = .ok manifest)
    (hdeclines : session.Declines manifest) :
    ∃ outcome : Except Failure (List Bytes × Bytes),
      outcome.map Prod.snd = (definition.run input).outcome ∧
      (session.submit definition input options).2.record? manifest.id =
        some ((announced definition input manifest session.clock).concludeLocally outcome).value := by
  obtain ⟨_, houtcome, _⟩ := (announced definition input manifest session.clock).work_eq_run
  refine ⟨_, houtcome.symm.trans ?_, record?_of_declined hsteady hmanifest hdeclines⟩
  exact congrArg (fun run => (run input).outcome) definition.validate_run

/-- What is told of a job that was run here, from the outcome of a direct run. -/
def told (id : Bytes) : Except Failure Bytes → Except Failure JobResult
  | .ok data => .ok ⟨data, utf8 "local"⟩
  | .error failure =>
    .error (.jobFailed (if failure.message = [] then utf8 "Job " ++ id ++ utf8 " ended as failed"
      else failure.message))

theorem endText_of_failed {record : JobRecord} (hfailed : record.status = .failed) (id : Bytes) :
    record.endText id =
      if record.error = [] then utf8 "Job " ++ id ++ utf8 " ended as failed" else record.error := by
  have hwords : utf8 " ended as " ++ Status.failed.name = utf8 " ended as failed" :=
    (utf8_append _ _).symm
  rw [JobRecord.endText, hfailed, List.append_assoc, hwords]

theorem result_of_declined (hsteady : session.Steady) {definition : Definition} {input : Bytes}
    {options : Options}
    (hmanifest : definition.validate.value.toManifest input options = .ok manifest)
    (hdeclines : session.Declines manifest) (timeout : Int) :
    ((session.submit definition input options).2.result manifest.id timeout).1 =
      told manifest.id (definition.run input).outcome := by
  obtain ⟨outcome, houtcome, hrecord⟩ := submit_of_declined hsteady hmanifest hdeclines
  rw [← houtcome]
  cases outcome with
  | ok parts =>
    rw [result_of_delivered hrecord rfl JobRecord.localWorker_ne]
    rfl
  | error failure =>
    rw [result_of_ended hrecord rfl, endText_of_failed rfl]
    rfl

/-- The fallback computes what a direct run of the job computes, for whatever reason the node has not
taken the job on: the result of the run, delivered from here, or its failure. No other session that
finds the job declined tells anything else. -/
theorem fallback_computes_run (hreach : session.Reachable) {definition : Definition} {input : Bytes}
    {options : Options} (hvalid : options.Valid)
    (hdeclines : session.Declines (definition.manifest input options)) :
    ∃ after, session.submit definition input options =
        (.ok (Identity.make definition.name input), after) ∧
      (∀ data, (definition.run input).outcome = .ok data →
        (∀ timeout, (after.result (Identity.make definition.name input) timeout).1 =
          .ok ⟨data, utf8 "local"⟩) ∧
        ∃ report, (after.status (Identity.make definition.name input)).1 = .ok report ∧
          report.status = .completed) ∧
      (∀ failure, (definition.run input).outcome = .error failure →
        (∃ record, after.record? (Identity.make definition.name input) = some record ∧
          record.status = .failed ∧ record.error = failure.message) ∧
        ∀ timeout, (after.result (Identity.make definition.name input) timeout).1 =
          .error (.jobFailed (if failure.message = [] then
            utf8 "Job " ++ Identity.make definition.name input ++ utf8 " ended as failed"
          else failure.message))) ∧
      ∀ other : Session, other.Reachable → other.Declines (definition.manifest input options) →
        ∀ timeout, ((other.submit definition input options).2.result
            (Identity.make definition.name input) timeout).1 =
          (after.result (Identity.make definition.name input) timeout).1 := by
  have hmanifest := definition.validate.value.toManifest_of_valid hvalid input
  rw [Definition.validate_manifest] at hmanifest
  have hid : (definition.manifest input options).id = Identity.make definition.name input := rfl
  generalize definition.manifest input options = manifest at hmanifest hid hdeclines ⊢
  obtain ⟨asked, answer, hsubmit, _⟩ := submit_of_steady hreach.steady hmanifest
  obtain ⟨outcome, houtcome, hrecord⟩ := submit_of_declined hreach.steady hmanifest hdeclines
  have hresult := result_of_declined hreach.steady hmanifest hdeclines
  rw [hsubmit] at hrecord hresult
  rw [← hid]
  refine ⟨_, hsubmit, ?_, ?_, ?_⟩
  · intro data hdata
    rw [hdata] at houtcome hresult
    refine ⟨hresult, ?_⟩
    cases outcome with
    | error failure => cases houtcome
    | ok parts =>
      have hreport := congrArg Prod.fst (status_of_settled hrecord rfl (.inl rfl))
      exact ⟨_, hreport, rfl⟩
  · intro failure hfailure
    rw [hfailure] at houtcome hresult
    refine ⟨?_, hresult⟩
    cases outcome with
    | ok parts => cases houtcome
    | error raised =>
      have hraised : raised = failure := Except.error.inj houtcome
      rw [hraised] at hrecord
      exact ⟨_, hrecord, rfl, rfl⟩
  · intro other hother hrefuses timeout
    rw [hresult]
    exact result_of_declined hother.steady hmanifest hrefuses timeout

theorem fallback_computes_run_plain :
    fresh.Declines (plainJob.manifest [97, 98] {}) ∧
      (plainJob.run [97, 98]).outcome = .ok [97, 98] ∧
      ∃ after, fresh.submit plainJob [97, 98] {} =
          (.ok (Identity.make (utf8 "plain") [97, 98]), after) ∧
        ∀ timeout, (after.result (Identity.make (utf8 "plain") [97, 98]) timeout).1 =
          .ok ⟨[97, 98], utf8 "local"⟩ := by
  have hdeclines : fresh.Declines (plainJob.manifest [97, 98] {}) := .unconnected rfl
  have hrun : (plainJob.run [97, 98]).outcome = .ok [97, 98] := rfl
  obtain ⟨after, hsubmit, hcompleted, _⟩ :=
    fallback_computes_run fresh_reachable Options.valid_default hdeclines
  obtain ⟨hresult, _⟩ := hcompleted [97, 98] hrun
  exact ⟨hdeclines, hrun, after, hsubmit, hresult⟩

end Session

end Offload
