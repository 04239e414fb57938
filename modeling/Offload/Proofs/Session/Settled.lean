import Offload.Proofs.Session.History

namespace Offload

namespace JobRecord

theorem isTerminal_of_ended {status : Status} (hended : status.endedWithoutResult = true) :
    status.isTerminal = true := by
  cases status <;> first | rfl | cases hended

theorem expire_of_terminal {record : JobRecord} (hterminal : record.status.isTerminal = true)
    (clock : Nat) : record.expire clock = ⟨record, []⟩ := by
  have hoverdue : record.isOverdue clock = false := by
    simp [isOverdue, hterminal]
  rw [expire, hoverdue]
  rfl

theorem isSettled_of_ended {record : JobRecord}
    (hended : record.status.endedWithoutResult = true) : record.isSettled = true := by
  simp [isSettled, hended]

theorem Change.of_ended {id : Bytes} {before after : JobRecord} (hchange : Change id before after)
    (hended : before.status.endedWithoutResult = true) : after = before.withdrawn id := by
  cases hchange with
  | expired clock hoverdue =>
    simp [isOverdue, isTerminal_of_ended hended] at hoverdue
  | reported status error hremote hopen =>
    rw [isSettled_of_ended hended] at hopen
    cases hopen
  | fetched result worker hremote hopen hworker =>
    rw [isSettled_of_ended hended] at hopen
    cases hopen
  | withdrawn => rfl

theorem History.of_ended {id : Bytes} {before after : JobRecord} (hhistory : History id before after)
    (hended : before.status.endedWithoutResult = true) :
    after = before ∨ after = before.withdrawn id := by
  induction hhistory with
  | refl => exact .inl rfl
  | tail _ hchange ih =>
    rcases ih with rfl | rfl
    · exact .inr (hchange.of_ended hended)
    · exact .inr (hchange.of_ended rfl)

end JobRecord

namespace Session

open JobRecord

variable {session : Session} {id : Bytes} {record : JobRecord}

theorem expire_of_terminal (hrecord : session.record? id = some record)
    (hterminal : record.status.isTerminal = true) : session.expire id record = (record, session) := by
  simp only [expire, JobRecord.expire_of_terminal hterminal, put_of_record? session hrecord,
    logAll_nil]

theorem status_of_settled (hrecord : session.record? id = some record)
    (hterminal : record.status.isTerminal = true)
    (hsettled : record.remote = false ∨ record.isSettled = true) :
    session.status id = (.ok (record.report id), session) := by
  have hask : ¬ (record.remote = true ∧ record.isSettled = false) := by
    rintro ⟨hremote, hopen⟩
    rcases hsettled with hlocal | hsettled
    · rw [hremote] at hlocal
      cases hlocal
    · rw [hopen] at hsettled
      cases hsettled
  simp only [status, hrecord, expire_of_terminal hrecord hterminal, if_neg hask]

theorem result_of_delivered (hrecord : session.record? id = some record)
    (hcompleted : record.status = .completed) (hworker : record.worker ≠ []) (timeout : Int) :
    session.result id timeout = (.ok ⟨record.result, record.worker⟩, session) := by
  have hterminal : record.status.isTerminal = true := by rw [hcompleted]; rfl
  have hask : ¬ (record.remote = true ∧ record.isSettled = false) := by
    rintro ⟨_, hopen⟩
    simp [isSettled, hworker] at hopen
  simp only [result, hrecord, expire_of_terminal hrecord hterminal, if_neg hask]
  rw [poll_eq, expire_of_terminal hrecord hterminal, if_pos ⟨hcompleted, hworker⟩]

theorem poll_of_ended (hrecord : session.record? id = some record)
    (hended : record.status.endedWithoutResult = true) (timeout : Int) (remaining : Nat) :
    poll id timeout remaining record session =
      (.error (.jobFailed (record.endText id)), session) := by
  have hcompleted : ¬ (record.status = .completed ∧ record.worker ≠ []) := by
    rintro ⟨hcompleted, _⟩
    rw [hcompleted] at hended
    cases hended
  rw [poll_eq, expire_of_terminal hrecord (isTerminal_of_ended hended), if_neg hcompleted,
    if_pos hended]

theorem result_of_ended (hrecord : session.record? id = some record)
    (hended : record.status.endedWithoutResult = true) (timeout : Int) :
    session.result id timeout = (.error (.jobFailed (record.endText id)), session) := by
  have hask : ¬ (record.remote = true ∧ record.isSettled = false) := by
    rintro ⟨_, hopen⟩
    rw [isSettled_of_ended hended] at hopen
    cases hopen
  simp only [result, hrecord, expire_of_terminal hrecord (isTerminal_of_ended hended), if_neg hask]
  rw [poll_of_ended hrecord hended]

theorem run_follows {found : JobRecord} {Spares : Command → Prop}
    (hstep : ∀ (current : Session) (last : JobRecord) (command : Command),
      current.record? id = some last → Spares command →
      ∃ after, (current.perform command).record? id = some after ∧ History id last after)
    (hfound : session.record? id = some found) {commands : List Command}
    (hspared : ∀ command ∈ commands, Spares command) :
    ∃ after, (session.run commands).record? id = some after ∧ History id found after := by
  induction commands generalizing session found with
  | nil => exact ⟨found, hfound, .refl⟩
  | cons command rest ih =>
    obtain ⟨next, hnext, hhistory⟩ := hstep session found command hfound
      (hspared command List.mem_cons_self)
    obtain ⟨after, hafter, hlater⟩ :=
      ih hnext fun command hmem => hspared command (List.mem_cons_of_mem _ hmem)
    exact ⟨after, hafter, hhistory.trans hlater⟩

theorem run_history {found : JobRecord} (hfound : session.record? id = some found)
    {commands : List Command} (hkept : ∀ command ∈ commands, ¬ command.Replaces id) :
    ∃ after, (session.run commands).record? id = some after ∧ History id found after :=
  run_follows (fun _ _ _ => perform_history) hfound hkept

/-- A job that has ended without result is never revived: at any later point of any run its record is
the old one or the old one cancelled. Looking at it changes nothing at all in the session, so that
nothing is sent and no time passes, and tells just the status and the error of the record. -/
theorem ended_job_never_revived (hrecord : session.record? id = some record)
    (hended : record.status.endedWithoutResult = true) {commands : List Command}
    (hkept : ∀ command ∈ commands, ¬ command.Replaces id) :
    ∃ after, (session.run commands).record? id = some after ∧
      (after = record ∨
        after = { record with
          status := .cancelled, error := utf8 "Job " ++ id ++ utf8 " was cancelled" }) ∧
      after.status ∈ [Status.failed, Status.timeout, Status.cancelled] ∧
      (∃ report, (session.run commands).status id = (.ok report, session.run commands) ∧
        report.id = id ∧ report.status = after.status ∧ report.error = after.error) ∧
      (∀ timeout, (session.run commands).result id timeout =
        (.error (.jobFailed (if after.error = [] then
          utf8 "Job " ++ id ++ utf8 " ended as " ++ after.status.name else after.error)),
          session.run commands)) ∧
      ((session.run commands).cancel id).1 = true ∧
      ((session.run commands).cancel id).2.record? id = some { after with
        status := .cancelled, error := utf8 "Job " ++ id ++ utf8 " was cancelled" } := by
  obtain ⟨after, hafter, hhistory⟩ := run_history hrecord hkept
  have hcases := hhistory.of_ended hended
  have hstill : after.status.endedWithoutResult = true := by
    rcases hcases with rfl | rfl
    · exact hended
    · rfl
  refine ⟨after, hafter, hcases, ?_, ⟨after.report id, ?_, rfl, rfl, rfl⟩, ?_, ?_, ?_⟩
  · cases hstatus : after.status <;> simp [hstatus, Status.endedWithoutResult] at hstill ⊢
  · exact status_of_settled hafter (isTerminal_of_ended hstill) (.inr (isSettled_of_ended hstill))
  · exact result_of_ended hafter hstill
  · simp only [cancel, hafter]
  · exact cancel_record? hafter

theorem ended_job_never_revived_plain :
    ∃ record after, (fresh.run [.submit plainJob [] {}, .cancel (Identity.make (utf8 "plain") [])]).record?
        (Identity.make (utf8 "plain") []) = some record ∧
      record.status.endedWithoutResult = true ∧
      ((fresh.run [.submit plainJob [] {}, .cancel (Identity.make (utf8 "plain") [])]).run
        [.status (Identity.make (utf8 "plain") []), .pass 7,
          .result (Identity.make (utf8 "plain") []) 5]).record?
        (Identity.make (utf8 "plain") []) = some after ∧
      after.status ∈ [Status.failed, Status.timeout, Status.cancelled] := by
  have hmanifest := plainJob.validate.value.toManifest_of_valid Options.valid_default []
  obtain ⟨submitted, hsubmitted, _⟩ := submit_record? fresh hmanifest
  rw [Definition.validate_manifest] at hsubmitted
  have hcancelled := cancel_record? hsubmitted
  have hkept : ∀ command ∈ [Command.status (Identity.make (utf8 "plain") []), .pass 7,
      .result (Identity.make (utf8 "plain") []) 5],
      ¬ command.Replaces (Identity.make (utf8 "plain") []) := by
    simp [Command.Replaces]
  obtain ⟨after, hafter, _, hstatus, _⟩ := ended_job_never_revived hcancelled rfl hkept
  exact ⟨_, after, hcancelled, rfl, hafter, hstatus⟩

end Session

end Offload
