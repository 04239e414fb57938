import Offload.Proofs.Session.Deadline
import Offload.Proofs.Session.Tracking

namespace Offload

namespace JobRecord

variable {record : JobRecord} {clock : Nat}

/-- The job has not ended, and more has passed since its submission than its manifest allows. -/
structure Overdue (record : JobRecord) (clock : Nat) : Prop where
  unended : record.status.isTerminal = false
  /-- A timeout of zero seconds means none. -/
  limited : record.manifest.options.timeoutSeconds ≠ 0
  late : record.started + 1000 * record.manifest.options.timeoutSeconds.toNat < clock

theorem isOverdue_iff : record.isOverdue clock = true ↔ record.Overdue clock := by
  simp only [isOverdue, Bool.and_eq_true, Bool.not_eq_true', decide_eq_true_eq]
  constructor
  · rintro ⟨⟨hunended, hlimited⟩, hlate⟩
    exact ⟨hunended, hlimited, by omega⟩
  · rintro ⟨hunended, hlimited, hlate⟩
    exact ⟨⟨hunended, hlimited⟩, by omega⟩

theorem Overdue.mono {later : Nat} (hoverdue : record.Overdue clock) (hle : clock ≤ later) :
    record.Overdue later :=
  ⟨hoverdue.unended, hoverdue.limited, Nat.lt_of_lt_of_le hoverdue.late hle⟩

def overrun (record : JobRecord) : JobRecord :=
  { record with status := .timeout, error := record.overdueText }

theorem overdueText_ne (record : JobRecord) : record.overdueText ≠ [] := by
  have hwords : utf8 "Job exceeded its timeout of " ≠ [] := by decide
  simp [overdueText, hwords]

theorem endText_overrun (record : JobRecord) (id : Bytes) :
    record.overrun.endText id = record.overdueText :=
  if_neg record.overdueText_ne

theorem expire_of_overdue (hoverdue : record.Overdue clock) :
    (record.expire clock).value = record.overrun := by
  rw [expire, if_pos (isOverdue_iff.mpr hoverdue)]
  rfl

theorem expire_of_in_time (hintime : ¬ record.Overdue clock) :
    record.expire clock = ⟨record, []⟩ := by
  rw [expire, if_neg (mt isOverdue_iff.mp hintime)]

theorem expire_not_overdue (record : JobRecord) (clock : Nat) :
    ¬ (record.expire clock).value.Overdue clock := by
  by_cases hoverdue : record.Overdue clock
  · rw [expire_of_overdue hoverdue]
    intro hstill
    cases hstill.unended
  · rwa [expire_of_in_time hoverdue]

theorem Change.kept {id : Bytes} {before after : JobRecord} (hchange : Change id before after) :
    after.manifest = before.manifest ∧ after.started = before.started ∧
      after.remote = before.remote := by
  cases hchange <;> exact ⟨rfl, rfl, rfl⟩

theorem History.kept {id : Bytes} {before after : JobRecord} (hhistory : History id before after) :
    after.manifest = before.manifest ∧ after.started = before.started ∧
      after.remote = before.remote := by
  induction hhistory with
  | refl => exact ⟨rfl, rfl, rfl⟩
  | tail _ hchange ih =>
    obtain ⟨hmanifest, hstarted, hremote⟩ := hchange.kept
    exact ⟨hmanifest.trans ih.1, hstarted.trans ih.2.1, hremote.trans ih.2.2⟩

theorem concludeLocally_kept (record : JobRecord)
    (outcome : Except Failure (List Bytes × Bytes)) :
    (record.concludeLocally outcome).value.manifest = record.manifest ∧
      (record.concludeLocally outcome).value.started = record.started := by
  cases outcome <;> exact ⟨rfl, rfl⟩

theorem Submitted.status_ne_timeout {definition : Definition} {input : Bytes}
    (hsubmitted : Submitted definition input record) : record.status ≠ .timeout := by
  cases hsubmitted with
  | assigned => exact nofun
  | concluded manifest options started hmanifest outcome => cases outcome <;> exact nofun

end JobRecord

namespace Session

open JobRecord

variable {session : Session} {id : Bytes} {record found after : JobRecord}

theorem expire_of_in_time (hrecord : session.record? id = some record)
    (hintime : ¬ record.Overdue session.clock) : session.expire id record = (record, session) := by
  simp only [expire, JobRecord.expire_of_in_time hintime, put_of_record? session hrecord, logAll_nil]

theorem expire_fst_of_overdue (hoverdue : record.Overdue session.clock) :
    (session.expire id record).1 = record.overrun :=
  JobRecord.expire_of_overdue hoverdue

theorem expire_record?_of_overdue (hoverdue : record.Overdue session.clock) :
    (session.expire id record).2.record? id = some record.overrun := by
  rw [expire_record?, expire_fst_of_overdue hoverdue]

theorem poll_of_overdue (hoverdue : record.Overdue session.clock) (timeout : Int)
    (remaining : Nat) :
    poll id timeout remaining record session =
      (.error (.jobFailed record.overdueText), (session.expire id record).2) := by
  have hmissing : ¬ (record.overrun.status = .completed ∧ record.overrun.worker ≠ []) := nofun
  have hended : record.overrun.status.endedWithoutResult = true := rfl
  rw [poll_eq, expire_fst_of_overdue hoverdue, if_neg hmissing, if_pos hended, endText_overrun]

theorem result_of_overdue (hrecord : session.record? id = some record)
    (hoverdue : record.Overdue session.clock) (timeout : Int) :
    session.result id timeout =
      (.error (.jobFailed record.overdueText), (session.expire id record).2) := by
  have hask : ¬ (record.overrun.remote = true ∧ record.overrun.isSettled = false) := nofun
  simp only [result, hrecord]
  rw [expire_fst_of_overdue hoverdue, if_neg hask,
    poll_of_ended (expire_record?_of_overdue hoverdue) rfl, endText_overrun]

theorem status_of_overdue (hrecord : session.record? id = some record)
    (hoverdue : record.Overdue session.clock) :
    session.status id = (.ok (record.overrun.report id), (session.expire id record).2) := by
  have hask : ¬ (record.overrun.remote = true ∧ record.overrun.isSettled = false) := nofun
  simp only [status, hrecord]
  rw [expire_fst_of_overdue hoverdue, if_neg hask]

/-- A wait leaves the record as it is, or ends at the first look that finds the job overdue. -/
theorem poll_record?_cases (id : Bytes) (timeout : Int) (remaining : Nat) (found : JobRecord)
    (session : Session) (hfound : session.record? id = some found) :
    session.clock ≤ (poll id timeout remaining found session).2.clock ∧
      ((poll id timeout remaining found session).2.record? id = some found ∨
        found.Overdue (poll id timeout remaining found session).2.clock ∧
          (poll id timeout remaining found session).2.record? id = some found.overrun) := by
  have hlooked : ∀ (found : JobRecord) (session : Session), session.record? id = some found →
      session.clock ≤ (session.expire id found).2.clock ∧
        ((session.expire id found).2.record? id = some found ∨
          found.Overdue (session.expire id found).2.clock ∧
            (session.expire id found).2.record? id = some found.overrun) := by
    intro found session hfound
    refine ⟨Nat.le_refl _, ?_⟩
    by_cases hoverdue : found.Overdue session.clock
    · exact .inr ⟨hoverdue, expire_record?_of_overdue hoverdue⟩
    · rw [expire_of_in_time hfound hoverdue]
      exact .inl hfound
  refine poll_induction (motive := fun found session told => session.record? id = some found →
    session.clock ≤ told.2.clock ∧ (told.2.record? id = some found ∨
      found.Overdue told.2.clock ∧ told.2.record? id = some found.overrun)) ?_ hlooked hlooked ?_
    remaining found session hfound
  · intro found session _ _
    exact hlooked found session
  · intro found session milliseconds told htold hfound
    have hkept := expire_record? session id found
    have hslept := (session.expire id found).2.sleep_clock milliseconds
    have hsame : (session.expire id found).2.clock = session.clock := rfl
    obtain ⟨hclock, hcases⟩ := htold hkept
    have hlater : session.clock ≤ told.2.clock := by omega
    refine ⟨hlater, ?_⟩
    by_cases hoverdue : found.Overdue session.clock
    · rw [expire_fst_of_overdue hoverdue] at hcases
      rcases hcases with hoverrun | ⟨hagain, _⟩
      · exact .inr ⟨hoverdue.mono hlater, hoverrun⟩
      · cases hagain.unended
    · rwa [expire_of_in_time hfound hoverdue] at hcases

theorem poll_late (id : Bytes) (timeout : Int) (remaining : Nat) (found : JobRecord)
    (session : Session)
    (hlate : (poll id timeout remaining found session).1 = .error (.jobTimeout id timeout)) :
    ∃ last, (poll id timeout remaining found session).2.record? id = some last ∧
      ¬ last.Overdue (poll id timeout remaining found session).2.clock := by
  refine poll_induction (motive := fun _ _ told => told.1 = .error (.jobTimeout id timeout) →
    ∃ last, told.2.record? id = some last ∧ ¬ last.Overdue told.2.clock) (fun _ _ _ _ => nofun)
    (fun _ _ => nofun) ?_ (fun _ _ _ _ htold => htold) remaining found session hlate
  intro found session _
  exact ⟨_, expire_record? session id found, found.expire_not_overdue session.clock⟩

theorem result_late (hfound : session.record? id = some found) {timeout : Int}
    (hlate : (session.result id timeout).1 = .error (.jobTimeout id timeout)) :
    ∃ last, (session.result id timeout).2.record? id = some last ∧
      ¬ last.Overdue (session.result id timeout).2.clock := by
  revert hlate
  simp only [result, hfound]
  split
  · split
    · intro hlate
      cases hlate
    · exact poll_late _ _ _ _ _
  · exact poll_late _ _ _ _ _

theorem submit_fresh {definition : Definition} {input : Bytes} {options : Options}
    (hdisturbs : (Command.submit definition input options).Disturbs id)
    (hrecord : (session.submit definition input options).2.record? id = some record) :
    record.manifest = definition.manifest input options ∧ record.started = session.clock ∧
      Submitted definition input record := by
  have hsubmitted := submitted_of_disturbs hdisturbs hrecord
  obtain ⟨hid, hvalid⟩ := hdisturbs
  have hmanifest := definition.validate.value.toManifest_of_valid hvalid input
  rw [Definition.validate_manifest] at hmanifest
  have hsame : (definition.manifest input options).id = id := hid
  generalize definition.manifest input options = manifest at hmanifest hsame ⊢
  simp only [submit_of_accepted hmanifest, hsame, assign_record?] at hrecord
  have hlaid : ∀ {announced : JobRecord} {accepted : Bool} {outcome},
      (if accepted then announced.assigned else (announced.concludeLocally outcome).value) = record →
      record.manifest = announced.manifest ∧ record.started = announced.started := by
    rintro announced accepted outcome rfl
    cases accepted with
    | true => exact ⟨rfl, rfl⟩
    | false => exact concludeLocally_kept announced outcome
  obtain ⟨hlaid, hstarted⟩ := hlaid (Option.some.inj hrecord)
  exact ⟨hlaid, hstarted, hsubmitted⟩

/-- The step forgets the job, or submits it anew under options that are taken. -/
def Command.Supersedes (id : Bytes) : Command → Prop
  | submit definition input options => Identity.make definition.name input = id ∧ options.Valid
  | cleanup other => other = id
  | _ => False

theorem perform_kept {command : Command} (hfound : session.record? id = some found)
    (hkept : ¬ command.Supersedes id) :
    ∃ after, (session.perform command).record? id = some after ∧ History id found after := by
  by_cases hreplaces : command.Replaces id
  · cases command with
    | submit definition input options =>
      exact ⟨found, (submit_record?_of_undisturbed hkept).trans hfound, .refl⟩
    | cleanup other => exact (hkept hreplaces).elim
    | _ => exact hreplaces.elim
  · exact perform_history hfound hreplaces

theorem perform_stands {command : Command}
    (hrecord : (session.perform command).record? id = some record)
    (hkept : ¬ command.Supersedes id) :
    ∃ found, session.record? id = some found ∧ History id found record := by
  cases hfound : session.record? id with
  | none =>
    by_cases hreplaces : command.Replaces id
    · cases command with
      | submit definition input options =>
        rw [perform, submit_record?_of_undisturbed hkept, hfound] at hrecord
        cases hrecord
      | cleanup other => exact (hkept hreplaces).elim
      | _ => exact hreplaces.elim
    · rw [perform_absent hfound hreplaces] at hrecord
      cases hrecord
  | some found =>
    obtain ⟨after, hafter, hhistory⟩ := perform_kept hfound hkept
    cases Option.some.inj (hafter.symm.trans hrecord)
    exact ⟨found, rfl, hhistory⟩

theorem run_kept {commands : List Command} (hfound : session.record? id = some found)
    (hkept : ∀ command ∈ commands, ¬ command.Supersedes id) :
    ∃ after, (session.run commands).record? id = some after ∧ History id found after :=
  run_follows (fun _ _ _ => perform_kept) hfound hkept

/-- The job was submitted at the given instant under the given options, and has neither been submitted
anew nor forgotten since. -/
def SubmittedAt (session : Session) (id : Bytes) (options : Options) (instant : Nat) : Prop :=
  ∃ (earlier : Session) (definition : Definition) (input : Bytes) (commands : List Command),
    earlier.Reachable ∧ earlier.clock = instant ∧ options.Valid ∧
    Identity.make definition.name input = id ∧
    (∀ command ∈ commands, ¬ command.Supersedes id) ∧
    session = (earlier.submit definition input options).2.run commands

/-- Every record tells when its job was submitted, and under which options. -/
theorem Reachable.submittedAt (hreach : session.Reachable)
    (hrecord : session.record? id = some record) :
    session.SubmittedAt id record.manifest.options record.started := by
  induction hreach generalizing record with
  | opened config env defaults => cases hrecord
  | @step session hreach command ih =>
    by_cases hsupersedes : command.Supersedes id
    · cases command with
      | submit definition input options =>
        obtain ⟨hmanifest, hstarted, _⟩ := submit_fresh hsupersedes hrecord
        rw [hmanifest, hstarted]
        obtain ⟨hid, hvalid⟩ := hsupersedes
        exact ⟨session, definition, input, [], hreach, rfl, hvalid, hid, nofun, rfl⟩
      | cleanup other =>
        cases hsupersedes
        cases (cleanup_record? session _).symm.trans hrecord
      | _ => exact hsupersedes.elim
    · obtain ⟨found, hfound, hhistory⟩ := perform_stands hrecord hsupersedes
      obtain ⟨earlier, definition, input, commands, hearlier, hinstant, hvalid, hid, hkept, hrun⟩ :=
        ih hfound
      obtain ⟨hmanifest, hstarted, _⟩ := hhistory.kept
      rw [hmanifest, hstarted]
      refine ⟨earlier, definition, input, commands ++ [command], hearlier, hinstant, hvalid, hid, ?_, ?_⟩
      · intro other hmem
        rcases List.mem_append.mp hmem with hmem | hmem
        · exact hkept other hmem
        · rw [List.mem_singleton.mp hmem]
          exact hsupersedes
      · rw [run_concat, ← hrun]

def Command.LooksAt (id : Bytes) : Command → Prop
  | status other | result other _ => other = id
  | _ => False

/-- A step after which a record says that its job took too long, where it did not before. -/
inductive Lapses (session : Session) (id : Bytes) (command : Command) (before : JobRecord) :
    JobRecord → Prop
  | exceeded (hlooks : command.LooksAt id)
    (hoverdue : before.Overdue (session.perform command).clock) :
    Lapses session id command before before.overrun
  /-- The node, asked where the job stands, has told so. -/
  | reported (told : JobStatus) (error : Bytes) (hasked : command = .status id)
    (htold : session.Tells id told) (hstatus : told.status = .timeout) :
    Lapses session id command before { before with status := .timeout, error }

theorem lapses_of_overdue {command : Command} (hlooks : command.LooksAt id)
    (hoverdue : found.Overdue session.clock)
    (hlook : session.perform command = (session.expire id found).2)
    (hafter : (session.perform command).record? id = some after) :
    session.Lapses id command found after := by
  have hsame := @expire_record?_of_overdue session id found hoverdue
  rw [← hlook, hafter] at hsame
  cases hsame
  refine .exceeded hlooks ?_
  rw [hlook]
  exact hoverdue

theorem status_lapses (hsteady : session.Steady) (hfound : session.record? id = some found)
    (hafter : (session.status id).2.record? id = some after) (htimeout : after.status = .timeout) :
    after = found ∨ session.Lapses id (.status id) found after := by
  by_cases hoverdue : found.Overdue session.clock
  · have hlook : session.perform (.status id) = (session.expire id found).2 :=
      congrArg Prod.snd (status_of_overdue hfound hoverdue)
    exact .inr (lapses_of_overdue rfl hoverdue hlook hafter)
  · have hanswer := @ask_jobStatus_iff session id hsteady
    simp only [status, hfound, expire_of_in_time hfound hoverdue] at hafter
    split at hafter
    · cases hreply : (session.ask (Query.jobStatus id)).1 with
      | none =>
        rw [hreply] at hafter
        exact .inl (Option.some.inj (hafter.symm.trans hfound))
      | some told =>
        rw [hreply] at hafter
        have hput := (SortedMap.get?_insert_self _ _ _).symm.trans hafter
        cases Option.some.inj hput
        have hstatus : told.status = .timeout := htimeout
        rw [hstatus]
        exact .inr (.reported told _ rfl (hanswer.mp hreply) hstatus)
    · exact .inl (Option.some.inj (hafter.symm.trans hfound))

theorem result_of_in_time (hfound : session.record? id = some found)
    (hintime : ¬ found.Overdue session.clock) (timeout : Int) :
    (∃ data name, (session.result id timeout).2.record? id = some (found.received data name)) ∨
      ∃ remaining waiting, waiting.record? id = some found ∧
        session.result id timeout = poll id timeout remaining found waiting := by
  simp only [result, hfound, expire_of_in_time hfound hintime]
  split
  · split
    · next data _ => exact .inl ⟨data, _, SortedMap.get?_insert_self _ _ _⟩
    · refine .inr ⟨_, _, ?_, rfl⟩
      exact hfound
  · exact .inr ⟨_, session, hfound, rfl⟩

theorem result_lapses (hfound : session.record? id = some found) {timeout : Int}
    (hafter : (session.result id timeout).2.record? id = some after)
    (htimeout : after.status = .timeout) :
    after = found ∨ session.Lapses id (.result id timeout) found after := by
  by_cases hoverdue : found.Overdue session.clock
  · have hlook : session.perform (.result id timeout) = (session.expire id found).2 :=
      congrArg Prod.snd (result_of_overdue hfound hoverdue timeout)
    exact .inr (lapses_of_overdue rfl hoverdue hlook hafter)
  · rcases result_of_in_time hfound hoverdue timeout with
      ⟨data, name, hreceived⟩ | ⟨remaining, waiting, hwaiting, hpoll⟩
    · cases Option.some.inj (hreceived.symm.trans hafter)
      cases htimeout
    · obtain ⟨_, hcases⟩ := poll_record?_cases id timeout remaining found waiting hwaiting
      rw [← hpoll] at hcases
      rcases hcases with hsame | ⟨hlate, hoverrun⟩
      · exact .inl (Option.some.inj (hafter.symm.trans hsame))
      · cases Option.some.inj (hoverrun.symm.trans hafter)
        exact .inr (.exceeded rfl hlate)

/-- A record that says after a step that its job took too long has said so before, or it lapses by the
step. -/
theorem perform_lapses (hsteady : session.Steady) {command : Command}
    (hafter : (session.perform command).record? id = some after)
    (htimeout : after.status = .timeout) :
    ∃ before, session.record? id = some before ∧
      (after = before ∨ before.status ≠ .timeout ∧ session.Lapses id command before after) := by
  rcases perform_record? hafter with ⟨found, hfound, hhistory⟩ | ⟨_, _, _, hsubmitted⟩
  · refine ⟨found, hfound, ?_⟩
    by_cases hbefore : found.status = .timeout
    · rcases hhistory.of_ended (by rw [hbefore]; rfl) with hsame | rfl
      · exact .inl hsame
      · cases htimeout
    · suffices hlapses : after = found ∨ session.Lapses id command found after from
        hlapses.imp_right fun h => ⟨hbefore, h⟩
      have hunchanged : (session.perform command).record? id = session.record? id → after = found :=
        fun hsame => Option.some.inj (hafter.symm.trans (hsame.trans hfound))
      cases command with
      | connect | disconnect | capacity | connectTo | call | pass | lay => exact .inl (hunchanged rfl)
      | submit definition input options =>
        by_cases hdisturbs : (Command.submit definition input options).Disturbs id
        · exact ((submit_fresh hdisturbs hafter).2.2.status_ne_timeout htimeout).elim
        · exact .inl (hunchanged (submit_record?_of_undisturbed hdisturbs))
      | status other =>
        by_cases hother : other = id
        · subst hother
          exact status_lapses hsteady hfound hafter htimeout
        · exact .inl (hunchanged (status_record?_of_ne session hother))
      | result other timeout =>
        by_cases hother : other = id
        · subst hother
          exact result_lapses hfound hafter htimeout
        · exact .inl (hunchanged (result_record?_of_ne session hother timeout))
      | cancel other =>
        by_cases hother : other = id
        · subst hother
          cases Option.some.inj ((cancel_record? hfound).symm.trans hafter)
          cases htimeout
        · exact .inl (hunchanged (cancel_record?_of_ne session hother))
      | cleanup other =>
        by_cases hother : other = id
        · subst hother
          cases (cleanup_record? session _).symm.trans hafter
        · exact .inl (hunchanged (cleanup_record?_of_ne session hother))
  · exact (hsubmitted.status_ne_timeout htimeout).elim

/-- The record has come to say that its job took too long by a step of an earlier session. -/
def TimedOut (session : Session) (id : Bytes) (record : JobRecord) : Prop :=
  ∃ (earlier : Session) (command : Command) (before : JobRecord) (commands : List Command),
    earlier.Reachable ∧ earlier.record? id = some before ∧ before.status ≠ .timeout ∧
    earlier.Lapses id command before record ∧ session = (earlier.perform command).run commands

theorem Reachable.timedOut (hreach : session.Reachable)
    (hrecord : session.record? id = some record) (htimeout : record.status = .timeout) :
    session.TimedOut id record := by
  induction hreach with
  | opened config env defaults => cases hrecord
  | @step session hreach command ih =>
    obtain ⟨before, hbefore, hcases⟩ := perform_lapses hreach.steady hrecord htimeout
    rcases hcases with rfl | ⟨hother, hlapses⟩
    · obtain ⟨earlier, cause, first, commands, hearlier, hfirst, hother, hlapses, hrun⟩ := ih hbefore
      refine ⟨earlier, cause, first, commands ++ [command], hearlier, hfirst, hother, hlapses, ?_⟩
      rw [run_concat, ← hrun]
    · exact ⟨session, command, before, [], hreach, hbefore, hother, hlapses, rfl⟩

/-- A job that was run here never comes to have taken too long, however long it took. -/
theorem run_here_status_ne (hreach : session.Reachable) (hrecord : session.record? id = some record)
    (hlocal : record.remote = false) {commands : List Command}
    (hkept : ∀ command ∈ commands, ¬ command.Supersedes id) :
    ∃ after, (session.run commands).record? id = some after ∧ after.status ≠ .timeout := by
  obtain ⟨after, hafter, hhistory⟩ := run_kept hrecord hkept
  refine ⟨after, hafter, fun htimeout => ?_⟩
  have hremote := (((hreach.run commands).sound hafter).overdue htimeout).1
  rw [hhistory.kept.2.2, hlocal] at hremote
  cases hremote

/-- Expiry is neither early nor missed. Every record tells when its job was submitted. Every look at the
record, in asking where the job stands, in asking for its result, or while waiting for it, finds out
whether the job is overdue: then the record says so in words that name the time allowed, both questions
are answered by that at once and nothing is sent. A look at a job that is not overdue changes nothing. A
wait does not end for want of time while the job is overdue. A record says that its job took too long only
if the job was overdue at some look or the node has told so, and never if the job was run here. -/
theorem expiry_exact (hreach : session.Reachable) (hrecord : session.record? id = some record) :
    session.SubmittedAt id record.manifest.options record.started ∧
      (∀ current : Session, current.record? id = some record → record.Overdue current.clock →
        ∃ after text,
          text = utf8 "Job exceeded its timeout of "
            ++ Bytes.decimal record.manifest.options.timeoutSeconds.toNat ++ utf8 " s" ∧
          after.record? id = some { record with status := .timeout, error := text } ∧
          after.requests = current.requests ∧ after.clock = current.clock ∧
          (∃ report, current.status id = (.ok report, after) ∧ report.status = .timeout ∧
            report.error = text) ∧
          (∀ timeout, current.result id timeout = (.error (.jobFailed text), after)) ∧
          ∀ timeout remaining, poll id timeout remaining record current =
            (.error (.jobFailed text), after)) ∧
      (∀ current : Session, current.record? id = some record → ¬ record.Overdue current.clock →
        current.expire id record = (record, current)) ∧
      (∀ timeout, (session.result id timeout).1 = .error (.jobTimeout id timeout) →
        ∃ last, (session.result id timeout).2.record? id = some last ∧
          ¬ last.Overdue (session.result id timeout).2.clock) ∧
      (record.status = .timeout → session.TimedOut id record) ∧
      (record.remote = false → ∀ commands : List Command,
        (∀ command ∈ commands, ¬ command.Supersedes id) →
        ∃ after, (session.run commands).record? id = some after ∧ after.status ≠ .timeout) := by
  refine ⟨hreach.submittedAt hrecord, ?_, fun current hcurrent => expire_of_in_time hcurrent,
    fun timeout => result_late hrecord, hreach.timedOut hrecord,
    fun hlocal commands => run_here_status_ne hreach hrecord hlocal⟩
  intro current hcurrent hoverdue
  exact ⟨(current.expire id record).2, record.overdueText, rfl, expire_record?_of_overdue hoverdue,
    rfl, rfl,
    ⟨_, status_of_overdue hcurrent hoverdue, rfl, rfl⟩, result_of_overdue hcurrent hoverdue,
    poll_of_overdue hoverdue⟩

/-- A session that is connected to a node that takes the next job on, and then falls silent. -/
def welcomed : Session :=
  (ofConfig {} { scripts := [
    { conduct := .answer 200 (utf8 "\x7b\"service\":\"node\",\"nodeId\":7\x7d") },
    { conduct := .answer 200 (utf8 "\x7b\"success\":true\x7d") },
    { conduct := .silence }] }).connect.2

def hasty : Options := { timeoutSeconds := 1 }

theorem hasty_valid : hasty.Valid := ⟨by decide, .fixedSize, rfl⟩

theorem welcomed_accepts : welcomed.Accepts (plainJob.manifest [97] hasty) where
  connected := rfl
  brief := rfl
  writable := Json.exists_dump_iff.mpr (by decide +kernel)
  replied := ⟨_, _, rfl, rfl, rfl⟩

/-- The node has taken a job on that may take one second. After three it is asked for the result. -/
theorem expiry_exact_overdue :
    ∃ (session : Session) (id : Bytes) (record : JobRecord), session.Reachable ∧
      session.record? id = some record ∧ record.Overdue session.clock ∧
      ∃ after, session.result id 60000 =
          (.error (.jobFailed (utf8 "Job exceeded its timeout of 1 s")), after) ∧
        after.requests = session.requests := by
  have hreach : welcomed.Reachable := (Reachable.ofConfig {} _).step .connect
  have hlater := (hreach.step (.submit plainJob [97] hasty)).step (.pass 3000)
  have hbegun : welcomed.clock = 0 := by decide +kernel
  have hpassed : ((welcomed.submit plainJob [97] hasty).2.sleep 3000).clock = 3000 := by
    decide +kernel
  have hmanifest := plainJob.validate.value.toManifest_of_valid hasty_valid [97]
  rw [Definition.validate_manifest] at hmanifest
  have haccepts := welcomed_accepts
  have hallowed : (plainJob.manifest [97] hasty).options.timeoutSeconds = 1 := rfl
  generalize plainJob.manifest [97] hasty = manifest at hmanifest haccepts hallowed
  obtain ⟨asked, answer, hsubmit, hanswer, _⟩ := submit_of_steady hreach.steady hmanifest
  let record := (announced plainJob [97] manifest welcomed.clock).assigned
  have hassigned := assign_record? asked manifest.id
    (announced plainJob [97] manifest welcomed.clock) answer
  rw [if_pos (hanswer.mpr haccepts)] at hassigned
  rw [perform, perform, hsubmit] at hlater
  rw [hsubmit] at hpassed
  generalize asked.assign manifest.id (announced plainJob [97] manifest welcomed.clock) answer =
    submitted at hlater hpassed hassigned
  have hrecord : (submitted.sleep 3000).record? manifest.id = some record := hassigned
  have hoverdue : record.Overdue (submitted.sleep 3000).clock := by
    refine ⟨rfl, ?_, ?_⟩
    · change manifest.options.timeoutSeconds ≠ 0
      rw [hallowed]
      decide
    · change welcomed.clock + 1000 * manifest.options.timeoutSeconds.toNat < _
      rw [hbegun, hallowed, hpassed]
      decide
  obtain ⟨_, hlooks, _⟩ := expiry_exact hlater hrecord
  obtain ⟨after, text, htext, _, hrequests, _, _, hresult, _⟩ := hlooks _ hrecord hoverdue
  have hwords : text = utf8 "Job exceeded its timeout of 1 s" := by
    rw [htext, show record.manifest = manifest from rfl, hallowed]
    decide +kernel
  refine ⟨_, _, record, hlater, hrecord, hoverdue, after, ?_, hrequests⟩
  rw [hresult, hwords]

end Session

end Offload
