import Mathlib.Logic.Relation
import Offload.Proofs.Job.Definition
import Offload.Proofs.Session.Run

namespace Offload

namespace JobRecord

/-- The record of a job that has been announced and not yet handed to anybody. -/
def announced (definition : Definition) (input : Bytes) (manifest : Manifest) (started : Nat) :
    JobRecord :=
  { manifest, input, definition := definition.validate.value, started }

def assigned (record : JobRecord) : JobRecord := { record with remote := true, status := .assigned }

def withdrawn (record : JobRecord) (id : Bytes) : JobRecord :=
  { record with status := .cancelled, error := Session.jobText id " was cancelled" }

/-- One change of the record of a tracked job. -/
inductive Change (id : Bytes) : JobRecord → JobRecord → Prop
  | expired (record : JobRecord) (clock : Nat) (hoverdue : record.isOverdue clock = true) :
    Change id record { record with status := .timeout, error := record.overdueText }
  | reported (record : JobRecord) (status : Status) (error : Bytes) (hremote : record.remote = true)
    (hopen : record.isSettled = false) : Change id record { record with status, error }
  | fetched (record : JobRecord) (result worker : Bytes) (hremote : record.remote = true)
    (hopen : record.isSettled = false) (hworker : worker ≠ []) :
    Change id record { record with result, worker, status := .completed }
  | withdrawn (record : JobRecord) : Change id record (record.withdrawn id)

/-- Any number of changes, one after the other. -/
abbrev History (id : Bytes) : JobRecord → JobRecord → Prop := Relation.ReflTransGen (Change id)

/-- A record right after the submission of its job: the node has it, or it has been run here. -/
inductive Submitted (definition : Definition) (input : Bytes) : JobRecord → Prop
  | assigned (manifest : Manifest) (options : Options) (started : Nat)
    (hmanifest : definition.validate.value.toManifest input options = .ok manifest) :
    Submitted definition input (announced definition input manifest started).assigned
  | concluded (manifest : Manifest) (options : Options) (started : Nat)
    (hmanifest : definition.validate.value.toManifest input options = .ok manifest)
    (outcome : Except Failure (List Bytes × Bytes)) :
    Submitted definition input
      ((announced definition input manifest started).concludeLocally outcome).value

theorem localWorker_ne : localWorker ≠ [] := by decide

theorem expire_history (id : Bytes) (record : JobRecord) (clock : Nat) :
    History id record (record.expire clock).value := by
  unfold expire
  split
  · next hoverdue => exact .single (.expired record clock hoverdue)
  · exact .refl

end JobRecord

namespace Session

open JobRecord

theorem expire_record? (session : Session) (id : Bytes) (record : JobRecord) :
    (session.expire id record).2.record? id = some (session.expire id record).1 :=
  SortedMap.get?_insert_self _ _ _

theorem status_history {session : Session} {id : Bytes} {found : JobRecord}
    (hfound : session.record? id = some found) :
    ∃ record, (session.status id).2.record? id = some record ∧ History id found record := by
  have hexpired : History id found (session.expire id found).1 :=
    expire_history id found session.clock
  have hkept := expire_record? session id found
  simp only [status, hfound]
  split
  · next hask =>
    split
    · next remote _ =>
      refine ⟨_, SortedMap.get?_insert_self _ _ _, hexpired.tail ?_⟩
      exact .reported _ remote.status _ hask.1 hask.2
    · exact ⟨_, hkept, hexpired⟩
  · exact ⟨_, hkept, hexpired⟩

theorem poll_eq (id : Bytes) (timeout : Int) (remaining : Nat) (found : JobRecord)
    (session : Session) :
    poll id timeout remaining found session =
      if (session.expire id found).1.status = .completed ∧ (session.expire id found).1.worker ≠ [] then
        (.ok ⟨(session.expire id found).1.result, (session.expire id found).1.worker⟩,
          (session.expire id found).2)
      else if (session.expire id found).1.status.endedWithoutResult then
        (.error (.jobFailed ((session.expire id found).1.endText id)), (session.expire id found).2)
      else if remaining = 0 then (.error (.jobTimeout id timeout), (session.expire id found).2)
      else
        poll id timeout (remaining - min pollInterval remaining) (session.expire id found).1
          ((session.expire id found).2.sleep (min pollInterval remaining)) := by
  rw [poll]
  simp only [dite_eq_ite]

/-- What holds wherever the wait for a result can end, and of a wait if it holds of what is left of it after
one look at the record, holds of every wait. -/
theorem poll_induction {id : Bytes} {timeout : Int}
    {motive : JobRecord → Session → Except Failure JobResult × Session → Prop}
    (hdelivered : ∀ record session, (session.expire id record).1.status = .completed →
      (session.expire id record).1.worker ≠ [] → motive record session
        (.ok ⟨(session.expire id record).1.result, (session.expire id record).1.worker⟩,
          (session.expire id record).2))
    (hfailed : ∀ record session, motive record session
      (.error (.jobFailed ((session.expire id record).1.endText id)), (session.expire id record).2))
    (hoverdue : ∀ record session, motive record session
      (.error (.jobTimeout id timeout), (session.expire id record).2))
    (hagain : ∀ record session milliseconds told, motive (session.expire id record).1
      ((session.expire id record).2.sleep milliseconds) told → motive record session told)
    (remaining : Nat) (record : JobRecord) (session : Session) :
    motive record session (poll id timeout remaining record session) := by
  induction remaining using Nat.strongRecOn generalizing record session with
  | _ remaining ih =>
    rw [poll_eq]
    split
    · next hthere => exact hdelivered record session hthere.1 hthere.2
    · split
      · exact hfailed record session
      · split
        · exact hoverdue record session
        · next hrest =>
          refine hagain record session _ _ (ih _ ?_ _ _)
          simp only [pollInterval]
          omega

theorem poll_history (id : Bytes) (timeout : Int) (remaining : Nat) (found : JobRecord)
    (session : Session) :
    ∃ record, (poll id timeout remaining found session).2.record? id = some record ∧
      History id found record := by
  have hended : ∀ (found : JobRecord) (session : Session),
      ∃ record, (session.expire id found).2.record? id = some record ∧ History id found record :=
    fun found session => ⟨_, expire_record? session id found, expire_history id found session.clock⟩
  refine poll_induction (motive := fun found _ told => ∃ record, told.2.record? id = some record ∧
    History id found record) ?_ hended hended ?_ remaining found session
  · intro found session _ _
    exact hended found session
  · rintro found session _ told ⟨record, hget, hhistory⟩
    exact ⟨record, hget, (expire_history id found session.clock).trans hhistory⟩

theorem result_history {session : Session} {id : Bytes} {found : JobRecord} (timeout : Int)
    (hfound : session.record? id = some found) :
    ∃ record, (session.result id timeout).2.record? id = some record ∧ History id found record := by
  have hexpired : History id found (session.expire id found).1 :=
    expire_history id found session.clock
  simp only [result, hfound]
  split
  · next hask =>
    split
    · next data _ =>
      refine ⟨_, SortedMap.get?_insert_self _ _ _, hexpired.tail ?_⟩
      refine .fetched _ data _ hask.1 hask.2 ?_
      split
      · decide
      · next hworker => exact hworker
    · obtain ⟨record, hget, hhistory⟩ := poll_history id timeout _ (session.expire id found).1 _
      exact ⟨record, hget, hexpired.trans hhistory⟩
  · obtain ⟨record, hget, hhistory⟩ := poll_history id timeout _ (session.expire id found).1 _
    exact ⟨record, hget, hexpired.trans hhistory⟩

theorem cancel_record? {session : Session} {id : Bytes} {found : JobRecord}
    (hfound : session.record? id = some found) :
    (session.cancel id).2.record? id = some (found.withdrawn id) := by
  simp only [cancel, hfound]
  exact SortedMap.get?_insert_self _ _ _

theorem cleanup_record? (session : Session) (id : Bytes) :
    (session.cleanup id).2.record? id = none := by
  simp [cleanup, record?, SortedMap.get?_erase]

theorem assign_record? (session : Session) (id : Bytes) (record : JobRecord)
    (answer : Bool × Bytes) :
    (session.assign id record answer).record? id =
      some (if answer.1 then record.assigned
        else (record.concludeLocally record.work.outcome).value) := by
  unfold assign
  split
  · exact SortedMap.get?_insert_self _ _ _
  · exact SortedMap.get?_insert_self _ _ _

theorem submit_of_refused {session : Session} {definition : Definition} {input : Bytes}
    {options : Options} {failure : Failure}
    (hrefused : definition.validate.value.toManifest input options = .error failure) :
    session.submit definition input options =
      (.error failure, session.logAll definition.validate.entries) := by
  simp only [submit, hrefused]

/-- The session that has announced a job and is about to ask the node to take it on. -/
def announce (session : Session) (definition : Definition) (input : Bytes) (manifest : Manifest) :
    Session :=
  ((session.logAll definition.validate.entries).log (.info (utf8 "Submitting job " ++ manifest.id
    ++ utf8 " (" ++ definition.name ++ utf8 ", " ++ Bytes.decimal input.length
    ++ utf8 " bytes)"))).put manifest.id
      (announced definition input manifest session.clock)

theorem submit_of_accepted {session : Session} {definition : Definition} {input : Bytes}
    {options : Options} {manifest : Manifest}
    (hmanifest : definition.validate.value.toManifest input options = .ok manifest) :
    session.submit definition input options =
      (.ok manifest.id,
        ((session.announce definition input manifest).ask (Query.submitJob manifest)).2.assign
          manifest.id (announced definition input manifest session.clock)
          ((session.announce definition input manifest).ask (Query.submitJob manifest)).1) := by
  simp only [submit, hmanifest, announce, announced]

theorem submit_record? (session : Session) {definition : Definition} {input : Bytes}
    {options : Options} {manifest : Manifest}
    (hmanifest : definition.validate.value.toManifest input options = .ok manifest) :
    ∃ record, (session.submit definition input options).2.record? manifest.id = some record ∧
      Submitted definition input record := by
  simp only [submit_of_accepted hmanifest, assign_record?]
  refine ⟨_, rfl, ?_⟩
  split
  · exact .assigned manifest options session.clock hmanifest
  · exact .concluded manifest options session.clock hmanifest _

section Others

variable (session : Session) {id other : Bytes} (hne : id ≠ other)

include hne

theorem put_record?_of_ne (record : JobRecord) :
    (session.put id record).record? other = session.record? other :=
  SortedMap.get?_insert_of_ne _ hne _

theorem expire_record?_of_ne (record : JobRecord) :
    (session.expire id record).2.record? other = session.record? other :=
  put_record?_of_ne session hne _

theorem status_record?_of_ne : (session.status id).2.record? other = session.record? other := by
  unfold status
  split
  · have hasked : (session.ask (Query.jobStatus id)).2.record? other = session.record? other := rfl
    simp only
    split <;> exact hasked
  · next found _ =>
    have hexpired := expire_record?_of_ne session hne found
    simp only
    split
    · split
      · rw [← hexpired]
        exact put_record?_of_ne _ hne _
      · exact hexpired
    · exact hexpired

theorem poll_record?_of_ne (timeout : Int) (remaining : Nat) (record : JobRecord) :
    (poll id timeout remaining record session).2.record? other = session.record? other := by
  have hended : ∀ (record : JobRecord) (session : Session),
      (session.expire id record).2.record? other = session.record? other :=
    fun record session => expire_record?_of_ne session hne record
  refine poll_induction (motive := fun _ session told => told.2.record? other = session.record? other)
    ?_ hended hended ?_ remaining record session
  · intro record session _ _
    exact hended record session
  · intro record session _ told htold
    exact htold.trans (hended record session)

theorem result_record?_of_ne (timeout : Int) :
    (session.result id timeout).2.record? other = session.record? other := by
  unfold result
  split
  · rfl
  · next found _ =>
    have hexpired := expire_record?_of_ne session hne found
    simp only
    split
    · split
      · rw [← hexpired]
        exact put_record?_of_ne _ hne _
      · rw [poll_record?_of_ne _ hne]
        exact hexpired
    · rw [poll_record?_of_ne _ hne]
      exact hexpired

theorem cancel_record?_of_ne : (session.cancel id).2.record? other = session.record? other := by
  unfold cancel
  split
  · rfl
  · next found _ =>
    simp only
    rw [put_record?_of_ne _ hne]
    split <;> rfl

theorem cleanup_record?_of_ne : (session.cleanup id).2.record? other = session.record? other := by
  simp [cleanup, record?, SortedMap.get?_erase, hne]

theorem assign_record?_of_ne (record : JobRecord) (answer : Bool × Bytes) :
    (session.assign id record answer).record? other = session.record? other := by
  unfold assign
  split
  · simp only
    refine (put_record?_of_ne _ hne _).trans ?_
    split <;> rfl
  · exact put_record?_of_ne _ hne _

end Others

theorem submit_record?_of_ne (session : Session) {definition : Definition} {input other : Bytes}
    (options : Options) (hne : Identity.make definition.name input ≠ other) :
    (session.submit definition input options).2.record? other = session.record? other := by
  cases hmanifest : definition.validate.value.toManifest input options with
  | error failure =>
    rw [submit_of_refused hmanifest]
    rfl
  | ok manifest =>
    have hid : manifest.id = Identity.make definition.name input := by
      rw [((Definition.toManifest_eq_ok_iff _).mp hmanifest).2, Definition.validate_manifest]
      rfl
    rw [← hid] at hne
    simp only [submit_of_accepted hmanifest]
    rw [assign_record?_of_ne _ hne, ask_record?, announce, put_record?_of_ne _ hne]
    rfl

variable {session : Session} {command : Command} {id : Bytes}

/-- A step that neither submits nor forgets a tracked job takes its record along a history. -/
theorem perform_history {found : JobRecord} (hfound : session.record? id = some found)
    (hkept : ¬ command.Replaces id) :
    ∃ record, (session.perform command).record? id = some record ∧ History id found record := by
  have hsame : ∀ after : Session, after.record? id = session.record? id →
      ∃ record, after.record? id = some record ∧ History id found record :=
    fun after hafter => ⟨found, hafter.trans hfound, .refl⟩
  cases command with
  | connect | disconnect | capacity | connectTo | call | pass | lay => exact hsame _ rfl
  | submit definition input options =>
    exact hsame _ (submit_record?_of_ne session options hkept)
  | status other =>
    by_cases hother : other = id
    · subst hother
      exact status_history hfound
    · exact hsame _ (status_record?_of_ne session hother)
  | result other timeout =>
    by_cases hother : other = id
    · subst hother
      exact result_history timeout hfound
    · exact hsame _ (result_record?_of_ne session hother timeout)
  | cancel other =>
    by_cases hother : other = id
    · subst hother
      exact ⟨_, cancel_record? hfound, .single (.withdrawn found)⟩
    · exact hsame _ (cancel_record?_of_ne session hother)
  | cleanup other => exact hsame _ (cleanup_record?_of_ne session hkept)

/-- No operation but a submission makes a record. -/
theorem perform_absent (habsent : session.record? id = none) (hkept : ¬ command.Replaces id) :
    (session.perform command).record? id = none := by
  cases command with
  | connect | disconnect | capacity | connectTo | call | pass | lay => exact habsent
  | submit definition input options =>
    exact (submit_record?_of_ne session options hkept).trans habsent
  | status other =>
    by_cases hother : other = id
    · subst hother
      have hasked : (session.ask (Query.jobStatus other)).2.record? other = none := habsent
      simp only [perform, status, habsent]
      split <;> exact hasked
    · exact (status_record?_of_ne session hother).trans habsent
  | result other timeout =>
    by_cases hother : other = id
    · subst hother
      simp only [perform, result, habsent]
    · exact (result_record?_of_ne session hother timeout).trans habsent
  | cancel other =>
    by_cases hother : other = id
    · subst hother
      simp only [perform, cancel, habsent]
      exact habsent
    · exact (cancel_record?_of_ne session hother).trans habsent
  | cleanup other => exact (cleanup_record?_of_ne session hkept).trans habsent

/-- A record that stands after a step either continues one that stood before, or its job has just been
submitted. -/
theorem perform_record? {record : JobRecord}
    (hrecord : (session.perform command).record? id = some record) :
    (∃ found, session.record? id = some found ∧ History id found record) ∨
      ∃ definition input, Identity.make definition.name input = id ∧
        Submitted definition input record := by
  by_cases hreplaces : command.Replaces id
  · cases command with
    | submit definition input options =>
      cases hmanifest : definition.validate.value.toManifest input options with
      | error failure =>
        simp only [perform, submit_of_refused hmanifest] at hrecord
        exact .inl ⟨record, hrecord, .refl⟩
      | ok manifest =>
        have hid : manifest.id = id := by
          rw [((Definition.toManifest_eq_ok_iff _).mp hmanifest).2, Definition.validate_manifest]
          exact hreplaces
        obtain ⟨fresh, hfresh, hsubmitted⟩ := submit_record? session hmanifest
        rw [hid] at hfresh
        have hsame : fresh = record := Option.some.inj (hfresh.symm.trans hrecord)
        exact .inr ⟨definition, input, hreplaces, hsame ▸ hsubmitted⟩
    | cleanup other =>
      cases hreplaces
      cases (cleanup_record? session _).symm.trans hrecord
    | _ => exact hreplaces.elim
  · cases hfound : session.record? id with
    | none =>
      rw [perform_absent hfound hreplaces] at hrecord
      cases hrecord
    | some found =>
      obtain ⟨after, hafter, hhistory⟩ := perform_history hfound hreplaces
      have hsame : after = record := Option.some.inj (hafter.symm.trans hrecord)
      exact .inl ⟨found, rfl, hsame ▸ hhistory⟩

end Session

end Offload
