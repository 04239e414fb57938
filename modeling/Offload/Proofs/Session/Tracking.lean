import Mathlib.Data.List.Basic
import Mathlib.Data.List.Induction
import Offload.Proofs.Json.Printer
import Offload.Proofs.Session.Submit

namespace Offload

namespace Query

theorem jobStatus_wellEncoded_iff {id : Bytes} :
    (jobStatus id).params.WellEncoded ↔ ∃ s, id = utf8 s := by
  have htexts : (jobStatus id).params.texts = [utf8 "jobId", id] := rfl
  simp only [Json.WellEncoded, htexts, List.forall_mem_cons]
  constructor
  · rintro ⟨_, hid, _⟩
    exact hid
  · intro hid
    exact ⟨⟨"jobId", rfl⟩, hid, nofun⟩

theorem jobStatus_answered {id : Bytes} {outcome : Except Failure Json} {status : JobStatus} :
    (jobStatus id).answered outcome = some status ↔
      ∃ reply members, outcome = .ok reply ∧ reply.get? (utf8 "status") = some (.object members) ∧
        (Wire.decode (.object members) : Except Failure JobStatus) = .ok status := by
  cases outcome with
  | error failure => simp [answered, jobStatus]
  | ok reply =>
    simp only [Except.ok.injEq, exists_eq_left', exists_and_left, answered, jobStatus]
    cases reply.get? (utf8 "status") with
    | none => simp
    | some value =>
      cases value with
      | object members =>
        cases hdecode : (Wire.decode (.object members) : Except Failure JobStatus) <;>
          simp [hdecode, Attempt.ofExcept, Except.map]
      | null | bool | int | float | string | array => simp

end Query

namespace Session

open JobRecord

/-- The step is a submission that returns the identity. -/
def Command.Returns (session : Session) (id : Bytes) : Command → Prop
  | submit definition input options => (session.submit definition input options).1 = .ok id
  | _ => False

def Command.Removes (session : Session) (id : Bytes) : Command → Prop
  | cleanup other => other = id ∧ (session.cleanup other).1 = true
  | _ => False

/-- The step is an operation on the job of this identity. -/
def Command.Concerns (id : Bytes) : Command → Prop
  | submit definition input _ => Identity.make definition.name input = id
  | status other | result other _ | cancel other | cleanup other => other = id
  | _ => False

/-- A submission of the run has returned the identity, and no later clean-up of it has succeeded. -/
def Tracks (start : Session) (commands : List Command) (id : Bytes) : Prop :=
  ∃ before submission after, commands = before ++ submission :: after ∧
    submission.Returns (start.run before) id ∧
    ∀ between later rest, after = between ++ later :: rest →
      ¬ later.Removes (start.run (before ++ submission :: between)) id

variable {session : Session} {id : Bytes}

theorem mem_list_iff : id ∈ session.list ↔ (session.record? id).isSome = true :=
  SortedMap.mem_keys_iff

theorem submit_of_valid (session : Session) (definition : Definition) (input : Bytes)
    {options : Options} (hvalid : options.Valid) :
    ∃ after record, session.submit definition input options =
        (.ok (Identity.make definition.name input), after) ∧
      after.record? (Identity.make definition.name input) = some record := by
  have hmanifest := definition.validate.value.toManifest_of_valid hvalid input
  obtain ⟨record, hrecord, _⟩ := submit_record? session hmanifest
  have hid : (definition.validate.value.manifest input options).id =
      Identity.make definition.name input := by
    rw [Definition.validate_manifest]
    rfl
  rw [hid] at hrecord
  refine ⟨_, record, ?_, hrecord⟩
  rw [submit_of_accepted hmanifest, hid]

theorem submit_of_invalid (session : Session) (definition : Definition) (input : Bytes)
    {options : Options} (hinvalid : ¬ options.Valid) :
    ∃ failure, session.submit definition input options =
      (.error failure, session.logAll definition.validate.entries) := by
  exact ⟨options.objection,
    submit_of_refused (definition.validate.value.toManifest_of_invalid hinvalid input)⟩

theorem submit_fst_eq_ok_iff {definition : Definition} {input : Bytes} {options : Options} :
    (session.submit definition input options).1 = .ok id ↔
      options.Valid ∧ Identity.make definition.name input = id := by
  by_cases hvalid : options.Valid
  · obtain ⟨after, _, hsubmit, _⟩ := session.submit_of_valid definition input hvalid
    simp [hsubmit, hvalid]
  · obtain ⟨failure, hsubmit⟩ := session.submit_of_invalid definition input hvalid
    simp [hsubmit, hvalid]

theorem Command.replaces_of_returns {command : Command} (hreturns : command.Returns session id) :
    command.Replaces id := by
  cases command with
  | submit definition input options => exact (submit_fst_eq_ok_iff.mp hreturns).2
  | _ => exact hreturns.elim

theorem Command.replaces_of_removes {command : Command} (hremoves : command.Removes session id) :
    command.Replaces id := by
  cases command with
  | cleanup other => exact hremoves.1
  | _ => exact hremoves.elim

/-- A job is tracked after a step if the step has returned it, or if it was tracked before and the step
has not removed it. -/
theorem perform_tracked_iff {command : Command} :
    ((session.perform command).record? id).isSome = true ↔
      command.Returns session id ∨
        (session.record? id).isSome = true ∧ ¬ command.Removes session id := by
  by_cases hreplaces : command.Replaces id
  · cases command with
    | submit definition input options =>
      cases hreplaces
      simp only [perform, Command.Returns, Command.Removes, not_false_eq_true, and_true,
        submit_fst_eq_ok_iff]
      by_cases hvalid : options.Valid
      · obtain ⟨after, record, hsubmit, hrecord⟩ := session.submit_of_valid definition input hvalid
        simp [hsubmit, hrecord, hvalid]
      · obtain ⟨failure, hsubmit⟩ := session.submit_of_invalid definition input hvalid
        have hkept : (session.logAll definition.validate.entries).record?
          (Identity.make definition.name input) =
            session.record? (Identity.make definition.name input) := rfl
        simp [hsubmit, hvalid, hkept]
    | cleanup other =>
      cases hreplaces
      have hgone : (session.perform (.cleanup id)).record? id = none := cleanup_record? session id
      simp [hgone, Command.Returns, Command.Removes, cleanup, Option.isSome_iff_ne_none]
    | _ => exact hreplaces.elim
  · have hreturns : ¬ command.Returns session id := mt Command.replaces_of_returns hreplaces
    have hremoves : ¬ command.Removes session id := mt Command.replaces_of_removes hreplaces
    cases hfound : session.record? id with
    | none => simp [perform_absent hfound hreplaces, hreturns]
    | some found =>
      obtain ⟨record, hrecord, _⟩ := perform_history hfound hreplaces
      simp [hrecord, hremoves]

private theorem append_singleton_eq_iff {α : Type} {steps before after : List α} {step last : α} :
    steps ++ [last] = before ++ step :: after ↔
      (before = steps ∧ step = last ∧ after = []) ∨
        ∃ rest, after = rest ++ [last] ∧ steps = before ++ step :: rest := by
  constructor
  · intro hsplit
    rcases List.eq_nil_or_concat' after with rfl | ⟨rest, other, rfl⟩
    · obtain ⟨rfl, hlast⟩ := List.append_inj' hsplit rfl
      exact .inl ⟨rfl, (List.singleton_inj.mp hlast).symm, rfl⟩
    · rw [← List.cons_append, ← List.append_assoc] at hsplit
      obtain ⟨rfl, hlast⟩ := List.append_inj' hsplit rfl
      rw [List.singleton_inj.mp hlast]
      exact .inr ⟨rest, rfl, rfl⟩
  · rintro (⟨rfl, rfl, rfl⟩ | ⟨rest, rfl, rfl⟩)
    · rfl
    · simp

theorem run_concat (session : Session) (commands : List Command) (command : Command) :
    session.run (commands ++ [command]) = (session.run commands).perform command := by
  simp [run]

theorem tracks_concat_iff {commands : List Command} {command : Command} :
    session.Tracks (commands ++ [command]) id ↔
      command.Returns (session.run commands) id ∨
        session.Tracks commands id ∧ ¬ command.Removes (session.run commands) id := by
  constructor
  · rintro ⟨before, submission, after, hsplit, hreturns, hkept⟩
    rcases append_singleton_eq_iff.mp hsplit with ⟨rfl, rfl, rfl⟩ | ⟨rest, rfl, rfl⟩
    · exact .inl hreturns
    · refine .inr ⟨⟨before, submission, rest, rfl, hreturns, ?_⟩, hkept rest command [] rfl⟩
      rintro between later others rfl
      exact hkept between later (others ++ [command]) (by simp)
  · rintro (hreturns | ⟨⟨before, submission, after, rfl, hreturns, hkept⟩, hlast⟩)
    · exact ⟨commands, command, [], rfl, hreturns, by simp⟩
    · refine ⟨before, submission, after ++ [command], by simp, hreturns, ?_⟩
      intro between later others hsplit
      rcases append_singleton_eq_iff.mp hsplit with ⟨rfl, rfl, rfl⟩ | ⟨rest, rfl, rfl⟩
      · exact hlast
      · exact hkept between later rest rfl

/-- After a run from a session without jobs, just the jobs are tracked that the run tracks. -/
theorem run_tracked_iff (hempty : session.list = []) (commands : List Command) :
    ((session.run commands).record? id).isSome = true ↔ session.Tracks commands id := by
  induction commands using List.reverseRecOn with
  | nil =>
    have huntracked : ¬ (session.record? id).isSome = true := by
      rw [← mem_list_iff, hempty]
      exact List.not_mem_nil
    simp [run, Tracks, huntracked]
  | append_singleton commands command ih =>
    rw [run_concat, perform_tracked_iff, ih, tracks_concat_iff]

theorem perform_record?_of_unconcerned {command : Command} (hother : ¬ command.Concerns id) :
    (session.perform command).record? id = session.record? id := by
  cases command with
  | connect | disconnect | capacity | connectTo | call | pass | lay => rfl
  | submit definition input options => exact submit_record?_of_ne session options hother
  | status other => exact status_record?_of_ne session hother
  | result other timeout => exact result_record?_of_ne session hother timeout
  | cancel other => exact cancel_record?_of_ne session hother
  | cleanup other => exact cleanup_record?_of_ne session hother

/-- The node tells where a job stands: the question reaches a connected node, which replies in time and
with a status that can be read. -/
structure Tells (session : Session) (id : Bytes) (status : JobStatus) : Prop where
  connected : session.isConnected = true
  writable : ∃ s, id = utf8 s
  replied : ∃ body reply members,
    session.treatment.inTime? (session.node.link.env.span (session.node.timeout .query)) =
        some (.reply 200 body) ∧
      Json.parse body = .ok reply ∧ reply.get? (utf8 "status") = some (.object members) ∧
      (Wire.decode (.object members) : Except Failure JobStatus) = .ok status

theorem ask_jobStatus_iff (hsteady : session.Steady) {status : JobStatus} :
    (session.ask (Query.jobStatus id)).1 = some status ↔ session.Tells id status := by
  obtain ⟨hanswer, _⟩ := ask_of_steady hsteady (Query.jobStatus id)
  rw [hanswer, Query.jobStatus_answered]
  have hbrief : (Query.jobStatus id).overlong = false := rfl
  simp only [Node.answer_eq_ok_iff, hbrief, true_and, Json.exists_dump_iff, Query.jobStatus_wellEncoded_iff]
  constructor
  · rintro ⟨reply, members, ⟨hconnected, hwritable, hresult⟩, hmember, hdecode⟩
    obtain ⟨body, hreply, hparse⟩ := Script.result_eq_ok_iff.mp hresult
    exact ⟨hconnected, hwritable, body, reply, members, hreply, hparse, hmember, hdecode⟩
  · rintro ⟨hconnected, hwritable, body, reply, members, hreply, hparse, hmember, hdecode⟩
    exact ⟨reply, members, ⟨hconnected, hwritable, Script.result_eq_ok_iff.mpr ⟨body, hreply, hparse⟩⟩,
      hmember, hdecode⟩

theorem status_of_untracked (hsteady : session.Steady) (habsent : session.record? id = none) :
    (session.status id).2.jobs = session.jobs ∧
      (∀ status, (session.status id).1 = .ok status ↔ session.Tells id status) ∧
      ((session.status id).1 = .error (.unknownJob id) ↔ ¬ ∃ status, session.Tells id status) := by
  simp only [← ask_jobStatus_iff hsteady, status, habsent]
  have hjobs : (session.ask (Query.jobStatus id)).2.jobs = session.jobs := rfl
  cases (session.ask (Query.jobStatus id)).1 with
  | none => simp [hjobs]
  | some told => simp [hjobs]

/-- After any run from a session without jobs, just those identities are tracked that a submission has
returned and no later clean-up has removed, and they are listed in strictly increasing order. No
operation on one job changes the record of another. For a job that is not tracked none makes a record:
its result is asked from nobody, a cancellation sends nothing, and where it stands is what the node
tells, or else the job is unknown. -/
theorem jobs_tracked_exactly {start : Session} (hreach : start.Reachable) (hempty : start.list = [])
    (commands : List Command) :
    (∀ id, id ∈ (start.run commands).list ↔ start.Tracks commands id) ∧
      (∀ id, id ∈ (start.run commands).list ↔ ((start.run commands).record? id).isSome = true) ∧
      (start.run commands).list.Pairwise (· < ·) ∧
      (∀ (command : Command) (other : Bytes), ¬ command.Concerns other →
        ((start.run commands).perform command).record? other =
          (start.run commands).record? other) ∧
      ∀ id, id ∉ (start.run commands).list →
        (∀ timeout, (start.run commands).result id timeout =
          (.error (.unknownJob id), start.run commands)) ∧
        (start.run commands).cancel id = (false, (start.run commands).log
          (.warning (utf8 "Cannot cancel unknown job " ++ id))) ∧
        ((start.run commands).cancel id).2.requests = (start.run commands).requests ∧
        ((start.run commands).cancel id).2.jobs = (start.run commands).jobs ∧
        ((start.run commands).status id).2.jobs = (start.run commands).jobs ∧
        (∀ status, ((start.run commands).status id).1 = .ok status ↔
          (start.run commands).Tells id status) ∧
        (((start.run commands).status id).1 = .error (.unknownJob id) ↔
          ¬ ∃ status, (start.run commands).Tells id status) := by
  refine ⟨fun id => mem_list_iff.trans (run_tracked_iff hempty commands), fun id => mem_list_iff,
    (start.run commands).jobs.keys_sorted, fun command other hother =>
      perform_record?_of_unconcerned hother, fun id huntracked => ?_⟩
  have habsent : (start.run commands).record? id = none := by
    rw [mem_list_iff] at huntracked
    simpa using huntracked
  have hcancel : (start.run commands).cancel id = (false, (start.run commands).log
      (.warning (utf8 "Cannot cancel unknown job " ++ id))) := by
    simp only [cancel, habsent]
  refine ⟨fun timeout => by simp only [result, habsent], hcancel, ?_, ?_,
    status_of_untracked (hreach.run commands).steady habsent⟩
  · rw [hcancel]
    rfl
  · rw [hcancel]
    rfl

theorem jobs_tracked_exactly_plain :
    fresh.list = [] ∧
      Identity.make (utf8 "plain") [] ∈ (fresh.run [.submit plainJob [] {}]).list ∧
      ((fresh.run [.submit plainJob [] {}, .cleanup (Identity.make (utf8 "plain") [])]).result
          (Identity.make (utf8 "plain") []) 5).1 =
        .error (.unknownJob (Identity.make (utf8 "plain") [])) := by
  have hreturns : (Command.submit plainJob [] {}).Returns fresh (Identity.make (utf8 "plain") []) :=
    submit_fst_eq_ok_iff.mpr ⟨Options.valid_default, rfl⟩
  obtain ⟨htracked, _⟩ := jobs_tracked_exactly fresh_reachable rfl [.submit plainJob [] {}]
  have hsubmitted := (htracked _).mpr ⟨[], _, [], rfl, hreturns, by simp⟩
  obtain ⟨_, hlisted, _, _, huntracked⟩ := jobs_tracked_exactly fresh_reachable rfl
    [.submit plainJob [] {}, .cleanup (Identity.make (utf8 "plain") [])]
  refine ⟨rfl, hsubmitted, ?_⟩
  have hgone : Identity.make (utf8 "plain") [] ∉ (fresh.run
      [.submit plainJob [] {}, .cleanup (Identity.make (utf8 "plain") [])]).list := by
    rw [hlisted]
    simp [run, perform, cleanup, record?, SortedMap.get?_erase]
  rw [(huntracked _ hgone).1]

end Session

end Offload
