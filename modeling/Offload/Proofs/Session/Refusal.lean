import Offload.Proofs.Session.Tracking

namespace Offload.Session

/-- A submission is all or nothing. It fails just if the bounds on the chunk size are in the wrong order
or the name of the strategy is none of the four, and always by an argument that is not acceptable. Then
the jobs are what they were, nothing is sent, no function of a job is called and no time passes. Under
all other options it returns the identity of its job and tracks it, whatever the node does and whether
the functions of the job succeed. -/
theorem submit_all_or_nothing (session : Session) (definition : Definition) (input : Bytes)
    (options : Options) :
    ((∃ failure, (session.submit definition input options).1 = .error failure) ↔
        options.maxChunkSize < options.minChunkSize ∨
          options.splitStrategy ∉
            [utf8 "fixed_size", utf8 "line_based", utf8 "record_based", utf8 "adaptive"]) ∧
      (∀ failure, (session.submit definition input options).1 = .error failure →
        failure.kind = .argument ∧ failure = options.objection ∧
          (session.submit definition input options).2 =
            session.logAll definition.validate.entries ∧
          (session.submit definition input options).2.jobs = session.jobs ∧
          (session.submit definition input options).2.requests = session.requests ∧
          (session.submit definition input options).2.ran = session.ran ∧
          (session.submit definition input options).2.clock = session.clock) ∧
      (options.minChunkSize ≤ options.maxChunkSize →
        options.splitStrategy ∈
          [utf8 "fixed_size", utf8 "line_based", utf8 "record_based", utf8 "adaptive"] →
        ∃ after record, session.submit definition input options =
            (.ok (Identity.make definition.name input), after) ∧
          after.record? (Identity.make definition.name input) = some record) := by
  rw [← Options.not_valid_iff]
  by_cases hvalid : options.Valid
  · obtain ⟨after, record, hsubmit, hrecord⟩ := session.submit_of_valid definition input hvalid
    refine ⟨?_, ?_, fun _ _ => ⟨after, record, hsubmit, hrecord⟩⟩
    · simp [hsubmit, hvalid]
    · simp [hsubmit]
  · have hmanifest := definition.validate.value.toManifest_of_invalid hvalid input
    have hsubmit := session.submit_of_refused hmanifest
    refine ⟨by simp [hsubmit, hvalid], ?_, ?_⟩
    · rw [hsubmit]
      rintro failure hfailure
      cases hfailure
      exact ⟨options.objection_kind, rfl, rfl, rfl, rfl, rfl, rfl⟩
    · intro hbounds hstrategy
      exact (hvalid ⟨hbounds, Strategy.exists_name_iff.mpr hstrategy⟩).elim

/-- A job that has been run is submitted again with its bounds in the wrong order. Its record stays. -/
theorem submit_all_or_nothing_again :
    ∃ (session after : Session) (record : JobRecord),
      session.record? (Identity.make (utf8 "plain") [97]) = some record ∧
      session.submit plainJob [97] { minChunkSize := 2, maxChunkSize := 1 } =
        (.error .jobBoundsReversed, after) ∧
      after.record? (Identity.make (utf8 "plain") [97]) = some record ∧
      after.requests = session.requests ∧ after.ran = session.ran := by
  obtain ⟨session, record, _, hrecord⟩ :=
    fresh.submit_of_valid plainJob [97] Options.valid_default
  obtain ⟨hfails, hnothing, _⟩ :=
    session.submit_all_or_nothing plainJob [97] { minChunkSize := 2, maxChunkSize := 1 }
  obtain ⟨failure, hfailure⟩ := hfails.mpr (.inl (by decide))
  obtain ⟨_, hobjection, _, hjobs, hrequests, hran, _⟩ := hnothing failure hfailure
  have hreversed : failure = .jobBoundsReversed := hobjection
  generalize hagain : session.submit plainJob [97] { minChunkSize := 2, maxChunkSize := 1 } = told at *
  obtain ⟨outcome, after⟩ := told
  cases hreversed
  cases hfailure
  have hkept : after.jobs = session.jobs := hjobs
  refine ⟨session, after, record, hrecord, hagain, ?_, hrequests, hran⟩
  rw [record?, hkept]
  exact hrecord

end Offload.Session
