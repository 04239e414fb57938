import Offload.Proofs.Session.Submit

namespace Offload

theorem Chunker.verifyIntegrity_value (chunks : List Bytes) (expected : Bytes) :
    (verifyIntegrity chunks expected).value =
      decide (Digest.sha256Hex chunks.flatten = expected) := by
  unfold verifyIntegrity merge
  by_cases hsame : Digest.sha256Hex chunks.flatten = expected
  · rw [if_pos hsame, decide_eq_true hsame]
  · rw [if_neg hsame, decide_eq_false hsame]

namespace JobRecord

theorem verify_value (record : JobRecord) (chunks : List Bytes) :
    (record.verify chunks).value =
      if record.manifest.options.verificationMode = utf8 "hash" then
        some (decide (Digest.sha256Hex chunks.flatten = Digest.sha256Hex record.input))
      else none := by
  have hintact := Chunker.verifyIntegrity_value chunks (Digest.sha256Hex record.input)
  unfold verify
  split
  · generalize Chunker.verifyIntegrity chunks (Digest.sha256Hex record.input) = checked at hintact ⊢
    obtain ⟨intact, entries⟩ := checked
    rw [← hintact]
    cases intact <;> rfl
  · rfl

theorem concludeLocally_alike (first second : JobRecord) (hresult : first.result = second.result)
    (herror : first.error = second.error) (outcome : Except Failure (List Bytes × Bytes)) :
    let concluded := (first.concludeLocally outcome).value
    let other := (second.concludeLocally outcome).value
    concluded.status = other.status ∧ concluded.result = other.result ∧
      concluded.error = other.error ∧ concluded.worker = other.worker := by
  cases outcome with
  | ok parts => exact ⟨rfl, rfl, herror, rfl⟩
  | error failure => exact ⟨rfl, hresult, rfl, rfl⟩

theorem announced_returns_iff {definition : Definition} {input : Bytes} {manifest : Manifest}
    {started : Nat} {chunks : List Bytes} {merged : Bytes} :
    (announced definition input manifest started).work.outcome = .ok (chunks, merged) ↔
      definition.Returns input chunks merged := by
  rw [work_eq_ok_iff, ← definition.validate_returns]
  rfl

theorem integrity_of_returns {definition : Definition} {input : Bytes} {chunks : List Bytes}
    {merged : Bytes} (hreturns : definition.Returns input chunks merged) (options : Options)
    (started : Nat) :
    let record := announced definition input (definition.manifest input options) started
    (record.concludeLocally record.work.outcome).value.integrity =
      if options.verificationMode = utf8 "hash" then
        some (decide (Digest.sha256Hex chunks.flatten = Digest.sha256Hex input)) else none := by
  intro record
  rw [announced_returns_iff.mpr hreturns]
  exact record.verify_value chunks

theorem returns_of_integrity {definition : Definition} {input : Bytes} {manifest : Manifest}
    {started : Nat}
    (hchecked : let record := announced definition input manifest started
      (record.concludeLocally record.work.outcome).value.integrity ≠ none) :
    ∃ chunks merged, definition.Returns input chunks merged := by
  cases hwork : (announced definition input manifest started).work.outcome with
  | ok parts => exact ⟨parts.1, parts.2, announced_returns_iff.mp hwork⟩
  | error failure =>
    simp only [hwork] at hchecked
    exact (hchecked rfl).elim

end JobRecord

namespace Session

open JobRecord

variable {session other : Session} {definition : Definition} {input : Bytes} {options : Options}

/-- Verification only observes. Of two submissions that differ in whether a check is asked for, and that
both lead to a run here, the records agree in status, result, error and worker. A record is checked just
if its manifest asks for it and all functions of the job have returned, and the check says whether the
joined chunks have the digest of the input: yes if they are the input, and no only if they are not. -/
theorem verification_observes (hreach : session.Reachable) (hother : other.Reachable)
    (hvalid : options.Valid) (mode : Bytes)
    (hdeclines : session.Declines (definition.manifest input options))
    (hrefuses : other.Declines
      (definition.manifest input { options with verificationMode := mode })) :
    ∃ record observed,
      (session.submit definition input options).2.record? (Identity.make definition.name input) =
        some record ∧
      (other.submit definition input { options with verificationMode := mode }).2.record?
        (Identity.make definition.name input) = some observed ∧
      observed.status = record.status ∧ observed.result = record.result ∧
      observed.error = record.error ∧ observed.worker = record.worker ∧
      (record.integrity ≠ none ↔ options.verificationMode = utf8 "hash" ∧
        ∃ chunks merged, definition.Returns input chunks merged) ∧
      (∀ chunks merged, definition.Returns input chunks merged →
        options.verificationMode = utf8 "hash" →
        record.integrity =
            some (decide (Digest.sha256Hex chunks.flatten = Digest.sha256Hex input)) ∧
          (chunks.flatten = input → record.integrity = some true)) ∧
      (record.integrity = some false →
        ∃ chunks, (definition.split input).outcome = .ok chunks ∧ chunks.flatten ≠ input) := by
  have hswitched : Options.Valid { options with verificationMode := mode } :=
    ⟨hvalid.bounds, hvalid.strategy⟩
  have hmanifest := definition.validate.value.toManifest_of_valid hvalid input
  have hremade := definition.validate.value.toManifest_of_valid hswitched input
  rw [Definition.validate_manifest] at hmanifest hremade
  let record := announced definition input (definition.manifest input options) session.clock
  let observed := announced definition input
    (definition.manifest input { options with verificationMode := mode }) other.clock
  have hrecord := record?_of_declined hreach.steady hmanifest hdeclines
  have hobserved := record?_of_declined hother.steady hremade hrefuses
  have hwork : observed.work.outcome = record.work.outcome := rfl
  obtain ⟨hstatus, hresult, herror, hworker⟩ :=
    concludeLocally_alike observed record rfl rfl record.work.outcome
  refine ⟨(record.concludeLocally record.work.outcome).value,
    (observed.concludeLocally observed.work.outcome).value, hrecord, hobserved, ?_⟩
  rw [hwork]
  refine ⟨hstatus, hresult, herror, hworker, ⟨fun hchecked => ?_, ?_⟩, ?_, fun hbroken => ?_⟩
  · obtain ⟨chunks, merged, hreturns⟩ := returns_of_integrity hchecked
    rw [integrity_of_returns hreturns options session.clock] at hchecked
    refine ⟨?_, chunks, merged, hreturns⟩
    by_contra hmode
    exact hchecked (if_neg hmode)
  · rintro ⟨hmode, chunks, merged, hreturns⟩
    rw [integrity_of_returns hreturns options session.clock, if_pos hmode]
    exact Option.some_ne_none _
  · intro chunks merged hreturns hmode
    rw [integrity_of_returns hreturns options session.clock, if_pos hmode]
    refine ⟨rfl, fun hsame => ?_⟩
    rw [hsame, decide_eq_true rfl]
  · obtain ⟨chunks, merged, hreturns⟩ := returns_of_integrity (hbroken ▸ Option.some_ne_none false)
    refine ⟨chunks, hreturns.split, fun hsame => ?_⟩
    rw [integrity_of_returns hreturns options session.clock, hsame] at hbroken
    split at hbroken
    · simp at hbroken
    · cases hbroken

def headJob : Definition :=
  { name := utf8 "head", splitFunction := some fun input => Work.done [input.take 1]
    name_ne := by decide }

/-- The check says that the chunk is not the input, and the job has its result all the same. -/
theorem verification_observes_lossy :
    ∃ record observed,
      (fresh.submit headJob [97, 98] {}).2.record? (Identity.make (utf8 "head") [97, 98]) =
        some record ∧
      (fresh.submit headJob [97, 98] { verificationMode := utf8 "none" }).2.record?
        (Identity.make (utf8 "head") [97, 98]) = some observed ∧
      record.integrity = some false ∧ observed.status = record.status ∧
      observed.result = record.result := by
  have hreturns : headJob.Returns [97, 98] [[97]] [97] := ⟨rfl, [[97]], .cons rfl .nil, rfl⟩
  have hdigests : decide (Digest.sha256Hex [[97]].flatten = Digest.sha256Hex [97, 98]) = false := by
    decide +kernel
  have hdeclines : fresh.Declines (headJob.manifest [97, 98] {}) := .unconnected rfl
  have hrefuses : fresh.Declines
    (headJob.manifest [97, 98] { verificationMode := utf8 "none" }) := .unconnected rfl
  obtain ⟨record, observed, hrecord, hobserved, hstatus, hresult, _, _, _, hchecked, _⟩ :=
    verification_observes fresh_reachable fresh_reachable Options.valid_default (utf8 "none")
      hdeclines hrefuses
  have hbroken := (hchecked _ _ hreturns rfl).1
  rw [hdigests] at hbroken
  exact ⟨record, observed, hrecord, hobserved, hbroken, hstatus, hresult⟩

end Session

end Offload
