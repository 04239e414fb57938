import Offload.Proofs.Job.Manifest
import Offload.Proofs.Session.Submit

namespace Offload.Session

theorem submitJob_manifest (manifest : Manifest) :
    (Query.submitJob manifest).params.get? (utf8 "manifest") = some manifest.toJson := by
  simp [Query.submitJob, Json.get?_ofMembers]

/-- Every manifest whose binary parts are not too long to be written is read back from its JSON form, a
manifest that was read from any value is read again from its own form, and what a submission of such an
input hands to the node is read as the options given, the input, the metadata of the definition and the
identity of the job. It is sent in one request, unless the node does
not take the job on. -/
theorem manifest_faithful :
    (∀ manifest : Manifest, manifest.program.length ≤ 1610612733 → manifest.input.length ≤ 1610612733 →
        Manifest.ofJson manifest.toJson = .ok manifest) ∧
      (∀ json : Json, (Manifest.ofJson json >>= fun manifest => Manifest.ofJson manifest.toJson) =
        Manifest.ofJson json) ∧
      ∀ (session : Session) (definition : Definition) (input : Bytes) (options : Options),
        session.Reachable → options.Valid →
        ∃ manifest json after,
          session.submit definition input options =
            (.ok (Identity.make definition.name input), after) ∧
          (Query.submitJob manifest).params.get? (utf8 "manifest") = some json ∧
          (input.length ≤ 1610612733 → Manifest.ofJson json = .ok
            { id := Identity.make definition.name input, program := utf8 "PANGEA_NATIVE_JOB_V1",
              input, options, metadata := definition.metadata }) ∧
          (after.requests = session.requests ∧ ¬ session.Accepts manifest ∨
            ∃ body, (Query.submitJob manifest).params.dump .compact = .ok body ∧
              after.requests =
                ⟨session.node.link.host, utf8 "/rpc/submitComputeJob", body⟩ :: session.requests) := by
  refine ⟨fun _ => Manifest.ofJson_toJson, fun json => ?_, fun session definition input options hreach hvalid => ?_⟩
  · cases hread : Manifest.ofJson json with
    | error failure => rfl
    | ok manifest =>
      obtain ⟨hprogram, hinput⟩ := Manifest.sizes_of_ofJson hread
      rw [Wire.ok_bind, Manifest.ofJson_toJson hprogram hinput]
  · have hmanifest := definition.validate.value.toManifest_of_valid hvalid input
    rw [Definition.validate_manifest] at hmanifest
    have hid : (definition.manifest input options).id = Identity.make definition.name input := rfl
    have hread : input.length ≤ 1610612733 →
        Manifest.ofJson (definition.manifest input options).toJson =
          .ok (definition.manifest input options) := fun hinput =>
      Manifest.ofJson_toJson (by decide : Manifest.builtinMark.length ≤ 1610612733) hinput
    have hparts : definition.manifest input options =
        { id := Identity.make definition.name input, program := utf8 "PANGEA_NATIVE_JOB_V1",
          input, options, metadata := definition.metadata } := rfl
    rw [← hparts, ← hid]
    generalize definition.manifest input options = manifest at hmanifest hid hread ⊢
    obtain ⟨asked, answer, hsubmit, _, hsteady, _, hsent⟩ := submit_of_steady hreach.steady hmanifest
    obtain ⟨_, hrequests⟩ := hsteady.assign manifest.id
      (JobRecord.announced definition input manifest session.clock) answer
    refine ⟨manifest, manifest.toJson, _, hsubmit, submitJob_manifest manifest, hread, ?_⟩
    rw [hrequests]
    exact hsent

theorem manifest_faithful_plain :
    ∃ manifest json after,
      fresh.submit plainJob [97, 98] {} = (.ok (Identity.make (utf8 "plain") [97, 98]), after) ∧
      (Query.submitJob manifest).params.get? (utf8 "manifest") = some json ∧
      Manifest.ofJson json = .ok
        { id := Identity.make (utf8 "plain") [97, 98], program := utf8 "PANGEA_NATIVE_JOB_V1",
          input := [97, 98], options := {}, metadata := [] } := by
  obtain ⟨manifest, json, after, hsubmit, hparams, hread, _⟩ :=
    manifest_faithful.2.2 fresh plainJob [97, 98] {} fresh_reachable Options.valid_default
  exact ⟨manifest, json, after, hsubmit, hparams, hread (by decide)⟩

end Offload.Session
