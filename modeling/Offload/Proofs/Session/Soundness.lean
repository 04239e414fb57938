import Mathlib.Tactic.ByContra
import Offload.Proofs.Session.History

namespace Offload

namespace JobRecord

/-- How the parts of a record fit together, and the key that it is kept under. -/
structure Sound (key : Bytes) (record : JobRecord) : Prop where
  identity : key = record.manifest.id ∧
    record.manifest.id = Identity.make record.definition.name record.input
  payload : record.manifest.input = record.input
  /-- A job that the node has not taken on has been run here. -/
  here : record.remote = false → record.worker = localWorker ∧
    (record.status = .completed ∨ record.status = .failed ∨ record.status = .cancelled)
  /-- Only a job that has ended has a worker. -/
  ended : record.worker ≠ [] → record.status.isTerminal = true
  /-- Without a worker the node has the job, and no result is there. -/
  awaited : record.worker = [] → record.remote = true ∧ record.result = []
  overdue : record.status = .timeout → record.remote = true ∧ record.worker = []
  /-- Only a local run that came to its end has been checked, and only under `hash`. -/
  checked : record.integrity ≠ none → record.remote = false ∧
    record.manifest.options.verificationMode = utf8 "hash" ∧
    (record.status = .completed ∨ record.status = .cancelled)

theorem isTerminal_of_isOverdue {record : JobRecord} {clock : Nat}
    (hoverdue : record.isOverdue clock = true) : record.status.isTerminal = false := by
  simp only [isOverdue, Bool.and_eq_true, Bool.not_eq_true'] at hoverdue
  exact hoverdue.1.1

theorem worker_of_open {record : JobRecord} (hopen : record.isSettled = false) :
    record.worker = [] := by
  simp only [isSettled, Bool.or_eq_false_iff, decide_eq_false_iff_not, Decidable.not_not] at hopen
  exact hopen.2

private theorem Sound.integrity_of_remote {key : Bytes} {record : JobRecord}
    (hsound : record.Sound key) (hremote : record.remote = true) : record.integrity = none := by
  by_contra hchecked
  have hhere := (hsound.checked hchecked).1
  rw [hremote] at hhere
  cases hhere

theorem Change.sound {id : Bytes} {before after : JobRecord} (hchange : Change id before after)
    (hsound : before.Sound id) : after.Sound id := by
  cases hchange with
  | expired clock hoverdue =>
    have hopen := isTerminal_of_isOverdue hoverdue
    have hworker : before.worker = [] := by
      by_contra hworker
      rw [hsound.ended hworker] at hopen
      cases hopen
    obtain ⟨hremote, hresult⟩ := hsound.awaited hworker
    have hunchecked := hsound.integrity_of_remote hremote
    exact
      { identity := hsound.identity
        payload := hsound.payload
        here := fun hlocal => by simp [hremote] at hlocal
        ended := fun _ => rfl
        awaited := fun _ => ⟨hremote, hresult⟩
        overdue := fun _ => ⟨hremote, hworker⟩
        checked := fun hchecked => (hchecked hunchecked).elim }
  | reported status error hremote hopen =>
    have hworker := worker_of_open hopen
    have hunchecked := hsound.integrity_of_remote hremote
    exact
      { identity := hsound.identity
        payload := hsound.payload
        here := fun hlocal => by simp [hremote] at hlocal
        ended := fun hdelivered => (hdelivered hworker).elim
        awaited := hsound.awaited
        overdue := fun _ => ⟨hremote, hworker⟩
        checked := fun hchecked => (hchecked hunchecked).elim }
  | fetched result worker hremote hopen hworker =>
    have hunchecked := hsound.integrity_of_remote hremote
    exact
      { identity := hsound.identity
        payload := hsound.payload
        here := fun hlocal => by simp [hremote] at hlocal
        ended := fun _ => rfl
        awaited := fun hnobody => (hworker hnobody).elim
        overdue := fun htimeout => by cases htimeout
        checked := fun hchecked => (hchecked hunchecked).elim }
  | withdrawn =>
    exact
      { identity := hsound.identity
        payload := hsound.payload
        here := fun hlocal => ⟨(hsound.here hlocal).1, .inr (.inr rfl)⟩
        ended := fun _ => rfl
        awaited := hsound.awaited
        overdue := fun htimeout => by cases htimeout
        checked := fun hchecked =>
          ⟨(hsound.checked hchecked).1, (hsound.checked hchecked).2.1, .inr rfl⟩ }

theorem History.sound {id : Bytes} {before after : JobRecord} (hhistory : History id before after)
    (hsound : before.Sound id) : after.Sound id := by
  induction hhistory with
  | refl => exact hsound
  | tail _ hchange ih => exact hchange.sound ih

theorem verify_value_ne_none {record : JobRecord} {chunks : List Bytes}
    (hchecked : (record.verify chunks).value ≠ none) :
    record.manifest.options.verificationMode = utf8 "hash" := by
  by_contra hmode
  apply hchecked
  simp only [verify, if_neg hmode]
  rfl

theorem Submitted.sound {definition : Definition} {input : Bytes} {record : JobRecord}
    (hsubmitted : Submitted definition input record) :
    record.Sound (Identity.make definition.name input) := by
  have hannounced : ∀ {manifest : Manifest} {options : Options},
      definition.validate.value.toManifest input options = .ok manifest →
      (Identity.make definition.name input = manifest.id ∧
        manifest.id = Identity.make definition.validate.value.name input) ∧
      manifest.input = input := by
    intro manifest options hmanifest
    rw [((Definition.toManifest_eq_ok_iff _).mp hmanifest).2, Definition.validate_manifest,
      Definition.validate_name]
    exact ⟨⟨rfl, rfl⟩, rfl⟩
  cases hsubmitted with
  | assigned manifest options started hmanifest =>
    obtain ⟨hidentity, hinput⟩ := hannounced hmanifest
    exact
      { identity := hidentity
        payload := hinput
        here := fun hlocal => by cases hlocal
        ended := fun hdelivered => (hdelivered rfl).elim
        awaited := fun _ => ⟨rfl, rfl⟩
        overdue := fun htimeout => by cases htimeout
        checked := fun hchecked => (hchecked rfl).elim }
  | concluded manifest options started hmanifest outcome =>
    obtain ⟨hidentity, hinput⟩ := hannounced hmanifest
    cases outcome with
    | error failure =>
      exact
        { identity := hidentity
          payload := hinput
          here := fun _ => ⟨rfl, .inr (.inl rfl)⟩
          ended := fun _ => rfl
          awaited := fun hnobody => (localWorker_ne hnobody).elim
          overdue := fun htimeout => by cases htimeout
          checked := fun hchecked => (hchecked rfl).elim }
    | ok pair =>
      obtain ⟨chunks, merged⟩ := pair
      exact
        { identity := hidentity
          payload := hinput
          here := fun _ => ⟨rfl, .inl rfl⟩
          ended := fun _ => rfl
          awaited := fun hnobody => (localWorker_ne hnobody).elim
          overdue := fun htimeout => by cases htimeout
          checked := fun hchecked => ⟨rfl, verify_value_ne_none hchecked, .inl rfl⟩ }

end JobRecord

namespace Session

/-- One step keeps all records sound. -/
theorem perform_sound {session : Session} (command : Command)
    (hsound : ∀ key record, session.record? key = some record → record.Sound key) :
    ∀ key record, (session.perform command).record? key = some record → record.Sound key := by
  intro key record hrecord
  rcases perform_record? hrecord with ⟨found, hfound, hhistory⟩ | ⟨definition, input, hkey, hfresh⟩
  · exact hhistory.sound (hsound key found hfound)
  · exact hkey ▸ hfresh.sound

theorem Reachable.sound {session : Session} (hreach : session.Reachable) {key : Bytes}
    {record : JobRecord} (hrecord : session.record? key = some record) : record.Sound key := by
  induction hreach generalizing key record with
  | opened config env defaults => simp [record?] at hrecord
  | step _ command ih => exact perform_sound command (fun _ _ h => ih h) key record hrecord

/-- In every session that comes about, each record stands under the identity of its own job, and its
status, worker, result and check fit together. -/
theorem record_parts_fit {session : Session} (hreach : session.Reachable) {key : Bytes}
    {record : JobRecord} (hrecord : session.record? key = some record) :
    (key = record.manifest.id ∧
      record.manifest.id = Identity.make record.definition.name record.input ∧
      record.manifest.input = record.input) ∧
    (record.remote = false → record.worker = utf8 "local" ∧
      record.status ∈ [Status.completed, Status.failed, Status.cancelled]) ∧
    (record.worker ≠ [] → record.status.isTerminal = true) ∧
    (record.worker = [] → record.remote = true ∧ record.result = []) ∧
    (record.status = .timeout → record.remote = true ∧ record.worker = []) ∧
    (record.integrity ≠ none → record.remote = false ∧
      record.manifest.options.verificationMode = utf8 "hash" ∧
      record.status ∈ [Status.completed, Status.cancelled]) := by
  have hsound := hreach.sound hrecord
  refine ⟨⟨hsound.identity.1, hsound.identity.2, hsound.payload⟩, ?_, hsound.ended, hsound.awaited,
    hsound.overdue, ?_⟩
  · intro hlocal
    obtain ⟨hworker, hstatus⟩ := hsound.here hlocal
    exact ⟨hworker, by simpa using hstatus⟩
  · intro hchecked
    obtain ⟨hlocal, hmode, hstatus⟩ := hsound.checked hchecked
    exact ⟨hlocal, hmode, by simpa using hstatus⟩

theorem record_parts_fit_plain :
    ∃ record, fresh.Reachable ∧
      (fresh.perform (.submit plainJob [] {})).record? (Identity.make (utf8 "plain") [])
        = some record ∧
      (record.worker = [] → record.remote = true ∧ record.result = []) := by
  have hmanifest := plainJob.validate.value.toManifest_of_valid Options.valid_default []
  obtain ⟨record, hrecord, _⟩ := submit_record? fresh hmanifest
  have hid : (plainJob.validate.value.manifest [] {}).id = Identity.make (utf8 "plain") [] := by
    rw [Definition.validate_manifest]
    rfl
  rw [hid] at hrecord
  have hfit := record_parts_fit (fresh_reachable.step (.submit plainJob [] {})) hrecord
  exact ⟨record, fresh_reachable, hrecord, hfit.2.2.2.1⟩

end Session

end Offload
