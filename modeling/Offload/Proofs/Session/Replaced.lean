import Offload.Proofs.Job.Identity
import Offload.Proofs.Session.Expiry
import Offload.Proofs.Session.Soundness

namespace Offload

namespace Identity

/-- Two different texts whose digests begin alike, as far as an identity goes. -/
def Collide (first second : Bytes) : Prop :=
  first ≠ second ∧ (Digest.sha256Hex first).take 16 = (Digest.sha256Hex second).take 16

/-- The jobs share an identity because their names and inputs are digested as the same text. -/
def Shared (name input other otherInput : Bytes) : Prop :=
  name = other ∧ input.take 1024 = otherInput.take 1024 ∨
    RunsInto name input other otherInput ∨ RunsInto other otherInput name input

theorem shared_or_collide {name input other otherInput : Bytes}
    (hsame : make name input = make other otherInput) :
    Shared name input other otherInput ∨ Collide (digested name input) (digested other otherInput) := by
  by_cases htext : digested name input = digested other otherInput
  · exact .inl (digested_eq_iff.mp htext)
  · exact .inr ⟨htext, make_eq_iff.mp hsame⟩

end Identity

theorem JobRecord.Submitted.job {definition : Definition} {input : Bytes} {record : JobRecord}
    (hsubmitted : Submitted definition input record) :
    record.definition = definition.validate.value ∧ record.input = input := by
  cases hsubmitted with
  | assigned => exact ⟨rfl, rfl⟩
  | concluded manifest options started hmanifest outcome => cases outcome <;> exact ⟨rfl, rfl⟩

open JobRecord Identity

namespace Session

variable {session : Session} {id : Bytes} {record : JobRecord}

/-- A step of a run leaves a record to its history, or forgets it at the user's wish, or submits a job
that shares the identity of the one that the record is about. -/
theorem perform_kept_or_shared (hreach : session.Reachable) (hrecord : session.record? id = some record)
    (command : Command) :
    (∃ after, (session.perform command).record? id = some after ∧ History id record after) ∨
      command = .cleanup id ∨
      ∃ definition input options, command = .submit definition input options ∧ options.Valid ∧
        (Shared record.definition.name record.input definition.name input ∨
          Collide (digested record.definition.name record.input) (digested definition.name input)) := by
  by_cases hsupersedes : command.Supersedes id
  · obtain ⟨hkey, hidentity⟩ := (hreach.sound hrecord).identity
    cases command with
    | submit definition input options =>
      obtain ⟨hid, hvalid⟩ := hsupersedes
      have hsame := (hidentity.symm.trans hkey.symm).trans hid.symm
      exact .inr (.inr ⟨definition, input, options, rfl, hvalid, shared_or_collide hsame⟩)
    | cleanup other => exact .inr (.inl (congrArg Command.cleanup hsupersedes))
    | _ => exact hsupersedes.elim
  · exact .inl (perform_kept hrecord hsupersedes)

/-- Jobs of different names share an identity by construction only where one of the names runs into its
input. The text that is digested is the same for two pairs just if they are the same as far as inputs
take part, or if one name goes on behind the other with bytes that the other's input begins with; so it
never is for different names of one length. Nothing but a submission of such a pair, or a collision of the
digests as far as they are kept, puts another job's record in the place of a tracked one. -/
theorem replaced_by_shared (hreach : session.Reachable) (hrecord : session.record? id = some record)
    (command : Command) :
    (∀ name input, make name input =
        utf8 "job-" ++ (Digest.sha256Hex (digested name input)).take 16) ∧
      (∀ name input other otherInput, digested name input = digested other otherInput ↔
        Shared name input other otherInput) ∧
      (∀ name input other otherInput, digested name input = digested other otherInput →
        name.length = other.length →
        name = other ∧ input.take 1024 = otherInput.take 1024) ∧
      ((∃ after, (session.perform command).record? id = some after ∧ History id record after) ∨
        command = .cleanup id ∨
        ∃ definition input options, command = .submit definition input options ∧ options.Valid ∧
          (Shared record.definition.name record.input definition.name input ∨
            Collide (digested record.definition.name record.input)
              (digested definition.name input))) := by
  refine ⟨make_eq, fun _ _ _ _ => digested_eq_iff, ?_, perform_kept_or_shared hreach hrecord command⟩
  intro name input other otherInput htext hlength
  rcases digested_eq_iff.mp htext with hpair | hruns | hruns
  · exact hpair
  · exact absurd hlength (Nat.ne_of_lt hruns.length_lt)
  · exact absurd hlength.symm (Nat.ne_of_lt hruns.length_lt)

theorem exists_submitted_record (session : Session) (definition : Definition) (input : Bytes)
    {options : Options} (hvalid : options.Valid) :
    ∃ record, (session.perform (.submit definition input options)).record?
        (make definition.name input) = some record ∧
      record.definition.name = definition.name ∧ record.input = input := by
  have hmanifest := definition.validate.value.toManifest_of_valid hvalid input
  rw [Definition.validate_manifest] at hmanifest
  obtain ⟨record, hrecord, hsubmitted⟩ := submit_record? session hmanifest
  obtain ⟨hdefinition, hinput⟩ := hsubmitted.job
  refine ⟨record, hrecord, ?_, hinput⟩
  rw [hdefinition, Definition.validate_name]

/-- A job of the same name on another input leaves the record where it is. -/
theorem replaced_by_shared_plain :
    ∃ record after, (fresh.perform (.submit plainJob [97] {})).record? (make (utf8 "plain") [97]) =
        some record ∧
      ((fresh.perform (.submit plainJob [97] {})).perform (.submit plainJob [98] {})).record?
        (make (utf8 "plain") [97]) = some after ∧
      History (make (utf8 "plain") [97]) record after := by
  obtain ⟨record, hrecord, hname, hinput⟩ :=
    fresh.exists_submitted_record plainJob [97] Options.valid_default
  obtain ⟨_, _, _, hkept⟩ := replaced_by_shared (fresh_reachable.step (.submit plainJob [97] {})) hrecord
    (.submit plainJob [98] {})
  rcases hkept with ⟨after, hafter, hhistory⟩ | hcleanup | ⟨_, _, _, hcommand, _, hsame⟩
  · exact ⟨record, after, hrecord, hafter, hhistory⟩
  · cases hcleanup
  · cases hcommand
    rw [hname, hinput] at hsame
    rcases hsame with (⟨_, hfront⟩ | hruns | hruns) | ⟨_, hdigests⟩
    · exact absurd hfront (by decide)
    · exact (Nat.lt_irrefl _ hruns.length_lt).elim
    · exact (Nat.lt_irrefl _ hruns.length_lt).elim
    · exact absurd hdigests (by decide +kernel)

def plainJobNamed (name : Bytes) (hname : name ≠ []) : Definition :=
  { plainJob with name, name_ne := hname }

/-- What the longer name has more stands in front of the input under the shorter one. The second job takes
the place of the first, although neither name nor input are the same. -/
theorem name_runs_into_input :
    utf8 "ab" ≠ utf8 "a" ∧ digested (utf8 "ab") (utf8 "c") = digested (utf8 "a") (utf8 "bc") ∧
      ∃ record,
        (fresh.run [.submit (plainJobNamed (utf8 "ab") (by decide)) (utf8 "c") {},
          .submit (plainJobNamed (utf8 "a") (by decide)) (utf8 "bc") {}]).record?
            (make (utf8 "ab") (utf8 "c")) = some record ∧
        record.definition.name = utf8 "a" ∧ record.input = utf8 "bc" := by
  have htext : digested (utf8 "ab") (utf8 "c") = digested (utf8 "a") (utf8 "bc") := rfl
  have hsame : make (utf8 "ab") (utf8 "c") = make (utf8 "a") (utf8 "bc") := by
    rw [make_eq, make_eq, htext]
  obtain ⟨record, hrecord, hname, hinput⟩ :=
    (fresh.perform (.submit (plainJobNamed (utf8 "ab") (by decide)) (utf8 "c") {})).exists_submitted_record
      (plainJobNamed (utf8 "a") (by decide)) (utf8 "bc") Options.valid_default
  refine ⟨by decide, htext, record, ?_, hname, hinput⟩
  rw [hsame]
  exact hrecord

end Session

end Offload
