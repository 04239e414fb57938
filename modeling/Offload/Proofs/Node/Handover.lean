import Offload.Proofs.Json.Member
import Offload.Proofs.Node.Query
import Offload.Session.Record

namespace Offload

namespace Json

/-- The reply hands the data over, delivered by the named worker. -/
structure Hands (reply : Json) (data worker : Bytes) : Prop where
  success : reply.get? (utf8 "success") = some (.bool true)
  data : ∃ text, reply.HasText "result" text ∧ Base64.decode text = .ok data
  worker : ∃ name, reply.HasText "workerNode" name ∧
    worker = if name = [] then utf8 "remote" else name

end Json

namespace Query

theorem answered_of_read {α : Type} {query : Query α} {reply : Json} {result : Except Failure α}
    (hread : query.read reply = Attempt.ofExcept result) :
    result = .ok (query.answered (.ok reply)) ∨
      ∃ failure, query.answered (.ok reply) = query.failed failure := by
  simp only [answered, hread]
  cases result with
  | ok answer => exact .inl rfl
  | error failure => exact .inr ⟨failure, rfl⟩

/-- Data come from a reply that hands them over, and from nothing else. -/
theorem jobResult_answered {id : Bytes} {milliseconds : UInt32} {outcome : Except Failure Json}
    {answer : ResultReply} (hanswer : (jobResult id milliseconds).answered outcome = answer)
    {data : Bytes} (hdata : answer.data = some data) :
    ∃ reply, outcome = .ok reply ∧
      reply.Hands data (if answer.worker = [] then utf8 "remote" else answer.worker) := by
  cases outcome with
  | error failure =>
    subst hanswer
    cases hdata
  | ok reply =>
    have hreading : (jobResult id milliseconds).read reply = Attempt.ofExcept _ := rfl
    rcases answered_of_read hreading with hread | ⟨failure, hfailed⟩
    · rw [hanswer] at hread
      obtain ⟨said, hsaid, hread⟩ := Failure.bind_eq_ok_iff.mp hread
      cases said with
      | false =>
        obtain ⟨words, _, hread⟩ := Failure.bind_eq_ok_iff.mp hread
        cases hread
        cases hdata
      | true =>
        have hsuccess := succeeded_eq_true_iff.mp hsaid
        obtain ⟨bytes, hblob, hread⟩ := Failure.bind_eq_ok_iff.mp hread
        obtain ⟨name, hname, hread⟩ := Failure.bind_eq_ok_iff.mp hread
        obtain ⟨text, htext, hdecode⟩ := Failure.bind_eq_ok_iff.mp hblob
        cases hread
        cases hdata
        cases reply with
        | object members =>
          exact ⟨_, rfl, hsuccess, ⟨text, Json.fieldD_text_eq_ok_iff.mp htext, hdecode⟩,
            name, Json.fieldD_text_eq_ok_iff.mp hname, rfl⟩
        | null | bool | int | float | string | array => cases hsuccess
    · rw [hanswer] at hfailed
      subst hfailed
      cases hdata

end Query

end Offload
