import Offload.Node.Basic
import Offload.Node.Jobs

namespace Offload

@[simp] theorem Logged.pure_value {α : Type} (value : α) : (pure value : Logged α).value = value := rfl

namespace Query

/-- The answer to a query, from what became of the invocation. -/
def answered {α : Type} (query : Query α) : Except Failure Json → α
  | .error failure => query.failed failure
  | .ok reply =>
    match (query.read reply).run.value with
    | .ok answer => answer
    | .error failure => query.failed failure

theorem decode_truth_eq_ok_iff {value : Json} {said : Bool} :
    (Wire.decode value : Except Failure Bool) = .ok said ↔ value = .bool said := by
  cases value with
  | bool value =>
    rw [Json.bool.injEq]
    exact ⟨Except.ok.inj, fun hvalue => hvalue ▸ rfl⟩
  | null | int | float | string | array | object =>
    constructor
    · intro hdecode
      cases hdecode
    · intro hvalue
      cases hvalue

theorem succeeded_eq_true_iff {reply : Json} :
    succeeded reply = .ok true ↔ reply.get? (utf8 "success") = some (.bool true) := by
  unfold succeeded Json.fieldD
  cases reply with
  | object members =>
    simp only [Json.member?, Json.get?]
    cases Fields.get? (utf8 "success") members with
    | none => simp
    | some value => simp only [decode_truth_eq_ok_iff, Option.some.injEq]
  | null | bool | int | float | string | array => simp [Json.member?, Json.get?]

/-- After a yes a reply is read as if nothing had been asked before, and otherwise it has to give a reason.
What is logged about the reason does not turn the answer into anything else. -/
theorem verdict_value {α : Type} (yes : Attempt α) (no : Bytes → α) (words : Bytes) (reply : Json) :
    (Attempt.ofExcept (succeeded reply) >>= fun said =>
        if said = true then yes else logRefusal words reply >>= fun text => pure (no text)).run.value =
      match succeeded reply with
      | .error failure => .error failure
      | .ok true => yes.run.value
      | .ok false => (refusal reply).map no := by
  unfold logRefusal
  cases succeeded reply with
  | error failure => rfl
  | ok said =>
    cases said with
    | true => rfl
    | false => cases refusal reply <;> rfl

/-- The node takes a job on by a reply in which `success` is the truth value true, whatever else the
reply says. -/
theorem submitJob_answered {manifest : Manifest} {outcome : Except Failure Json} :
    ((submitJob manifest).answered outcome).1 = true ↔
      ∃ reply, outcome = .ok reply ∧ reply.get? (utf8 "success") = some (.bool true) := by
  cases outcome with
  | error failure => simp [answered, submitJob]
  | ok reply =>
    simp only [Except.ok.injEq, exists_eq_left', ← succeeded_eq_true_iff, answered, submitJob,
      verdict_value]
    cases succeeded reply with
    | error failure => simp
    | ok said =>
      cases said with
      | true =>
        simp only [iff_true]
        cases reply.get? (utf8 "jobId") with
        | none => simp
        | some value => cases value <;> simp
      | false => cases refusal reply <;> simp [Except.map]

end Query

namespace Node

variable {α : Type} {node : Node} {query : Query α}

theorem invoke_of_overlong (hoverlong : query.overlong = true) :
    node.invoke query = (.error .base64Overlong, node.link) := if_pos hoverlong

theorem invoke_of_brief (hbrief : query.overlong = false) :
    node.invoke query =
      node.link.invoke (utf8 query.method) query.params (node.timeout query.patience) :=
  if_neg (by rw [hbrief]; exact Bool.false_ne_true)

/-- To its link, a question whose bytes cannot be written is one whose parameters cannot be written. -/
theorem invoke_link (node : Node) (query : Query α) : ∃ params, (node.invoke query).2 =
    (node.link.invoke (utf8 query.method) params (node.timeout query.patience)).2 := by
  cases hsize : query.overlong with
  | false => exact ⟨query.params, by rw [invoke_of_brief hsize]⟩
  | true => exact ⟨.string [255], by rw [invoke_of_overlong hsize]; rfl⟩

/-- What becomes of the invocation settles the answer to a query, and beyond the invocation only the log
changes. -/
theorem ask_eq (node : Node) (query : Query α) :
    let invoked := node.invoke query
    (node.ask query).1 = query.answered invoked.1 ∧
      ∃ journal, (node.ask query).2 =
        { node with link := { invoked.2 with env := { invoked.2.env with journal } } } := by
  intro invoked
  cases hsaid : invoked.1 with
  | error failure =>
    simp only [ask, Query.answered, show (node.invoke query).1 = _ from hsaid]
    exact ⟨trivial, _, rfl⟩
  | ok reply =>
    cases hread : (query.read reply).run.value with
    | ok answer =>
      simp only [ask, Query.answered, show (node.invoke query).1 = _ from hsaid, hread]
      exact ⟨trivial, _, rfl⟩
    | error failure =>
      simp only [ask, Query.answered, show (node.invoke query).1 = _ from hsaid, hread]
      exact ⟨trivial, _, rfl⟩

end Node

end Offload
