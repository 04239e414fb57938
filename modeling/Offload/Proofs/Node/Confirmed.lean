import Offload.Proofs.Json.Member
import Offload.Proofs.Node.Heard

namespace Offload

namespace Json

/-- The reply says that what was asked is done. -/
def Confirms (reply : Json) : Prop := reply.get? (utf8 "success") = some (.bool true)

/-- The reply says, if only by leaving it out, that what was asked is not done. -/
def Declines (reply : Json) : Prop :=
  ∃ members, reply = .object members ∧ (reply.get? (utf8 "success") = none ∨
    reply.get? (utf8 "success") = some (.bool false))

end Json

namespace Query

variable {α : Type} {reply : Json}

/-- The questions that are answered by yes or no. -/
inductive Plain : Query Bool → Prop
  | updateThreatScore (id : UInt32) (score : Number.Single) : Plain (updateThreatScore id score)
  | updateLatency (id : UInt32) (latency : Number.Single) : Plain (updateLatency id latency)
  | disconnectPeer (peer : UInt32) : Plain (disconnectPeer peer)
  | sendMessage (peer : UInt32) (data : Bytes) : Plain (sendMessage peer data)
  | stopStreaming : Plain stopStreaming
  | sendVideoFrame (frame : VideoFrame) : Plain (sendVideoFrame frame)
  | sendAudioChunk (chunk : AudioChunk) : Plain (sendAudioChunk chunk)
  | sendChatMessage (peer text : Bytes) : Plain (sendChatMessage peer text)
  | cancelJob (id : Bytes) : Plain (cancelJob id)
  | sendEphemeralMessage (peer text : Bytes) : Plain (sendEphemeralMessage peer text)
  | closeChatSession (id : Bytes) : Plain (closeChatSession id)
  | stopTraining (id : Bytes) : Plain (stopTraining id)
  | submitGradient (update : GradientUpdate) : Plain (submitGradient update)

section Answers

variable {query : Query Bool}

theorem Plain.eq_success (hplain : query.Plain) :
    ∃ purpose method params patience blobs guarded,
      query = { success purpose method params patience with blobs, guarded } := by
  cases hplain <;> exact ⟨_, _, _, _, _, _, rfl⟩

theorem Plain.failed_eq (hplain : query.Plain) (failure : Failure) : query.failed failure = false := by
  obtain ⟨_, _, _, _, _, _, rfl⟩ := hplain.eq_success
  rfl

end Answers

section Reasons

variable {query : Query (Bool × Bytes)}

end Reasons

end Query

namespace Node

variable {node : Node} {allowed : Link.Command → Prop}

/-- The node is heard to say that what was asked is done. -/
def Confirmed {α : Type} (node : Node) (query : Query α) : Prop :=
  ∃ reply, node.Hears query reply ∧ reply.Confirms

theorem Confirmed.brief {α : Type} {query : Query α} (hconfirmed : node.Confirmed query) :
    query.overlong = false := by
  obtain ⟨reply, hheard, _⟩ := hconfirmed
  exact hheard.brief

end Node

end Offload
