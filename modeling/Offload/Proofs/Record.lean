import Offload.Proofs.Json.Wire
import Offload.Record.Chat
import Offload.Record.Compute
import Offload.Record.Node
import Offload.Record.Stream
import Offload.Record.Training

namespace Offload

open Wire

instance : Lawful NodeInfo where
  decode_encode info := by
    dsimp +instances only [instWireNodeInfo]
    simp [List.lookup_cons]

instance : Lawful ConnectionQuality where
  decode_encode quality := by
    dsimp +instances only [instWireConnectionQuality]
    simp [List.lookup_cons]

instance : Lawful NetworkMetrics where
  decode_encode metrics := by
    dsimp +instances only [instWireNetworkMetrics]
    simp [List.lookup_cons]

instance : Lawful StreamConfig where
  decode_encode config := by
    obtain ⟨number, hread, hkind⟩ := decode_byte config.kind
    dsimp +instances only [instWireStreamConfig]
    simp [List.lookup_cons, hread, hkind]

theorem VideoFrame.faithful :
    Faithful VideoFrame (fun frame => frame.data.length ≤ 1610612733) := by
  refine .of_fits (fun frame hfits => ?_) fun json frame hread => ?_
  · have hblob := Base64.decode_text hfits
    dsimp +instances only [instWireVideoFrame]
    simp [List.lookup_cons, hblob]
  · dsimp +instances only [instWireVideoFrame] at hread
    simp only [Failure.bind_eq_ok_iff] at hread
    obtain ⟨_, -, data, hblob, _, -, hend⟩ := hread
    cases hend
    exact Json.length_le_of_blob hblob

theorem AudioChunk.faithful :
    Faithful AudioChunk (fun chunk => chunk.data.length ≤ 1610612733) := by
  refine .of_fits (fun chunk hfits => ?_) fun json chunk hread => ?_
  · have hblob := Base64.decode_text hfits
    dsimp +instances only [instWireAudioChunk]
    simp [List.lookup_cons, hblob]
  · dsimp +instances only [instWireAudioChunk] at hread
    simp only [Failure.bind_eq_ok_iff] at hread
    obtain ⟨data, hblob, _, -, _, -, hend⟩ := hread
    cases hend
    exact Json.length_le_of_blob hblob

instance : Lawful StreamStats where
  decode_encode stats := by
    dsimp +instances only [instWireStreamStats]
    simp [List.lookup_cons]

instance : Lawful JobStatus where
  decode_encode status := by
    dsimp +instances only [instWireJobStatus]
    simp [List.lookup_cons, Status.ofName_name]

instance : Lawful ComputeCapacity where
  decode_encode capacity := by
    dsimp +instances only [instWireComputeCapacity]
    simp [List.lookup_cons]

instance : Lawful ChatSession where
  decode_encode session := by
    dsimp +instances only [instWireChatSession]
    simp [List.lookup_cons]

theorem ChatMessage.faithful :
    Faithful ChatMessage (fun message => message.signature.length ≤ 1610612733) := by
  refine .of_fits (fun message hfits => ?_) fun json message hread => ?_
  · have hblob := Base64.decode_text hfits
    dsimp +instances only [instWireChatMessage]
    simp [List.lookup_cons, hblob]
  · dsimp +instances only [instWireChatMessage] at hread
    simp only [Failure.bind_eq_ok_iff] at hread
    obtain ⟨_, -, _, -, _, -, _, -, _, -, _, -, data, hblob, hend⟩ := hread
    cases hend
    exact Json.length_le_of_blobD hblob

instance : Lawful ProxyConfig where
  decode_encode proxy := by
    dsimp +instances only [instWireProxyConfig]
    simp [List.lookup_cons]

instance : Lawful TrainingTask where
  decode_encode task := by
    dsimp +instances only [instWireTrainingTask]
    simp [List.lookup_cons]

instance : Lawful TrainingStatus where
  decode_encode status := by
    dsimp +instances only [instWireTrainingStatus]
    simp [List.lookup_cons]

theorem GradientUpdate.faithful :
    Faithful GradientUpdate (fun update => update.gradients.length ≤ 1610612733) := by
  refine .of_fits (fun update hfits => ?_) fun json update hread => ?_
  · have hblob := Base64.decode_text hfits
    dsimp +instances only [instWireGradientUpdate]
    simp [List.lookup_cons, hblob]
  · dsimp +instances only [instWireGradientUpdate] at hread
    simp only [Failure.bind_eq_ok_iff] at hread
    obtain ⟨_, -, _, -, _, -, data, hblob, _, -, _, -, hend⟩ := hread
    cases hend
    exact Json.length_le_of_blob hblob

theorem ModelUpdate.faithful :
    Faithful ModelUpdate (fun update => update.parameters.length ≤ 1610612733) := by
  refine .of_fits (fun update hfits => ?_) fun json update hread => ?_
  · have hblob := Base64.decode_text hfits
    dsimp +instances only [instWireModelUpdate]
    simp [List.lookup_cons, hblob]
  · dsimp +instances only [instWireModelUpdate] at hread
    simp only [Failure.bind_eq_ok_iff] at hread
    obtain ⟨_, -, data, hblob, _, -, _, -, _, -, _, -, hend⟩ := hread
    cases hend
    exact Json.length_le_of_blob hblob

/-- Every record of the calls comes back from its JSON form, where its raw bytes, if it has any, are no more
than can be written. Reading it a second time gives what the first reading gave. -/
theorem records_faithful :
    Faithful NodeInfo ∧ Faithful ConnectionQuality ∧ Faithful NetworkMetrics ∧
      Faithful StreamConfig ∧ Faithful VideoFrame (fun frame => frame.data.length ≤ 1610612733) ∧
      Faithful AudioChunk (fun chunk => chunk.data.length ≤ 1610612733) ∧
      Faithful StreamStats ∧ Faithful JobStatus ∧ Faithful ComputeCapacity ∧ Faithful ChatSession ∧
      Faithful ChatMessage (fun message => message.signature.length ≤ 1610612733) ∧
      Faithful ProxyConfig ∧ Faithful TrainingTask ∧ Faithful TrainingStatus ∧
      Faithful GradientUpdate (fun update => update.gradients.length ≤ 1610612733) ∧
      Faithful ModelUpdate (fun update => update.parameters.length ≤ 1610612733) :=
  ⟨Lawful.faithful NodeInfo, Lawful.faithful ConnectionQuality, Lawful.faithful NetworkMetrics,
    Lawful.faithful StreamConfig, VideoFrame.faithful, AudioChunk.faithful,
    Lawful.faithful StreamStats, Lawful.faithful JobStatus, Lawful.faithful ComputeCapacity,
    Lawful.faithful ChatSession, ChatMessage.faithful, Lawful.faithful ProxyConfig,
    Lawful.faithful TrainingTask, Lawful.faithful TrainingStatus, GradientUpdate.faithful,
    ModelUpdate.faithful⟩

end Offload
