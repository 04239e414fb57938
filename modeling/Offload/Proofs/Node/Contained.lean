import Offload.Node.Basic
import Offload.Node.Chats
import Offload.Node.Jobs
import Offload.Node.Peers
import Offload.Node.Streams
import Offload.Node.Training
import Offload.Proofs.Base64
import Offload.Proofs.Json.Printer
import Offload.Proofs.Link.Classified
import Offload.Proofs.Node.Query

namespace Offload

/-- The questions that a client has for its node, each with its answer to a failure. -/
inductive Query.Offered : {α : Type} → Query α → (Failure → α) → Prop
  | allNodes : Offered allNodes fun _ => []
  | node (id : UInt32) : Offered (node id) fun _ => none
  | updateThreatScore (id : UInt32) (score : Number.Single) :
    Offered (updateThreatScore id score) fun _ => false
  | updateLatency (id : UInt32) (latency : Number.Single) :
    Offered (updateLatency id latency) fun _ => false
  | connectionQuality (peer : UInt32) : Offered (connectionQuality peer) fun _ => none
  | connectToPeer (peer : UInt32) (host : Bytes) (port : UInt16) :
    Offered (connectToPeer peer host port) fun _ => (false, none)
  | disconnectPeer (peer : UInt32) : Offered (disconnectPeer peer) fun _ => false
  | connectedPeers : Offered connectedPeers fun _ => []
  | sendMessage (peer : UInt32) (data : Bytes) : Offered (sendMessage peer data) fun _ => false
  | networkMetrics : Offered networkMetrics fun _ => none
  | startStreaming (config : StreamConfig) :
    Offered (startStreaming config) fun failure => (false, failure.message)
  | stopStreaming : Offered stopStreaming fun _ => false
  | sendVideoFrame (frame : VideoFrame) : Offered (sendVideoFrame frame) fun _ => false
  | sendAudioChunk (chunk : AudioChunk) : Offered (sendAudioChunk chunk) fun _ => false
  | sendChatMessage (peer text : Bytes) : Offered (sendChatMessage peer text) fun _ => false
  | connectStreamPeer (host : Bytes) (port : UInt16) :
    Offered (connectStreamPeer host port) fun _ => (false, [])
  | streamStats : Offered streamStats fun _ => none
  | submitJob (manifest : Manifest) :
    Offered (submitJob manifest) fun failure => (false, failure.message)
  | jobStatus (id : Bytes) : Offered (jobStatus id) fun _ => none
  | jobResult (id : Bytes) (milliseconds : UInt32) :
    Offered (jobResult id milliseconds) fun failure => { error := failure.message }
  | cancelJob (id : Bytes) : Offered (cancelJob id) fun _ => false
  | computeCapacity : Offered computeCapacity fun _ => none
  | startChatSession (peer : Bytes) : Offered (startChatSession peer) fun _ => none
  | sendEphemeralMessage (peer text : Bytes) : Offered (sendEphemeralMessage peer text) fun _ => false
  | chatMessages (peer : Bytes) : Offered (chatMessages peer) fun _ => []
  | closeChatSession (id : Bytes) : Offered (closeChatSession id) fun _ => false
  | setProxyConfig (config : ProxyConfig) :
    Offered (setProxyConfig config) fun failure => (false, failure.message)
  | proxyConfig : Offered proxyConfig fun _ => none
  | startTraining (task : TrainingTask) :
    Offered (startTraining task) fun failure => (false, failure.message)
  | trainingStatus (id : Bytes) : Offered (trainingStatus id) fun _ => none
  | stopTraining (id : Bytes) : Offered (stopTraining id) fun _ => false
  | submitGradient (update : GradientUpdate) : Offered (submitGradient update) fun _ => false
  | modelUpdate (version : UInt32) : Offered (modelUpdate version) fun _ => none

theorem Query.Offered.failed_eq {α : Type} {query : Query α} {standIn : Failure → α}
    (hoffered : query.Offered standIn) : query.failed = standIn := by
  cases hoffered <;> rfl

namespace Link

/-- Everything but a call with an operation of its own. -/
def Command.IsPlain : Command → Prop
  | .call _ _ => False
  | .connect _ _ | .disconnect | .invoke _ _ _ | .wait _ _ | .lay _ _ _ => True

variable {link : Link} {account : Account}

theorem Fits.invoke_of_unable (hfits : Fits link account) {params : Json}
    (hunable : link.isConnected = false ∨ ¬ params.WellEncoded) (method : Bytes) (timeout : Int) :
    ∃ failure, link.invoke method params timeout = (.error failure, link) := by
  cases hbody : params.dump .compact with
  | error fault => exact ⟨.json fault, by rw [Link.invoke, hbody]⟩
  | ok body =>
    have happart : link.live = none := by
      cases hfits with
      | apart hlive => exact hlive
      | joined loop _ _ hlive hphase _ _ _ hjoined =>
        rcases hunable with hdisconnected | hmalformed
        · rw [isConnected, hlive, hphase] at hdisconnected
          simp [hjoined.connected] at hdisconnected
        · exact (hmalformed (Json.exists_dump_iff.mp ⟨body, hbody⟩)).elim
    exact ⟨.notConnected link.endpoint, by rw [Link.invoke, hbody]; exact call_of_apart happart _ _⟩

end Link

namespace Node

variable {α : Type} {node : Node} {allowed : Link.Command → Prop} {query : Query α}

/-- A question fails only where nobody guards bytes that cannot be written, and then nothing is done. -/
theorem call_cases (node : Node) (query : Query α) :
    node.call query = (.ok (node.ask query).1, (node.ask query).2) ∨
      query.overlong = true ∧ node.call query = (.error .base64Overlong, node) := by
  unfold call
  split
  · next hfails => exact .inr ⟨hfails.1, rfl⟩
  · exact .inl rfl

/-- Nodes as they come about by questions and by the allowed operations on their links. -/
inductive Reached (allowed : Link.Command → Prop) : Node → Prop
  | opened (config : Config) (env : Environment) : Reached allowed (ofConfig config env)
  | perform {node : Node} (hreached : Reached allowed node) (command : Link.Command)
    (hallowed : allowed command) : Reached allowed { node with link := node.link.perform command }
  | ask {node : Node} (hreached : Reached allowed node) {α : Type} (query : Query α) :
    Reached allowed (node.ask query).2

theorem Reached.fits (hreached : node.Reached allowed) : ∃ account, Link.Fits node.link account := by
  induction hreached with
  | opened config env => exact ⟨{}, .apart rfl rfl rfl rfl⟩
  | perform _ command _ ih =>
    obtain ⟨account, hfits⟩ := ih
    exact ⟨_, hfits.perform command⟩
  | @ask node _ α query ih =>
    obtain ⟨account, hfits⟩ := ih
    obtain ⟨_, journal, hasked⟩ := node.ask_eq query
    obtain ⟨params, hlink⟩ := node.invoke_link query
    rw [hasked, hlink]
    exact ⟨_, (hfits.invoke _ _ _).env _⟩

theorem Reached.numbered (hreached : node.Reached allowed) : node.link.Numbered := by
  induction hreached with
  | opened config env => exact .of_apart rfl
  | perform _ command _ ih => exact ih.perform command
  | @ask node _ α query ih =>
    obtain ⟨_, journal, hasked⟩ := node.ask_eq query
    obtain ⟨params, hlink⟩ := node.invoke_link query
    rw [hasked, hlink]
    exact fun loop hlive => ih.invoke _ _ _ loop hlive

theorem Reached.call (hreached : node.Reached allowed) (query : Query α) :
    (node.call query).2.Reached allowed := by
  rcases node.call_cases query with hcall | ⟨_, hcall⟩ <;> rw [hcall]
  · exact hreached.ask query
  · exact hreached

theorem invoke_of_unable {account : Link.Account} (hfits : Link.Fits node.link account)
    (hunable : node.isConnected = false ∨ ¬ query.params.WellEncoded ∨ query.overlong = true) :
    ∃ failure, node.invoke query = (.error failure, node.link) := by
  cases hsize : query.overlong with
  | false =>
    rw [hsize] at hunable
    rw [invoke_of_brief hsize]
    exact hfits.invoke_of_unable (hunable.imp_right fun h => h.resolve_right Bool.false_ne_true) _ _
  | true => exact ⟨_, invoke_of_overlong hsize⟩

end Node

end Offload
