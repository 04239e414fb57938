import Offload.Node.Query
import Offload.Record.Node

namespace Offload.Query

open Number

def allNodes : Query (List NodeInfo) := list (utf8 "getting all nodes") "getAllNodes" .empty "nodes"

def node (id : UInt32) : Query (Option NodeInfo) where
  purpose := utf8 "getting node " ++ showNat id
  method := "getNode"
  params := .ofMembers [("nodeId", Wire.encode id)]
  patience := .query
  read reply :=
    match reply.get? (utf8 "node") with
    | none | some .null => return none
    | some found => Attempt.ofExcept ((Wire.decode found).map some)
  failed _ := none

def updateThreatScore (id : UInt32) (score : Single) : Query Bool :=
  success (utf8 "updating threat score for node " ++ showNat id) "updateNode"
    (.ofMembers [("nodeId", Wire.encode id), ("threatScore", Wire.encode score)]) .query

def updateLatency (id : UInt32) (latency : Single) : Query Bool :=
  success (utf8 "updating latency for node " ++ showNat id) "updateLatency"
    (.ofMembers [("nodeId", Wire.encode id), ("latencyMs", Wire.encode latency)]) .query

def connectionQuality (peer : UInt32) : Query (Option ConnectionQuality) :=
  value (utf8 "getting connection quality for peer " ++ showNat peer) "getConnectionQuality"
    (.ofMembers [("peerId", Wire.encode peer)]) .query "quality"

/-- Connects the node to a peer; the answer tells the quality where the reply has it. -/
def connectToPeer (peer : UInt32) (host : Bytes) (port : UInt16) :
    Query (Bool × Option ConnectionQuality) where
  purpose := utf8 "connecting to peer " ++ showNat peer ++ utf8 " at " ++ host ++ utf8 ":"
    ++ Bytes.decimal port.toNat
  method := "connectToPeer"
  params := .ofMembers
    [("peerId", Wire.encode peer), ("host", Wire.encode host), ("port", Wire.encode port)]
  patience := .control
  read reply := do
    if ← Attempt.ofExcept (succeeded reply) then
      match reply.get? (utf8 "quality") with
      | some (.object members) =>
        let quality ← Attempt.ofExcept (Wire.decode (.object members))
        return (true, some quality)
      | _ => return (true, none)
    else
      let _ ← logRefusal (utf8 "Node refused connection to peer " ++ showNat peer) reply
      return (false, none)
  failed _ := (false, none)

def disconnectPeer (peer : UInt32) : Query Bool :=
  success (utf8 "disconnecting peer " ++ showNat peer) "disconnectPeer"
    (.ofMembers [("peerId", Wire.encode peer)]) .control

def connectedPeers : Query (List UInt32) :=
  list (utf8 "getting connected peers") "getConnectedPeers" .empty "peers"

def sendMessage (peer : UInt32) (data : Bytes) : Query Bool :=
  { success (utf8 "sending message to peer " ++ showNat peer) "sendMessage"
      (.ofMembers [("toPeerId", Wire.encode peer), ("data", Wire.blob data)]) .bulk with
    blobs := [data], guarded := false }

def networkMetrics : Query (Option NetworkMetrics) :=
  value (utf8 "getting network metrics") "getNetworkMetrics" .empty .query "metrics"

end Offload.Query
