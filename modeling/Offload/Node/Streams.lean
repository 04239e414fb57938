import Offload.Node.Query
import Offload.Record.Stream

namespace Offload.Query

def startStreaming (config : StreamConfig) : Query (Bool × Bytes) :=
  status (utf8 "starting streaming on port " ++ Bytes.decimal config.port.toNat) "startStreaming"
    (.ofMembers [("config", Wire.encode config)]) .control

def stopStreaming : Query Bool :=
  success (utf8 "stopping streaming") "stopStreaming" .empty .control

def sendVideoFrame (frame : VideoFrame) : Query Bool :=
  { success (utf8 "sending video frame " ++ showNat frame.id) "sendVideoFrame"
      (.ofMembers [("frame", Wire.encode frame)]) .bulk with
    blobs := [frame.data], guarded := false }

def sendAudioChunk (chunk : AudioChunk) : Query Bool :=
  { success (utf8 "sending audio chunk") "sendAudioChunk"
      (.ofMembers [("chunk", Wire.encode chunk)]) .bulk with
    blobs := [chunk.data], guarded := false }

def sendChatMessage (peer text : Bytes) : Query Bool :=
  success (utf8 "sending chat message to " ++ peer) "sendChatMessage"
    (.ofMembers [("message", .ofMembers
      [("peerAddr", Wire.encode peer), ("message", Wire.encode text)])]) .control

/-- Connects the stream to a peer; the answer tells the address under which the node knows it. -/
def connectStreamPeer (host : Bytes) (port : UInt16) : Query (Bool × Bytes) where
  purpose := utf8 "connecting stream peer " ++ host ++ utf8 ":" ++ Bytes.decimal port.toNat
  method := "connectStreamPeer"
  params := .ofMembers [("host", Wire.encode host), ("port", Wire.encode port)]
  patience := .control
  read reply := do
    if ← Attempt.ofExcept (succeeded reply) then
      let address ← Attempt.ofExcept (reply.fieldD "peerAddr" [])
      return (true, address)
    else return (false, [])
  failed _ := (false, [])

def streamStats : Query (Option StreamStats) :=
  value (utf8 "getting stream stats") "getStreamStats" .empty .query "stats"

end Offload.Query
