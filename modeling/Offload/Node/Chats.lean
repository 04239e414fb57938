import Offload.Node.Query
import Offload.Record.Chat

namespace Offload.Query

def startChatSession (peer : Bytes) : Query (Option ChatSession) where
  purpose := utf8 "starting chat session with " ++ peer
  method := "startChatSession"
  params := .ofMembers [("peerAddr", Wire.encode peer)]
  patience := .control
  read reply := do
    if ← Attempt.ofExcept (succeeded reply) then
      let session ← Attempt.ofExcept (reply.field "session")
      return some session
    else
      let _ ← logRefusal (utf8 "Node refused chat session with " ++ peer) reply
      return none
  failed _ := none

def sendEphemeralMessage (peer text : Bytes) : Query Bool :=
  success (utf8 "sending ephemeral message to " ++ peer) "sendEphemeralMessage"
    (.ofMembers [("message", .ofMembers
      [("toPeer", Wire.encode peer), ("message", Wire.encode text)])]) .control

def chatMessages (peer : Bytes) : Query (List ChatMessage) :=
  list (utf8 "receiving chat messages from " ++ peer) "receiveChatMessages"
    (.ofMembers [("peerAddr", Wire.encode peer)]) "messages"

def closeChatSession (id : Bytes) : Query Bool :=
  success (utf8 "closing chat session " ++ id) "closeChatSession"
    (.ofMembers [("sessionId", Wire.encode id)]) .control

def setProxyConfig (config : ProxyConfig) : Query (Bool × Bytes) :=
  status (utf8 "setting proxy config") "setProxyConfig"
    (.ofMembers [("config", Wire.encode config)]) .control

def proxyConfig : Query (Option ProxyConfig) :=
  value (utf8 "getting proxy config") "getProxyConfig" .empty .query "config"

end Offload.Query
