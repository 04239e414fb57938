import Offload.Json.Wire

namespace Offload

structure ChatSession where
  id : Bytes := []
  peer : Bytes := []
  established : Int64 := 0
  deriving DecidableEq

instance : Wire ChatSession where
  encode v := .ofMembers
    [("sessionId", Wire.encode v.id), ("peerAddr", Wire.encode v.peer),
     ("established", Wire.encode v.established)]
  decode j := do
    let id ← j.field "sessionId"
    let peer ← j.field "peerAddr"
    let established ← j.fieldD "established" 0
    return { id, peer, established }

structure ChatMessage where
  sender : Bytes := []
  recipient : Bytes := []
  text : Bytes := []
  timestamp : Int64 := 0
  id : Bytes := []
  encryption : Bytes := []
  signature : Bytes := []
  deriving DecidableEq

instance : Wire ChatMessage where
  encode v := .ofMembers
    [("fromPeer", Wire.encode v.sender), ("toPeer", Wire.encode v.recipient),
     ("message", Wire.encode v.text), ("timestamp", Wire.encode v.timestamp),
     ("messageId", Wire.encode v.id), ("encryptionType", Wire.encode v.encryption),
     ("signature", Wire.blob v.signature)]
  decode j := do
    let sender ← j.field "fromPeer"
    let recipient ← j.field "toPeer"
    let text ← j.field "message"
    let timestamp ← j.fieldD "timestamp" 0
    let id ← j.fieldD "messageId" []
    let encryption ← j.fieldD "encryptionType" []
    let signature ← j.blobD "signature"
    return { sender, recipient, text, timestamp, id, encryption, signature }

structure ProxyConfig where
  enabled : Bool := false
  kind : Bytes := utf8 "socks5"
  host : Bytes := []
  port : UInt16 := 0
  username : Bytes := []
  password : Bytes := []
  deriving DecidableEq, Repr

instance : Wire ProxyConfig where
  encode v := .ofMembers
    [("enabled", Wire.encode v.enabled), ("proxyType", Wire.encode v.kind),
     ("proxyHost", Wire.encode v.host), ("proxyPort", Wire.encode v.port),
     ("username", Wire.encode v.username), ("password", Wire.encode v.password)]
  decode j := do
    let enabled ← j.field "enabled"
    let kind ← j.field "proxyType"
    let host ← j.field "proxyHost"
    let port ← j.field "proxyPort"
    let username ← j.fieldD "username" []
    let password ← j.fieldD "password" []
    return { enabled, kind, host, port, username, password }

end Offload
