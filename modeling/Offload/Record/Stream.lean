import Offload.Json.Wire

namespace Offload

open Number

structure StreamConfig where
  port : UInt16 := 0
  peerHost : Bytes := []
  peerPort : UInt16 := 0
  /-- The kind of stream by number: video, audio and chat from zero on. -/
  kind : UInt8 := 0
  deriving DecidableEq, Repr

instance : Wire StreamConfig where
  encode v := .ofMembers
    [("port", Wire.encode v.port), ("peerHost", Wire.encode v.peerHost),
     ("peerPort", Wire.encode v.peerPort), ("streamType", .int v.kind.toNat)]
  decode j := do
    let port ← j.field "port"
    let peerHost ← j.field "peerHost"
    let peerPort ← j.field "peerPort"
    let kind : Int32 ← j.field "streamType"
    return { port, peerHost, peerPort, kind := UInt8.ofInt kind.toInt }

structure VideoFrame where
  id : UInt32 := 0
  data : Bytes := []
  peer : Bytes := []
  deriving DecidableEq, Repr

instance : Wire VideoFrame where
  encode v := .ofMembers
    [("frameId", Wire.encode v.id), ("data", Wire.blob v.data), ("peerAddr", Wire.encode v.peer)]
  decode j := do
    let id ← j.field "frameId"
    let data ← j.blob "data"
    let peer ← j.fieldD "peerAddr" []
    return { id, data, peer }

structure AudioChunk where
  data : Bytes := []
  peer : Bytes := []
  timestamp : UInt64 := 0
  deriving DecidableEq, Repr

instance : Wire AudioChunk where
  encode v := .ofMembers
    [("data", Wire.blob v.data), ("peerAddr", Wire.encode v.peer),
     ("timestamp", Wire.encode v.timestamp)]
  decode j := do
    let data ← j.blob "data"
    let peer ← j.fieldD "peerAddr" []
    let timestamp ← j.fieldD "timestamp" 0
    return { data, peer, timestamp }

structure StreamStats where
  framesSent : UInt64 := 0
  framesReceived : UInt64 := 0
  bytesSent : UInt64 := 0
  bytesReceived : UInt64 := 0
  averageLatency : Single := ⟨0⟩
  deriving DecidableEq, Repr

instance : Wire StreamStats where
  encode v := .ofMembers
    [("framesSent", Wire.encode v.framesSent), ("framesReceived", Wire.encode v.framesReceived),
     ("bytesSent", Wire.encode v.bytesSent), ("bytesReceived", Wire.encode v.bytesReceived),
     ("avgLatencyMs", Wire.encode v.averageLatency)]
  decode j := do
    let framesSent ← j.field "framesSent"
    let framesReceived ← j.field "framesReceived"
    let bytesSent ← j.field "bytesSent"
    let bytesReceived ← j.field "bytesReceived"
    let averageLatency ← j.field "avgLatencyMs"
    return { framesSent, framesReceived, bytesSent, bytesReceived, averageLatency }

end Offload
