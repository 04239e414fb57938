import Offload.Json.Wire

namespace Offload

open Number

structure NodeInfo where
  id : UInt32 := 0
  status : UInt32 := 0
  latency : Single := ⟨0⟩
  threatScore : Single := ⟨0⟩
  deriving DecidableEq, Repr

instance : Wire NodeInfo where
  encode v := .ofMembers
    [("id", Wire.encode v.id), ("status", Wire.encode v.status),
     ("latencyMs", Wire.encode v.latency), ("threatScore", Wire.encode v.threatScore)]
  decode j := do
    let id ← j.field "id"
    let status ← j.field "status"
    let latency ← j.field "latencyMs"
    let threatScore ← j.field "threatScore"
    return { id, status, latency, threatScore }

structure ConnectionQuality where
  latency : Single := ⟨0⟩
  jitter : Single := ⟨0⟩
  packetLoss : Single := ⟨0⟩
  deriving DecidableEq, Repr

instance : Wire ConnectionQuality where
  encode v := .ofMembers
    [("latencyMs", Wire.encode v.latency), ("jitterMs", Wire.encode v.jitter),
     ("packetLoss", Wire.encode v.packetLoss)]
  decode j := do
    let latency ← j.field "latencyMs"
    let jitter ← j.field "jitterMs"
    let packetLoss ← j.field "packetLoss"
    return { latency, jitter, packetLoss }

structure NetworkMetrics where
  peerCount : UInt32 := 0
  averageRoundTrip : Single := ⟨0⟩
  packetLoss : Single := ⟨0⟩
  deriving DecidableEq, Repr

instance : Wire NetworkMetrics where
  encode v := .ofMembers
    [("peerCount", Wire.encode v.peerCount), ("avgRttMs", Wire.encode v.averageRoundTrip),
     ("packetLoss", Wire.encode v.packetLoss)]
  decode j := do
    let peerCount ← j.field "peerCount"
    let averageRoundTrip ← j.field "avgRttMs"
    let packetLoss ← j.field "packetLoss"
    return { peerCount, averageRoundTrip, packetLoss }

end Offload
