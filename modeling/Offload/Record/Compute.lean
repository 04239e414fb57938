import Offload.Job.Status
import Offload.Json.Wire

namespace Offload

open Number

structure JobStatus where
  id : Bytes := []
  status : Status := .pending
  progress : Single := ⟨0⟩
  completedChunks : UInt32 := 0
  totalChunks : UInt32 := 0
  secondsRemaining : UInt32 := 0
  error : Bytes := []
  deriving DecidableEq, Repr

instance : Wire JobStatus where
  encode v := .ofMembers
    [("jobId", Wire.encode v.id), ("status", Wire.encode v.status.name),
     ("progress", Wire.encode v.progress), ("completedChunks", Wire.encode v.completedChunks),
     ("totalChunks", Wire.encode v.totalChunks),
     ("estimatedTimeRemaining", Wire.encode v.secondsRemaining), ("errorMsg", Wire.encode v.error)]
  decode j := do
    let id ← j.field "jobId"
    let name : Bytes ← j.field "status"
    let progress ← j.fieldD "progress" ⟨0⟩
    let completedChunks ← j.fieldD "completedChunks" 0
    let totalChunks ← j.fieldD "totalChunks" 0
    let secondsRemaining ← j.fieldD "estimatedTimeRemaining" 0
    let error ← j.fieldD "errorMsg" []
    return { id, status := Status.ofName name, progress, completedChunks, totalChunks,
             secondsRemaining, error }

structure ComputeCapacity where
  cores : UInt32 := 0
  memory : UInt64 := 0
  load : Single := ⟨0⟩
  disk : UInt64 := 0
  bandwidth : UInt32 := 0
  deriving DecidableEq, Repr

instance : Wire ComputeCapacity where
  encode v := .ofMembers
    [("cpuCores", Wire.encode v.cores), ("ramMb", Wire.encode v.memory),
     ("currentLoad", Wire.encode v.load), ("diskMb", Wire.encode v.disk),
     ("bandwidthMbps", Wire.encode v.bandwidth)]
  decode j := do
    let cores ← j.field "cpuCores"
    let memory ← j.field "ramMb"
    let load ← j.field "currentLoad"
    let disk ← j.fieldD "diskMb" 0
    let bandwidth ← j.fieldD "bandwidthMbps" 0
    return { cores, memory, load, disk, bandwidth }

end Offload
