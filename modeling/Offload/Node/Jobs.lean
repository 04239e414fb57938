import Offload.Job.Manifest
import Offload.Node.Query
import Offload.Record.Compute

namespace Offload.Query

/-- Hands a job to the node. The answer is the name under which the node runs the job, or why it
does not. -/
def submitJob (manifest : Manifest) : Query (Bool × Bytes) where
  purpose := utf8 "submitting job " ++ manifest.id
  method := "submitComputeJob"
  params := .ofMembers [("manifest", manifest.toJson)]
  blobs := [manifest.program, manifest.input]
  patience := .control
  read reply := do
    if ← Attempt.ofExcept (succeeded reply) then
      match reply.get? (utf8 "jobId") with
      | some (.string id) => return (true, if id = [] then manifest.id else id)
      | _ => return (true, manifest.id)
    else
      let text ← logRefusal (utf8 "Node rejected job " ++ manifest.id) reply
      return (false, text)
  failed failure := (false, failure.message)

def jobStatus (id : Bytes) : Query (Option JobStatus) where
  purpose := utf8 "getting status of job " ++ id
  method := "getComputeJobStatus"
  params := .ofMembers [("jobId", Wire.encode id)]
  patience := .query
  read reply :=
    match reply.get? (utf8 "status") with
    | some (.object members) =>
      Attempt.ofExcept ((Wire.decode (.object members)).map some)
    | _ => return none
  failed _ := none

/-- What the node hands over when it is asked for a result. -/
structure ResultReply where
  data : Option Bytes := none
  error : Bytes := []
  worker : Bytes := []
  deriving DecidableEq, Repr

/-- The result of a job, for which the node may wait the given milliseconds. -/
def jobResult (id : Bytes) (milliseconds : UInt32) : Query ResultReply where
  purpose := utf8 "getting result of job " ++ id
  method := "getComputeJobResult"
  params := .ofMembers [("jobId", Wire.encode id), ("timeoutMs", Wire.encode milliseconds)]
  patience := .result milliseconds
  read reply := Attempt.ofExcept do
    if ← succeeded reply then
      let data ← reply.blobD "result"
      let worker ← reply.fieldD "workerNode" []
      return { data := some data, worker }
    else return { error := ← refusal reply }
  failed failure := { error := failure.message }

def cancelJob (id : Bytes) : Query Bool :=
  success (utf8 "cancelling job " ++ id) "cancelComputeJob"
    (.ofMembers [("jobId", Wire.encode id)]) .control

def computeCapacity : Query (Option ComputeCapacity) :=
  value (utf8 "getting compute capacity") "getComputeCapacity" .empty .query "capacity"

end Offload.Query
