import Offload.Job.Manifest
import Offload.Record.Compute

namespace Offload

open Number

/-- What a session knows about one job. -/
structure JobRecord where
  manifest : Manifest
  input : Bytes
  definition : Definition
  status : Status := .pending
  started : Nat
  result : Bytes := []
  error : Bytes := []
  /-- Who delivered the result; empty as long as nobody has. -/
  worker : Bytes := []
  /-- Whether the node has taken the job on. -/
  remote : Bool := false
  /-- Whether the chunks of a local run make up the input, where that was checked. -/
  integrity : Option Bool := none

namespace JobRecord

def localWorker : Bytes := utf8 "local"

def remoteWorker : Bytes := utf8 "remote"

def overdueText (record : JobRecord) : Bytes :=
  utf8 "Job exceeded its timeout of " ++ Bytes.decimal record.manifest.options.timeoutSeconds.toNat
    ++ utf8 " s"

/-- Whether the job should have ended by now. A timeout of zero means none. -/
def isOverdue (record : JobRecord) (clock : Nat) : Bool :=
  !record.status.isTerminal && record.manifest.options.timeoutSeconds ≠ 0
    && decide (1000 * record.manifest.options.timeoutSeconds.toNat < clock - record.started)

def expire (record : JobRecord) (clock : Nat) : Logged JobRecord :=
  if record.isOverdue clock then
    ⟨{ record with status := .timeout, error := record.overdueText },
      [.warning (utf8 "Job " ++ record.manifest.id ++ utf8 ": " ++ record.overdueText)]⟩
  else ⟨record, []⟩

/-- Whether the node has nothing more to say about the job. -/
def isSettled (record : JobRecord) : Bool :=
  record.status.endedWithoutResult || record.worker ≠ []

def report (record : JobRecord) (id : Bytes) : JobStatus :=
  let completed := record.status = .completed
  { id
    status := record.status
    progress := ⟨if completed then 0x3f800000 else 0x3f000000⟩
    completedChunks := if completed then 1 else 0
    totalChunks := 1
    secondsRemaining := if completed then 0 else 10
    error := record.error }

def endText (record : JobRecord) (id : Bytes) : Bytes :=
  if record.error = [] then utf8 "Job " ++ id ++ utf8 " ended as " ++ record.status.name
  else record.error

/-- A run of the job's functions: the chunks and the merged result. -/
def work (record : JobRecord) : Work (List Bytes × Bytes) := do
  let chunks ← record.definition.split record.input
  let results ← Work.forEach record.definition.execute chunks
  let merged ← record.definition.merge results
  return (chunks, merged)

/-- Checks that chunks make up the input, where the manifest asks for it. -/
def verify (record : JobRecord) (chunks : List Bytes) : Logged (Option Bool) :=
  if record.manifest.options.verificationMode = utf8 "hash" then do
    let intact ← Chunker.verifyIntegrity chunks (Digest.sha256Hex record.input)
    if !intact then
      Logged.log (.warning (utf8 "Job " ++ record.manifest.id
        ++ utf8 ": chunks do not reassemble into the input"))
    return some intact
  else return none

def concludeLocally (record : JobRecord) : Except Failure (List Bytes × Bytes) → Logged JobRecord
  | .ok (chunks, merged) => do
    let integrity ← record.verify chunks
    Logged.log (.info (utf8 "Job " ++ record.manifest.id ++ utf8 " completed locally ("
      ++ Bytes.decimal merged.length ++ utf8 " bytes)"))
    return { record with
      status := .completed, result := merged, worker := localWorker, integrity }
  | .error failure =>
    ⟨{ record with status := .failed, error := failure.message, worker := localWorker },
      [.error (utf8 "Job " ++ record.manifest.id ++ utf8 " failed locally: " ++ failure.message)]⟩

end JobRecord

end Offload
