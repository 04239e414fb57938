import Offload.Node.Basic
import Offload.Node.Jobs
import Offload.Session.Record

namespace Offload

/-- A node and the jobs submitted through it. -/
structure Session where
  node : Node
  defaults : Options := {}
  jobs : SortedMap JobRecord := .empty
  /-- The calls of job functions that ran in this process, in order. -/
  ran : List Invocation := []

structure JobResult where
  data : Bytes
  worker : Bytes
  deriving DecidableEq, Repr

namespace Session

/-- A session under a configuration, whose chunk sizes become the defaults of its jobs. -/
def ofConfig (config : Config) (env : Environment) : Session :=
  { node := Node.ofConfig config env, defaults := config.jobDefaults }

def ofNode (node : Option Node) : Except Failure Session :=
  match node with
  | some node => .ok { node }
  | none => .error .noNode

def connect (session : Session) : Bool × Session :=
  let (connected, node) := session.node.connect
  (connected, { session with node })

def disconnect (session : Session) : Session := { session with node := session.node.disconnect }

def isConnected (session : Session) : Bool := session.node.isConnected

def clock (session : Session) : Nat := session.node.link.env.clock

def log (session : Session) (entry : Entry) : Session :=
  { session with node := session.node.log entry }

def logAll (session : Session) (entries : List Entry) : Session :=
  { session with node := { session.node with link := session.node.link.logAll entries } }

def sleep (session : Session) (milliseconds : Nat) : Session :=
  { session with node := { session.node with link := session.node.link.sleep milliseconds } }

def ask {α : Type} (session : Session) (query : Query α) : α × Session :=
  let (answer, node) := session.node.ask query
  (answer, { session with node })

def record? (session : Session) (id : Bytes) : Option JobRecord := session.jobs.get? id

def record (session : Session) (id : Bytes) : Except Failure JobRecord :=
  match session.record? id with
  | some record => .ok record
  | none => .error (.unknownJob id)

def put (session : Session) (id : Bytes) (record : JobRecord) : Session :=
  { session with jobs := session.jobs.insert id record }

def expire (session : Session) (id : Bytes) (record : JobRecord) : JobRecord × Session :=
  let expired := record.expire session.clock
  (expired.value, (session.put id expired.value).logAll expired.entries)

/-- Does some work on a job in this process. -/
def labour {α : Type} (session : Session) (work : Work α) : Session :=
  { session.sleep work.elapsed with ran := session.ran ++ work.invocations }

def runLocally (session : Session) (id : Bytes) (record : JobRecord) : Session :=
  let work := record.work
  let concluded := record.concludeLocally work.outcome
  ((session.labour work).put id concluded.value).logAll concluded.entries

def jobText (id : Bytes) (words : String) : Bytes := utf8 "Job " ++ id ++ utf8 words

/-- Takes note of the node's answer to a submission, and runs the job here if it was refused. -/
def assign (session : Session) (id : Bytes) (record : JobRecord) (answer : Bool × Bytes) :
    Session :=
  if answer.1 then
    let acknowledged :=
      if answer.2 = id then session
      else session.log
        (.warning (utf8 "Node acknowledged job " ++ id ++ utf8 " as " ++ answer.2))
    (acknowledged.put id { record with remote := true, status := .assigned }).log
      (.info (jobText id " assigned by the node"))
  else
    (session.log (.warning (utf8 "Remote submission of job " ++ id ++ utf8 " failed (" ++ answer.2
      ++ utf8 "), falling back to local execution"))).runLocally id record

/-- Submits a job. Its identity is settled before anything is sent, and a record of the same
identity is replaced. -/
def submit (session : Session) (definition : Definition) (input : Bytes) (options : Options) :
    Except Failure Bytes × Session :=
  let validated := definition.validate
  let warned := session.logAll validated.entries
  match validated.value.toManifest input options with
  | .error failure => (.error failure, warned)
  | .ok manifest =>
    let record : JobRecord :=
      { manifest, input, definition := validated.value, started := session.clock }
    let announced := (warned.log (.info (utf8 "Submitting job " ++ manifest.id ++ utf8 " ("
      ++ definition.name ++ utf8 ", " ++ Bytes.decimal input.length ++ utf8 " bytes)"))).put
        manifest.id record
    let (answer, asked) := announced.ask (Query.submitJob manifest)
    (.ok manifest.id, asked.assign manifest.id record answer)

/-- Where a job stands. The node is asked about jobs it may know more about than this session. -/
def status (session : Session) (id : Bytes) : Except Failure JobStatus × Session :=
  match session.record? id with
  | none =>
    let (answer, asked) := session.ask (Query.jobStatus id)
    match answer with
    | some remote => (.ok remote, asked)
    | none => (.error (.unknownJob id), asked)
  | some found =>
    let (record, current) := session.expire id found
    if record.remote ∧ record.isSettled = false then
      let (answer, asked) := current.ask (Query.jobStatus id)
      match answer with
      | some remote =>
        let updated := { record with
          status := remote.status
          error := if remote.error = [] then record.error else remote.error }
        (.ok remote, asked.put id updated)
      | none => (.ok (record.report id), asked)
    else (.ok (record.report id), current)

def pollInterval : Nat := 100

/-- Looks at a record until it has a result, its job has ended, or no time remains. -/
def poll (id : Bytes) (timeout : Int) (remaining : Nat) (record : JobRecord) (session : Session) :
    Except Failure JobResult × Session :=
  let (record, current) := session.expire id record
  if record.status = .completed ∧ record.worker ≠ [] then
    (.ok ⟨record.result, record.worker⟩, current)
  else if record.status.endedWithoutResult then
    (.error (.jobFailed (record.endText id)), current)
  else if _hrest : remaining = 0 then (.error (.jobTimeout id timeout), current)
  else
    poll id timeout (remaining - min pollInterval remaining) record
      (current.sleep (min pollInterval remaining))
termination_by remaining
decreasing_by simp only [pollInterval]; omega

/-- The result of a job, for which to wait the given milliseconds. The node is asked once, if the
job is its own and not settled. -/
def result (session : Session) (id : Bytes) (timeout : Int) : Except Failure JobResult × Session :=
  match session.record? id with
  | none => (.error (.unknownJob id), session)
  | some found =>
    let deadline := session.node.link.env.instant timeout
    let (record, current) := session.expire id found
    if record.remote ∧ record.isSettled = false then
      let (reply, asked) := current.ask (Query.jobResult id (UInt32.ofInt (max timeout 0)))
      match reply.data with
      | some data =>
        let worker := if reply.worker = [] then JobRecord.remoteWorker else reply.worker
        (.ok ⟨data, worker⟩,
          asked.put id { record with result := data, worker, status := .completed })
      | none =>
        let warned := asked.log (.warning (utf8 "Could not fetch result of job " ++ id
          ++ utf8 " from the node (" ++ reply.error ++ utf8 "), polling local record"))
        poll id timeout (deadline - warned.clock).toNat record warned
    else poll id timeout (deadline - current.clock).toNat record current

/-- Cancels a job, on the node too if it runs there. The answer is whether the job is tracked. -/
def cancel (session : Session) (id : Bytes) : Bool × Session :=
  match session.record? id with
  | none => (false, session.log (.warning (utf8 "Cannot cancel unknown job " ++ id)))
  | some record =>
    let (onNode, asked) :=
      if record.remote then session.ask (Query.cancelJob id) else (false, session)
    let words := if onNode then " cancelled on the node" else " cancelled locally"
    (true, (asked.log (.info (jobText id words))).put id
      { record with status := .cancelled, error := jobText id " was cancelled" })

def list (session : Session) : List Bytes := session.jobs.keys

/-- Forgets a job. The answer is whether it was tracked. -/
def cleanup (session : Session) (id : Bytes) : Bool × Session :=
  ((session.record? id).isSome, { session with jobs := session.jobs.erase id })

/-- The node's capacity, or this host's if the node tells none. -/
def capacity (session : Session) (host : ComputeCapacity) : ComputeCapacity × Session :=
  let (answer, asked) := session.ask Query.computeCapacity
  (answer.getD host, asked)

end Session

end Offload
