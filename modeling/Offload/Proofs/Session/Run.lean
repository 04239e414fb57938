import Offload.Proofs.Fields
import Offload.Session.Basic

namespace Offload.Session

/-- One step of a run. -/
inductive Command
  | connect
  | disconnect
  | submit (definition : Definition) (input : Bytes) (options : Options)
  | status (id : Bytes)
  | result (id : Bytes) (timeout : Int)
  | cancel (id : Bytes)
  | cleanup (id : Bytes)
  | capacity (host : ComputeCapacity)
  /-- Someone else connects the node to an endpoint. -/
  | connectTo (host : Bytes) (port : UInt16)
  | call (method : Bytes) (params : Json) (timeout : Int)
  | pass (milliseconds : Nat)
  /-- The surroundings settle how they treat the exchanges, resolutions and starts of loops to come. -/
  | lay (scripts : List Script) (resolutions : List Resolution) (starts : List Start := [])

/-- The session after one step. What the operation answers is left out here. -/
def perform (session : Session) : Command → Session
  | .connect => session.connect.2
  | .disconnect => session.disconnect
  | .submit definition input options => (session.submit definition input options).2
  | .status id => (session.status id).2
  | .result id timeout => (session.result id timeout).2
  | .cancel id => (session.cancel id).2
  | .cleanup id => (session.cleanup id).2
  | .capacity host => (session.capacity host).2
  | .connectTo host port => { session with node := (session.node.connectTo host port).2 }
  | .call method params timeout =>
    { session with
      node := { session.node with link := (session.node.link.invoke method params timeout).2 } }
  | .pass milliseconds => session.sleep milliseconds
  | .lay scripts resolutions starts =>
    { session with
      node := { session.node with
        link := { session.node.link with
          env := { session.node.link.env with scripts, resolutions, starts } } } }

def run (session : Session) (commands : List Command) : Session := commands.foldl perform session

/-- Sessions as they come about: a session without jobs on a node that was never connected, and
whatever a step makes of a session that came about. -/
inductive Reachable : Session → Prop
  | opened (config : Config) (env : Environment) (defaults : Options) :
    Reachable { node := Node.ofConfig config env, defaults }
  | step {session : Session} (hreach : Reachable session) (command : Command) :
    Reachable (session.perform command)

theorem Reachable.ofConfig (config : Config) (env : Environment) :
    Reachable (Session.ofConfig config env) :=
  .opened config env config.jobDefaults

theorem Reachable.run {session : Session} (hreach : session.Reachable) (commands : List Command) :
    (session.run commands).Reachable := by
  induction commands generalizing session with
  | nil => exact hreach
  | cons command rest ih => exact ih (hreach.step command)

/-- The step submits a job of this identity anew, or forgets it. -/
def Command.Replaces (id : Bytes) : Command → Prop
  | submit definition input _ => Identity.make definition.name input = id
  | cleanup other => other = id
  | _ => False

def fresh : Session := { node := Node.ofConfig {} {} }

/-- A job that takes its input as one chunk and leaves it as it is. -/
def plainJob : Definition :=
  { name := utf8 "plain", splitFunction := some fun input => Work.done [input], name_ne := by decide }

theorem fresh_reachable : fresh.Reachable := .opened {} {} {}

section Frame

variable (session : Session)

@[simp] theorem ask_record? {α : Type} (query : Query α) (id : Bytes) :
    (session.ask query).2.record? id = session.record? id := rfl

@[simp] theorem ask_ran {α : Type} (query : Query α) :
    (session.ask query).2.ran = session.ran := rfl

@[simp] theorem logAll_nil : session.logAll [] = session := rfl

theorem put_of_record? {id : Bytes} {record : JobRecord} (hget : session.record? id = some record) :
    session.put id record = session := by
  rw [put, SortedMap.insert_of_get? hget]

end Frame

end Offload.Session
