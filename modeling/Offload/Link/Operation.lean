import Offload.Link.Handle
import Offload.Link.Environment

namespace Offload

inductive Completion
  | nodeId
  | callId
  | value (json : Json)
  | failure (failure : Failure)

/-- What is done when a call is cancelled. -/
inductive Reaction
  | signal
  | abort
  | complete (completion : Completion)
  /-- A failure that nothing on the loop takes care of. -/
  | raise (failure : Failure)

inductive Step
  | complete (completion : Completion)
  /-- The operation fails; the steps behind it are not taken. -/
  | raise (failure : Failure)
  /-- The loop itself sleeps. -/
  | sleep (milliseconds : Nat)
  | onCancel (reactions : List Reaction)
  /-- A timer that completes the call. -/
  | later (milliseconds : Nat) (completion : Completion)
  /-- A request whose reply completes the call. -/
  | exchange (target body : Bytes)

abbrev Operation := List Step

namespace Operation

/-- Asks the peer; when cancelled, the exchange is aborted. -/
def ask (target body : Bytes) : Operation := [.onCancel [.abort], .exchange target body]

end Operation

def Step.work : Step → Nat
  | complete _ | raise _ | sleep _ | onCancel _ => 1
  | later _ _ => 3
  | exchange _ _ => 8

def total {α : Type} (measure : α → Nat) : List α → Nat
  | [] => 0
  | item :: rest => measure item + total measure rest

def Operation.work (operation : Operation) : Nat := total Step.work operation

end Offload
