import Offload.Failure

namespace Offload

inductive Invocation
  | split (input : Bytes)
  | execute (chunk : Bytes)
  | merge (results : List Bytes)
  deriving DecidableEq, Repr

/-- The outcome of some work and the milliseconds it took. -/
structure Work (α : Type) where
  elapsed : Nat
  outcome : Except Failure α
  /-- The calls of a job's functions, in order. -/
  invocations : List Invocation := []

namespace Work

variable {α β : Type}

def done (value : α) : Work α := { elapsed := 0, outcome := .ok value }

def fail (failure : Failure) : Work α := { elapsed := 0, outcome := .error failure }

def andThen (first : Work α) (next : α → Work β) : Work β :=
  match first.outcome with
  | .ok value =>
    ⟨first.elapsed + (next value).elapsed, (next value).outcome,
      first.invocations ++ (next value).invocations⟩
  | .error failure => ⟨first.elapsed, .error failure, first.invocations⟩

instance : Monad Work where
  pure := done
  bind := andThen

def sleep (milliseconds : Nat) : Work Unit := { elapsed := milliseconds, outcome := .ok () }

def ofExcept (outcome : Except Failure α) : Work α := { elapsed := 0, outcome }

/-- The work of a function as one call of it. Calls that the function itself makes are its own
affair. -/
def asCall (work : Work α) (invocation : Invocation) : Work α :=
  { work with invocations := [invocation] }

def mapOnto (f : α → Work β) (results : List β) (elapsed : Nat) (calls : List Invocation) :
    List α → Work (List β)
  | [] => ⟨elapsed, .ok results.reverse, calls.reverse⟩
  | item :: items =>
    let step := f item
    let calls := step.invocations.reverse ++ calls
    match step.outcome with
    | .ok result => mapOnto f (result :: results) (elapsed + step.elapsed) calls items
    | .error failure => ⟨elapsed + step.elapsed, .error failure, calls.reverse⟩

/-- Applies a function to the items in order, up to the first failure. -/
def forEach (f : α → Work β) (items : List α) : Work (List β) := mapOnto f [] 0 [] items

end Work

end Offload
