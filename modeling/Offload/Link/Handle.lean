import Offload.Bytes

namespace Offload

structure Handle (α : Type) where
  id : Nat
  cancelled : Bool := false
  /-- What to do when the call is cancelled. -/
  action : Option α := none
  deriving Repr

namespace Handle

variable {α : Type}

/-- Registers an action in place of the one before. On a cancelled handle it is due at once. -/
def onCancel (handle : Handle α) (action : Option α) : Handle α × Option α :=
  if handle.cancelled then (handle, action) else ({ handle with action }, none)

/-- Cancels the call. The first time the registered action is due, later nothing is. -/
def cancel (handle : Handle α) : Handle α × Option α :=
  if handle.cancelled then (handle, none)
  else ({ handle with cancelled := true, action := none }, handle.action)

inductive Act
  /-- An action is registered that leaves a tag and then acts on the handle itself. -/
  | register (tag : Bytes) (acts : List Act)
  | clear
  | cancel

/-- An action: the tag that it leaves, and what it then does to its own handle. -/
structure Note where
  tag : Bytes
  acts : List Act

namespace Act

mutual

/-- How many acts an act can lead to, itself included. -/
def work : Act → Nat
  | register _ acts => 1 + workOf acts
  | clear | cancel => 1

def workOf : List Act → Nat
  | [] => 0
  | act :: rest => act.work + workOf rest

end

theorem workOf_append (acts more : List Act) :
    workOf (acts ++ more) = workOf acts + workOf more := by
  induction acts with
  | nil => simp [workOf]
  | cons act rest ih => simp [workOf, ih, Nat.add_assoc]

end Act

def dueWork (note : Option Note) : Nat := note.elim 0 fun note => Act.workOf note.acts

/-- The handle after an act, and the action that is due then. -/
def take (handle : Handle Note) : Act → Handle Note × Option Note
  | .register tag acts => handle.onCancel (some ⟨tag, acts⟩)
  | .clear => handle.onCancel none
  | .cancel => handle.cancel

/-- An act uses itself up: what is due or kept after it, it brought itself or was kept before. -/
theorem take_work_lt (handle : Handle Note) (act : Act) :
    dueWork (handle.take act).2 + dueWork (handle.take act).1.action <
      act.work + dueWork handle.action := by
  cases hcancelled : handle.cancelled with
  | true => cases act <;> simp [take, onCancel, cancel, hcancelled, dueWork, Act.work]
  | false =>
    cases act <;> simp only [take, onCancel, cancel, hcancelled, dueWork, Act.work, Option.elim_none,
      Option.elim_some, Bool.false_eq_true, if_false] <;> omega

/-- The handle after acts in order, and the tags that were left, behind those before. An action that
is due is carried out at once, before the acts behind the one that made it due. -/
def perform (state : Handle Note × List Bytes) : List Act → Handle Note × List Bytes
  | [] => state
  | act :: rest =>
    match _htake : state.1.take act with
    | (handle, none) => perform (handle, state.2) rest
    | (handle, some note) => perform (handle, state.2 ++ [note.tag]) (note.acts ++ rest)
termination_by acts => Act.workOf acts + dueWork state.1.action
decreasing_by
  all_goals
    have hlt := take_work_lt state.1 act
    rw [_htake] at hlt
    simp only [dueWork, Option.elim_none, Option.elim_some, Act.workOf, Act.workOf_append] at hlt ⊢
    omega

end Handle

end Offload
