import Offload.Proofs.Link.Inquiry

namespace Offload

namespace Loop

variable {id other began : Nat} {givenUp : Prop} {env env' : Environment} {loop begun after : Loop}
  {service : Service} {tasks more : List Task} {exchange : Exchange} {stage : Stage}

/-- Of the tasks of the call none but its cancellation is among these, and this one is if the call was
given up. -/
structure Cancelling (id : Nat) (givenUp : Prop) (tasks : List Task) : Prop where
  own : ∀ task ∈ tasks, task.call? = some id → task = .cancel id
  posted : givenUp → .cancel id ∈ tasks

theorem Cancelling.append (hcancelling : Cancelling id givenUp tasks)
    (hmore : ∀ task ∈ more, task.call? ≠ some id) : Cancelling id givenUp (tasks ++ more) := by
  refine ⟨fun task hmem hcall => ?_, fun hup => List.mem_append_left _ (hcancelling.posted hup)⟩
  rcases List.mem_append.mp hmem with hmem | hmem
  · exact hcancelling.own task hmem hcall
  · exact (hmore task hmem hcall).elim

theorem Cancelling.tail {task : Task} (hcancelling : Cancelling id givenUp (task :: tasks))
    (htask : task.call? ≠ some id) : Cancelling id givenUp tasks := by
  refine ⟨fun other hmem => hcancelling.own other (List.mem_cons_of_mem _ hmem), fun hup => ?_⟩
  rcases List.mem_cons.mp (hcancelling.posted hup) with rfl | hmem
  · exact (htask rfl).elim
  · exact hmem

theorem Cancelling.giveUp (hcancelling : Cancelling id givenUp tasks) :
    Cancelling id True (tasks ++ [.cancel id]) := by
  refine ⟨fun task hmem hcall => ?_, fun _ => List.mem_append_right _ (List.mem_singleton_self _)⟩
  rcases List.mem_append.mp hmem with hmem | hmem
  · exact hcancelling.own task hmem hcall
  · exact List.mem_singleton.mp hmem

theorem Notice.call?_ne {task : Task} (hnotice : Notice id task) : task.call? ≠ some id := by
  obtain ⟨other, rfl, hne⟩ := hnotice
  simpa [Task.call?] using hne

/-- Where an inquiry is on its loop, whatever other calls do there. -/
inductive Asking (id : Nat) (givenUp : Prop) (loop : Loop) : Prop
  | posted (target body : Bytes) (front back : List Task)
    (hposted : loop.Posted id (Operation.ask target body) front back)
    (hbehind : Cancelling id givenUp back)
  | underway (began : Nat) (exchange : Exchange) (stage : Stage)
    (hexchanging : loop.Exchanging id began exchange stage)
    (hcall : loop.call? id = some { handle := { id, action := some [.abort] } })
    (hasleep : ∀ sleep, loop.asleep = some sleep → sleep.id ≠ id)
    (hqueue : Cancelling id givenUp loop.queue)
  /-- The exchange was aborted, and the call is about to hear of it. -/
  | aborting (hcall : (loop.call? id).isSome = true) (hposted : .aborted (.call id) ∈ loop.queue)
  | settled (houtcome : (loop.outcome? id).isSome = true)

theorem settle_outcome? {call : Call} (hcall : loop.call? id = some call) (outcome : Except Failure Json) :
    ((loop.settle id outcome).outcome? id).isSome = true := by
  have hafter := call?_settle loop id outcome id
  rw [hcall, Option.map_some] at hafter
  rw [Loop.outcome?, hafter]
  cases houtcome : call.outcome <;> simp [houtcome]

theorem Exchanging.cancel (hexchanging : loop.Exchanging id began exchange stage)
    (hcall : loop.call? id = some { handle := { id, action := some [.abort] } })
    (hcancel : runTask env loop (.cancel id) = (env', after)) : after.Asking id givenUp := by
  have hrun : runTask env loop (.cancel id) =
      (env, (loop.setHandle { id, cancelled := true }).abort (.call id)) := by
    rw [runTask, cancelCall, hcall]
    rfl
  cases hrun.symm.trans hcancel
  refine .aborting ?_ ?_
  · have hset := call?_setHandle loop { id, cancelled := true } id
    rw [hcall] at hset
    change ((loop.setHandle { id, cancelled := true }).call? id).isSome = true
    rw [hset]
    rfl
  · have hended : loop.waits.filter (fun wait => decide (wait.owner = .call id)) = _ :=
      hexchanging.waits
    refine List.mem_append_right _ ?_
    change _ ∈ (loop.waits.filter _).map _
    rw [hended]
    exact List.mem_singleton_self _

theorem Asking.turn_of_aborting (hcall : (loop.call? id).isSome = true)
    (hposted : .aborted (.call id) ∈ loop.queue) (hjoined : loop.Joined service)
    (hturn : loop.turn env = some (env', after)) : after.Asking id givenUp := by
  obtain ⟨other, begun, htakes, hacts, _⟩ := hjoined.turn_acts hturn
  obtain ⟨count, hqueue⟩ := hacts.queue
  have hlasts : .aborted (.call id) ∈ begun.queue → after.Asking id givenUp := fun hmem =>
    .aborting (outcome?_turn_of_started hcall hjoined hturn).1
      (hqueue ▸ List.mem_append_left _ hmem)
  rcases htakes.queue with h | ⟨task, htask, _, hawake⟩
  · exact hlasts (h ▸ hposted)
  · rw [htask] at hposted
    rcases List.mem_cons.mp hposted with rfl | hmem
    · obtain ⟨call, hfound⟩ := Option.isSome_iff_exists.mp hcall
      have hkept : call? { loop with queue := begun.queue } id = some call := hfound
      rw [turn_of_task (alive_of_turn hturn) hawake htask, Option.some.injEq] at hturn
      cases hturn
      exact .settled (settle_outcome? hkept _)
    · exact hlasts hmem

/-- In a turn of its own the exchange of an inquiry goes on, ends, or is aborted. -/
theorem Asking.turn_of_exchanging (hexchanging : loop.Exchanging id began exchange stage)
    (hcall : loop.call? id = some { handle := { id, action := some [.abort] } })
    (hasleep : ∀ sleep, loop.asleep = some sleep → sleep.id ≠ id)
    (hcancelling : Cancelling id givenUp loop.queue) (htakes : Takes env loop id begun)
    (hturn : loop.turn env = some (env', after)) : after.Asking id givenUp := by
  have halive := alive_of_turn hturn
  cases htakes with
  | wake sleep hsleep hid => exact (hasleep sleep hsleep hid).elim
  | start operation rest _ hqueue =>
    rw [hqueue] at hcancelling
    cases hcancelling.own _ List.mem_cons_self rfl
  | task task rest hawake hqueue htask =>
    rw [hqueue] at hcancelling
    have howned : task.call? = some id := by rcases htask with rfl | rfl <;> rfl
    cases hcancelling.own task List.mem_cons_self howned
    rw [turn_of_task halive hawake hqueue, Option.some.injEq] at hturn
    have hkept : Exchanging id began exchange stage { loop with queue := rest } :=
      ⟨hexchanging.reaches, hexchanging.waits⟩
    exact hkept.cancel hcall hturn
  | event wait others hawake hqueue htake howner =>
    rw [turn_of_no_task halive hawake hqueue, htake, Option.map_some, Option.some.injEq] at hturn
    simp only [howner] at hturn
    obtain ⟨_, ⟨delivery, _, _, _, rfl, _⟩ | ⟨next, _, _, hcalls, hnext⟩⟩ :=
      hexchanging.fire htake howner hturn
    · exact .settled (settle_outcome? hcall _)
    · have hframe := fire_frame env { loop with waits := others } id wait.event
      rw [hturn] at hframe
      obtain ⟨_, hsleeps, hposts⟩ := hframe
      refine .underway _ exchange next hnext ?_ ?_ ?_
      · rw [call?, hcalls]
        exact hcall
      · rw [show after.asleep = loop.asleep from hsleeps]
        exact hasleep
      · rw [show after.queue = loop.queue from hposts]
        exact hcancelling

/-- A turn of another call leaves it where it is. -/
theorem Asking.turn_beside {reports : List Report}
    (hexchanging : loop.Exchanging id began exchange stage)
    (hcall : loop.call? id = some { handle := { id, action := some [.abort] } })
    (hcancelling : Cancelling id givenUp loop.queue) (hother : id ≠ other)
    (htakes : Takes env loop other begun) (hacts : Acts other env begun reports env' after) :
    after.Asking id givenUp := by
  obtain ⟨count, hqueue⟩ := hacts.queue
  have hnotices : ∀ task ∈ List.replicate count (Task.aborted (.call other)),
      task.call? ≠ some id := by
    intro task hmem
    rw [List.eq_of_mem_replicate hmem]
    simpa [Task.call?] using Ne.symm hother
  refine .underway began exchange stage ⟨hexchanging.reaches, ?_⟩ ?_ (fun sleep hsleep => ?_) ?_
  · rw [hacts.waitsOf_of_ne hother, htakes.waitsOf_of_ne hother]
    exact hexchanging.waits
  · rw [hacts.call?_of_ne hother, htakes.call?_of_ne hother]
    exact hcall
  · rcases hacts.asleep with h | ⟨own, hown, hid⟩
    · rw [h, htakes.asleep] at hsleep
      cases hsleep
    · cases hown.symm.trans hsleep
      rw [hid]
      exact Ne.symm hother
  · rw [hqueue]
    refine Cancelling.append ?_ hnotices
    rcases htakes.queue with h | ⟨task, htask, howned, _⟩
    · exact h ▸ hcancelling
    · rw [htask] at hcancelling
      refine hcancelling.tail ?_
      rw [howned]
      rintro ⟨⟩
      exact hother rfl

/-- Each turn of its loop leaves an inquiry on its way to its end. -/
theorem Asking.turn (hasking : loop.Asking id givenUp) (hjoined : loop.Joined service)
    (hturn : loop.turn env = some (env', after)) : after.Asking id givenUp := by
  cases hasking with
  | posted target body front back hposted hbehind =>
    rcases hposted.turn hjoined hturn with ⟨rfl, halive, hawake⟩ | ⟨_, left, notices, hafter, hnew⟩
    · obtain ⟨_, hexchanging, hcall, _, hwakes, hqueue⟩ := hposted.begin halive hawake hturn
      exact .underway _ _ _ hexchanging hcall (by simp [hwakes]) (hqueue ▸ hbehind)
    · exact .posted target body left _ hafter
        (hbehind.append fun task hmem => (hnew task hmem).call?_ne)
  | underway began exchange stage hexchanging hcall hasleep hcancelling =>
    obtain ⟨other, begun, htakes, hacts, _⟩ := hjoined.turn_acts hturn
    by_cases hother : id = other
    · subst hother
      exact turn_of_exchanging hexchanging hcall hasleep hcancelling htakes hturn
    · exact turn_beside hexchanging hcall hcancelling hother htakes hacts
  | aborting hcall hposted => exact turn_of_aborting hcall hposted hjoined hturn
  | settled houtcome =>
    obtain ⟨outcome, houtcome⟩ := Option.isSome_iff_exists.mp houtcome
    exact .settled (by rw [outcome?_turn houtcome hjoined hturn]; rfl)

theorem Asking.post (hasking : loop.Asking id givenUp) {task : Task} (htask : task.call? ≠ some id) :
    (loop.post task).Asking id givenUp := by
  have hother : ∀ other ∈ [task], other.call? ≠ some id := by simpa using htask
  cases hasking with
  | posted target body front back hposted hbehind =>
    refine .posted target body front (back ++ [task])
      ⟨⟨hposted.call, hposted.waits, hposted.asleep⟩, ?_, hposted.before⟩ (hbehind.append hother)
    rw [Loop.post, hposted.queue, List.append_assoc, List.cons_append]
  | underway began exchange stage hexchanging hcall hasleep hcancelling =>
    exact .underway began exchange stage ⟨hexchanging.reaches, hexchanging.waits⟩ hcall hasleep
      (hcancelling.append hother)
  | aborting hcall hposted => exact .aborting hcall (List.mem_append_left _ hposted)
  | settled houtcome => exact .settled houtcome

theorem Asking.giveUp (hasking : loop.Asking id givenUp) :
    (loop.post (.cancel id)).Asking id True := by
  cases hasking with
  | posted target body front back hposted hbehind =>
    refine .posted target body front (back ++ [.cancel id])
      ⟨⟨hposted.call, hposted.waits, hposted.asleep⟩, ?_, hposted.before⟩ hbehind.giveUp
    rw [Loop.post, hposted.queue, List.append_assoc, List.cons_append]
  | underway began exchange stage hexchanging hcall hasleep hcancelling =>
    exact .underway began exchange stage ⟨hexchanging.reaches, hexchanging.waits⟩ hcall hasleep
      hcancelling.giveUp
  | aborting hcall hposted => exact .aborting hcall (List.mem_append_left _ hposted)
  | settled houtcome => exact .settled houtcome

theorem Asking.settled_of_run (hasking : loop.Asking id True) (hrun : loop.queue = []) :
    (loop.outcome? id).isSome = true := by
  cases hasking with
  | posted target body front back hposted =>
    rw [hposted.queue] at hrun
    simp at hrun
  | underway _ _ _ _ _ _ hcancelling =>
    have hcancel := hcancelling.posted trivial
    rw [hrun] at hcancel
    cases hcancel
  | aborting _ hposted =>
    rw [hrun] at hposted
    cases hposted
  | settled houtcome => exact houtcome

end Loop

end Offload
