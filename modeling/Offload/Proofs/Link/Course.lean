import Offload.Proofs.Link.Spares

namespace Offload

def Operation.cancelledMarks (operation : Operation) : List Mark :=
  .started :: (operation.registered none).toList.map .cancelled

/-- What its caller knows of a call. -/
inductive Term
  | running
  | met
  | missed
  deriving DecidableEq

namespace Loop

variable {id : Nat} {operation : Operation} {term : Term} {marks : List Mark}
  {env env' : Environment} {loop begun after : Loop} {task : Task} {tasks rest : List Task}

/-- Behind a call that has no answer there are only notices while its caller waits. When it was given up,
its cancellation follows, and what was posted later does not concern it. -/
def Behind (id : Nat) : Term → List Task → Prop
  | .running, tasks => ∃ owners : List Owner, tasks = owners.map Task.aborted
  | .missed, tasks => ∃ (owners : List Owner) (more : List Task),
      tasks = owners.map Task.aborted ++ .cancel id :: more ∧ ∀ task ∈ more, ¬ task.Concerns id
  | .met, _ => False

theorem Behind.notices (hbehind : Behind id term tasks) (owners : List Owner) :
    Behind id term (tasks ++ owners.map Task.aborted) := by
  cases term with
  | running =>
    obtain ⟨first, rfl⟩ := hbehind
    exact ⟨first ++ owners, by rw [List.map_append]⟩
  | met => exact hbehind
  | missed =>
    obtain ⟨first, more, rfl, hmore⟩ := hbehind
    refine ⟨first, more ++ owners.map Task.aborted, by simp, fun task hmem => ?_⟩
    rcases List.mem_append.mp hmem with hmem | hmem
    · exact hmore task hmem
    · obtain ⟨owner, _, rfl⟩ := List.mem_map.mp hmem
      exact fun h => h

/-- The next task is a notice, or it is the cancellation. -/
theorem Behind.next (hbehind : Behind id term (task :: rest)) :
    (∃ owner, task = .aborted owner) ∧ Behind id term rest ∨
      term = .missed ∧ task = .cancel id ∧ ∀ later ∈ rest, ¬ later.Concerns id := by
  cases term with
  | met => exact hbehind.elim
  | running =>
    obtain ⟨owners, hqueue⟩ := hbehind
    cases owners with
    | nil => cases hqueue
    | cons owner owners =>
      obtain ⟨rfl, rfl⟩ := List.cons.inj hqueue
      exact .inl ⟨⟨owner, rfl⟩, owners, rfl⟩
  | missed =>
    obtain ⟨owners, more, hqueue, hmore⟩ := hbehind
    cases owners with
    | nil =>
      obtain ⟨rfl, rfl⟩ := List.cons.inj hqueue
      exact .inr ⟨rfl, rfl, hmore⟩
    | cons owner owners =>
      obtain ⟨rfl, rfl⟩ := List.cons.inj hqueue
      exact .inl ⟨⟨owner, rfl⟩, owners, more, rfl, hmore⟩

theorem Behind.post (hbehind : Behind id term tasks) (hended : term ≠ .running)
    (htask : ¬ task.Concerns id) : Behind id term (tasks ++ [task]) := by
  cases term with
  | running => exact (hended rfl).elim
  | met => exact hbehind
  | missed =>
    obtain ⟨owners, more, rfl, hmore⟩ := hbehind
    refine ⟨owners, more ++ [task], by simp, fun other hmem => ?_⟩
    rcases List.mem_append.mp hmem with hmem | hmem
    · exact hmore other hmem
    · rw [List.mem_singleton.mp hmem]
      exact htask

theorem Behind.giveUp (hbehind : Behind id .running tasks) :
    Behind id .missed (tasks ++ [.cancel id]) := by
  obtain ⟨owners, rfl⟩ := hbehind
  exact ⟨owners, [], rfl, List.forall_mem_nil _⟩

theorem Behind.cancel_mem (hbehind : Behind id .missed tasks) : .cancel id ∈ tasks := by
  obtain ⟨owners, more, rfl, _⟩ := hbehind
  exact List.mem_append_right _ List.mem_cons_self

/-- The call has its outcome, it was not cancelled, and no task is to do so. It may have steps to take. -/
structure Answered (id : Nat) (loop : Loop) : Prop where
  known : ∃ handle, loop.handle? id = some handle ∧ handle.cancelled = false
  unconcerned : loop.Unconcerned id
  settled : id ∉ loop.waiting

theorem wake_own {handle : Handle (List Reaction)} {sleep : Sleep} (hsleep : loop.asleep = some sleep)
    (hid : sleep.id = id) (hknown : loop.handle? id = some handle) (hopen : handle.cancelled = false)
    (hturn : loop.turn env = some (env', after)) :
    ofCall id (loop.marks env) = [] ∧ after.queue = loop.queue ∧
      (id ∈ after.waiting → id ∈ loop.waiting) ∧
      ∃ action, after.handle? id = some { handle with action } ∧
        Operation.registered action (after.left id) =
          (loop.left id).registered handle.action := by
  have hleft : loop.left id = sleep.rest := by rw [left, hsleep]; exact if_pos hid
  subst hid
  have hawake : Loop.handle? { loop with asleep := none } sleep.id = some handle := hknown
  have howns := perform_own hawake hopen rfl env sleep.rest
  have hacts := perform_acts env { loop with asleep := none } sleep.id sleep.rest
  rw [turn_of_sleep (alive_of_turn hturn) hsleep] at hturn
  split at hturn
  · rw [Option.some.inj hturn] at howns hacts
    obtain ⟨hmarks, hqueue, action, hafter, hregistered⟩ := howns
    rw [marks_of_sleep hsleep]
    exact ⟨hmarks, hqueue, fun hmem => hacts.waiting hmem, action, hafter,
      hregistered.trans (by rw [hleft])⟩
  · cases hturn

theorem asleep_cases (loop : Loop) (id : Nat) :
    (∃ sleep, loop.asleep = some sleep ∧ sleep.id = id) ∨
      ∀ sleep, loop.asleep = some sleep → sleep.id ≠ id := by
  by_cases h : ∃ sleep, loop.asleep = some sleep ∧ sleep.id = id
  · exact .inl h
  · exact .inr fun sleep hsleep hid => h ⟨sleep, hsleep, hid⟩

theorem Answered.of_spares (hanswered : loop.Answered id) (hspares : Spares id loop after) :
    after.Answered id := by
  obtain ⟨handle, hknown, hopen⟩ := hanswered.known
  exact ⟨⟨handle, hspares.handle.trans hknown, hopen⟩, hanswered.unconcerned.of_spares hspares,
    fun hmem => hanswered.settled (hspares.waiting hmem)⟩

theorem Answered.begins (hanswered : loop.Answered id) (hbegins : loop.Begins begun) :
    begun.Answered id := by
  obtain ⟨handle, hknown, hopen⟩ := hanswered.known
  refine ⟨⟨handle, (hbegins.handle? id).trans hknown, hopen⟩,
    fun task hmem => hanswered.unconcerned task (hbegins.mem hmem), ?_⟩
  rw [hbegins.waiting]
  exact hanswered.settled

theorem Answered.post (hanswered : loop.Answered id) (htask : ¬ task.Concerns id) :
    (loop.post task).Answered id :=
  ⟨hanswered.known, hanswered.unconcerned.post htask, hanswered.settled⟩

theorem Answered.turn (hanswered : loop.Answered id) (hturn : loop.turn env = some (env', after)) :
    ofCall id (loop.marks env) = [] ∧ after.Answered id := by
  rcases asleep_cases loop id with ⟨sleep, hsleep, hid⟩ | hasleep
  · obtain ⟨handle, hknown, hopen⟩ := hanswered.known
    obtain ⟨hmarks, hqueue, hwaiting, action, hafter, _⟩ := wake_own hsleep hid hknown hopen hturn
    refine ⟨hmarks, ⟨_, hafter, hopen⟩, fun task hmem => ?_, fun hmem => hanswered.settled (hwaiting hmem)⟩
    exact hanswered.unconcerned task (hqueue ▸ hmem)
  obtain ⟨hmarks, begun, ended, hbegins, hspares, hafter⟩ :=
    turn_unconcerned hanswered.unconcerned hasleep (.inr hanswered.settled) hturn
  have hended := (hanswered.begins hbegins).of_spares hspares
  refine ⟨hmarks, ?_⟩
  rcases hafter with rfl | rfl | rfl
  · exact hended
  · exact hended.post fun h => h
  · exact ⟨hended.known, hended.unconcerned, hended.settled⟩

/-- Where a call is on its loop, with what has happened to it. -/
inductive Course (id : Nat) (operation : Operation) : Term → List Mark → Loop → Prop
  | posted {term : Term} {loop : Loop} (front back : List Task)
    (hqueue : loop.queue = front ++ .start id operation :: back)
    (hbefore : ∀ task ∈ front, ¬ task.Concerns id ∧ task ≠ .shutdown) (hbehind : Behind id term back)
    (hunknown : loop.handle? id = none)
    (hasleep : ∀ sleep, loop.asleep = some sleep → sleep.id ≠ id) :
    Course id operation term [] loop
  | underway {term : Term} {loop : Loop} (handle : Handle (List Reaction))
    (hknown : loop.handle? id = some handle)
    (hopen : handle.cancelled = false) (halive : loop.alive = true)
    (hregistered : (loop.left id).registered handle.action = operation.registered none)
    (hbehind : Behind id term loop.queue) : Course id operation term [.started] loop
  | answered {loop : Loop} (hanswered : loop.Answered id) : Course id operation .met [.started] loop
  | cancelled {loop : Loop} (handle : Option (Handle (List Reaction))) (hquiet : loop.Quiet id handle) :
    Course id operation .missed operation.cancelledMarks loop

theorem start_own (hawake : loop.asleep = none) (hqueue : loop.queue = .start id operation :: rest)
    (hunknown : loop.handle? id = none) (hbehind : Behind id term rest)
    (hturn : loop.turn env = some (env', after)) :
    after.Course id operation term (ofCall id (loop.marks env)) := by
  let begun : Loop := { loop with queue := rest, calls := loop.calls ++ [{ handle := { id } }] }
  have halive := alive_of_turn hturn
  have hnew : begun.handle? id = some { id } := by
    rw [handle?, Option.map_eq_none_iff] at hunknown
    have hfound : begun.call? id = (loop.call? id).or (some { handle := { id } }) := by
      rw [call?_of_calls_append rfl, if_pos rfl]
      rfl
    rw [handle?, hfound, hunknown]
    rfl
  have howns := perform_own hnew rfl hawake env operation
  have hstays := perform_alive env begun id operation
  have hmarks : ofCall id (loop.marks env) =
      .started :: ofCall id (performMarks env begun id operation) := by
    rw [marks_of_task hawake hqueue]
    simp [taskMarks, ofCall, begun]
  rw [turn_of_task halive hawake hqueue, Option.some.injEq] at hturn
  rw [show perform env begun id operation = (env', after) from hturn] at howns hstays
  obtain ⟨hnone, hafter, action, hknown, hregistered⟩ := howns
  rw [hmarks, hnone]
  exact .underway _ hknown rfl (hstays.trans halive) hregistered (hafter ▸ hbehind)

/-- The cancellation of a call that was given up carries out what was registered last. -/
theorem cancel_own {handle : Handle (List Reaction)} (hknown : loop.handle? id = some handle)
    (hopen : handle.cancelled = false) (hregistered : handle.action = operation.registered none)
    (hawake : loop.asleep = none) (hqueue : loop.queue = .cancel id :: rest)
    (hrest : ∀ task ∈ rest, ¬ task.Concerns id) (hturn : loop.turn env = some (env', after)) :
    after.Course id operation .missed (.started :: ofCall id (loop.marks env)) := by
  obtain ⟨call, hcall, rfl⟩ := Option.map_eq_some_iff.mp hknown
  have hdue : call.handle.cancel =
      ({ call.handle with cancelled := true, action := none }, call.handle.action) :=
    if_neg (by rw [hopen]; exact Bool.false_ne_true)
  let begun : Loop := { loop with queue := rest }
  have hfound : begun.call? id = some call := hcall
  have hmarks : ofCall id (loop.marks env) = (operation.registered none).toList.map .cancelled := by
    have hdone : cancelMarks begun id = dueMarks (.call id) call.handle.action := by
      simp only [cancelMarks, hfound, hdue]
    rw [marks_of_task hawake hqueue, ← hregistered, ← ofCall_dueMarks id, ← hdone]
    rfl
  let deaf : Loop := begun.setHandle { call.handle with cancelled := true, action := none }
  have hdeaf : deaf.handle? id = some { call.handle with cancelled := true, action := none } := by
    simp only [deaf, handle?, call?_setHandle, hfound, Option.map_some, call?_id hcall, if_true]
  have hquiet : deaf.Quiet id (some { call.handle with cancelled := true, action := none }) := by
    refine ⟨hdeaf, fun found h => ?_, hrest, fun sleep hsleep => ?_⟩
    · rw [hdeaf, Option.some.injEq] at h
      rw [← h]
    · rw [show deaf.asleep = none from hawake] at hsleep
      cases hsleep
  have hreacted := react_spares id env deaf (.call id) (call.handle.action.getD [])
  have hcancel : cancelCall env begun id =
      react env deaf (.call id) (call.handle.action.getD []) := by
    simp only [cancelCall, hfound, hdue]
    rfl
  rw [turn_of_task (alive_of_turn hturn) hawake hqueue, Option.some.injEq, runTask,
    show cancelCall env begun id = _ from hcancel] at hturn
  rw [hmarks]
  have hsame : Quiet id (some { call.handle with cancelled := true, action := none }) after := by
    generalize react env deaf (.call id) (call.handle.action.getD []) = found at hreacted hturn
    obtain ⟨env'', last, failure⟩ := found
    have hlast := hquiet.of_spares hreacted
    cases failure with
    | none =>
      cases hturn
      exact hlast
    | some failure =>
      cases hturn
      exact ⟨hlast.known, hlast.deaf, hlast.unconcerned, hlast.asleep⟩
  exact .cancelled _ hsame

/-- The next turn starts the call that is posted, or the call goes on waiting for its turn. -/
theorem turn_of_posted {front back : List Task} (hqueue : loop.queue = front ++ .start id operation :: back)
    (hbefore : ∀ task ∈ front, ¬ task.Concerns id ∧ task ≠ .shutdown) (hbehind : Behind id term back)
    (hunknown : loop.handle? id = none) (hasleep : ∀ sleep, loop.asleep = some sleep → sleep.id ≠ id)
    (hturn : loop.turn env = some (env', after)) :
    after.Course id operation term (ofCall id (loop.marks env)) := by
  by_cases hfirst : loop.asleep = none ∧ front = []
  · obtain ⟨hawake, rfl⟩ := hfirst
    exact start_own hawake hqueue hunknown hbehind hturn
  have hfront : ∀ task rest, loop.asleep = none → loop.queue = task :: rest →
      ∃ left, front = task :: left ∧ rest = left ++ .start id operation :: back := by
    intro task rest hawake htask
    rw [hqueue] at htask
    cases front with
    | nil => exact (hfirst ⟨hawake, rfl⟩).elim
    | cons first left =>
      obtain ⟨rfl, rfl⟩ := List.cons.inj htask
      exact ⟨left, rfl, rfl⟩
  have htask : ∀ task rest, loop.asleep = none → loop.queue = task :: rest →
      ¬ task.Concerns id ∧ task ≠ .shutdown := by
    intro task rest hawake htaken
    obtain ⟨left, rfl, _⟩ := hfront task rest hawake htaken
    exact hbefore task List.mem_cons_self
  obtain ⟨hnone, begun, hbegins, hspares⟩ := turn_spares hasleep htask hturn
  have hleft : ∃ left, begun.queue = left ++ .start id operation :: back ∧
      ∀ task ∈ left, ¬ task.Concerns id ∧ task ≠ .shutdown := by
    rcases hbegins.queue with h | ⟨hawake, task, htaken⟩
    · exact ⟨front, h.trans hqueue, hbefore⟩
    · obtain ⟨left, rfl, hrest⟩ := hfront task _ hawake htaken
      exact ⟨left, hrest, fun other hmem => hbefore other (List.mem_cons_of_mem _ hmem)⟩
  obtain ⟨left, hbegun, hstill⟩ := hleft
  obtain ⟨owners, hnotices⟩ := hspares.queue
  rw [hnone]
  refine .posted left (back ++ owners.map Task.aborted) ?_ hstill (hbehind.notices owners) ?_
    (asleep_of_spares hbegins.not_asleep hspares)
  · rw [hnotices, hbegun, List.append_assoc, List.cons_append]
  · exact hspares.handle.trans ((hbegins.handle? id).trans hunknown)

/-- The next turn takes the call on by its own steps, cancels it, or leaves it alone. -/
theorem turn_of_underway {handle : Handle (List Reaction)} (hknown : loop.handle? id = some handle)
    (hopen : handle.cancelled = false)
    (hregistered : (loop.left id).registered handle.action = operation.registered none)
    (hbehind : Behind id term loop.queue) (hturn : loop.turn env = some (env', after)) :
    after.Course id operation term (.started :: ofCall id (loop.marks env)) := by
  rcases asleep_cases loop id with ⟨sleep, hsleep, hid⟩ | hasleep
  · obtain ⟨hnone, hqueue, _, action, hafter, hsame⟩ := wake_own hsleep hid hknown hopen hturn
    have hstays : after.alive = true := turn_alive (fun _ _ hawake _ => by
      rw [hsleep] at hawake
      cases hawake) hturn
    rw [hnone]
    exact .underway _ hafter hopen hstays (hsame.trans hregistered) (hqueue ▸ hbehind)
  by_cases hcancel : loop.asleep = none ∧ ∃ rest, loop.queue = .cancel id :: rest
  · obtain ⟨hawake, rest, hqueue⟩ := hcancel
    rw [left_of_awake hawake] at hregistered
    rw [hqueue] at hbehind
    rcases hbehind.next with ⟨⟨owner, hother⟩, _⟩ | ⟨rfl, _, hrest⟩
    · cases hother
    · exact cancel_own hknown hopen hregistered hawake hqueue hrest hturn
  have hnext : ∀ task rest, loop.asleep = none → loop.queue = task :: rest →
      (∃ owner, task = .aborted owner) ∧ Behind id term rest := by
    intro task rest hawake hqueue
    rw [hqueue] at hbehind
    rcases hbehind.next with h | ⟨_, rfl, _⟩
    · exact h
    · exact (hcancel ⟨hawake, rest, hqueue⟩).elim
  have htask : ∀ task rest, loop.asleep = none → loop.queue = task :: rest →
      ¬ task.Concerns id ∧ task ≠ .shutdown := by
    intro task rest hawake hqueue
    obtain ⟨⟨owner, rfl⟩, _⟩ := hnext task rest hawake hqueue
    exact ⟨fun h => h, fun h => by cases h⟩
  obtain ⟨hnone, begun, hbegins, hspares⟩ := turn_spares hasleep htask hturn
  have hstays := turn_alive (fun task rest hawake hqueue => (hnext task rest hawake hqueue).1) hturn
  have hbegun : Behind id term begun.queue := by
    rcases hbegins.queue with h | ⟨hawake, task, htaken⟩
    · exact h ▸ hbehind
    · exact (hnext task _ hawake htaken).2
  obtain ⟨owners, hnotices⟩ := hspares.queue
  rw [hnone]
  refine .underway handle (hspares.handle.trans ((hbegins.handle? id).trans hknown)) hopen hstays ?_ ?_
  · rw [left_of_other (asleep_of_spares hbegins.not_asleep hspares)]
    rwa [left_of_other hasleep] at hregistered
  · rw [hnotices]
    exact hbegun.notices owners

/-- In every turn of its loop a call goes on, and what has happened to it since is what is noted. -/
theorem Course.turn (hcourse : loop.Course id operation term marks)
    (hturn : loop.turn env = some (env', after)) :
    after.Course id operation term (marks ++ ofCall id (loop.marks env)) := by
  cases hcourse with
  | posted front back hqueue hbefore hbehind hunknown hasleep =>
    exact turn_of_posted hqueue hbefore hbehind hunknown hasleep hturn
  | underway handle hknown hopen _ hregistered hbehind =>
    exact turn_of_underway hknown hopen hregistered hbehind hturn
  | answered hanswered =>
    obtain ⟨hnone, hafter⟩ := hanswered.turn hturn
    rw [hnone]
    exact .answered hafter
  | cancelled handle hquiet =>
    obtain ⟨hnone, hafter⟩ := hquiet.turn hturn
    rw [hnone, List.append_nil]
    exact .cancelled handle hafter

theorem foreign_begin (host : Bytes) (port : UInt16) (id : Nat) :
    (({ host, port } : Loop).post .connect).Foreign id := by
  have hempty : Foreign id { host, port } := by
    refine ⟨rfl, fun handle hhandle => ?_, List.forall_mem_nil _, fun sleep hsleep => ?_⟩
    · cases hhandle
    · cases hsleep
  exact Quiet.post hempty fun h => h

theorem Foreign.askToStop (hforeign : loop.Foreign id) : loop.askToStop.Foreign id := by
  have hposted := Quiet.post hforeign (fun h : Task.Concerns id .shutdown => h)
  exact ⟨hposted.known, hposted.deaf, hposted.unconcerned, hposted.asleep⟩

theorem Foreign.start (hforeign : loop.Foreign id) (hgoes : .shutdown ∉ loop.queue)
    (operation : Operation) :
    (loop.post (.start id operation)).Course id operation .running [] := by
  refine .posted loop.queue [] rfl (fun task hmem => ⟨hforeign.unconcerned task hmem, ?_⟩) ⟨[], rfl⟩
    hforeign.known hforeign.asleep
  rintro rfl
  exact hgoes hmem

theorem Course.giveUp (hcourse : loop.Course id operation .running marks) :
    (loop.post (.cancel id)).Course id operation .missed marks := by
  cases hcourse with
  | posted front back hqueue hbefore hbehind hunknown hasleep =>
    refine .posted front (back ++ [.cancel id]) ?_ hbefore hbehind.giveUp hunknown hasleep
    rw [post, hqueue, List.append_assoc, List.cons_append]
  | underway handle hknown hopen halive hregistered hbehind =>
    exact .underway handle hknown hopen halive hregistered hbehind.giveUp

theorem Course.answer (hcourse : loop.Course id operation .running marks)
    (hdistinct : loop.numbers.Nodup) {outcome : Except Failure Json}
    (houtcome : loop.outcome? id = some outcome) : loop.Course id operation .met marks := by
  cases hcourse with
  | posted front back hqueue hbefore hbehind hunknown hasleep =>
    rw [handle?, Option.map_eq_none_iff] at hunknown
    rw [Loop.outcome?, hunknown] at houtcome
    cases houtcome
  | underway handle hknown hopen halive hregistered hbehind =>
    obtain ⟨owners, hqueue⟩ := hbehind
    refine .answered ⟨⟨handle, hknown, hopen⟩, fun task hmem => ?_, fun hmem => ?_⟩
    · rw [hqueue] at hmem
      obtain ⟨owner, _, rfl⟩ := List.mem_map.mp hmem
      exact fun h => h
    · rw [((mem_waiting_iff hdistinct).mp hmem).2] at houtcome
      cases houtcome

theorem Course.post (hcourse : loop.Course id operation term marks) (hended : term ≠ .running)
    (htask : ¬ task.Concerns id) : (loop.post task).Course id operation term marks := by
  cases hcourse with
  | posted front back hqueue hbefore hbehind hunknown hasleep =>
    refine .posted front (back ++ [task]) ?_ hbefore (hbehind.post hended htask) hunknown hasleep
    rw [Loop.post, hqueue, List.append_assoc, List.cons_append]
  | underway handle hknown hopen halive hregistered hbehind =>
    exact .underway handle hknown hopen halive hregistered (hbehind.post hended htask)
  | answered hanswered => exact .answered (hanswered.post htask)
  | cancelled handle hquiet => exact .cancelled handle (hquiet.post htask)

theorem Course.askToStop (hcourse : loop.Course id operation term marks) (hended : term ≠ .running) :
    loop.askToStop.Course id operation term marks := by
  have hposted := hcourse.post hended (fun h : Task.Concerns id .shutdown => h)
  cases hposted with
  | posted front back hqueue hbefore hbehind hunknown hasleep =>
    exact .posted front back hqueue hbefore hbehind hunknown hasleep
  | underway handle hknown hopen halive hregistered hbehind =>
    exact .underway handle hknown hopen halive hregistered hbehind
  | answered hanswered =>
    exact .answered ⟨hanswered.known, hanswered.unconcerned, hanswered.settled⟩
  | cancelled handle hquiet =>
    exact .cancelled handle ⟨hquiet.known, hquiet.deaf, hquiet.unconcerned, hquiet.asleep⟩

/-- What has happened in the end to a call whose loop is gone. -/
inductive Finished (operation : Operation) : Term → List Mark → Prop
  | unstarted : Finished operation .missed []
  | answered : Finished operation .met [.started]
  | cancelled : Finished operation .missed operation.cancelledMarks

/-- A loop that has ended does not leave a call half done: it has answered it or carried out its
cancellation, or has not even started it. -/
theorem Course.finished (hcourse : loop.Course id operation term marks) (hended : term ≠ .running)
    (hdead : loop.alive = false) : Finished operation term marks := by
  cases hcourse with
  | posted front back _ _ hbehind =>
    cases term with
    | running => exact (hended rfl).elim
    | met => exact hbehind.elim
    | missed => exact .unstarted
  | underway handle _ _ halive =>
    rw [hdead] at halive
    cases halive
  | answered hanswered => exact .answered
  | cancelled handle hquiet => exact .cancelled

theorem Course.cancelled_of_run (hcourse : loop.Course id operation .missed marks)
    (hrun : loop.queue = []) : marks = operation.cancelledMarks := by
  cases hcourse with
  | posted front back hqueue =>
    rw [hrun] at hqueue
    exact (List.append_ne_nil_of_right_ne_nil front (List.cons_ne_nil _ _) hqueue.symm).elim
  | underway _ _ _ _ _ hbehind =>
    rw [hrun] at hbehind
    cases hbehind.cancel_mem
  | cancelled handle hquiet => rfl

theorem Course.of_met (hcourse : loop.Course id operation .met marks) :
    id ∉ loop.waiting ∧ marks = [.started] := by
  cases hcourse with
  | posted _ _ _ _ hbehind => exact hbehind.elim
  | underway _ _ _ _ _ hbehind => exact hbehind.elim
  | answered hanswered => exact ⟨hanswered.settled, rfl⟩

end Loop

end Offload
