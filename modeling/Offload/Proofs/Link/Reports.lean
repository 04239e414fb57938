import Offload.Proofs.Link.Calls
import Offload.Proofs.Link.Joined

namespace Offload

def Task.call? : Task → Option Nat
  | .start id _ | .cancel id | .aborted (.call id) => some id
  | .connect | .aborted .attempt | .shutdown | .stop => none

namespace Loop

/-- What a call reports from its loop. -/
inductive Report
  | begun (script : Script)
  /-- The call is completed, for the first time or once more. -/
  | completed (outcome : Except Failure Json)

/-- The completions among reactions, up to one that fails. -/
def reactReports (loop : Loop) (id : Nat) : List Reaction → List Report
  | [] => []
  | .signal :: rest => reactReports loop id rest
  | .abort :: rest => reactReports (loop.abort (.call id)) id rest
  | .complete completion :: rest =>
    let outcome := loop.outcomeOf id completion
    .completed outcome :: reactReports (loop.settle id outcome) id rest
  | .raise _ :: _ => []

def onCancelReports (loop : Loop) (id : Nat) (reactions : List Reaction) : List Report :=
  match loop.call? id with
  | none => []
  | some call =>
    let (handle, due) := call.handle.onCancel (some reactions)
    reactReports (loop.setHandle handle) id (due.getD [])

def cancelReports (loop : Loop) (id : Nat) : List Report :=
  match loop.call? id with
  | none => []
  | some call =>
    let (handle, due) := call.handle.cancel
    reactReports (loop.setHandle handle) id (due.getD [])

/-- The reports of an operation's steps, up to one that fails or sleeps. Its own failure completes the
call. -/
def performReports (env : Environment) (loop : Loop) (id : Nat) : Operation → List Report
  | [] => []
  | .complete completion :: rest =>
    let outcome := loop.outcomeOf id completion
    .completed outcome :: performReports env (loop.settle id outcome) id rest
  | .raise failure :: _ => [.completed (.error failure)]
  | .sleep _ :: _ => []
  | .onCancel reactions :: rest =>
    onCancelReports loop id reactions ++
      match onCancel env loop id reactions with
      | (env, loop, none) => performReports env loop id rest
      | (_, _, some failure) => [.completed (.error failure)]
  | .later milliseconds completion :: rest =>
    performReports env
      (loop.await (.call id) (some (env.clock + milliseconds)) (.timer completion)) id rest
  | .exchange target body :: rest =>
    let (after, loop) := beginExchange env loop (.call id) target body
    .begun env.takeScript.1 :: performReports after loop id rest

/-- How an exchange ends with a stage, if it does. A reply is there when it is read. -/
def stageEnd? (stage : Stage) (script : Script) : Option Delivery :=
  match script.conduct with
  | .answer status body => if stage = .read then some (.ofAnswer status body) else none
  | .failure reason => if script.stage = stage ∨ stage = .read then some (.failed reason) else none
  | .silence => none

def eventReports (loop : Loop) (id : Nat) : Event → List Report
  | .resolved _ => []
  | .timer completion => [.completed (loop.outcomeOf id completion)]
  | .stage stage exchange =>
    (stageEnd? stage exchange.script).toList.map fun delivery => .completed delivery.decode

def taskReports (env : Environment) (loop : Loop) (id : Nat) : Task → List Report
  | .start _ operation =>
    performReports env { loop with calls := loop.calls ++ [{ handle := { id } }] } id operation
  | .cancel _ => cancelReports loop id
  | .aborted _ => [.completed Delivery.aborted.decode]
  | .connect | .shutdown | .stop => []

/-- What a call reports in the next turn of its loop. -/
def reports (env : Environment) (loop : Loop) (id : Nat) : List Report :=
  if loop.alive then
    match loop.asleep with
    | some sleep =>
      if sleep.wakes ≤ env.clock ∧ sleep.id = id then
        performReports env { loop with asleep := none } id sleep.rest
      else []
    | none =>
      match loop.queue with
      | task :: rest =>
        if task.call? = some id then taskReports env { loop with queue := rest } id task else []
      | [] =>
        match takeDue env.clock loop.waits with
        | some (wait, others) =>
          if wait.owner = .call id then eventReports { loop with waits := others } id wait.event
          else []
        | none => []
  else []

/-- A call acts on its loop, with the given reports. -/
inductive Acts (id : Nat) : Environment → Loop → List Report → Environment → Loop → Prop
  | done {env loop} : Acts id env loop [] env loop
  | settle {env loop reports env' after} (outcome : Except Failure Json)
    (hrest : Acts id env (loop.settle id outcome) reports env' after) :
    Acts id env loop (.completed outcome :: reports) env' after
  | begin {env loop reports env' after} (hrest : Acts id env.takeScript.2 loop reports env' after) :
    Acts id env loop (.begun env.takeScript.1 :: reports) env' after
  | setHandle {env loop reports env' after} (handle : Handle (List Reaction)) (hid : handle.id = id)
    (hrest : Acts id env (loop.setHandle handle) reports env' after) : Acts id env loop reports env' after
  | abort {env loop reports env' after}
    (hrest : Acts id env (loop.abort (.call id)) reports env' after) : Acts id env loop reports env' after
  | await {env loop reports env' after} (due : Option Nat) (event : Event)
    (hrest : Acts id env (loop.await (.call id) due event) reports env' after) :
    Acts id env loop reports env' after
  | sleep {env loop reports env' after} (wakes : Nat) (steps : Operation)
    (hrest : Acts id env { loop with asleep := some ⟨wakes, id, steps⟩ } reports env' after) :
    Acts id env loop reports env' after
  | fall {env loop reports env' after}
    (hrest : Acts id env { loop with alive := false } reports env' after) :
    Acts id env loop reports env' after
  | refuse {env loop reports env' after} (failure : Failure)
    (hrest : Acts id env (loop.settleAttempt (.error failure)) reports env' after) :
    Acts id env loop reports env' after
  | tell {env loop reports env' after} (told : Environment) (hclock : told.clock = env.clock)
    (hrest : Acts id told loop reports env' after) : Acts id env loop reports env' after

variable {id : Nat} {env env' env'' : Environment} {loop after last : Loop}
  {first second : List Report}

theorem Acts.trans (hfirst : Acts id env loop first env' after)
    (hsecond : Acts id env' after second env'' last) : Acts id env loop (first ++ second) env'' last := by
  induction hfirst with
  | done => exact hsecond
  | settle outcome _ ih => exact .settle outcome (ih hsecond)
  | begin _ ih => exact .begin (ih hsecond)
  | setHandle handle hid _ ih => exact .setHandle handle hid (ih hsecond)
  | abort _ ih => exact .abort (ih hsecond)
  | await due event _ ih => exact .await due event (ih hsecond)
  | sleep wakes steps _ ih => exact .sleep wakes steps (ih hsecond)
  | fall _ ih => exact .fall (ih hsecond)
  | refuse failure _ ih => exact .refuse failure (ih hsecond)
  | tell told hclock _ ih => exact .tell told hclock (ih hsecond)

theorem react_acts (env : Environment) (loop : Loop) (id : Nat) (reactions : List Reaction) :
    Acts id env loop (reactReports loop id reactions) (react env loop (.call id) reactions).1
      (react env loop (.call id) reactions).2.1 := by
  induction reactions generalizing env loop with
  | nil => exact .done
  | cons reaction rest ih =>
    cases reaction with
    | signal => exact .tell { env with signals := env.signals + 1 } rfl (ih _ loop)
    | abort => exact .abort (ih env _)
    | complete completion => exact .settle _ (ih env _)
    | raise failure => exact .done

theorem onCancel_acts (env : Environment) (loop : Loop) (id : Nat) (reactions : List Reaction) :
    Acts id env loop (onCancelReports loop id reactions) (onCancel env loop id reactions).1
      (onCancel env loop id reactions).2.1 := by
  unfold onCancel onCancelReports
  cases hcall : loop.call? id with
  | none => exact .done
  | some call =>
    have hid : (call.handle.onCancel (some reactions)).1.id = id := by
      rw [← call?_id hcall]
      unfold Handle.onCancel
      split <;> rfl
    exact .setHandle _ hid (react_acts env _ id _)

theorem cancelCall_acts (env : Environment) (loop : Loop) (id : Nat) :
    Acts id env loop (cancelReports loop id) (cancelCall env loop id).1
      (cancelCall env loop id).2.1 := by
  unfold cancelCall cancelReports
  cases hcall : loop.call? id with
  | none => exact .done
  | some call =>
    have hid : call.handle.cancel.1.id = id := (cancel_id call.handle).trans (call?_id hcall)
    exact .setHandle _ hid (react_acts env _ id _)

theorem enter_acts (env : Environment) (loop : Loop) (id : Nat) (stage : Stage) (exchange : Exchange) :
    Acts id env loop [] (enter env loop (.call id) stage exchange).1
      (enter env loop (.call id) stage exchange).2 := by
  refine .tell (enter env loop (.call id) stage exchange).1 ?_ (.await _ _ .done)
  unfold enter
  split <;> rfl

theorem beginExchange_acts (env : Environment) (loop : Loop) (id : Nat) (target body : Bytes) :
    Acts id env loop [.begun env.takeScript.1] (beginExchange env loop (.call id) target body).1
      (beginExchange env loop (.call id) target body).2 :=
  .begin (enter_acts env.takeScript.2 loop id .connect _)

theorem perform_acts (env : Environment) (loop : Loop) (id : Nat) (operation : Operation) :
    Acts id env loop (performReports env loop id operation) (perform env loop id operation).1
      (perform env loop id operation).2 := by
  induction operation generalizing env loop with
  | nil => exact .done
  | cons step rest ih =>
    cases step with
    | complete completion => exact .settle _ (ih env _)
    | raise failure => exact .settle _ .done
    | sleep milliseconds => exact .sleep _ _ .done
    | onCancel reactions =>
      have hregistered := onCancel_acts env loop id reactions
      rw [performReports, perform]
      refine hregistered.trans ?_
      split
      · next env' after honcancel =>
        rw [honcancel]
        exact ih env' after
      · next env' after failure honcancel =>
        rw [honcancel]
        exact .settle _ .done
    | later milliseconds completion => exact .await _ _ (ih env _)
    | exchange target body => exact (beginExchange_acts env loop id target body).trans (ih _ _)

theorem fire_stage_eq (env : Environment) (loop : Loop) (owner : Owner) (stage : Stage)
    (exchange : Exchange) :
    fire env loop owner (.stage stage exchange) =
      match stageEnd? stage exchange.script with
      | some delivery => (env, loop.deliver owner delivery)
      | none =>
        match stage with
        | .connect => enter env loop owner .write exchange
        | .write => enter env loop owner .read exchange
        | .read => (env, loop) := by
  cases hconduct : exchange.script.conduct <;> by_cases hlast : exchange.script.stage = stage <;>
    cases stage <;> simp [fire, stageEnd?, hconduct, hlast]

theorem fire_acts (env : Environment) (loop : Loop) (id : Nat) (event : Event) :
    Acts id env loop (eventReports loop id event) (fire env loop (.call id) event).1
      (fire env loop (.call id) event).2 := by
  cases event with
  | resolved finding =>
    cases finding with
    | ok script => exact enter_acts env loop id .connect _
    | error reason => exact .refuse _ .done
  | timer completion => exact .settle _ .done
  | stage stage exchange =>
    rw [fire_stage_eq, eventReports]
    cases stageEnd? stage exchange.script with
    | some delivery => exact .settle _ .done
    | none =>
      cases stage with
      | connect | write => exact enter_acts env loop id _ exchange
      | read => exact .done

/-- What a call takes up in a turn of its loop: it wakes, or one of its tasks or of the events that it
waits for is taken off the loop. -/
inductive Takes (env : Environment) (loop : Loop) (id : Nat) : Loop → Prop
  | wake (sleep : Sleep) (hasleep : loop.asleep = some sleep) (hid : sleep.id = id) :
    Takes env loop id { loop with asleep := none }
  | start (operation : Operation) (rest : List Task) (hawake : loop.asleep = none)
    (hqueue : loop.queue = .start id operation :: rest) :
    Takes env loop id { loop with queue := rest, calls := loop.calls ++ [{ handle := { id } }] }
  | task (task : Task) (rest : List Task) (hawake : loop.asleep = none)
    (hqueue : loop.queue = task :: rest) (htask : task = .cancel id ∨ task = .aborted (.call id)) :
    Takes env loop id { loop with queue := rest }
  | event (wait : Wait) (others : List Wait) (hawake : loop.asleep = none) (hqueue : loop.queue = [])
    (htake : takeDue env.clock loop.waits = some (wait, others)) (howner : wait.owner = .call id) :
    Takes env loop id { loop with waits := others }

theorem turn_of_sleep {sleep : Sleep} (halive : loop.alive = true) (hasleep : loop.asleep = some sleep)
    (env : Environment) :
    loop.turn env =
      if sleep.wakes ≤ env.clock then
        some (perform env { loop with asleep := none } sleep.id sleep.rest)
      else none := by
  simp only [turn, halive, hasleep, if_true]

theorem turn_of_dead (hdead : loop.alive = false) (env : Environment) : loop.turn env = none := by
  simp only [turn, hdead, Bool.false_eq_true, if_false]

theorem alive_of_turn (hturn : loop.turn env = some (env', after)) : loop.alive = true := by
  cases halive : loop.alive with
  | true => rfl
  | false =>
    rw [turn_of_dead halive] at hturn
    cases hturn

theorem reports_of_sleep {sleep : Sleep} (halive : loop.alive = true)
    (hasleep : loop.asleep = some sleep) (env : Environment) (id : Nat) :
    loop.reports env id =
      if sleep.wakes ≤ env.clock ∧ sleep.id = id then
        performReports env { loop with asleep := none } id sleep.rest
      else [] := by
  simp only [reports, halive, hasleep, if_true]

theorem reports_of_task {task : Task} {rest : List Task} (halive : loop.alive = true)
    (hawake : loop.asleep = none) (hqueue : loop.queue = task :: rest) (env : Environment) (id : Nat) :
    loop.reports env id =
      if task.call? = some id then taskReports env { loop with queue := rest } id task else [] := by
  simp only [reports, halive, hawake, hqueue, if_true]

theorem reports_of_event {wait : Wait} {others : List Wait} (halive : loop.alive = true)
    (hawake : loop.asleep = none) (hqueue : loop.queue = [])
    (htake : takeDue env.clock loop.waits = some (wait, others)) (id : Nat) :
    loop.reports env id =
      if wait.owner = .call id then eventReports { loop with waits := others } id wait.event
      else [] := by
  simp only [reports, halive, hawake, hqueue, htake, if_true]

theorem runTask_acts (env : Environment) (loop : Loop) {id : Nat} {task : Task}
    (htask : task = .cancel id ∨ task = .aborted (.call id)) :
    Acts id env loop (taskReports env loop id task) (runTask env loop task).1
      (runTask env loop task).2 := by
  rcases htask with rfl | rfl
  · have hcancelled := cancelCall_acts env loop id
    rw [taskReports, runTask]
    cases hcancel : cancelCall env loop id with
    | mk env' result =>
      obtain ⟨after, failure⟩ := result
      rw [hcancel] at hcancelled
      cases failure with
      | none => exact hcancelled
      | some failure =>
        have hfall : Acts id env' after [] (survive (env', after, some failure)).1
            (survive (env', after, some failure)).2 :=
          .tell (survive (env', after, some failure)).1 rfl (.fall .done)
        simpa using hcancelled.trans hfall
  · exact .settle _ .done

theorem ofCall_acts {task : Task} {rest : List Task} (hcall : task.OfCall)
    (hawake : loop.asleep = none) (hqueue : loop.queue = task :: rest)
    (hrun : runTask env { loop with queue := rest } task = (env', after)) :
    ∃ id begun, task.call? = some id ∧ Takes env loop id begun ∧
      Acts id env begun (taskReports env { loop with queue := rest } id task) env' after := by
  cases task with
  | start id operation =>
    have hacts := perform_acts env
      { loop with queue := rest, calls := loop.calls ++ [{ handle := { id } }] } id operation
    rw [show Loop.perform env _ id operation = (env', after) from hrun] at hacts
    exact ⟨id, _, rfl, .start operation rest hawake hqueue, hacts⟩
  | cancel id =>
    have hacts := runTask_acts env { loop with queue := rest } (.inl (rfl : Task.cancel id = _))
    rw [hrun] at hacts
    exact ⟨id, _, rfl, .task _ rest hawake hqueue (.inl rfl), hacts⟩
  | aborted owner =>
    cases owner with
    | attempt => exact hcall.elim
    | call id =>
      have hacts := runTask_acts env { loop with queue := rest }
        (.inr (rfl : Task.aborted (.call id) = _))
      rw [hrun] at hacts
      exact ⟨id, _, rfl, .task _ rest hawake hqueue (.inr rfl), hacts⟩
  | connect | shutdown | stop => exact hcall.elim

/-- Every turn of a joined loop is one call's: it takes something up and acts. The others have nothing to
report. -/
theorem Joined.turn_acts {service : Service} (hjoined : loop.Joined service)
    (hturn : loop.turn env = some (env', after)) :
    ∃ id begun, Takes env loop id begun ∧ Acts id env begun (loop.reports env id) env' after ∧
      ∀ other, other ≠ id → loop.reports env other = [] := by
  cases halive : loop.alive with
  | false =>
    rw [turn_of_dead halive] at hturn
    cases hturn
  | true =>
    cases hasleep : loop.asleep with
    | some sleep =>
      rw [turn_of_sleep halive hasleep] at hturn
      split at hturn
      · next hwakes =>
        have hacts := perform_acts env { loop with asleep := none } sleep.id sleep.rest
        rw [Option.some.inj hturn] at hacts
        refine ⟨sleep.id, _, .wake sleep hasleep rfl, ?_, fun other hother => ?_⟩
        · rw [reports_of_sleep halive hasleep, if_pos ⟨hwakes, rfl⟩]
          exact hacts
        · rw [reports_of_sleep halive hasleep, if_neg fun h => hother h.2.symm]
      · cases hturn
    | none =>
      cases hqueue : loop.queue with
      | cons task rest =>
        have hcall : task.OfCall := hjoined.queue task (hqueue ▸ List.mem_cons_self)
        rw [turn_of_task halive hasleep hqueue, Option.some.injEq] at hturn
        obtain ⟨id, begun, hid, htakes, hacts⟩ := ofCall_acts hcall hasleep hqueue hturn
        refine ⟨id, begun, htakes, ?_, fun other hother => ?_⟩
        · rw [reports_of_task halive hasleep hqueue, if_pos hid]
          exact hacts
        · rw [reports_of_task halive hasleep hqueue, if_neg]
          rw [hid]
          rintro ⟨⟩
          exact hother rfl
      | nil =>
        rw [turn_of_no_task halive hasleep hqueue] at hturn
        obtain ⟨⟨wait, others⟩, htake, hfire⟩ := Option.map_eq_some_iff.mp hturn
        obtain ⟨id, howner⟩ := hjoined.waits wait (mem_of_takeDue htake).1
        have hacts := fire_acts env { loop with waits := others } id wait.event
        rw [howner] at hfire
        rw [hfire] at hacts
        refine ⟨id, _, .event wait others hasleep hqueue htake howner, ?_, fun other hother => ?_⟩
        · rw [reports_of_event halive hasleep hqueue htake, if_pos howner]
          exact hacts
        · rw [reports_of_event halive hasleep hqueue htake, if_neg]
          rw [howner]
          rintro ⟨⟩
          exact hother rfl

end Loop

namespace Link

theorem turn_of_live {link : Link} {loop after : Loop} {env : Environment} (hlive : link.live = some loop)
    (hturn : loop.turn link.env = some (env, after)) :
    link.turn = some { link with env, live := some after } := by
  simp only [turn, hlive, Option.bind_some, hturn]

/-- The live loop goes first, and only while it is at rest do loops that were left behind go on. -/
theorem turn_cases {link next : Link} {loop : Loop} (hlive : link.live = some loop)
    (hturn : link.turn = some next) :
    (∃ env after, loop.turn link.env = some (env, after) ∧
        next = { link with env, live := some after }) ∨
      loop.turn link.env = none ∧ ∃ env detached, next = { link with env, detached } := by
  cases hstep : loop.turn link.env with
  | some found =>
    simp only [turn, hlive, Option.bind_some, hstep, Option.some.injEq] at hturn
    exact .inl ⟨found.1, found.2, rfl, hturn.symm⟩
  | none =>
    simp only [turn, hlive, Option.bind_some, hstep] at hturn
    obtain ⟨found, _, rfl⟩ := Option.map_eq_some_iff.mp hturn
    exact .inr ⟨rfl, found.1, found.2, by rw [hlive]⟩

end Link

end Offload
