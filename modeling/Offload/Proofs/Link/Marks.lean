import Offload.Proofs.Link.Alike
import Offload.Proofs.Link.Clock

namespace Offload

/-- What happens to a call on its loop. -/
inductive Mark
  | started
  | cancelled (reactions : List Reaction)

/-- What happened, in order, and to whom. -/
abbrev Record := List (Owner × Mark)

namespace Loop

variable {env env' : Environment} {loop after : Loop}

def dueMarks (owner : Owner) (due : Option (List Reaction)) : Record :=
  due.toList.map fun reactions => (owner, .cancelled reactions)

def onCancelMarks (loop : Loop) (id : Nat) (reactions : List Reaction) : Record :=
  match loop.call? id with
  | none => []
  | some call => dueMarks (.call id) (call.handle.onCancel (some reactions)).2

def cancelMarks (loop : Loop) (id : Nat) : Record :=
  match loop.call? id with
  | none => []
  | some call => dueMarks (.call id) call.handle.cancel.2

def cancelAttemptMarks (loop : Loop) : Record :=
  match loop.attempt with
  | none => []
  | some handle => dueMarks .attempt handle.cancel.2

def cancelAllMarks (env : Environment) (loop : Loop) : List Call → Record
  | [] => cancelAttemptMarks loop
  | call :: rest =>
    cancelMarks loop call.handle.id ++
      match cancelCall env loop call.handle.id with
      | (env, loop, none) => cancelAllMarks env loop rest
      | (_, _, some _) => []

def performMarks (env : Environment) (loop : Loop) (id : Nat) : Operation → Record
  | [] => []
  | .complete completion :: rest =>
    performMarks env (loop.settle id (loop.outcomeOf id completion)) id rest
  | .raise _ :: _ => []
  | .sleep _ :: _ => []
  | .onCancel reactions :: rest =>
    onCancelMarks loop id reactions ++
      match onCancel env loop id reactions with
      | (env, loop, none) => performMarks env loop id rest
      | (_, _, some _) => []
  | .later milliseconds completion :: rest =>
    performMarks env
      (loop.await (.call id) (some (env.clock + milliseconds)) (.timer completion)) id rest
  | .exchange target body :: rest =>
    let (env, loop) := beginExchange env loop (.call id) target body
    performMarks env loop id rest

def taskMarks (env : Environment) (loop : Loop) : Task → Record
  | .start id operation =>
    (.call id, .started) ::
      performMarks env { loop with calls := loop.calls ++ [{ handle := { id } }] } id operation
  | .cancel id => cancelMarks loop id
  | .shutdown => cancelAllMarks env loop.hangUp loop.pending
  | .connect | .aborted _ | .stop => []

/-- The record of the next turn of a loop. -/
def marks (env : Environment) (loop : Loop) : Record :=
  match loop.asleep with
  | some sleep => performMarks env { loop with asleep := none } sleep.id sleep.rest
  | none =>
    match loop.queue with
    | task :: rest => taskMarks env { loop with queue := rest } task
    | [] => []

theorem marks_of_sleep {sleep : Sleep} (hasleep : loop.asleep = some sleep) (env : Environment) :
    loop.marks env = performMarks env { loop with asleep := none } sleep.id sleep.rest := by
  simp only [marks, hasleep]

theorem marks_of_task {task : Task} {rest : List Task} (hawake : loop.asleep = none)
    (hqueue : loop.queue = task :: rest) (env : Environment) :
    loop.marks env = taskMarks env { loop with queue := rest } task := by
  simp only [marks, hawake, hqueue]

theorem marks_of_no_task (hawake : loop.asleep = none) (hqueue : loop.queue = []) (env : Environment) :
    loop.marks env = [] := by
  simp only [marks, hawake, hqueue]

/-- In a turn a loop wakes, or runs its next task, or takes up an event. -/
theorem turn_inv (hturn : loop.turn env = some (env', after)) :
    (∃ sleep, loop.asleep = some sleep ∧
        perform env { loop with asleep := none } sleep.id sleep.rest = (env', after) ∧
        loop.marks env = performMarks env { loop with asleep := none } sleep.id sleep.rest) ∨
      (∃ task rest, loop.asleep = none ∧ loop.queue = task :: rest ∧
        runTask env { loop with queue := rest } task = (env', after) ∧
        loop.marks env = taskMarks env { loop with queue := rest } task) ∨
      ∃ (wait : Wait) (others : List Wait), loop.asleep = none ∧ loop.queue = [] ∧
        fire env { loop with waits := others } wait.owner wait.event = (env', after) ∧
        loop.marks env = [] := by
  have halive := alive_of_turn hturn
  rcases Option.eq_none_or_eq_some loop.asleep with hawake | ⟨sleep, hasleep⟩
  · by_cases hqueue : loop.queue = []
    · rw [turn_of_no_task halive hawake hqueue] at hturn
      obtain ⟨⟨wait, others⟩, _, hfire⟩ := Option.map_eq_some_iff.mp hturn
      exact .inr (.inr ⟨wait, others, hawake, hqueue, hfire, marks_of_no_task hawake hqueue env⟩)
    · obtain ⟨task, rest, hqueue⟩ := List.exists_cons_of_ne_nil hqueue
      rw [turn_of_task halive hawake hqueue, Option.some.injEq] at hturn
      exact .inr (.inl ⟨task, rest, hawake, hqueue, hturn, marks_of_task hawake hqueue env⟩)
  · rw [turn_of_sleep halive hasleep] at hturn
    split at hturn
    · exact .inl ⟨sleep, hasleep, Option.some.inj hturn, marks_of_sleep hasleep env⟩
    · cases hturn

/-- How many cancellations reactions signal, up to one that fails. -/
def signalsOf : List Reaction → Nat
  | [] => 0
  | .signal :: rest => signalsOf rest + 1
  | .abort :: rest | .complete _ :: rest => signalsOf rest
  | .raise _ :: _ => 0

end Loop

def Mark.signals : Mark → Nat
  | started => 0
  | cancelled reactions => Loop.signalsOf reactions

def signalled (marks : Record) : Nat := total (fun mark => mark.2.signals) marks

theorem signalled_append (marks more : Record) :
    signalled (marks ++ more) = signalled marks + signalled more := total_append _ marks more

namespace Loop

variable {env env' : Environment} {loop after : Loop}

theorem react_signals (env : Environment) (loop : Loop) (owner : Owner) (due : Option (List Reaction)) :
    (react env loop owner (due.getD [])).1.signals = env.signals + signalled (dueMarks owner due) := by
  cases due with
  | none => rfl
  | some reactions =>
    have hreacted : (react env loop owner reactions).1.signals = env.signals + signalsOf reactions := by
      induction reactions generalizing env loop with
      | nil => rfl
      | cons reaction rest ih =>
        cases reaction with
        | signal =>
          refine (ih _ loop).trans ?_
          simp only [signalsOf]
          omega
        | abort => exact ih env _
        | complete completion =>
          cases owner with
          | attempt => exact ih env loop
          | call id => exact ih env _
        | raise failure => rfl
    exact hreacted

theorem onCancel_signals (env : Environment) (loop : Loop) (id : Nat) (reactions : List Reaction) :
    (onCancel env loop id reactions).1.signals =
      env.signals + signalled (onCancelMarks loop id reactions) := by
  unfold onCancel onCancelMarks
  cases loop.call? id with
  | none => rfl
  | some call => exact react_signals env _ _ _

theorem cancelCall_signals (env : Environment) (loop : Loop) (id : Nat) :
    (cancelCall env loop id).1.signals = env.signals + signalled (cancelMarks loop id) := by
  unfold cancelCall cancelMarks
  cases loop.call? id with
  | none => rfl
  | some call => exact react_signals env _ _ _

theorem cancelAttempt_signals (env : Environment) (loop : Loop) :
    (cancelAttempt env loop).1.signals = env.signals + signalled (cancelAttemptMarks loop) := by
  unfold cancelAttempt cancelAttemptMarks
  cases loop.attempt with
  | none => rfl
  | some handle => exact react_signals env _ _ _

theorem cancelAll_signals (env : Environment) (loop : Loop) (calls : List Call) :
    (cancelAll env loop calls).1.signals = env.signals + signalled (cancelAllMarks env loop calls) := by
  induction calls generalizing env loop with
  | nil => exact cancelAttempt_signals env loop
  | cons call rest ih =>
    have hfirst := cancelCall_signals env loop call.handle.id
    rw [cancelAll, cancelAllMarks, signalled_append]
    generalize cancelCall env loop call.handle.id = found at hfirst
    obtain ⟨env', loop', failure⟩ := found
    cases failure with
    | some failure => exact hfirst
    | none =>
      have hsofar : env'.signals = env.signals + signalled (cancelMarks loop call.handle.id) := hfirst
      simp only
      rw [ih env' loop', hsofar, Nat.add_assoc]

theorem survive_signals (result : Environment × Loop × Option Failure) :
    (survive result).1.signals = result.1.signals := by
  obtain ⟨env, loop, failure⟩ := result
  cases failure <;> rfl

theorem beginExchange_signals (env : Environment) (loop : Loop) (owner : Owner) (target body : Bytes) :
    (beginExchange env loop owner target body).1.signals = env.signals := by
  rw [beginExchange_eq, env.takeScript_eq]
  rfl

theorem perform_signals (env : Environment) (loop : Loop) (id : Nat) (operation : Operation) :
    (perform env loop id operation).1.signals =
      env.signals + signalled (performMarks env loop id operation) := by
  induction operation generalizing env loop with
  | nil => rfl
  | cons step rest ih =>
    cases step with
    | complete completion => exact ih env _
    | raise failure | sleep milliseconds => rfl
    | onCancel reactions =>
      have hregistered := onCancel_signals env loop id reactions
      rw [perform, performMarks, signalled_append]
      generalize onCancel env loop id reactions = found at hregistered
      obtain ⟨env', loop', failure⟩ := found
      cases failure with
      | some failure => exact hregistered
      | none =>
        have hsofar : env'.signals = env.signals + signalled (onCancelMarks loop id reactions) :=
          hregistered
        simp only
        rw [ih env' loop', hsofar, Nat.add_assoc]
    | later milliseconds completion => exact ih env _
    | exchange target body =>
      have hbegun := beginExchange_signals env loop (.call id) target body
      simp only [perform, performMarks]
      rw [ih, hbegun]

theorem runTask_signals (env : Environment) (loop : Loop) (task : Task) :
    (runTask env loop task).1.signals = env.signals + signalled (taskMarks env loop task) := by
  cases task with
  | connect =>
    obtain ⟨scripts, resolutions, hlooked⟩ := env.lookUp_frame
    simp only [runTask, beginConnect, hlooked]
    rfl
  | start id operation =>
    refine (perform_signals env _ id operation).trans ?_
    simp only [taskMarks, signalled, total, Mark.signals, Nat.zero_add]
  | cancel id => exact (survive_signals _).trans (cancelCall_signals env loop id)
  | aborted owner | stop => rfl
  | shutdown =>
    have hcancelled := cancelAll_signals env loop.hangUp loop.pending
    rw [runTask, taskMarks]
    split
    · next env' loop' hall =>
      rw [hall] at hcancelled
      exact hcancelled
    · exact (survive_signals _).trans hcancelled

theorem fire_signals (env : Environment) (loop : Loop) (owner : Owner) (event : Event) :
    (fire env loop owner event).1.signals = env.signals := by
  cases event with
  | resolved finding => cases finding <;> rfl
  | timer completion => cases owner <;> rfl
  | stage stage exchange =>
    rw [fire_stage_eq]
    cases stageEnd? stage exchange.script with
    | some delivery => rfl
    | none =>
      cases stage with
      | connect | write | read => rfl

theorem turn_signals (hturn : loop.turn env = some (env', after)) :
    env'.signals = env.signals + signalled (loop.marks env) := by
  rcases turn_inv hturn with ⟨sleep, _, hrun, hmarks⟩ | ⟨task, rest, _, _, hrun, hmarks⟩ |
      ⟨wait, others, _, _, hrun, hmarks⟩
  · have hsignals := perform_signals env { loop with asleep := none } sleep.id sleep.rest
    rwa [hrun, ← hmarks] at hsignals
  · have hsignals := runTask_signals env { loop with queue := rest } task
    rwa [hrun, ← hmarks] at hsignals
  · have hsignals := fire_signals env { loop with waits := others } wait.owner wait.event
    rw [hmarks]
    rwa [hrun] at hsignals

end Loop

end Offload
