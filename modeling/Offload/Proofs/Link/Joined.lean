import Offload.Proofs.Link.Drive

namespace Offload

def Task.OfCall : Task → Prop
  | .start _ _ | .cancel _ | .aborted (.call _) => True
  | .connect | .aborted .attempt | .shutdown | .stop => False

namespace Loop

/-- The loop is connected to the service, and nothing but calls is left on it. -/
structure Joined (service : Service) (loop : Loop) : Prop where
  connected : loop.connected = true
  named : loop.service = some service
  queue : ∀ task ∈ loop.queue, task.OfCall
  waits : ∀ wait ∈ loop.waits, ∃ id, wait.owner = .call id

variable {service : Service} {loop after : Loop} {env env' : Environment}

theorem Joined.post (hjoined : loop.Joined service) {task : Task} (htask : task.OfCall) :
    (loop.post task).Joined service := by
  refine ⟨hjoined.connected, hjoined.named, fun other hmem => ?_, hjoined.waits⟩
  rcases List.mem_append.mp hmem with hmem | hmem
  · exact hjoined.queue other hmem
  · rw [List.mem_singleton.mp hmem]
    exact htask

theorem Joined.settle (hjoined : loop.Joined service) (id : Nat) (outcome : Except Failure Json) :
    (loop.settle id outcome).Joined service :=
  ⟨hjoined.connected, hjoined.named, hjoined.queue, hjoined.waits⟩

theorem Joined.setHandle (hjoined : loop.Joined service) (handle : Handle (List Reaction)) :
    (loop.setHandle handle).Joined service :=
  ⟨hjoined.connected, hjoined.named, hjoined.queue, hjoined.waits⟩

theorem Joined.await (hjoined : loop.Joined service) (id : Nat) (due : Option Nat) (event : Event) :
    (loop.await (.call id) due event).Joined service := by
  refine ⟨hjoined.connected, hjoined.named, hjoined.queue, fun wait hmem => ?_⟩
  rcases List.mem_append.mp hmem with hmem | hmem
  · exact hjoined.waits wait hmem
  · rw [List.mem_singleton.mp hmem]
    exact ⟨id, rfl⟩

theorem Joined.abort (hjoined : loop.Joined service) (id : Nat) :
    (loop.abort (.call id)).Joined service := by
  refine ⟨hjoined.connected, hjoined.named, fun task hmem => ?_, fun wait hmem => ?_⟩
  · rcases List.mem_append.mp hmem with hmem | hmem
    · exact hjoined.queue task hmem
    · obtain ⟨_, _, rfl⟩ := List.mem_map.mp hmem
      trivial
  · exact hjoined.waits wait (List.mem_filter.mp hmem).1

theorem Joined.react (hjoined : loop.Joined service) (env : Environment) (id : Nat)
    (reactions : List Reaction) : (react env loop (.call id) reactions).2.1.Joined service := by
  induction reactions generalizing env loop with
  | nil => exact hjoined
  | cons reaction rest ih =>
    cases reaction with
    | signal => exact ih hjoined _
    | abort => exact ih (hjoined.abort id) _
    | complete completion => exact ih (hjoined.settle id _) _
    | raise failure => exact hjoined

theorem Joined.onCancel (hjoined : loop.Joined service) (env : Environment) (id : Nat)
    (reactions : List Reaction) : (onCancel env loop id reactions).2.1.Joined service := by
  unfold Loop.onCancel
  split
  · exact hjoined
  · exact (hjoined.setHandle _).react env id _

theorem Joined.cancelCall (hjoined : loop.Joined service) (env : Environment) (id : Nat) :
    (cancelCall env loop id).2.1.Joined service := by
  unfold Loop.cancelCall
  split
  · exact hjoined
  · exact (hjoined.setHandle _).react env id _

theorem Joined.enter (hjoined : loop.Joined service) (env : Environment) (id : Nat) (stage : Stage)
    (exchange : Exchange) : (enter env loop (.call id) stage exchange).2.Joined service :=
  hjoined.await id _ _

theorem Joined.beginExchange (hjoined : loop.Joined service) (env : Environment) (id : Nat)
    (target body : Bytes) : (beginExchange env loop (.call id) target body).2.Joined service :=
  hjoined.enter _ id _ _

theorem Joined.perform (hjoined : loop.Joined service) (env : Environment) (id : Nat)
    (operation : Operation) : (perform env loop id operation).2.Joined service := by
  induction operation generalizing env loop with
  | nil => exact hjoined
  | cons step rest ih =>
    cases step with
    | complete completion => exact ih (hjoined.settle id _) env
    | raise failure => exact hjoined.settle id _
    | sleep milliseconds =>
      exact ⟨hjoined.connected, hjoined.named, hjoined.queue, hjoined.waits⟩
    | onCancel reactions =>
      have hnext := hjoined.onCancel env id reactions
      rw [Loop.perform]
      split
      · next env loop hcancel =>
        rw [hcancel] at hnext
        exact ih hnext env
      · next env loop failure hcancel =>
        rw [hcancel] at hnext
        exact hnext.settle id _
    | later milliseconds completion => exact ih (hjoined.await id _ _) env
    | exchange target body => exact ih (hjoined.beginExchange env id target body) _

theorem Joined.runTask (hjoined : loop.Joined service) (env : Environment) {task : Task}
    (htask : task.OfCall) : (runTask env loop task).2.Joined service := by
  cases task with
  | start id operation =>
    have hstarted : Joined service { loop with calls := loop.calls ++ [{ handle := { id } }] } :=
      ⟨hjoined.connected, hjoined.named, hjoined.queue, hjoined.waits⟩
    exact hstarted.perform env id operation
  | cancel id =>
    have hnext := hjoined.cancelCall env id
    rw [Loop.runTask]
    cases hcancel : Loop.cancelCall env loop id with
    | mk env result =>
      obtain ⟨next, failure⟩ := result
      rw [hcancel] at hnext
      cases failure with
      | none => exact hnext
      | some failure => exact ⟨hnext.connected, hnext.named, hnext.queue, hnext.waits⟩
  | aborted owner =>
    cases owner with
    | attempt => exact htask.elim
    | call id => exact hjoined.settle id _
  | connect | shutdown | stop => exact htask.elim

theorem Joined.fire (hjoined : loop.Joined service) (env : Environment) (id : Nat) (event : Event) :
    (fire env loop (.call id) event).2.Joined service := by
  cases event with
  | resolved finding =>
    cases finding with
    | ok script => exact hjoined.enter env id _ _
    | error reason => exact ⟨hjoined.connected, hjoined.named, hjoined.queue, hjoined.waits⟩
  | timer completion => exact hjoined.settle id _
  | stage stage exchange =>
    rw [Loop.fire]
    split
    · exact hjoined.settle id _
    · split
      · exact hjoined.enter env id _ _
      · exact hjoined.enter env id _ _
      · exact hjoined.settle id _
      · exact hjoined.settle id _
      · exact hjoined

theorem mem_of_takeAt {due : Nat} {waits others : List Wait} {taken : Wait}
    (htake : takeAt due waits = some (taken, others)) :
    taken ∈ waits ∧ ∀ wait ∈ others, wait ∈ waits := by
  induction waits generalizing others with
  | nil => cases htake
  | cons first rest ih =>
    rw [takeAt] at htake
    split at htake
    · cases htake
      exact ⟨List.mem_cons_self, fun wait hmem => List.mem_cons_of_mem _ hmem⟩
    · obtain ⟨⟨found, left⟩, hfound, heq⟩ := Option.map_eq_some_iff.mp htake
      cases heq
      obtain ⟨htaken, hothers⟩ := ih hfound
      refine ⟨List.mem_cons_of_mem _ htaken, fun wait hmem => ?_⟩
      rcases List.mem_cons.mp hmem with rfl | hmem
      · exact List.mem_cons_self
      · exact List.mem_cons_of_mem _ (hothers wait hmem)

theorem mem_of_takeDue {clock : Nat} {waits others : List Wait} {taken : Wait}
    (htake : takeDue clock waits = some (taken, others)) :
    taken ∈ waits ∧ ∀ wait ∈ others, wait ∈ waits := by
  unfold takeDue at htake
  split at htake
  · split at htake
    · exact mem_of_takeAt htake
    · cases htake
  · cases htake

/-- No turn of a joined loop parts it. -/
theorem Joined.turn (hjoined : loop.Joined service) (hturn : loop.turn env = some (env', after)) :
    after.Joined service := by
  unfold Loop.turn at hturn
  split at hturn
  · split at hturn
    · next sleep _ =>
      split at hturn
      · have hawake : Joined service { loop with asleep := none } :=
          ⟨hjoined.connected, hjoined.named, hjoined.queue, hjoined.waits⟩
        have hnext := hawake.perform env sleep.id sleep.rest
        rw [Option.some.inj hturn] at hnext
        exact hnext
      · cases hturn
    · split at hturn
      · next task rest hqueue =>
        have hqueued := hjoined.queue
        rw [hqueue, List.forall_mem_cons] at hqueued
        have hbegun : Joined service { loop with queue := rest } :=
          ⟨hjoined.connected, hjoined.named, hqueued.2, hjoined.waits⟩
        have hnext := hbegun.runTask env hqueued.1
        rw [Option.some.inj hturn] at hnext
        exact hnext
      · split at hturn
        · next wait others htake =>
          obtain ⟨htaken, hothers⟩ := mem_of_takeDue htake
          obtain ⟨id, howner⟩ := hjoined.waits wait htaken
          have hleft : Joined service { loop with waits := others } :=
            ⟨hjoined.connected, hjoined.named, hjoined.queue,
              fun other hmem => hjoined.waits other (hothers other hmem)⟩
          have hnext := hleft.fire env id wait.event
          rw [howner] at hturn
          rw [Option.some.inj hturn] at hnext
          exact hnext
        · cases hturn
  · cases hturn

end Loop

namespace Link

variable {link : Link}

section Rule

variable {holds : Environment → Loop → Prop} {loop : Loop}
  (hturn : ∀ env loop env' after, holds env loop → loop.turn env = some (env', after) →
    holds env' after)
  (hidle : ∀ env loop env', holds env loop → loop.turn env = none → holds env' loop)

include hturn hidle

/-- While a link waits, loops that were left behind go on, but only when the live loop has nothing to
do. What a turn of the live loop keeps, and the surroundings have no part in while the loop is idle, is
kept by the wait. -/
theorem drive_live (hlive : link.live = some loop) (hholds : holds link.env loop)
    (ready : Link → Bool) (deadline : Nat) :
    ∃ env after detached, holds env after ∧
      link.drive ready deadline = { link with env, live := some after, detached } := by
  let kept (now : Link) : Prop := ∃ env after detached, holds env after ∧
    now = { link with env, live := some after, detached }
  have hstart : kept link := by
    refine ⟨link.env, loop, link.detached, hholds, ?_⟩
    cases link
    cases hlive
    rfl
  have hkept : ∀ now next, kept now → now.turn = some next → kept next := by
    rintro _ next ⟨env, now, detached, hnow, rfl⟩ hnext
    cases hstep : now.turn env with
    | some found =>
      simp only [turn, Option.bind_some, hstep, Option.some.injEq] at hnext
      exact ⟨found.1, found.2, detached, hturn env now _ _ hnow hstep, hnext.symm⟩
    | none =>
      simp only [turn, Option.bind_some, hstep] at hnext
      obtain ⟨found, _, rfl⟩ := Option.map_eq_some_iff.mp hnext
      exact ⟨found.1, now, found.2, hidle env now _ hnow hstep, rfl⟩
  have hmoved : ∀ now clock, kept now → now.turn = none → kept (now.setClock clock) := by
    rintro _ clock ⟨env, now, detached, hnow, rfl⟩ hrest
    have hstep := turn_eq_none.mp hrest now (List.mem_append_left _ (by simp))
    exact ⟨_, now, detached, hidle env now { env with clock } hnow hstep, rfl⟩
  have hwaited := @drive_waited kept ready deadline hkept
    (fun now due hnow hrest _ _ _ => hmoved now due hnow hrest) link hstart
  generalize link.drive ready deadline = result at hwaited
  cases hwaited with
  | inTime _ hnow => exact hnow
  | late now hnow hrest => exact hmoved now deadline hnow hrest

end Rule

/-- A link without a live loop has none after a wait, and nothing but loops that were left behind has
gone on. -/
theorem drive_apart (hlive : link.live = none) (ready : Link → Bool) (deadline : Nat) :
    ∃ env detached, link.drive ready deadline = { link with env, detached } := by
  let kept (now : Link) : Prop := ∃ env detached, now = { link with env, detached }
  have hkept : ∀ now next, kept now → now.turn = some next → kept next := by
    rintro _ next ⟨env, detached, rfl⟩ hnext
    simp only [turn, hlive, Option.bind_none] at hnext
    obtain ⟨found, _, rfl⟩ := Option.map_eq_some_iff.mp hnext
    exact ⟨found.1, found.2, by rw [hlive]⟩
  have hmoved : ∀ now clock, kept now → kept (now.setClock clock) := by
    rintro _ clock ⟨env, detached, rfl⟩
    exact ⟨{ env with clock }, detached, rfl⟩
  have hwaited := @drive_waited kept ready deadline hkept
    (fun now due hnow _ _ _ _ => hmoved now due hnow) link ⟨link.env, link.detached, rfl⟩
  generalize link.drive ready deadline = result at hwaited
  cases hwaited with
  | inTime _ hnow => exact hnow
  | late now hnow => exact hmoved now deadline hnow

theorem waitFor_apart (hlive : link.live = none) (milliseconds : Int) (ready : Link → Bool) :
    ∃ env detached, link.waitFor milliseconds ready = { link with env, detached } :=
  drive_apart hlive _ _

theorem sleep_apart (hlive : link.live = none) (milliseconds : Nat) :
    ∃ env detached, link.sleep milliseconds = { link with env, detached } :=
  drive_apart hlive _ _

theorem live_sleep (hlive : link.live = none) (milliseconds : Nat) :
    (link.sleep milliseconds).live = none := by
  obtain ⟨env, detached, hslept⟩ := sleep_apart hlive milliseconds
  rw [hslept]
  exact hlive

end Link

end Offload
