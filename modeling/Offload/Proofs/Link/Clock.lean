import Offload.Proofs.Link.Exchange
import Offload.Proofs.Link.Reports

namespace Offload

namespace Loop

variable {id : Nat} {env env' : Environment} {loop after : Loop} {reported : List Report}

theorem Acts.clock (hacts : Acts id env loop reported env' after) : env'.clock = env.clock := by
  induction hacts with
  | done => rfl
  | settle _ _ ih | setHandle _ _ _ ih | abort _ ih | await _ _ _ ih | sleep _ _ _ ih | fall _ ih
  | refuse _ _ ih => exact ih
  | begin _ ih => exact ih.trans (Environment.takeScript_clock _)
  | tell told hclock _ ih => exact ih.trans hclock

theorem react_clock (env : Environment) (loop : Loop) (owner : Owner) (reactions : List Reaction) :
    (react env loop owner reactions).1.clock = env.clock := by
  induction reactions generalizing env loop with
  | nil => rfl
  | cons reaction rest ih =>
    cases reaction with
    | signal => exact ih _ loop
    | abort => exact ih env _
    | complete completion =>
      cases owner with
      | attempt => exact ih env loop
      | call id => exact ih env _
    | raise failure => rfl

theorem cancelAll_clock (env : Environment) (loop : Loop) (calls : List Call) :
    (cancelAll env loop calls).1.clock = env.clock := by
  induction calls generalizing env loop with
  | nil =>
    rw [cancelAll]
    unfold cancelAttempt
    split
    · rfl
    · exact react_clock env _ .attempt _
  | cons call rest ih =>
    have hcancel := (cancelCall_acts env loop call.handle.id).clock
    rw [cancelAll]
    split
    · next env' after heq =>
      rw [heq] at hcancel
      exact (ih env' after).trans hcancel
    · exact hcancel

theorem survive_clock (result : Environment × Loop × Option Failure) :
    (survive result).1.clock = result.1.clock := by
  obtain ⟨env, loop, failure⟩ := result
  cases failure <;> rfl

theorem runTask_clock (env : Environment) (loop : Loop) (task : Task) :
    (runTask env loop task).1.clock = env.clock := by
  cases task with
  | connect =>
    obtain ⟨scripts, resolutions, hlookUp⟩ := env.lookUp_frame
    simp only [runTask, beginConnect, hlookUp]
  | start id operation => exact (perform_acts env _ id operation).clock
  | cancel id => exact (survive_clock _).trans (cancelCall_acts env loop id).clock
  | aborted owner => rfl
  | shutdown =>
    have hcancel := cancelAll_clock env loop.hangUp loop.pending
    rw [runTask]
    split
    · next env' after heq =>
      rw [heq] at hcancel
      exact hcancel
    · exact (survive_clock _).trans hcancel
  | stop => rfl

theorem enter_clock (env : Environment) (loop : Loop) (owner : Owner) (stage : Stage)
    (exchange : Exchange) : (enter env loop owner stage exchange).1.clock = env.clock := by
  unfold enter
  split <;> rfl

theorem fire_clock (env : Environment) (loop : Loop) (owner : Owner) (event : Event) :
    (fire env loop owner event).1.clock = env.clock := by
  cases owner with
  | call id => exact (fire_acts env loop id event).clock
  | attempt =>
    cases event with
    | resolved finding =>
      cases finding with
      | ok script => exact enter_clock env loop .attempt .connect _
      | error reason => rfl
    | timer completion => rfl
    | stage stage exchange =>
      rw [fire_stage_eq]
      cases stageEnd? stage exchange.script with
      | some delivery => rfl
      | none =>
        cases stage with
        | connect | write => exact enter_clock env loop .attempt _ exchange
        | read => rfl

theorem turn_clock (hturn : loop.turn env = some (env', after)) : env'.clock = env.clock := by
  have halive := alive_of_turn hturn
  cases hasleep : loop.asleep with
  | some sleep =>
    rw [turn_of_sleep halive hasleep] at hturn
    split at hturn
    · have hclock := (perform_acts env { loop with asleep := none } sleep.id sleep.rest).clock
      rw [Option.some.inj hturn] at hclock
      exact hclock
    · cases hturn
  | none =>
    cases hqueue : loop.queue with
    | cons task rest =>
      have hclock := runTask_clock env { loop with queue := rest } task
      rw [turn_of_task halive hasleep hqueue, Option.some.injEq] at hturn
      rw [hturn] at hclock
      exact hclock
    | nil =>
      rw [turn_of_no_task halive hasleep hqueue] at hturn
      obtain ⟨⟨wait, others⟩, _, hfire⟩ := Option.map_eq_some_iff.mp hturn
      have hclock := fire_clock env { loop with waits := others } wait.owner wait.event
      rw [hfire] at hclock
      exact hclock

theorem clock_lt_of_rest {due : Nat} (hrest : loop.turn env = none) (hdue : loop.nextDue = some due) :
    env.clock < due := by
  cases halive : loop.alive with
  | false => simp only [nextDue, halive, Bool.false_eq_true, if_false, reduceCtorEq] at hdue
  | true =>
    cases hasleep : loop.asleep with
    | some sleep =>
      simp only [nextDue, halive, hasleep, if_true, Option.some.injEq] at hdue
      rw [turn_of_sleep halive hasleep, hdue] at hrest
      split at hrest
      · cases hrest
      · next hdeep => exact Nat.not_le.mp hdeep
    | none =>
      simp only [nextDue, halive, hasleep, if_true] at hdue
      refine Nat.lt_of_not_le fun hpast => ?_
      obtain ⟨wait, others, htake⟩ := takeDue_isSome hdue hpast
      by_cases htasks : loop.queue = []
      · rw [turn_of_no_task halive hasleep htasks, htake] at hrest
        cases hrest
      · obtain ⟨task, rest, htasks⟩ := List.exists_cons_of_ne_nil htasks
        rw [turn_of_task halive hasleep htasks] at hrest
        cases hrest

end Loop

namespace Link

theorem turnAny_clock {env env' : Environment} {loops after : List Loop}
    (hturn : turnAny env loops = some (env', after)) : env'.clock = env.clock := by
  induction loops generalizing after with
  | nil => cases hturn
  | cons loop rest ih =>
    rw [turnAny] at hturn
    split at hturn
    · next found hstep =>
      cases hturn
      exact Loop.turn_clock hstep
    · obtain ⟨⟨env'', left⟩, hfound, heq⟩ := Option.map_eq_some_iff.mp hturn
      cases heq
      exact ih hfound

theorem turn_clock {link next : Link} (hturn : link.turn = some next) :
    next.env.clock = link.env.clock := by
  unfold Link.turn at hturn
  split at hturn
  · next env after hlive =>
    obtain ⟨loop, _, hstep⟩ := Option.bind_eq_some_iff.mp hlive
    cases hturn
    exact Loop.turn_clock hstep
  · obtain ⟨found, hfound, rfl⟩ := Option.map_eq_some_iff.mp hturn
    exact turnAny_clock hfound

/-- At rest, time only passes forward. -/
theorem clock_lt_nextDue {link : Link} {due : Nat} (hrest : link.turn = none)
    (hdue : link.nextDue = some due) : link.env.clock < due := by
  obtain ⟨horigin, _⟩ := foldl_earlier_eq_some Loop.nextDue hdue
  rcases horigin with h | ⟨loop, hmem, hloop⟩
  · cases h
  · exact Loop.clock_lt_of_rest (turn_eq_none.mp hrest loop hmem) hloop

variable (link : Link)

/-- A drive does not go back in time, and ends by its deadline. -/
theorem drive_clock (ready : Link → Bool) {deadline : Nat} (hdeadline : link.env.clock ≤ deadline) :
    link.env.clock ≤ (link.drive ready deadline).env.clock ∧
      (link.drive ready deadline).env.clock ≤ deadline := by
  have hwaited := @drive_waited
    (fun now => link.env.clock ≤ now.env.clock ∧ now.env.clock ≤ deadline) ready deadline
    (by
      rintro now next hnow hturn
      rwa [turn_clock hturn])
    (by
      rintro now due ⟨hstart, _⟩ hrest _ hdue hle
      have hlater := clock_lt_nextDue hrest hdue
      exact ⟨Nat.le_trans hstart (Nat.le_of_lt hlater), hle⟩)
    link ⟨Nat.le_refl _, hdeadline⟩
  generalize link.drive ready _ = result at hwaited
  cases hwaited with
  | inTime _ hholds => exact hholds
  | late now hholds => exact ⟨hdeadline, Nat.le_refl _⟩

theorem waitFor_clock (milliseconds : Int) (ready : Link → Bool) :
    link.env.clock ≤ (link.waitFor milliseconds ready).env.clock ∧
      (link.waitFor milliseconds ready).env.clock ≤ link.env.clock + link.env.span milliseconds :=
  link.drive_clock ready (Nat.le_add_right _ _)

theorem sleep_clock (milliseconds : Nat) :
    (link.sleep milliseconds).env.clock = link.env.clock + milliseconds := by
  have hwaited := @drive_waited (fun _ => True) (fun _ => false)
    (link.env.clock + milliseconds) (fun _ _ _ _ => trivial)
    (fun _ _ _ _ _ _ _ => trivial) link trivial
  unfold sleep
  generalize link.drive _ _ = result at hwaited
  cases hwaited with
  | inTime _ _ _ hready => cases hready
  | late => rfl

theorem stopLoop_clock : link.stopLoop.env.clock ≤ link.env.clock + link.limits.join.toNat := by
  have hwaited := (({ link with live := link.live.map Loop.askToStop } : Link).waitFor_clock
    link.limits.join isStopped).2
  have hlatest := Nat.le_trans hwaited (Nat.add_le_add_left (Environment.span_le _ _) _)
  unfold stopLoop
  simp only
  split <;> exact hlatest

theorem disconnect_clock : link.disconnect.env.clock ≤ link.env.clock + link.limits.join.toNat := by
  unfold disconnect
  split
  · exact Nat.le_add_right _ _
  · exact (link.log (.info (utf8 "Disconnecting from " ++ link.endpoint))).stopLoop_clock

end Link

end Offload
