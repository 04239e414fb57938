import Offload.Proofs.Link.Numbering

namespace Offload

namespace Environment

/-- Surroundings that differ at most in what was logged and sent. -/
structure Alike (env other : Environment) : Prop where
  clock : env.clock = other.clock
  scripts : env.scripts = other.scripts
  resolutions : env.resolutions = other.resolutions
  starts : env.starts = other.starts
  signals : env.signals = other.signals

variable {env other third : Environment}

theorem Alike.refl (env : Environment) : env.Alike env := ⟨rfl, rfl, rfl, rfl, rfl⟩

theorem Alike.symm (halike : env.Alike other) : other.Alike env :=
  ⟨halike.clock.symm, halike.scripts.symm, halike.resolutions.symm, halike.starts.symm,
    halike.signals.symm⟩

theorem Alike.trans (hfirst : env.Alike other) (hsecond : other.Alike third) : env.Alike third :=
  ⟨hfirst.clock.trans hsecond.clock, hfirst.scripts.trans hsecond.scripts,
    hfirst.resolutions.trans hsecond.resolutions, hfirst.starts.trans hsecond.starts,
    hfirst.signals.trans hsecond.signals⟩

theorem log_alike (env : Environment) (entry : Entry) : (env.log entry).Alike env :=
  ⟨rfl, rfl, rfl, rfl, rfl⟩

theorem send_alike (env : Environment) (request : Request) : (env.send request).Alike env :=
  ⟨rfl, rfl, rfl, rfl, rfl⟩

theorem Alike.setClock (halike : env.Alike other) (clock : Nat) :
    Alike { env with clock } { other with clock } :=
  ⟨rfl, halike.scripts, halike.resolutions, halike.starts, halike.signals⟩

theorem Alike.takeScript (halike : env.Alike other) :
    env.takeScript.1 = other.takeScript.1 ∧ env.takeScript.2.Alike other.takeScript.2 := by
  rw [takeScript_eq, takeScript_eq, takeScript_fst, takeScript_fst, halike.scripts]
  exact ⟨rfl, halike.clock, rfl, halike.resolutions, halike.starts, halike.signals⟩

theorem Alike.takeResolution (halike : env.Alike other) :
    env.takeResolution.1 = other.takeResolution.1 ∧
      env.takeResolution.2.Alike other.takeResolution.2 := by
  unfold Environment.takeResolution
  rw [halike.resolutions]
  cases other.resolutions with
  | nil => exact ⟨rfl, halike⟩
  | cons resolution rest =>
    exact ⟨rfl, halike.clock, halike.scripts, rfl, halike.starts, halike.signals⟩

theorem Alike.takeStart (halike : env.Alike other) :
    env.takeStart.1 = other.takeStart.1 ∧ env.takeStart.2.Alike other.takeStart.2 := by
  unfold Environment.takeStart
  rw [halike.starts]
  cases other.starts with
  | nil => exact ⟨rfl, halike⟩
  | cons start rest =>
    exact ⟨rfl, halike.clock, halike.scripts, halike.resolutions, rfl, halike.signals⟩

theorem Alike.lookUp (halike : env.Alike other) :
    env.lookUp.1 = other.lookUp.1 ∧ env.lookUp.2.1 = other.lookUp.2.1 ∧
      env.lookUp.2.2.Alike other.lookUp.2.2 := by
  obtain ⟨hresolution, hleft⟩ := halike.takeResolution
  obtain ⟨hscript, hrest⟩ := hleft.takeScript
  unfold Environment.lookUp
  simp only [hresolution]
  cases other.takeResolution.1 with
  | found delay =>
    exact ⟨congrArg (fun clock => some (clock + delay)) hrest.clock, congrArg Except.ok hscript, hrest⟩
  | failure reason delay =>
    exact ⟨congrArg (fun clock => some (clock + delay)) hleft.clock, rfl, hleft⟩
  | silence => exact ⟨rfl, rfl, hleft⟩

def Agree {α : Type} (found other : Environment × α) : Prop :=
  found.1.Alike other.1 ∧ found.2 = other.2

end Environment

open Environment (Agree)

namespace Loop

variable {env other : Environment}

theorem react_alike (halike : env.Alike other) (loop : Loop) (owner : Owner)
    (reactions : List Reaction) :
    Agree (react env loop owner reactions) (react other loop owner reactions) := by
  induction reactions generalizing env other loop with
  | nil => exact ⟨halike, rfl⟩
  | cons reaction rest ih =>
    cases reaction with
    | signal =>
      have hcounted : Environment.Alike { env with signals := env.signals + 1 }
          { other with signals := other.signals + 1 } :=
        ⟨halike.clock, halike.scripts, halike.resolutions, halike.starts,
          congrArg (· + 1) halike.signals⟩
      exact ih hcounted loop
    | abort => exact ih halike _
    | complete completion =>
      cases owner with
      | attempt => exact ih halike loop
      | call id => exact ih halike _
    | raise failure => exact ⟨halike, rfl⟩

theorem onCancel_alike (halike : env.Alike other) (loop : Loop) (id : Nat)
    (reactions : List Reaction) :
    Agree (onCancel env loop id reactions) (onCancel other loop id reactions) := by
  unfold onCancel
  cases loop.call? id with
  | none => exact ⟨halike, rfl⟩
  | some call => exact react_alike halike _ _ _

theorem cancelCall_alike (halike : env.Alike other) (loop : Loop) (id : Nat) :
    Agree (cancelCall env loop id) (cancelCall other loop id) := by
  unfold cancelCall
  cases loop.call? id with
  | none => exact ⟨halike, rfl⟩
  | some call => exact react_alike halike _ _ _

theorem cancelAttempt_alike (halike : env.Alike other) (loop : Loop) :
    Agree (cancelAttempt env loop) (cancelAttempt other loop) := by
  unfold cancelAttempt
  cases loop.attempt with
  | none => exact ⟨halike, rfl⟩
  | some handle => exact react_alike halike _ _ _

theorem cancelAll_alike (halike : env.Alike other) (loop : Loop) (calls : List Call) :
    Agree (cancelAll env loop calls) (cancelAll other loop calls) := by
  induction calls generalizing env other loop with
  | nil => exact cancelAttempt_alike halike loop
  | cons call rest ih =>
    obtain ⟨hafter, hsame⟩ := cancelCall_alike halike loop call.handle.id
    rw [cancelAll, cancelAll]
    generalize cancelCall env loop call.handle.id = found at hafter hsame
    generalize cancelCall other loop call.handle.id = matching at hafter hsame
    obtain ⟨env', loop', failure⟩ := found
    obtain ⟨other', _, _⟩ := matching
    cases hsame
    cases failure with
    | none => exact ih hafter loop'
    | some failure => exact ⟨hafter, rfl⟩

theorem survive_alike {found matching : Environment × Loop × Option Failure}
    (hagree : Agree found matching) : Agree (survive found) (survive matching) := by
  obtain ⟨env, loop, failure⟩ := found
  obtain ⟨other, _, _⟩ := matching
  obtain ⟨halike, hsame⟩ := hagree
  cases hsame
  cases failure with
  | none => exact ⟨halike, rfl⟩
  | some failure => exact ⟨((env.log_alike _).trans halike).trans (other.log_alike _).symm, rfl⟩

theorem enter_alike (halike : env.Alike other) (loop : Loop) (owner : Owner) (stage : Stage)
    (exchange : Exchange) :
    Agree (enter env loop owner stage exchange) (enter other loop owner stage exchange) := by
  unfold enter
  split
  · refine ⟨((env.send_alike _).trans halike).trans (other.send_alike _).symm, ?_⟩
    exact congrArg (fun clock => loop.await owner (stageDue clock stage exchange.script) _) halike.clock
  · exact ⟨halike, congrArg (fun clock => loop.await owner (stageDue clock stage exchange.script) _)
      halike.clock⟩

theorem beginExchange_alike (halike : env.Alike other) (loop : Loop) (owner : Owner)
    (target body : Bytes) :
    Agree (beginExchange env loop owner target body) (beginExchange other loop owner target body) := by
  obtain ⟨hscript, hleft⟩ := halike.takeScript
  rw [beginExchange_eq, beginExchange_eq, hscript]
  exact enter_alike hleft loop owner .connect _

theorem beginConnect_alike (halike : env.Alike other) (loop : Loop) :
    Agree (beginConnect env loop) (beginConnect other loop) := by
  obtain ⟨hdue, hfinding, hleft⟩ := halike.lookUp
  unfold beginConnect
  simp only [hdue, hfinding]
  exact ⟨hleft, rfl⟩

theorem perform_alike (halike : env.Alike other) (loop : Loop) (id : Nat) (operation : Operation) :
    Agree (perform env loop id operation) (perform other loop id operation) := by
  induction operation generalizing env other loop with
  | nil => exact ⟨halike, rfl⟩
  | cons step rest ih =>
    cases step with
    | complete completion => exact ih halike _
    | raise failure => exact ⟨halike, rfl⟩
    | sleep milliseconds =>
      rw [perform, perform, halike.clock]
      exact ⟨halike, rfl⟩
    | onCancel reactions =>
      obtain ⟨hafter, hsame⟩ := onCancel_alike halike loop id reactions
      rw [perform, perform]
      generalize onCancel env loop id reactions = found at hafter hsame
      generalize onCancel other loop id reactions = matching at hafter hsame
      obtain ⟨env', loop', failure⟩ := found
      obtain ⟨other', _, _⟩ := matching
      cases hsame
      cases failure with
      | none => exact ih hafter loop'
      | some failure => exact ⟨hafter, rfl⟩
    | later milliseconds completion =>
      rw [perform, perform, halike.clock]
      exact ih halike _
    | exchange target body =>
      obtain ⟨hafter, hsame⟩ := beginExchange_alike halike loop (.call id) target body
      simp only [perform, hsame]
      exact ih hafter _

theorem runTask_alike (halike : env.Alike other) (loop : Loop) (task : Task) :
    Agree (runTask env loop task) (runTask other loop task) := by
  cases task with
  | connect => exact beginConnect_alike halike loop
  | start id operation => exact perform_alike halike _ id operation
  | cancel id => exact survive_alike (cancelCall_alike halike loop id)
  | aborted owner => exact ⟨halike, rfl⟩
  | shutdown =>
    have hagree := cancelAll_alike halike loop.hangUp loop.pending
    rw [runTask, runTask]
    generalize cancelAll env loop.hangUp loop.pending = found at hagree
    generalize cancelAll other loop.hangUp loop.pending = matching at hagree
    obtain ⟨env', loop', failure⟩ := found
    obtain ⟨other', _, _⟩ := matching
    have hsurvived := survive_alike hagree
    obtain ⟨hafter, hsame⟩ := hagree
    cases hsame
    cases failure with
    | none => exact ⟨hafter, rfl⟩
    | some failure => exact hsurvived
  | stop => exact ⟨halike, rfl⟩

theorem fire_alike (halike : env.Alike other) (loop : Loop) (owner : Owner) (event : Event) :
    Agree (fire env loop owner event) (fire other loop owner event) := by
  cases event with
  | resolved finding =>
    cases finding with
    | ok script => exact enter_alike halike loop owner .connect _
    | error reason => exact ⟨halike, rfl⟩
  | timer completion => cases owner <;> exact ⟨halike, rfl⟩
  | stage stage exchange =>
    rw [fire_stage_eq, fire_stage_eq]
    cases stageEnd? stage exchange.script with
    | some delivery => exact ⟨halike, rfl⟩
    | none =>
      cases stage with
      | connect | write => exact enter_alike halike loop owner _ exchange
      | read => exact ⟨halike, rfl⟩

theorem turn_alike (halike : env.Alike other) (loop : Loop) :
    Option.Rel Agree (loop.turn env) (loop.turn other) := by
  cases halive : loop.alive with
  | false =>
    rw [turn_of_dead halive, turn_of_dead halive]
    exact .none
  | true =>
    cases hasleep : loop.asleep with
    | some sleep =>
      rw [turn_of_sleep halive hasleep, turn_of_sleep halive hasleep, halike.clock]
      split
      · exact .some (perform_alike halike _ _ _)
      · exact .none
    | none =>
      cases hqueue : loop.queue with
      | cons task rest =>
        rw [turn_of_task halive hasleep hqueue, turn_of_task halive hasleep hqueue]
        exact .some (runTask_alike halike _ task)
      | nil =>
        rw [turn_of_no_task halive hasleep hqueue, turn_of_no_task halive hasleep hqueue, halike.clock]
        cases takeDue other.clock loop.waits with
        | none => exact .none
        | some found => exact .some (fire_alike halike _ _ _)

theorem turn_eq_none_of_alike {loop : Loop} (halike : env.Alike other) (hrest : loop.turn env = none) :
    loop.turn other = none := by
  have hstep := turn_alike halike loop
  rw [hrest] at hstep
  generalize loop.turn other = found at hstep
  cases hstep
  rfl

end Loop

namespace Link

theorem turnAny_alike {env other : Environment} (halike : env.Alike other) (loops : List Loop) :
    Option.Rel Agree (turnAny env loops) (turnAny other loops) := by
  induction loops with
  | nil => exact .none
  | cons loop rest ih =>
    have hstep := Loop.turn_alike halike loop
    rw [turnAny, turnAny]
    generalize loop.turn env = found at hstep
    generalize loop.turn other = matching at hstep
    cases hstep with
    | some hagree =>
      obtain ⟨hafter, hsame⟩ := hagree
      exact .some ⟨hafter, congrArg (· :: rest) hsame⟩
    | none =>
      simp only
      generalize turnAny env rest = found at ih
      generalize turnAny other rest = matching at ih
      cases ih with
      | some hagree =>
        obtain ⟨hafter, hsame⟩ := hagree
        exact .some ⟨hafter, congrArg (loop :: ·) hsame⟩
      | none => exact .none

/-- Links that differ at most in what was logged and sent, and without a loop in their endpoints. -/
structure Alike (link other : Link) : Prop where
  env : link.env.Alike other.env
  limits : link.limits = other.limits
  phase : link.phase = other.phase
  live : link.live = other.live
  detached : link.detached = other.detached
  dispatched : link.dispatched = other.dispatched
  host : link.live.isSome = true → link.host = other.host
  port : link.live.isSome = true → link.port = other.port

variable {link other third : Link}

theorem Alike.refl (link : Link) : link.Alike link :=
  ⟨.refl _, rfl, rfl, rfl, rfl, rfl, fun _ => rfl, fun _ => rfl⟩

theorem Alike.trans (hfirst : link.Alike other) (hsecond : other.Alike third) : link.Alike third where
  env := hfirst.env.trans hsecond.env
  limits := hfirst.limits.trans hsecond.limits
  phase := hfirst.phase.trans hsecond.phase
  live := hfirst.live.trans hsecond.live
  detached := hfirst.detached.trans hsecond.detached
  dispatched := hfirst.dispatched.trans hsecond.dispatched
  host hsome := (hfirst.host hsome).trans (hsecond.host (hfirst.live ▸ hsome))
  port hsome := (hfirst.port hsome).trans (hsecond.port (hfirst.live ▸ hsome))

/-- A condition that sees nothing in which such links differ. -/
def Fair (ready : Link → Bool) : Prop := ∀ link other : Link, link.Alike other → ready link = ready other

theorem Alike.withEnv (halike : link.Alike other) {env env' : Environment} (henv : env.Alike env') :
    Alike { link with env } { other with env := env' } :=
  ⟨henv, halike.limits, halike.phase, halike.live, halike.detached, halike.dispatched, halike.host,
    halike.port⟩

theorem log_alike (link : Link) (entry : Entry) : (link.log entry).Alike link :=
  (Alike.refl link).withEnv (link.env.log_alike entry)

theorem Alike.log (halike : link.Alike other) (entry entry' : Entry) :
    (link.log entry).Alike (other.log entry') :=
  halike.withEnv <| ((link.env.log_alike _).trans halike.env).trans (other.env.log_alike _).symm

theorem Alike.setClock (halike : link.Alike other) (clock : Nat) :
    (link.setClock clock).Alike (other.setClock clock) := halike.withEnv (halike.env.setClock clock)

theorem Alike.turn (halike : link.Alike other) : Option.Rel Alike link.turn other.turn := by
  obtain ⟨henv, hlimits, hphase, hlive, hdetached, hdispatched, hhost, hport⟩ := halike
  have hleft := turnAny_alike henv link.detached
  have hlater : Option.Rel Alike
      ((turnAny link.env link.detached).map fun found =>
        { link with env := found.1, detached := found.2 })
      ((turnAny other.env other.detached).map fun found =>
        { other with env := found.1, detached := found.2 }) := by
    rw [← hdetached]
    generalize turnAny link.env link.detached = found at hleft
    generalize turnAny other.env link.detached = matching at hleft
    cases hleft with
    | none => exact .none
    | some hagree =>
      exact .some ⟨hagree.1, hlimits, hphase, hlive, hagree.2, hdispatched, hhost, hport⟩
  have hstep : Option.Rel Agree (link.live.bind (·.turn link.env))
      (link.live.bind (·.turn other.env)) := by
    cases link.live with
    | none => exact .none
    | some loop => exact Loop.turn_alike henv loop
  unfold Link.turn
  rw [← hlive]
  generalize hfound : link.live.bind (·.turn link.env) = found at hstep
  generalize link.live.bind (·.turn other.env) = matching at hstep
  cases hstep with
  | none => simpa only [hlive] using hlater
  | some hagree =>
    obtain ⟨hafter, hsame⟩ := hagree
    have hsome : link.live.isSome = true := by
      obtain ⟨loop, hloop, _⟩ := Option.bind_eq_some_iff.mp hfound
      rw [hloop]
      rfl
    exact .some ⟨hafter, hlimits, hphase, congrArg some hsame, hdetached, hdispatched,
      fun _ => hhost hsome, fun _ => hport hsome⟩

theorem Alike.loops_eq (halike : link.Alike other) : link.loops = other.loops := by
  rw [loops, loops, halike.live, halike.detached]

theorem Alike.nextDue_eq (halike : link.Alike other) : link.nextDue = other.nextDue := by
  rw [nextDue, nextDue, halike.loops_eq]

private theorem Alike.driveFor (halike : link.Alike other) {ready : Link → Bool} (hfair : Fair ready)
    (deadline rounds : Nat) :
    (driveFor ready deadline rounds link).Alike (driveFor ready deadline rounds other) := by
  induction rounds generalizing link other with
  | zero => exact halike
  | succ rounds ih =>
    have hstep := halike.turn
    rw [Link.driveFor, Link.driveFor]
    generalize link.turn = found at hstep
    generalize other.turn = matching at hstep
    cases hstep with
    | some hnext => exact ih hnext
    | none =>
      simp only [hfair link other halike, halike.nextDue_eq]
      split
      · exact halike
      · split
        · split
          · exact ih (halike.setClock _)
          · exact halike.setClock deadline
        · exact halike.setClock deadline

theorem Alike.drive (halike : link.Alike other) {ready : Link → Bool} (hfair : Fair ready)
    (deadline : Nat) : (link.drive ready deadline).Alike (other.drive ready deadline) := by
  have hwork : link.work = other.work := by rw [work, work, halike.loops_eq]
  rw [Link.drive, Link.drive, hwork]
  exact halike.driveFor hfair _ _

theorem Alike.waitFor (halike : link.Alike other) {ready : Link → Bool} (hfair : Fair ready)
    (milliseconds : Int) : (link.waitFor milliseconds ready).Alike (other.waitFor milliseconds ready) := by
  rw [Link.waitFor, Link.waitFor, Environment.span_congr halike.env.clock, halike.env.clock]
  exact halike.drive hfair _

theorem Alike.sleep (halike : link.Alike other) (milliseconds : Nat) :
    (link.sleep milliseconds).Alike (other.sleep milliseconds) := by
  rw [Link.sleep, Link.sleep, halike.env.clock]
  exact halike.drive (fun _ _ _ => rfl) _

theorem Alike.post (halike : link.Alike other) (task : Task) : (link.post task).Alike (other.post task) := by
  refine ⟨halike.env, halike.limits, halike.phase, ?_, halike.detached, halike.dispatched,
    fun hsome => halike.host ?_, fun hsome => halike.port ?_⟩
  · rw [Link.post, Link.post, halike.live]
  · simpa [Link.post] using hsome
  · simpa [Link.post] using hsome

theorem isStopped_fair : Fair isStopped := fun link other halike => by
  rw [isStopped, isStopped, halike.live]

theorem verdict_fair : Fair fun link => link.verdict.isSome := fun link other halike => by
  simp only [verdict, halike.live]

theorem outcome?_fair (id : Nat) : Fair fun link => (link.outcome? id).isSome :=
  fun link other halike => by simp only [outcome?, halike.live]

theorem Alike.stopLoop (halike : link.Alike other) : link.stopLoop.Alike other.stopLoop := by
  have hasked : Alike { link with live := link.live.map Loop.askToStop }
      { other with live := other.live.map Loop.askToStop } := by
    refine ⟨halike.env, halike.limits, halike.phase, congrArg (Option.map _) halike.live,
      halike.detached, halike.dispatched, fun hsome => halike.host ?_, fun hsome => halike.port ?_⟩
    · simpa using hsome
    · simpa using hsome
  have hwaited := hasked.waitFor isStopped_fair link.limits.join
  unfold Link.stopLoop
  simp only [← halike.limits] at hwaited ⊢
  rw [isStopped_fair _ _ hwaited]
  split
  · exact ⟨hwaited.env, hwaited.limits, hwaited.phase, rfl, hwaited.detached, hwaited.dispatched,
      nofun, nofun⟩
  · have hleft : ∀ now then' : Link, now.Alike then' →
        now.detached ++ now.live.toList = then'.detached ++ then'.live.toList := by
      intro now then' h
      rw [h.detached, h.live]
    refine Alike.log ?_ _ _
    exact ⟨hwaited.env, hwaited.limits, hwaited.phase, rfl, hleft _ _ hwaited, hwaited.dispatched,
      nofun, nofun⟩

theorem Alike.inPhase (halike : link.Alike other) (phase : Phase) :
    Alike { link with phase } { other with phase } :=
  ⟨halike.env, halike.limits, rfl, halike.live, halike.detached, halike.dispatched, halike.host,
    halike.port⟩

theorem Alike.disconnect (halike : link.Alike other) : link.disconnect.Alike other.disconnect := by
  have hsame : other.live.isNone = link.live.isNone := by rw [halike.live]
  unfold Link.disconnect
  rw [hsame]
  split
  · exact halike.inPhase .disconnected
  · exact (halike.log _ _).stopLoop.inPhase .disconnected

def seeking (link : Link) (host : Bytes) (port : UInt16) : Link :=
  { link with live := some (({ host, port } : Loop).post .connect) }

/-- What comes of an attempt to connect that was waited for so long. -/
def concluding (waited : Link) (patience : Int) : Bool × Link :=
  match waited.verdict with
  | none =>
    waited.giveUp <| .error (utf8 "Connection to " ++ waited.endpoint ++ utf8 " timed out after "
      ++ Bytes.decimalInt patience ++ utf8 " ms")
  | some (.ok _) => (true, { waited.log waited.greeting with phase := .connected })
  | some (.error failure) =>
    waited.giveUp <| .error (utf8 "Failed to connect to " ++ waited.endpoint ++ utf8 ": "
      ++ failure.message)

theorem attempt_eq (link : Link) (host : Bytes) (port : UInt16) :
    link.attempt host port =
      ((link.seeking host port).waitFor link.limits.connect (·.verdict.isSome)).concluding
        link.limits.connect := rfl

theorem Alike.opening (halike : link.Alike other) (host : Bytes) (port : UInt16) :
    (link.opening host port).Alike (other.opening host port) :=
  ⟨((Environment.log_alike _ _).trans halike.env.takeStart.2).trans (Environment.log_alike _ _).symm,
    halike.limits, rfl, rfl, halike.detached, halike.dispatched, nofun, nofun⟩

theorem Alike.startTime_eq (halike : link.Alike other) : link.startTime = other.startTime := by
  simp only [startTime, Environment.timeTo, Environment.instant, halike.env.clock, halike.limits]

theorem Alike.missStart (halike : link.Alike other) (delay : Nat) :
    (link.missStart delay).Alike (other.missStart delay) := by
  have hmissed : link.missed.Alike other.missed := by
    unfold missed
    rw [← halike.startTime_eq]
    exact (halike.sleep _).log _ _
  unfold Link.missStart
  simp only [← halike.startTime_eq, ← halike.limits]
  rw [← Environment.span_congr hmissed.env.clock]
  split
  · exact hmissed.sleep _
  · exact (hmissed.sleep _).log _ _

theorem Alike.giveUp (halike : link.Alike other) (reason reason' : Entry) :
    (link.giveUp reason).2.Alike (other.giveUp reason').2 :=
  (halike.log _ _).stopLoop.inPhase .disconnected

theorem Alike.concluding (halike : link.Alike other) (patience : Int) :
    (link.concluding patience).1 = (other.concluding patience).1 ∧
      (link.concluding patience).2.Alike (other.concluding patience).2 := by
  have hverdict : other.verdict = link.verdict := by rw [verdict, verdict, halike.live]
  unfold Link.concluding
  rw [hverdict]
  cases link.verdict with
  | none => exact ⟨rfl, halike.giveUp _ _⟩
  | some verdict =>
    cases verdict with
    | ok _ => exact ⟨rfl, (halike.log _ _).inPhase .connected⟩
    | error failure => exact ⟨rfl, halike.giveUp _ _⟩

theorem Alike.attempt (halike : link.Alike other) (hhost : link.host = other.host)
    (hport : link.port = other.port) (host : Bytes) (port : UInt16) :
    (link.attempt host port).1 = (other.attempt host port).1 ∧
      (link.attempt host port).2.Alike (other.attempt host port).2 := by
  have hseeking : (link.seeking host port).Alike (other.seeking host port) :=
    ⟨halike.env, halike.limits, halike.phase, rfl, halike.detached, halike.dispatched, fun _ => hhost,
      fun _ => hport⟩
  rw [attempt_eq, attempt_eq, ← halike.limits]
  exact (hseeking.waitFor verdict_fair _).concluding _

theorem Alike.attach (halike : link.Alike other) (host : Bytes) (port : UInt16) :
    (link.attach host port).1 = (other.attach host port).1 ∧
      (link.attach host port).2.Alike (other.attach host port).2 := by
  have hopened := halike.opening host port
  have hstart := halike.env.takeStart.1
  unfold Link.attach
  simp only [hstart, hopened.startTime_eq]
  cases other.env.takeStart.1 with
  | refused reason => exact ⟨rfl, (hopened.log _ _).inPhase .disconnected⟩
  | running delay =>
    simp only
    split
    · obtain ⟨_, _, hslept⟩ := @sleep_apart (link.opening host port) rfl delay
      obtain ⟨_, _, hslept'⟩ := @sleep_apart (other.opening host port) rfl delay
      refine (hopened.sleep delay).attempt ?_ ?_ host port
      · rw [hslept, hslept']
        rfl
      · rw [hslept, hslept']
        rfl
    · exact ⟨rfl, (hopened.missStart delay).inPhase .disconnected⟩

theorem Alike.isConnected_eq (halike : link.Alike other) : link.isConnected = other.isConnected := by
  rw [isConnected, isConnected, halike.phase, halike.live]

theorem Alike.connect (halike : link.Alike other) (host : Bytes) (port : UInt16) :
    (link.connect host port).1 = (other.connect host port).1 ∧
      (link.connect host port).2.Alike (other.connect host port).2 := by
  unfold Link.connect
  rw [← halike.isConnected_eq]
  split
  · next hconnected =>
    have hsome : link.live.isSome = true := by
      cases hlive : link.live with
      | none => simp [isConnected, hlive] at hconnected
      | some loop => rfl
    rw [halike.host hsome, halike.port hsome]
    split
    · exact ⟨rfl, halike⟩
    · exact halike.disconnect.attach host port
  · exact halike.attach host port

/-- Answers that are the same, but for the endpoint that is named if there is no connection. -/
def SameAnswer (answer other : Except Failure Json) : Prop :=
  answer = other ∨ ∃ endpoint endpoint', answer = .error (.notConnected endpoint) ∧
    other = .error (.notConnected endpoint')

theorem Alike.awaited (halike : link.Alike other) (timeout : Int) (operation : Operation) :
    (link.awaited timeout operation).Alike (other.awaited timeout operation) := by
  have hnumbered : Alike { link with dispatched := link.dispatched + 1 }
      { other with dispatched := other.dispatched + 1 } :=
    ⟨halike.env, halike.limits, halike.phase, halike.live, halike.detached,
      congrArg (· + 1) halike.dispatched, halike.host, halike.port⟩
  unfold Link.awaited handing
  rw [← halike.dispatched] at hnumbered ⊢
  exact (hnumbered.post _).waitFor (outcome?_fair _) timeout

theorem Alike.call (halike : link.Alike other) (timeout : Int) (operation : Operation) :
    SameAnswer (link.call timeout operation).1 (other.call timeout operation).1 ∧
      (link.call timeout operation).2.Alike (other.call timeout operation).2 := by
  by_cases hconnected : ∃ loop, link.live = some loop ∧ loop.connected = true
  · obtain ⟨loop, hlive, hconnected⟩ := hconnected
    have hawaited := halike.awaited timeout operation
    have houtcome : (link.awaited timeout operation).outcome? (link.dispatched + 1) =
        (other.awaited timeout operation).outcome? (other.dispatched + 1) := by
      rw [outcome?, outcome?, hawaited.live, halike.dispatched]
    rcases call_of_connected hlive hconnected timeout operation with
      ⟨outcome, hfirst, hcall⟩ | ⟨hfirst, entry, hcall⟩ <;>
    rcases call_of_connected (halike.live ▸ hlive) hconnected timeout operation with
      ⟨outcome', hsecond, hcall'⟩ | ⟨hsecond, entry', hcall'⟩ <;>
    rw [hfirst, hsecond] at houtcome <;> cases houtcome <;> rw [hcall, hcall']
    · have hsome : link.live.isSome = true := by simp [hlive]
      have hendpoint : link.endpoint = other.endpoint := by
        rw [endpoint, endpoint, halike.host hsome, halike.port hsome]
      refine ⟨.inl ?_, hawaited⟩
      simp only [conclude, hendpoint]
    · rw [← halike.dispatched]
      exact ⟨.inl rfl, (hawaited.log _ _).post _⟩
  · have hapart : ∀ now : Link, now.live = link.live →
        now.call timeout operation = (.error (.notConnected now.endpoint), now) := by
      intro now hnow
      rw [Link.call, hnow, if_neg]
      cases hlive : link.live with
      | none => simp
      | some loop => simpa using fun h => hconnected ⟨loop, hlive, h⟩
    rw [hapart link rfl, hapart other halike.live.symm]
    exact ⟨.inr ⟨_, _, rfl, rfl⟩, halike⟩

theorem Alike.invoke (halike : link.Alike other) (method : Bytes) (params : Json) (timeout : Int) :
    SameAnswer (link.invoke method params timeout).1 (other.invoke method params timeout).1 ∧
      (link.invoke method params timeout).2.Alike (other.invoke method params timeout).2 := by
  unfold Link.invoke
  split
  · exact halike.call timeout _
  · exact ⟨.inl rfl, halike⟩

/-- A command that asks for nothing in which links that are alike may differ. -/
def Command.Fair : Command → Prop
  | .wait _ ready => Link.Fair ready
  | .connect _ _ | .disconnect | .invoke _ _ _ | .call _ _ | .lay _ _ _ => True

theorem Alike.perform (halike : link.Alike other) {command : Command} (hfair : command.Fair) :
    (link.perform command).Alike (other.perform command) := by
  cases command with
  | connect host port => exact (halike.connect host port).2
  | disconnect => exact halike.disconnect
  | invoke method params timeout => exact (halike.invoke method params timeout).2
  | call timeout operation => exact (halike.call timeout operation).2
  | wait milliseconds ready => exact halike.waitFor hfair milliseconds
  | lay scripts resolutions starts =>
    exact halike.withEnv ⟨halike.env.clock, rfl, rfl, rfl, halike.env.signals⟩

end Link

end Offload
