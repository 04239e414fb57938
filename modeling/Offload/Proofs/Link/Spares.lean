import Offload.Proofs.Link.InFlight
import Offload.Proofs.Link.Marks

namespace Offload

/-- What is registered for the cancellation once all steps are taken; those behind a failure are not. -/
def Operation.registered (action : Option (List Reaction)) : Operation → Option (List Reaction)
  | [] | .raise _ :: _ => action
  | .onCancel reactions :: rest => registered (some reactions) rest
  | .complete _ :: rest | .sleep _ :: rest | .later _ _ :: rest | .exchange _ _ :: rest =>
    registered action rest

def ofCall (id : Nat) (record : Record) : List Mark :=
  record.filterMap fun mark => if mark.1 = .call id then some mark.2 else none

theorem ofCall_append (id : Nat) (record more : Record) :
    ofCall id (record ++ more) = ofCall id record ++ ofCall id more := List.filterMap_append

namespace Loop

variable {id other : Nat} {env env' : Environment} {loop begun after : Loop}

theorem ofCall_dueMarks (id : Nat) (due : Option (List Reaction)) :
    ofCall id (dueMarks (.call id) due) = due.toList.map .cancelled := by
  cases due <;> simp [dueMarks, ofCall]

theorem ofCall_dueMarks_of_ne {owner : Owner} (hne : owner ≠ .call id)
    (due : Option (List Reaction)) : ofCall id (dueMarks owner due) = [] := by
  cases due <;> simp [dueMarks, ofCall, hne]

def handle? (loop : Loop) (id : Nat) : Option (Handle (List Reaction)) :=
  (loop.call? id).map (·.handle)

/-- What was done has left the call alone, except that it may have given it an outcome. Nothing was posted
but notices. -/
structure Spares (id : Nat) (loop after : Loop) : Prop where
  handle : after.handle? id = loop.handle? id
  queue : ∃ owners : List Owner, after.queue = loop.queue ++ owners.map Task.aborted
  asleep : after.asleep = loop.asleep ∨ ∃ sleep, after.asleep = some sleep ∧ sleep.id ≠ id
  waiting : id ∈ after.waiting → id ∈ loop.waiting

theorem Spares.of_same (hcalls : after.calls = loop.calls) (hqueue : after.queue = loop.queue)
    (hasleep : after.asleep = loop.asleep) : Spares id loop after := by
  refine ⟨?_, ⟨[], ?_⟩, .inl hasleep, fun hmem => ?_⟩
  · rw [handle?, call?, hcalls]
    rfl
  · rw [hqueue, List.map_nil, List.append_nil]
  · rwa [Loop.waiting, pending, hcalls] at hmem

theorem Spares.refl (id : Nat) (loop : Loop) : Spares id loop loop := .of_same rfl rfl rfl

theorem Spares.trans (hfirst : Spares id loop begun) (hsecond : Spares id begun after) :
    Spares id loop after := by
  obtain ⟨first, hqueue⟩ := hfirst.queue
  obtain ⟨second, hqueue'⟩ := hsecond.queue
  refine ⟨hsecond.handle.trans hfirst.handle, ⟨first ++ second, ?_⟩, ?_,
    fun hmem => hfirst.waiting (hsecond.waiting hmem)⟩
  · rw [hqueue', hqueue, List.map_append, List.append_assoc]
  · rcases hsecond.asleep with h | h
    · exact h ▸ hfirst.asleep
    · exact .inr h

theorem waiting_settle {outcome : Except Failure Json}
    (hmem : other ∈ (loop.settle id outcome).waiting) : other ∈ loop.waiting := by
  obtain ⟨call, hpending, rfl⟩ := List.mem_map.mp hmem
  obtain ⟨hcall, hnone⟩ := List.mem_filter.mp hpending
  obtain ⟨before, hbefore, rfl⟩ := List.mem_map.mp hcall
  split at hnone
  · cases hnone
  · next hkept =>
    rw [if_neg hkept]
    exact List.mem_map.mpr ⟨before, List.mem_filter.mpr ⟨hbefore, hnone⟩, rfl⟩

theorem waiting_setHandle {handle : Handle (List Reaction)}
    (hmem : other ∈ (loop.setHandle handle).waiting) : other ∈ loop.waiting := by
  obtain ⟨call, hpending, rfl⟩ := List.mem_map.mp hmem
  obtain ⟨hcall, hnone⟩ := List.mem_filter.mp hpending
  obtain ⟨before, hbefore, rfl⟩ := List.mem_map.mp hcall
  have hwaiting : before.outcome.isNone = true → before.handle.id ∈ loop.waiting :=
    fun h => List.mem_map.mpr ⟨before, List.mem_filter.mpr ⟨hbefore, h⟩, rfl⟩
  split at hnone
  · next hsame =>
    rw [if_pos hsame, ← hsame]
    exact hwaiting hnone
  · next hother =>
    rw [if_neg hother]
    exact hwaiting hnone

theorem spares_settle (id : Nat) (loop : Loop) (other : Nat) (outcome : Except Failure Json) :
    Spares id loop (loop.settle other outcome) := by
  refine ⟨?_, ⟨[], (List.append_nil _).symm⟩, .inl rfl, waiting_settle⟩
  rw [handle?, call?_settle, handle?]
  cases loop.call? id with
  | none => rfl
  | some call =>
    simp only [Option.map_some]
    split <;> rfl

theorem spares_abort (id : Nat) (loop : Loop) (owner : Owner) : Spares id loop (loop.abort owner) := by
  refine ⟨rfl, ⟨(loop.waits.filter (·.owner = owner)).map fun _ => owner, ?_⟩, .inl rfl,
    fun hmem => hmem⟩
  rw [List.map_map]
  rfl

theorem react_spares (id : Nat) (env : Environment) (loop : Loop) (owner : Owner)
    (reactions : List Reaction) : Spares id loop (react env loop owner reactions).2.1 := by
  induction reactions generalizing env loop with
  | nil => exact .refl id loop
  | cons reaction rest ih =>
    cases reaction with
    | signal => exact ih _ loop
    | abort => exact (spares_abort id loop owner).trans (ih env _)
    | complete completion =>
      cases owner with
      | attempt => exact ih env loop
      | call own => exact (spares_settle id loop own _).trans (ih env _)
    | raise failure => exact .refl id loop

theorem Acts.waiting {reported : List Report} (hacts : Acts other env loop reported env' after)
    (hmem : id ∈ after.waiting) : id ∈ loop.waiting := by
  induction hacts with
  | done => exact hmem
  | abort _ ih | await _ _ _ ih | sleep _ _ _ ih | fall _ ih | refuse _ _ ih | begin _ ih
  | tell _ _ _ ih => exact ih hmem
  | settle outcome _ ih => exact waiting_settle (ih hmem)
  | setHandle handle _ _ ih => exact waiting_setHandle (ih hmem)

theorem Acts.spares {reported : List Report} (hacts : Acts other env loop reported env' after)
    (hne : id ≠ other) : Spares id loop after := by
  obtain ⟨count, hqueue⟩ := hacts.queue
  refine ⟨?_, ⟨List.replicate count (.call other), ?_⟩, ?_, hacts.waiting⟩
  · rw [handle?, handle?, hacts.call?_of_ne hne]
  · rw [hqueue, List.map_replicate]
  · rcases hacts.asleep with h | ⟨sleep, hsleep, hid⟩
    · exact .inl h
    · exact .inr ⟨sleep, hsleep, fun heq => hne (heq.symm.trans hid)⟩

theorem spares_deliver (id : Nat) (loop : Loop) (owner : Owner) (delivery : Delivery) :
    Spares id loop (loop.deliver owner delivery) ∧ (loop.deliver owner delivery).alive = loop.alive := by
  cases owner with
  | call own => exact ⟨spares_settle id loop own _, rfl⟩
  | attempt =>
    rw [deliver]
    cases delivery.decode >>= Service.ofReply <;> exact ⟨.of_same rfl rfl rfl, rfl⟩

theorem fire_spares (id : Nat) (env : Environment) (loop : Loop) (owner : Owner) (event : Event) :
    Spares id loop (fire env loop owner event).2 ∧
      (fire env loop owner event).2.alive = loop.alive := by
  cases event with
  | resolved failure => cases failure <;> exact ⟨.of_same rfl rfl rfl, rfl⟩
  | timer completion =>
    cases owner with
    | attempt => exact ⟨.of_same rfl rfl rfl, rfl⟩
    | call own => exact ⟨spares_settle id loop own _, rfl⟩
  | stage stage exchange =>
    rw [fire_stage_eq]
    cases stageEnd? stage exchange.script with
    | some delivery => exact spares_deliver id loop owner delivery
    | none => cases stage <;> exact ⟨.of_same rfl rfl rfl, rfl⟩

theorem react_alive (env : Environment) (loop : Loop) (owner : Owner) (reactions : List Reaction) :
    (react env loop owner reactions).2.1.alive = loop.alive := by
  induction reactions generalizing env loop with
  | nil => rfl
  | cons reaction rest ih =>
    cases reaction with
    | signal => exact ih _ loop
    | abort => exact ih env _
    | complete completion =>
      cases owner with
      | attempt => exact ih env loop
      | call own => exact ih env _
    | raise failure => rfl

theorem onCancel_alive (env : Environment) (loop : Loop) (id : Nat) (reactions : List Reaction) :
    (onCancel env loop id reactions).2.1.alive = loop.alive := by
  unfold onCancel
  cases loop.call? id with
  | none => rfl
  | some call => exact react_alive env _ _ _

theorem perform_alive (env : Environment) (loop : Loop) (id : Nat) (operation : Operation) :
    (perform env loop id operation).2.alive = loop.alive := by
  induction operation generalizing env loop with
  | nil => rfl
  | cons step rest ih =>
    cases step with
    | complete completion => exact ih env _
    | raise failure | sleep milliseconds => rfl
    | onCancel reactions =>
      have hregistered := onCancel_alive env loop id reactions
      rw [perform]
      split
      · next env' after honcancel =>
        rw [honcancel] at hregistered
        exact (ih env' after).trans hregistered
      · next env' after failure honcancel =>
        rw [honcancel] at hregistered
        exact hregistered
    | later milliseconds completion => exact ih env _
    | exchange target body => exact ih _ _

theorem onCancelMarks_of_ne (hne : id ≠ other) (loop : Loop) (reactions : List Reaction) :
    ofCall id (onCancelMarks loop other reactions) = [] := by
  unfold onCancelMarks
  cases loop.call? other with
  | none => rfl
  | some call => exact ofCall_dueMarks_of_ne (fun heq => hne (Owner.call.inj heq).symm) _

theorem cancelMarks_of_ne (hne : id ≠ other) (loop : Loop) : ofCall id (cancelMarks loop other) = [] := by
  unfold cancelMarks
  cases loop.call? other with
  | none => rfl
  | some call => exact ofCall_dueMarks_of_ne (fun heq => hne (Owner.call.inj heq).symm) _

theorem performMarks_of_ne (hne : id ≠ other) (env : Environment) (loop : Loop) (operation : Operation) :
    ofCall id (performMarks env loop other operation) = [] := by
  induction operation generalizing env loop with
  | nil => rfl
  | cons step rest ih =>
    cases step with
    | complete completion => exact ih env _
    | raise failure | sleep milliseconds => rfl
    | onCancel reactions =>
      rw [performMarks, ofCall_append, onCancelMarks_of_ne hne, List.nil_append]
      split
      · exact ih _ _
      · rfl
    | later milliseconds completion => exact ih env _
    | exchange target body => exact ih _ _

/-- A call that is deaf to cancellations: it was cancelled before, or there is no such call. -/
def Deaf (id : Nat) (loop : Loop) : Prop :=
  ∀ handle, loop.handle? id = some handle → handle.cancelled = true

theorem Deaf.of_spares (hdeaf : loop.Deaf id) (hspares : Spares id loop after) : after.Deaf id := by
  intro handle hhandle
  exact hdeaf handle (hspares.handle ▸ hhandle)

theorem cancelCall_spares (hdeaf : loop.Deaf id ∨ id ≠ other) (env : Environment) :
    Spares id loop (cancelCall env loop other).2.1 ∧ ofCall id (cancelMarks loop other) = [] := by
  by_cases hne : id = other
  · subst hne
    have hdeaf : loop.Deaf id := hdeaf.resolve_right fun h => h rfl
    unfold cancelCall cancelMarks
    cases hcall : loop.call? id with
    | none => exact ⟨.refl id loop, rfl⟩
    | some call =>
      have hcancelled : call.handle.cancelled = true := hdeaf _ (by rw [handle?, hcall]; rfl)
      have hnothing : call.handle.cancel = (call.handle, none) := by
        rw [Handle.cancel, if_pos hcancelled]
      simp only [hnothing]
      refine ⟨⟨?_, ⟨[], (List.append_nil _).symm⟩, .inl rfl, waiting_setHandle⟩, rfl⟩
      simp only [handle?, Option.getD_none, react, call?_setHandle, hcall, Option.map_some]
      split <;> rfl
  · exact ⟨(cancelCall_acts env loop other).spares hne, cancelMarks_of_ne hne loop⟩

theorem cancelAttempt_spares (id : Nat) (env : Environment) (loop : Loop) :
    Spares id loop (cancelAttempt env loop).2.1 ∧ ofCall id (cancelAttemptMarks loop) = [] := by
  unfold cancelAttempt cancelAttemptMarks
  cases loop.attempt with
  | none => exact ⟨.refl id loop, rfl⟩
  | some handle =>
    have hset : Spares id loop { loop with attempt := some handle.cancel.1 } := .of_same rfl rfl rfl
    exact ⟨hset.trans (react_spares id env _ .attempt _), ofCall_dueMarks_of_ne (fun h => by cases h) _⟩

theorem cancelAll_spares {calls : List Call}
    (hdeaf : loop.Deaf id ∨ ∀ call ∈ calls, call.handle.id ≠ id) (env : Environment) :
    Spares id loop (cancelAll env loop calls).2.1 ∧ ofCall id (cancelAllMarks env loop calls) = [] := by
  induction calls generalizing env loop with
  | nil => exact cancelAttempt_spares id env loop
  | cons call rest ih =>
    have hfirst : loop.Deaf id ∨ id ≠ call.handle.id :=
      hdeaf.imp_right fun h heq => h call List.mem_cons_self heq.symm
    obtain ⟨hspares, hmarks⟩ := cancelCall_spares hfirst env
    rw [cancelAll, cancelAllMarks, ofCall_append, hmarks, List.nil_append]
    generalize cancelCall env loop call.handle.id = found at hspares
    obtain ⟨env', after, failure⟩ := found
    cases failure with
    | some failure => exact ⟨hspares, rfl⟩
    | none =>
      have hlater : after.Deaf id ∨ ∀ call ∈ rest, call.handle.id ≠ id :=
        hdeaf.imp (·.of_spares hspares) fun h other hmem => h other (List.mem_cons_of_mem _ hmem)
      obtain ⟨hrest, hnone⟩ := ih hlater env'
      exact ⟨hspares.trans hrest, hnone⟩

/-- The shutdown leaves a call alone that is deaf or not in flight. Behind it the loop is asked to stop, or
has ended. -/
theorem shutdown_spares (hdeaf : loop.Deaf id ∨ id ∉ loop.waiting) (env : Environment) :
    ofCall id (taskMarks env loop .shutdown) = [] ∧
      ∃ begun, Spares id loop begun ∧ ((runTask env loop .shutdown).2 = begun.post .stop ∨
        (runTask env loop .shutdown).2 = { begun with alive := false }) := by
  have hhungUp : Spares id loop loop.hangUp := .of_same rfl rfl rfl
  have hspared : loop.hangUp.Deaf id ∨ ∀ call ∈ loop.pending, call.handle.id ≠ id :=
    hdeaf.imp (·.of_spares hhungUp) fun h call hmem heq => h (List.mem_map.mpr ⟨call, hmem, heq⟩)
  obtain ⟨hspares, hmarks⟩ := cancelAll_spares hspared env
  refine ⟨hmarks, ?_⟩
  rw [runTask]
  generalize cancelAll env loop.hangUp loop.pending = found at hspares
  obtain ⟨env', after, failure⟩ := found
  cases failure with
  | none => exact ⟨after, hhungUp.trans hspares, .inl rfl⟩
  | some failure => exact ⟨after, hhungUp.trans hspares, .inr rfl⟩

end Loop

def Task.Concerns (id : Nat) : Task → Prop
  | .start other _ | .cancel other => id = other
  | .connect | .aborted _ | .shutdown | .stop => False

namespace Loop

variable {id other : Nat} {env env' : Environment} {loop begun after : Loop}

theorem runTask_spares {task : Task} (htask : ¬ task.Concerns id) (hgoes : task ≠ .shutdown)
    (env : Environment) (loop : Loop) :
    Spares id loop (runTask env loop task).2 ∧ ofCall id (taskMarks env loop task) = [] := by
  cases task with
  | connect => exact ⟨.of_same rfl rfl rfl, rfl⟩
  | start own operation =>
    have hne : id ≠ own := htask
    have hstarted : Spares id loop { loop with calls := loop.calls ++ [{ handle := { id := own } }] } := by
      refine ⟨?_, ⟨[], (List.append_nil _).symm⟩, .inl rfl, fun hmem => ?_⟩
      · rw [handle?, call?_of_calls_append rfl, if_neg (Ne.symm hne), Option.or_none]
        rfl
      · simp only [Loop.waiting, pending, List.filter_append, List.map_append] at hmem
        rcases List.mem_append.mp hmem with hmem | hmem
        · exact hmem
        · simp only [List.filter_cons, Option.isNone_none, if_true, List.filter_nil, List.map_cons,
            List.map_nil, List.mem_singleton] at hmem
          exact (hne hmem).elim
    refine ⟨hstarted.trans ((perform_acts env _ own operation).spares hne), ?_⟩
    have hnone := performMarks_of_ne hne env
      { loop with calls := loop.calls ++ [{ handle := { id := own } }] } operation
    have hforeign : Owner.call own ≠ .call id := fun heq => hne (Owner.call.inj heq).symm
    simpa only [taskMarks, ofCall, List.filterMap_cons, if_neg hforeign] using hnone
  | cancel own =>
    have hne : id ≠ own := htask
    obtain ⟨hspares, hmarks⟩ := cancelCall_spares (.inr hne) env
    refine ⟨?_, hmarks⟩
    rw [runTask]
    generalize cancelCall env loop own = found at hspares
    obtain ⟨env', after, failure⟩ := found
    cases failure with
    | none => exact hspares
    | some failure => exact hspares.trans (.of_same rfl rfl rfl)
  | aborted owner => exact ⟨(spares_deliver id loop owner .aborted).1, rfl⟩
  | shutdown => exact (hgoes rfl).elim
  | stop => exact ⟨.of_same rfl rfl rfl, rfl⟩

/-- What a turn takes off a loop before it does anything. -/
structure Begins (loop begun : Loop) : Prop where
  calls : begun.calls = loop.calls
  asleep : begun.asleep = none
  queue : begun.queue = loop.queue ∨ loop.asleep = none ∧ ∃ task, loop.queue = task :: begun.queue

theorem turn_spares (hasleep : ∀ sleep, loop.asleep = some sleep → sleep.id ≠ id)
    (htask : ∀ task rest, loop.asleep = none → loop.queue = task :: rest →
      ¬ task.Concerns id ∧ task ≠ .shutdown)
    (hturn : loop.turn env = some (env', after)) :
    ofCall id (loop.marks env) = [] ∧ ∃ begun, loop.Begins begun ∧ Spares id begun after := by
  rcases turn_inv hturn with ⟨sleep, hsleep, hrun, hmarks⟩ | ⟨task, rest, hawake, hqueue, hrun, hmarks⟩ |
      ⟨wait, others, hawake, _, hrun, hmarks⟩
  · have hne : id ≠ sleep.id := (hasleep sleep hsleep).symm
    have hspares := (perform_acts env { loop with asleep := none } sleep.id sleep.rest).spares hne
    rw [hrun] at hspares
    rw [hmarks]
    exact ⟨performMarks_of_ne hne env _ _, { loop with asleep := none }, ⟨rfl, rfl, .inl rfl⟩, hspares⟩
  · obtain ⟨hother, hgoes⟩ := htask task rest hawake hqueue
    obtain ⟨hspares, hnone⟩ := runTask_spares hother hgoes env { loop with queue := rest }
    rw [hrun] at hspares
    rw [hmarks]
    exact ⟨hnone, { loop with queue := rest }, ⟨rfl, hawake, .inr ⟨hawake, task, hqueue⟩⟩, hspares⟩
  · have hspares := (fire_spares id env { loop with waits := others } wait.owner wait.event).1
    rw [hrun] at hspares
    rw [hmarks]
    exact ⟨rfl, { loop with waits := others }, ⟨rfl, hawake, .inl rfl⟩, hspares⟩

theorem turn_alive
    (htask : ∀ task rest, loop.asleep = none → loop.queue = task :: rest → ∃ owner, task = .aborted owner)
    (hturn : loop.turn env = some (env', after)) : after.alive = true := by
  have halive := alive_of_turn hturn
  rcases turn_inv hturn with ⟨sleep, _, hrun, _⟩ | ⟨task, rest, hawake, hqueue, hrun, _⟩ |
      ⟨wait, others, _, _, hrun, _⟩
  · have hstays := perform_alive env { loop with asleep := none } sleep.id sleep.rest
    rw [hrun] at hstays
    exact hstays.trans halive
  · obtain ⟨owner, rfl⟩ := htask task rest hawake hqueue
    cases hrun
    exact (spares_deliver 0 { loop with queue := rest } owner .aborted).2.trans halive
  · have hstays := (fire_spares 0 env { loop with waits := others } wait.owner wait.event).2
    rw [hrun] at hstays
    exact hstays.trans halive

theorem Begins.handle? (hbegins : loop.Begins begun) (id : Nat) : begun.handle? id = loop.handle? id := by
  rw [Loop.handle?, Loop.handle?, call?, call?, hbegins.calls]

theorem Begins.not_asleep (hbegins : loop.Begins begun) :
    ∀ sleep, begun.asleep = some sleep → sleep.id ≠ id := by
  intro sleep hsleep
  rw [hbegins.asleep] at hsleep
  cases hsleep

theorem Begins.waiting (hbegins : loop.Begins begun) : begun.waiting = loop.waiting := by
  rw [Loop.waiting, Loop.waiting, pending, pending, hbegins.calls]

theorem Begins.mem (hbegins : loop.Begins begun) {task : Task} (hmem : task ∈ begun.queue) :
    task ∈ loop.queue := by
  rcases hbegins.queue with h | ⟨_, first, h⟩
  · exact h ▸ hmem
  · exact h ▸ List.mem_cons_of_mem first hmem

def Unconcerned (id : Nat) (loop : Loop) : Prop := ∀ task ∈ loop.queue, ¬ task.Concerns id

theorem Unconcerned.of_spares (hunconcerned : loop.Unconcerned id) (hspares : Spares id loop after) :
    after.Unconcerned id := by
  obtain ⟨owners, hqueue⟩ := hspares.queue
  intro task hmem
  rw [hqueue] at hmem
  rcases List.mem_append.mp hmem with hmem | hmem
  · exact hunconcerned task hmem
  · obtain ⟨owner, _, rfl⟩ := List.mem_map.mp hmem
    exact fun h => h

theorem Unconcerned.post (hunconcerned : loop.Unconcerned id) {task : Task} (htask : ¬ task.Concerns id) :
    (loop.post task).Unconcerned id := by
  intro other hmem
  rcases List.mem_append.mp hmem with hmem | hmem
  · exact hunconcerned other hmem
  · rw [List.mem_singleton.mp hmem]
    exact htask

/-- Nothing on the loop is about the call any more, or yet: it has the given handle, if any, which is deaf to
cancellations. -/
structure Quiet (id : Nat) (handle : Option (Handle (List Reaction))) (loop : Loop) : Prop where
  known : loop.handle? id = handle
  deaf : loop.Deaf id
  unconcerned : loop.Unconcerned id
  asleep : ∀ sleep, loop.asleep = some sleep → sleep.id ≠ id

/-- Nothing on the loop is about the call, and the loop does not know it. -/
def Foreign (id : Nat) (loop : Loop) : Prop := loop.Quiet id none

theorem asleep_of_spares (hasleep : ∀ sleep, loop.asleep = some sleep → sleep.id ≠ id)
    (hspares : Spares id loop after) : ∀ sleep, after.asleep = some sleep → sleep.id ≠ id := by
  intro sleep hsleep
  rcases hspares.asleep with h | ⟨found, hfound, hne⟩
  · exact hasleep sleep (h ▸ hsleep)
  · cases hfound.symm.trans hsleep
    exact hne

variable {handle : Option (Handle (List Reaction))}

theorem Quiet.of_spares (hquiet : loop.Quiet id handle) (hspares : Spares id loop after) :
    after.Quiet id handle :=
  ⟨hspares.handle.trans hquiet.known, hquiet.deaf.of_spares hspares,
    hquiet.unconcerned.of_spares hspares, asleep_of_spares hquiet.asleep hspares⟩

theorem Quiet.begins (hquiet : loop.Quiet id handle) (hbegins : loop.Begins begun) :
    begun.Quiet id handle := by
  refine ⟨(hbegins.handle? id).trans hquiet.known, fun found hfound => ?_,
    fun task hmem => hquiet.unconcerned task (hbegins.mem hmem), hbegins.not_asleep⟩
  exact hquiet.deaf found ((hbegins.handle? id).symm.trans hfound)

theorem Quiet.post (hquiet : loop.Quiet id handle) {task : Task} (htask : ¬ task.Concerns id) :
    (loop.post task).Quiet id handle :=
  ⟨hquiet.known, hquiet.deaf, hquiet.unconcerned.post htask, hquiet.asleep⟩

/-- A turn leaves a call alone that no task concerns and that a shutdown does not reach. The loop may be
asked to stop then, or end. -/
theorem turn_unconcerned (hunconcerned : loop.Unconcerned id)
    (hasleep : ∀ sleep, loop.asleep = some sleep → sleep.id ≠ id)
    (hdeaf : loop.Deaf id ∨ id ∉ loop.waiting) (hturn : loop.turn env = some (env', after)) :
    ofCall id (loop.marks env) = [] ∧ ∃ begun ended, loop.Begins begun ∧ Spares id begun ended ∧
      (after = ended ∨ after = ended.post .stop ∨ after = { ended with alive := false }) := by
  by_cases hshutdown : loop.asleep = none ∧ ∃ rest, loop.queue = .shutdown :: rest
  · obtain ⟨hawake, rest, hqueue⟩ := hshutdown
    have hbegun : Deaf id { loop with queue := rest } ∨ id ∉ Loop.waiting { loop with queue := rest } :=
      hdeaf
    obtain ⟨hmarks, ended, hspares, hafter⟩ := shutdown_spares hbegun env
    rw [turn_of_task (alive_of_turn hturn) hawake hqueue, Option.some.injEq] at hturn
    rw [hturn] at hafter
    rw [marks_of_task hawake hqueue]
    exact ⟨hmarks, { loop with queue := rest }, ended, ⟨rfl, hawake, .inr ⟨hawake, _, hqueue⟩⟩, hspares,
      .inr hafter⟩
  · have htask : ∀ task rest, loop.asleep = none → loop.queue = task :: rest →
        ¬ task.Concerns id ∧ task ≠ .shutdown := by
      intro task rest hawake hqueue
      refine ⟨hunconcerned task (hqueue ▸ List.mem_cons_self), ?_⟩
      rintro rfl
      exact hshutdown ⟨hawake, rest, hqueue⟩
    obtain ⟨hmarks, begun, hbegins, hspares⟩ := turn_spares hasleep htask hturn
    exact ⟨hmarks, begun, after, hbegins, hspares, .inl rfl⟩

theorem Quiet.turn (hquiet : loop.Quiet id handle) (hturn : loop.turn env = some (env', after)) :
    ofCall id (loop.marks env) = [] ∧ after.Quiet id handle := by
  obtain ⟨hmarks, begun, ended, hbegins, hspares, hafter⟩ :=
    turn_unconcerned hquiet.unconcerned hquiet.asleep (.inl hquiet.deaf) hturn
  have hended := (hquiet.begins hbegins).of_spares hspares
  refine ⟨hmarks, ?_⟩
  rcases hafter with rfl | rfl | rfl
  · exact hended
  · exact hended.post fun h => h
  · exact ⟨hended.known, hended.deaf, hended.unconcerned, hended.asleep⟩

/-- The steps that a call has yet to take. -/
def left (loop : Loop) (id : Nat) : Operation :=
  match loop.asleep with
  | some sleep => if sleep.id = id then sleep.rest else []
  | none => []

theorem left_of_awake (hawake : loop.asleep = none) (id : Nat) : loop.left id = [] := by
  rw [left, hawake]

theorem left_of_other (hasleep : ∀ sleep, loop.asleep = some sleep → sleep.id ≠ id) :
    loop.left id = [] := by
  unfold left
  cases hsleep : loop.asleep with
  | none => rfl
  | some sleep => exact if_neg (hasleep sleep hsleep)

theorem handle?_settle (loop : Loop) (other : Nat) (outcome : Except Failure Json) (id : Nat) :
    (loop.settle other outcome).handle? id = loop.handle? id := (spares_settle id loop other outcome).handle

/-- While a call is not cancelled, its steps register what is to be done then. They do nothing of that, and
post nothing. -/
theorem perform_own {handle : Handle (List Reaction)} (hknown : loop.handle? id = some handle)
    (hopen : handle.cancelled = false) (hawake : loop.asleep = none) (env : Environment)
    (operation : Operation) :
    ofCall id (performMarks env loop id operation) = [] ∧
      (perform env loop id operation).2.queue = loop.queue ∧
      ∃ action, (perform env loop id operation).2.handle? id = some { handle with action } ∧
        Operation.registered action ((perform env loop id operation).2.left id) =
          operation.registered handle.action := by
  induction operation generalizing env loop handle with
  | nil => exact ⟨rfl, rfl, handle.action, hknown, by rw [perform, left_of_awake hawake]⟩
  | cons step rest ih =>
    cases step with
    | complete completion =>
      exact ih ((handle?_settle loop id _ id).trans hknown) hopen hawake env
    | raise failure =>
      refine ⟨rfl, rfl, handle.action, (handle?_settle loop id _ id).trans hknown, ?_⟩
      rw [perform, left_of_awake (show (loop.settle id _).asleep = none from hawake)]
      rfl
    | sleep milliseconds =>
      refine ⟨rfl, rfl, handle.action, hknown, ?_⟩
      simp only [perform, left, if_true]
      rfl
    | onCancel reactions =>
      obtain ⟨call, hcall, rfl⟩ := Option.map_eq_some_iff.mp hknown
      have hregistered : call.handle.onCancel (some reactions) =
          ({ call.handle with action := some reactions }, none) := by
        exact if_neg (by rw [hopen]; exact Bool.false_ne_true)
      have hstep : onCancel env loop id reactions =
          (env, loop.setHandle { call.handle with action := some reactions }, none) := by
        simp only [onCancel, hcall, hregistered]
        rfl
      have hnone : onCancelMarks loop id reactions = [] := by
        simp only [onCancelMarks, hcall, hregistered]
        rfl
      have hset : (loop.setHandle { call.handle with action := some reactions }).handle? id =
          some { call.handle with action := some reactions } := by
        rw [handle?, call?_setHandle, hcall, Option.map_some, if_pos (call?_id hcall).symm]
        rfl
      obtain ⟨hmarks, hqueue, action, hafter, hleft⟩ := ih hset hopen hawake env
      rw [performMarks, perform, hnone, hstep]
      exact ⟨hmarks, hqueue, action, hafter, hleft⟩
    | later milliseconds completion =>
      have hlater : (loop.await (.call id) (some (env.clock + milliseconds))
          (.timer completion)).handle? id = some handle := hknown
      exact ih hlater hopen hawake env
    | exchange target body =>
      have hbegun : (beginExchange env loop (.call id) target body).2.handle? id = some handle := hknown
      exact ih hbegun hopen hawake _

end Loop

end Offload
