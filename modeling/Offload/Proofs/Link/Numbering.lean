import Offload.Proofs.Link.Phases
import Offload.Proofs.Link.Reports

namespace Offload

def Task.started? : Task → Option Nat
  | .start id _ => some id
  | .connect | .cancel _ | .aborted _ | .shutdown | .stop => none

namespace Loop

variable {id other : Nat} {env env' : Environment} {loop begun after : Loop} {reported : List Report}

theorem Acts.queue (hacts : Acts id env loop reported env' after) :
    ∃ count, after.queue = loop.queue ++ List.replicate count (.aborted (.call id)) := by
  induction hacts with
  | done => exact ⟨0, (List.append_nil _).symm⟩
  | settle _ _ ih | setHandle _ _ _ ih | await _ _ _ ih | sleep _ _ _ ih | fall _ ih | refuse _ _ ih
  | begin _ ih | tell _ _ _ ih => exact ih
  | @abort _ loop _ _ _ _ ih =>
    obtain ⟨count, hqueue⟩ := ih
    refine ⟨(loop.waits.filter (·.owner = .call id)).length + count, ?_⟩
    rw [hqueue, Loop.abort, List.map_const', List.append_assoc, List.replicate_append_replicate]

theorem Acts.asleep (hacts : Acts id env loop reported env' after) :
    after.asleep = loop.asleep ∨ ∃ sleep, after.asleep = some sleep ∧ sleep.id = id := by
  induction hacts with
  | done => exact .inl rfl
  | settle _ _ ih | setHandle _ _ _ ih | abort _ ih | await _ _ _ ih | fall _ ih | refuse _ _ ih
  | begin _ ih | tell _ _ _ ih => exact ih
  | sleep wakes steps _ ih =>
    rcases ih with h | h
    · exact .inr ⟨_, h, rfl⟩
    · exact .inr h

theorem Acts.call?_of_ne (hacts : Acts id env loop reported env' after) (hne : other ≠ id) :
    after.call? other = loop.call? other := by
  induction hacts with
  | done => rfl
  | abort _ ih | await _ _ _ ih | sleep _ _ _ ih | fall _ ih | refuse _ _ ih | begin _ ih
  | tell _ _ _ ih => exact ih
  | settle outcome _ ih =>
    rw [ih, call?_settle]
    simp [hne]
  | setHandle handle hid _ ih =>
    rw [ih, call?_setHandle]
    simp [hid, hne]

def waitsOf (loop : Loop) (id : Nat) : List Wait := loop.waits.filter (·.owner = .call id)

theorem waitsOf_eq_nil_iff : loop.waitsOf id = [] ↔ ∀ wait ∈ loop.waits, wait.owner ≠ .call id := by
  simp [waitsOf, List.filter_eq_nil_iff]

theorem Acts.waitsOf_of_ne (hacts : Acts id env loop reported env' after) (hne : other ≠ id) :
    after.waitsOf other = loop.waitsOf other := by
  have hforeign : Owner.call id ≠ .call other := by
    rintro ⟨⟩
    exact hne rfl
  induction hacts with
  | done => rfl
  | settle _ _ ih | setHandle _ _ _ ih | sleep _ _ _ ih | fall _ ih | refuse _ _ ih | begin _ ih
  | tell _ _ _ ih => exact ih
  | await due event _ ih =>
    rw [ih, waitsOf, Loop.await, List.filter_append, List.filter_cons_of_neg (by simpa using hforeign)]
    exact List.append_nil _
  | abort _ ih =>
    rw [ih, waitsOf, Loop.abort, List.filter_filter]
    refine List.filter_congr fun wait _ => ?_
    by_cases howner : wait.owner = .call other
    · simp [howner, hne]
    · simp [howner]

/-- A wait that is taken up is the only one that goes. -/
theorem takeDue_split {clock : Nat} {waits others : List Wait} {taken : Wait}
    (htake : takeDue clock waits = some (taken, others)) :
    ∃ front back, waits = front ++ taken :: back ∧ others = front ++ back ∧
      ∃ due, taken.due = some due ∧ due ≤ clock := by
  have hat : ∀ due waits others, takeAt due waits = some (taken, others) →
      ∃ front back, waits = front ++ taken :: back ∧ others = front ++ back ∧
        taken.due = some due := by
    intro due waits
    induction waits with
    | nil => exact fun _ hnone => by cases hnone
    | cons first rest ih =>
      intro others hfound
      rw [takeAt] at hfound
      split at hfound
      · next hdue =>
        cases hfound
        exact ⟨[], rest, rfl, rfl, hdue⟩
      · obtain ⟨⟨found, left⟩, hrest, heq⟩ := Option.map_eq_some_iff.mp hfound
        cases heq
        obtain ⟨front, back, rfl, rfl, hdue⟩ := ih left hrest
        exact ⟨first :: front, back, rfl, rfl, hdue⟩
  unfold takeDue at htake
  split at htake
  · next due _ =>
    split at htake
    · next hle =>
      obtain ⟨front, back, hwaits, hothers, hdue⟩ := hat due waits others htake
      exact ⟨front, back, hwaits, hothers, due, hdue, hle⟩
    · cases htake
  · cases htake

theorem Takes.asleep (htakes : Takes env loop id begun) : begun.asleep = none := by
  cases htakes <;> first | rfl | assumption

theorem Takes.queue (htakes : Takes env loop id begun) :
    begun.queue = loop.queue ∨
      ∃ task, loop.queue = task :: begun.queue ∧ task.call? = some id ∧ loop.asleep = none := by
  cases htakes with
  | wake | event => exact .inl rfl
  | start operation rest hawake hqueue => exact .inr ⟨_, hqueue, rfl, hawake⟩
  | task task rest hawake hqueue htask =>
    refine .inr ⟨task, hqueue, ?_, hawake⟩
    rcases htask with rfl | rfl <;> rfl

theorem Takes.call?_of_ne (htakes : Takes env loop id begun) (hne : other ≠ id) :
    begun.call? other = loop.call? other := by
  cases htakes with
  | wake | task | event => rfl
  | start operation rest _ hqueue =>
    rw [call?_of_calls_append rfl, if_neg (Ne.symm hne), Option.or_none]
    rfl

theorem Takes.waitsOf_of_ne (htakes : Takes env loop id begun) (hne : other ≠ id) :
    begun.waitsOf other = loop.waitsOf other := by
  cases htakes with
  | wake | start | task => rfl
  | event wait others _ _ htake howner =>
    obtain ⟨front, back, hwaits, rfl, _⟩ := takeDue_split htake
    have hforeign : ¬ wait.owner = .call other := by
      rw [howner]
      rintro ⟨⟩
      exact hne rfl
    simp [waitsOf, hwaits, hforeign]

/-- The numbers of the calls that were started on a loop, and of those that are to be. -/
def numbers (loop : Loop) : List Nat :=
  loop.calls.map (·.handle.id) ++ loop.queue.filterMap Task.started?

theorem Acts.numbers (hacts : Acts id env loop reported env' after) : after.numbers = loop.numbers := by
  induction hacts with
  | done => rfl
  | await _ _ _ ih | sleep _ _ _ ih | fall _ ih | refuse _ _ ih | begin _ ih | tell _ _ _ ih => exact ih
  | @settle _ loop _ _ _ outcome _ ih =>
    have hsame : (loop.settle id outcome).calls.map (·.handle.id) = loop.calls.map (·.handle.id) := by
      rw [Loop.settle, List.map_map]
      refine List.map_congr_left fun call _ => ?_
      simp only [Function.comp_apply]
      split <;> rfl
    rw [ih, Loop.numbers, Loop.numbers, hsame]
    rfl
  | @setHandle _ loop _ _ _ handle _ _ ih =>
    have hsame : (loop.setHandle handle).calls.map (·.handle.id) = loop.calls.map (·.handle.id) := by
      rw [Loop.setHandle, List.map_map]
      refine List.map_congr_left fun call _ => ?_
      simp only [Function.comp_apply]
      split
      · next h => exact h.symm
      · rfl
    rw [ih, Loop.numbers, Loop.numbers, hsame]
    rfl
  | @abort _ loop _ _ _ _ ih =>
    have hnotices : ((loop.waits.filter (·.owner = .call id)).map fun _ =>
        Task.aborted (.call id)).filterMap Task.started? = [] := by
      refine List.filterMap_eq_nil_iff.mpr fun task hmem => ?_
      obtain ⟨_, _, rfl⟩ := List.mem_map.mp hmem
      rfl
    rw [ih, Loop.numbers, Loop.numbers, Loop.abort, List.filterMap_append, hnotices, List.append_nil]

theorem Takes.numbers (htakes : Takes env loop id begun) : begun.numbers = loop.numbers := by
  cases htakes with
  | wake | event => rfl
  | start operation rest _ hqueue =>
    rw [Loop.numbers, Loop.numbers, hqueue, List.map_append, List.append_assoc]
    rfl
  | task task rest _ hqueue htask =>
    rw [Loop.numbers, Loop.numbers, hqueue, List.filterMap_cons]
    rcases htask with rfl | rfl <;> rfl

theorem numbers_post (loop : Loop) (task : Task) :
    (loop.post task).numbers = loop.numbers ++ task.started?.toList := by
  rw [Loop.numbers, Loop.numbers, Loop.post, List.filterMap_append, ← List.append_assoc]
  cases task <;> rfl

/-- But for its queue nothing on the loop is of the call. -/
structure Untouched (id : Nat) (loop : Loop) : Prop where
  call : loop.call? id = none
  waits : loop.waitsOf id = []
  asleep : ∀ sleep, loop.asleep = some sleep → sleep.id ≠ id

theorem Takes.untouched (htakes : Takes env loop id begun) (hne : other ≠ id)
    (huntouched : loop.Untouched other) : begun.Untouched other := by
  refine ⟨(htakes.call?_of_ne hne).trans huntouched.call,
    (htakes.waitsOf_of_ne hne).trans huntouched.waits, fun sleep hsleep => ?_⟩
  rw [htakes.asleep] at hsleep
  cases hsleep

theorem Acts.untouched (hacts : Acts id env loop reported env' after) (hne : other ≠ id)
    (huntouched : loop.Untouched other) : after.Untouched other := by
  refine ⟨(hacts.call?_of_ne hne).trans huntouched.call,
    (hacts.waitsOf_of_ne hne).trans huntouched.waits, fun sleep hsleep => ?_⟩
  rcases hacts.asleep with h | ⟨own, hown, hid⟩
  · exact huntouched.asleep sleep (h ▸ hsleep)
  · cases hown.symm.trans hsleep
    rw [hid]
    exact Ne.symm hne

theorem Untouched.task_of_takes (huntouched : loop.Untouched id) (htakes : Takes env loop id begun) :
    ∃ task, loop.queue = task :: begun.queue ∧ task.call? = some id ∧ loop.asleep = none := by
  cases htakes with
  | wake sleep hasleep hid => exact (huntouched.asleep sleep hasleep hid).elim
  | event wait others _ _ htake howner =>
    exact (waitsOf_eq_nil_iff.mp huntouched.waits wait (mem_of_takeDue htake).1 howner).elim
  | start operation rest hawake hqueue => exact ⟨_, hqueue, rfl, hawake⟩
  | task task rest hawake hqueue htask =>
    refine ⟨task, hqueue, ?_, hawake⟩
    rcases htask with rfl | rfl <;> rfl

/-- Nothing on the loop is of the call. -/
structure Silent (id : Nat) (loop : Loop) : Prop extends Untouched id loop where
  queue : ∀ task ∈ loop.queue, task.call? ≠ some id

theorem Silent.not_mem_numbers (hsilent : loop.Silent id) : id ∉ loop.numbers := by
  intro hmem
  rcases List.mem_append.mp hmem with hmem | hmem
  · obtain ⟨call, hcall, rfl⟩ := List.mem_map.mp hmem
    exact List.find?_eq_none.mp hsilent.call call hcall (by simp)
  · obtain ⟨task, htask, hstarted⟩ := List.mem_filterMap.mp hmem
    refine hsilent.queue task htask ?_
    cases task with
    | start _ _ => exact hstarted
    | connect | cancel _ | aborted _ | shutdown | stop => cases hstarted

theorem Silent.turn {service : Service} (hsilent : loop.Silent other) (hjoined : loop.Joined service)
    (hturn : loop.turn env = some (env', after)) : after.Silent other := by
  obtain ⟨id, begun, htakes, hacts, _⟩ := hjoined.turn_acts hturn
  obtain ⟨count, hqueue⟩ := hacts.queue
  have hne : other ≠ id := by
    rintro rfl
    obtain ⟨task, hqueue, hcall, _⟩ := hsilent.task_of_takes htakes
    exact hsilent.queue task (hqueue ▸ List.mem_cons_self) hcall
  refine ⟨hacts.untouched hne (htakes.untouched hne hsilent.toUntouched), fun task hmem => ?_⟩
  rw [hqueue] at hmem
  rcases List.mem_append.mp hmem with hmem | hmem
  · apply hsilent.queue task
    rcases htakes.queue with h | ⟨_, h, _⟩
    · exact h ▸ hmem
    · exact h ▸ List.mem_cons_of_mem _ hmem
  · rw [List.eq_of_mem_replicate hmem]
    simpa [Task.call?] using Ne.symm hne

/-- The call waits for its turn, behind tasks of other calls. -/
structure Posted (id : Nat) (operation : Operation) (front back : List Task) (loop : Loop) : Prop
    extends Untouched id loop where
  queue : loop.queue = front ++ .start id operation :: back
  before : ∀ task ∈ front, task.call? ≠ some id

/-- A notice that something of another call than the given one was aborted. -/
def Notice (id : Nat) (task : Task) : Prop := ∃ other, task = .aborted (.call other) ∧ other ≠ id

/-- The next turn is that of the posted call, or the call goes on waiting. -/
theorem Posted.turn {service : Service} {operation : Operation} {front back : List Task}
    (hposted : loop.Posted other operation front back) (hjoined : loop.Joined service)
    (hturn : loop.turn env = some (env', after)) :
    front = [] ∧ loop.alive = true ∧ loop.asleep = none ∨
      loop.reports env other = [] ∧
        ∃ left notices, after.Posted other operation left (back ++ notices) ∧
          ∀ task ∈ notices, Notice other task := by
  obtain ⟨id, begun, htakes, hacts, hquiet⟩ := hjoined.turn_acts hturn
  obtain ⟨count, hqueue⟩ := hacts.queue
  have halive := alive_of_turn hturn
  by_cases hfirst : front = [] ∧ loop.asleep = none
  · exact .inl ⟨hfirst.1, halive, hfirst.2⟩
  right
  have hfront : ∀ task rest, loop.queue = task :: rest → loop.asleep = none →
      ∃ left, front = task :: left ∧ rest = left ++ .start other operation :: back := by
    intro task rest htask hawake
    rw [hposted.queue] at htask
    cases front with
    | nil => exact (hfirst ⟨rfl, hawake⟩).elim
    | cons first left =>
      obtain ⟨rfl, rfl⟩ := List.cons.inj htask
      exact ⟨left, rfl, rfl⟩
  have hne : other ≠ id := by
    rintro rfl
    obtain ⟨task, htask, hcall, hawake⟩ := hposted.task_of_takes htakes
    obtain ⟨left, rfl, _⟩ := hfront task _ htask hawake
    exact hposted.before task List.mem_cons_self hcall
  refine ⟨hquiet other hne, ?_⟩
  have hleft : ∃ left, begun.queue = left ++ .start other operation :: back ∧
      ∀ task ∈ left, task.call? ≠ some other := by
    rcases htakes.queue with h | ⟨task, htask, _, hawake⟩
    · exact ⟨front, h.trans hposted.queue, hposted.before⟩
    · obtain ⟨left, rfl, hrest⟩ := hfront task _ htask hawake
      exact ⟨left, hrest, fun task hmem => hposted.before task (List.mem_cons_of_mem _ hmem)⟩
  obtain ⟨left, hbegun, hbefore⟩ := hleft
  refine ⟨left, List.replicate count (.aborted (.call id)),
    ⟨hacts.untouched hne (htakes.untouched hne hposted.toUntouched), ?_, hbefore⟩, fun task hmem => ?_⟩
  · rw [hqueue, hbegun, List.append_assoc, List.cons_append]
  · exact ⟨id, List.eq_of_mem_replicate hmem, Ne.symm hne⟩

theorem Greeting.silent {host : Bytes} (hgreeting : loop.Greeting host)
    (hverdict : loop.verdict = some (.ok ())) (id : Nat) : loop.Silent id := by
  have ⟨_, hawake, hcalls, _⟩ := hgreeting.unused
  cases hgreeting with
  | posted _ _ _ _ hother | resolving _ _ _ _ _ _ hother | underway _ _ _ _ _ _ _ _ hother
  | refused _ _ _ _ _ hother =>
    rw [hother] at hverdict
    cases hverdict
  | welcomed _ hqueue hwaits =>
    refine ⟨⟨?_, ?_, ?_⟩, ?_⟩
    · rw [call?, hcalls]
      rfl
    · rw [waitsOf, hwaits]
      rfl
    · simp [hawake]
    · simp [hqueue]

theorem Silent.post (hsilent : loop.Silent id) {task : Task} (htask : task.call? ≠ some id) :
    (loop.post task).Silent id := by
  refine ⟨⟨hsilent.call, hsilent.waits, hsilent.asleep⟩, fun other hmem => ?_⟩
  rcases List.mem_append.mp hmem with hmem | hmem
  · exact hsilent.queue other hmem
  · rw [List.mem_singleton.mp hmem]
    exact htask

theorem Silent.posted (hsilent : loop.Silent id) (operation : Operation) :
    (loop.post (.start id operation)).Posted id operation loop.queue [] :=
  ⟨⟨hsilent.call, hsilent.waits, hsilent.asleep⟩, rfl, hsilent.queue⟩

/-- A connected loop knows no call beyond the last one, and each of them once. -/
structure Counted (last : Nat) (loop : Loop) : Prop where
  joined : ∃ service, loop.Joined service
  fresh : ∀ id, last < id → loop.Silent id
  distinct : loop.numbers.Nodup

variable {last : Nat}

theorem Counted.turn (hcounted : loop.Counted last) (hturn : loop.turn env = some (env', after)) :
    after.Counted last := by
  obtain ⟨service, hjoined⟩ := hcounted.joined
  obtain ⟨_, _, htakes, hacts, _⟩ := hjoined.turn_acts hturn
  refine ⟨⟨service, hjoined.turn hturn⟩, fun id hlater => (hcounted.fresh id hlater).turn hjoined hturn,
    ?_⟩
  rw [hacts.numbers, htakes.numbers]
  exact hcounted.distinct

theorem Counted.cancel (hcounted : loop.Counted last) (hle : id ≤ last) :
    (loop.post (.cancel id)).Counted last := by
  obtain ⟨service, hjoined⟩ := hcounted.joined
  refine ⟨⟨service, hjoined.post trivial⟩, fun other hlater => (hcounted.fresh other hlater).post ?_, ?_⟩
  · rintro ⟨⟩
    exact absurd hlater (Nat.not_lt.mpr hle)
  · rw [numbers_post]
    exact (List.append_nil _).symm ▸ hcounted.distinct

theorem Counted.start (hcounted : loop.Counted last) (operation : Operation) :
    (loop.post (.start (last + 1) operation)).Counted (last + 1) := by
  obtain ⟨service, hjoined⟩ := hcounted.joined
  refine ⟨⟨service, hjoined.post trivial⟩,
    fun other hlater => (hcounted.fresh other (Nat.lt_of_succ_lt hlater)).post ?_, ?_⟩
  · rintro ⟨⟩
    exact absurd hlater (Nat.lt_irrefl _)
  · have hnew := (hcounted.fresh (last + 1) (Nat.lt_succ_self last)).not_mem_numbers
    rw [numbers_post]
    refine List.nodup_append.mpr ⟨hcounted.distinct, by simp [Task.started?], fun id hmem next hnext => ?_⟩
    rw [List.mem_singleton.mp hnext]
    rintro rfl
    exact hnew hmem

theorem Greeting.counted {host : Bytes} {service : Service} (hgreeting : loop.Greeting host)
    (hverdict : loop.verdict = some (.ok ())) (hjoined : loop.Joined service) (last : Nat) :
    loop.Counted last := by
  have hsilent := hgreeting.silent hverdict
  refine ⟨⟨service, hjoined⟩, fun id _ => hsilent id, ?_⟩
  rw [List.eq_nil_iff_forall_not_mem.mpr fun id => (hsilent id).not_mem_numbers]
  exact List.nodup_nil

end Loop

namespace Link

variable {link : Link} {account : Account}

theorem waitFor_eq (link : Link) (milliseconds : Int) (ready : Link → Bool) :
    ∃ env live detached, link.waitFor milliseconds ready = { link with env, live, detached } := by
  cases hlive : link.live with
  | none =>
    obtain ⟨env, detached, hwaited⟩ := waitFor_apart hlive milliseconds ready
    exact ⟨env, link.live, detached, hwaited⟩
  | some loop =>
    obtain ⟨env, after, detached, _, hdrive⟩ := @drive_live link (fun _ _ => True) loop
      (fun _ _ _ _ _ _ => trivial) (fun _ _ _ _ _ => trivial) hlive trivial ready
      (link.env.clock + link.env.span milliseconds)
    exact ⟨env, some after, detached, hdrive⟩

/-- The calls on a connected loop are among those that were counted. -/
def Numbered (link : Link) : Prop := ∀ loop, link.live = some loop → loop.Counted link.dispatched

theorem Numbered.of_apart (hlive : link.live = none) : link.Numbered := by
  intro loop hloop
  rw [hlive] at hloop
  cases hloop

theorem Numbered.of_live {loop : Loop} (hlive : link.live = some loop)
    (hcounted : loop.Counted link.dispatched) : link.Numbered := by
  intro other hother
  cases hlive.symm.trans hother
  exact hcounted

theorem Numbered.waitFor_keeps {holds : Loop → Prop} {loop : Loop} (hnumbered : link.Numbered)
    (hlive : link.live = some loop) (hholds : holds loop)
    (hturn : ∀ env loop env' after service, loop.Joined service → holds loop →
      loop.turn env = some (env', after) → holds after) (milliseconds : Int) (ready : Link → Bool) :
    ∃ env after detached, after.Counted link.dispatched ∧ holds after ∧
      link.waitFor milliseconds ready = { link with env, live := some after, detached } := by
  obtain ⟨env, after, detached, ⟨hcounted, hafter⟩, hdrive⟩ := @drive_live link
    (fun _ loop => loop.Counted link.dispatched ∧ holds loop) loop
    (fun _ _ _ _ hnow hstep =>
      have ⟨_, hjoined⟩ := hnow.1.joined
      ⟨hnow.1.turn hstep, hturn _ _ _ _ _ hjoined hnow.2 hstep⟩)
    (fun _ _ _ hnow _ => hnow) hlive ⟨hnumbered loop hlive, hholds⟩ ready
    (link.env.clock + link.env.span milliseconds)
  exact ⟨env, after, detached, hcounted, hafter, hdrive⟩

theorem Numbered.waitFor (hnumbered : link.Numbered) (milliseconds : Int) (ready : Link → Bool) :
    (link.waitFor milliseconds ready).Numbered := by
  cases hlive : link.live with
  | none =>
    obtain ⟨env, detached, hwaited⟩ := waitFor_apart hlive milliseconds ready
    rw [hwaited]
    exact .of_apart hlive
  | some loop =>
    obtain ⟨env, after, detached, hafter, _, hwait⟩ := hnumbered.waitFor_keeps hlive trivial
      (fun _ _ _ _ _ _ _ _ => trivial) milliseconds ready
    rw [hwait]
    exact .of_live rfl hafter

theorem Numbered.started (hnumbered : link.Numbered) {loop : Loop} (hlive : link.live = some loop)
    (operation : Operation) :
    (∃ service, (loop.post (.start (link.dispatched + 1) operation)).Joined service) ∧
      (loop.post (.start (link.dispatched + 1) operation)).Posted (link.dispatched + 1) operation
        loop.queue [] := by
  have hcounted := hnumbered loop hlive
  obtain ⟨service, hjoined⟩ := hcounted.joined
  exact ⟨⟨service, hjoined.post trivial⟩,
    (hcounted.fresh _ (Nat.lt_succ_self _)).posted operation⟩

/-- The link when a call is handed to its loop. -/
def handing (link : Link) (operation : Operation) : Link :=
  { link with dispatched := link.dispatched + 1 }.post (.start (link.dispatched + 1) operation)

/-- The link when the wait for a call is over. -/
def awaited (link : Link) (timeout : Int) (operation : Operation) : Link :=
  (link.handing operation).waitFor timeout fun now => (now.outcome? (link.dispatched + 1)).isSome

theorem awaited_eq (link : Link) (timeout : Int) (operation : Operation) :
    ∃ env live detached, link.awaited timeout operation =
      { link with env, live, detached, dispatched := link.dispatched + 1 } :=
  (link.handing operation).waitFor_eq timeout fun now => (now.outcome? (link.dispatched + 1)).isSome

theorem conclude_awaited (link : Link) (timeout : Int) (operation : Operation)
    (outcome : Except Failure Json) :
    (link.awaited timeout operation).conclude outcome = link.conclude outcome := by
  obtain ⟨env, live, detached, hawaited⟩ := link.awaited_eq timeout operation
  rw [hawaited]
  rfl

/-- A call over a connection is waited for, and cancelled if it has no outcome then. -/
theorem call_of_connected {loop : Loop} (hlive : link.live = some loop) (hconnected : loop.connected = true)
    (timeout : Int) (operation : Operation) :
    (∃ outcome, (link.awaited timeout operation).outcome? (link.dispatched + 1) = some outcome ∧
        link.call timeout operation = (link.conclude outcome, link.awaited timeout operation)) ∨
      (link.awaited timeout operation).outcome? (link.dispatched + 1) = none ∧
        ∃ entry, link.call timeout operation = (.error (.callTimeout timeout),
          ((link.awaited timeout operation).log entry).post (.cancel (link.dispatched + 1))) := by
  have hcall : (link.live.map (·.connected)).getD false = true := by
    rw [hlive]
    exact hconnected
  rw [Link.call, if_pos hcall]
  cases houtcome : (link.awaited timeout operation).outcome? (link.dispatched + 1) with
  | some outcome =>
    refine .inl ⟨outcome, rfl, ?_⟩
    rw [← link.conclude_awaited timeout operation]
    simp only [awaited, handing] at houtcome ⊢
    rw [houtcome]
  | none =>
    refine .inr ⟨rfl, ?_⟩
    simp only [awaited, handing] at houtcome ⊢
    rw [houtcome]
    exact ⟨_, rfl⟩

theorem call_of_apart (hlive : link.live = none) (timeout : Int) (operation : Operation) :
    link.call timeout operation = (.error (.notConnected link.endpoint), link) := by
  rw [Link.call, hlive]
  rfl

theorem Numbered.handing (hnumbered : link.Numbered) (operation : Operation) :
    (link.handing operation).Numbered := by
  intro loop hloop
  obtain ⟨before, hlive, rfl⟩ := Option.map_eq_some_iff.mp hloop
  exact (hnumbered before hlive).start operation

theorem Numbered.call (hnumbered : link.Numbered) (timeout : Int) (operation : Operation) :
    (link.call timeout operation).2.Numbered := by
  have hawaited : (link.awaited timeout operation).Numbered :=
    (hnumbered.handing operation).waitFor timeout _
  cases hlive : link.live with
  | none =>
    rw [call_of_apart hlive]
    exact hnumbered
  | some loop =>
    obtain ⟨service, hjoined⟩ := (hnumbered loop hlive).joined
    rcases call_of_connected hlive hjoined.connected timeout operation with
      ⟨outcome, _, hcall⟩ | ⟨_, entry, hcall⟩
    · rw [hcall]
      exact hawaited
    · rw [hcall]
      intro after hafter
      obtain ⟨before, hbefore, rfl⟩ := Option.map_eq_some_iff.mp hafter
      refine (hawaited before hbefore).cancel ?_
      obtain ⟨env, live, detached, hwait⟩ := link.awaited_eq timeout operation
      exact Nat.le_of_eq (congrArg Link.dispatched hwait).symm

theorem Numbered.invoke (hnumbered : link.Numbered) (method : Bytes) (params : Json) (timeout : Int) :
    (link.invoke method params timeout).2.Numbered := by
  unfold Link.invoke
  split
  · exact hnumbered.call timeout _
  · exact hnumbered

theorem numbered_disconnect (link : Link) : link.disconnect.Numbered := by
  obtain ⟨env, detached, hdisconnect⟩ := link.disconnect_eq
  rw [hdisconnect]
  exact .of_apart rfl

theorem numbered_attach (link : Link) (host : Bytes) (port : UInt16) :
    (link.attach host port).2.Numbered := by
  rcases link.attach_cases host port with ⟨env, detached, hattach⟩ |
      ⟨env, loop, detached, service, hattach, hjoined, _, hgreeting, hverdict⟩
  · rw [hattach]
    exact .of_apart rfl
  · rw [hattach]
    exact .of_live rfl (hgreeting.counted hverdict hjoined _)

theorem Numbered.connect (hnumbered : link.Numbered) (host : Bytes) (port : UInt16) :
    (link.connect host port).2.Numbered := by
  unfold Link.connect
  split
  · split
    · exact hnumbered
    · exact numbered_attach _ host port
  · exact numbered_attach _ host port

theorem Numbered.perform (hnumbered : link.Numbered) (command : Command) :
    (link.perform command).Numbered := by
  cases command with
  | connect host port => exact hnumbered.connect host port
  | disconnect => exact link.numbered_disconnect
  | invoke method params timeout => exact hnumbered.invoke method params timeout
  | call timeout operation => exact hnumbered.call timeout operation
  | wait milliseconds ready => exact hnumbered.waitFor milliseconds ready
  | lay scripts resolutions starts => exact hnumbered

theorem Tracked.numbered (htracked : Tracked link account) : link.Numbered := by
  induction htracked with
  | opened env limits => exact .of_apart rfl
  | step _ command ih => exact ih.perform command

end Link

end Offload
