import Offload.Proofs.Link.Stop

namespace Offload

def Owner.upTo (last : Nat) : Owner → Bool
  | .attempt => false
  | .call id => decide (id ≤ last)

/-- Whether a task only concerns one of the calls up to the given one. -/
def Task.upTo (last : Nat) : Task → Bool
  | .cancel id => decide (id ≤ last)
  | .aborted owner => owner.upTo last
  | .connect | .start _ _ | .shutdown | .stop => false

theorem Owner.upTo_mono {owner : Owner} {last later : Nat} (hle : last ≤ later)
    (howner : owner.upTo last = true) : owner.upTo later = true := by
  cases owner with
  | attempt => cases howner
  | call id =>
    have hid : id ≤ last := by simpa [Owner.upTo] using howner
    simpa [Owner.upTo] using Nat.le_trans hid hle

theorem Task.upTo_mono {task : Task} {last later : Nat} (hle : last ≤ later)
    (htask : task.upTo last = true) : task.upTo later = true := by
  cases task with
  | connect | start _ _ | shutdown | stop => cases htask
  | cancel id =>
    have hid : id ≤ last := by simpa [Task.upTo] using htask
    simpa [Task.upTo] using Nat.le_trans hid hle
  | aborted owner => exact Owner.upTo_mono hle htask

namespace Loop

variable {loop after : Loop} {env env' : Environment} {last : Nat} {posted : List Task}
  {awaited : List Wait}

def Abortable (loop : Loop) (id : Nat) : Prop :=
  ∃ call, loop.call? id = some call ∧ call.handle.cancelled = false ∧
    call.handle.action = some [.abort]

/-- The loop is connected. Beyond the remains of the calls up to the last one, it has just the given
tasks to run and the given events to wait for. -/
structure Serving (last : Nat) (posted : List Task) (awaited : List Wait) (loop : Loop) : Prop where
  alive : loop.alive = true
  awake : loop.asleep = none
  connected : loop.connected = true
  settled : loop.attempt = none
  mild : loop.Mild
  queue : loop.queue.filter (fun task => !task.upTo last) = posted
  waits : loop.waits.filter (fun wait => !wait.owner.upTo last) = awaited
  doomed : ∀ wait ∈ loop.waits, ∀ id, wait.owner = .call id → id ≤ last →
    .cancel id ∈ loop.queue ∧ loop.Abortable id

theorem Serving.yielding (hserving : loop.Serving last posted awaited) : loop.Yielding where
  awake := hserving.awake
  mild := hserving.mild
  attempt := by
    intro handle hhandle
    rw [hserving.settled] at hhandle
    cases hhandle

theorem Serving.waits_of_idle (hserving : loop.Serving last posted awaited) (hidle : loop.queue = []) :
    loop.waits = awaited := by
  have hwaits := hserving.waits
  rw [List.filter_eq_self.mpr] at hwaits
  · exact hwaits
  · intro wait hmem
    cases howner : wait.owner with
    | attempt => rfl
    | call id =>
      by_cases hle : id ≤ last
      · obtain ⟨hposted, _⟩ := hserving.doomed wait hmem id howner hle
        rw [hidle] at hposted
        cases hposted
      · simpa [Owner.upTo] using hle

theorem cancelled_waits (loop : Loop) (id : Nat) :
    (loop.cancelled id).waits = loop.waits ∨
      (loop.cancelled id).waits = loop.waits.filter (·.owner ≠ .call id) := by
  unfold cancelled
  split
  · exact .inl rfl
  · split
    · exact .inr rfl
    · exact .inl rfl

theorem cancelled_waits_of_abortable {id : Nat} (hready : loop.Abortable id) :
    (loop.cancelled id).waits = loop.waits.filter (·.owner ≠ .call id) := by
  obtain ⟨call, hcall, hlasts, haction⟩ := hready
  simp only [cancelled, hcall, Handle.cancel, hlasts, haction]
  rfl

theorem Abortable.cancelled {id other : Nat} (hready : loop.Abortable other) (hne : other ≠ id) :
    (loop.cancelled id).Abortable other := by
  obtain ⟨call, hcall, hcalm⟩ := hready
  refine ⟨call, ?_, hcalm⟩
  rw [cancelled_call?_of_ne loop hne]
  exact hcall

theorem Abortable.settle {other : Nat} (hready : loop.Abortable other) (id : Nat)
    (outcome : Except Failure Json) : (loop.settle id outcome).Abortable other := by
  obtain ⟨call, hcall, hcalm⟩ := hready
  have hafter := call?_settle loop id outcome other
  rw [hcall, Option.map_some] at hafter
  refine ⟨_, hafter, ?_⟩
  split
  · exact hcalm
  · exact hcalm

/-- The cancellation of an earlier call. -/
private theorem Serving.cancelled {id : Nat} {rest : List Task}
    (hserving : loop.Serving last posted awaited) (hqueue : loop.queue = .cancel id :: rest)
    (hle : id ≤ last) :
    (Loop.cancelled { loop with queue := rest } id).Serving last posted awaited := by
  let begun : Loop := { loop with queue := rest }
  obtain ⟨halive, hasleep, hconnected, hattempt, _⟩ := cancelled_frame begun id
  obtain ⟨ended, htasks⟩ := cancelled_queue begun id
  have hmild : begun.Mild := hserving.mild.of_calls rfl
  refine ⟨?_, ?_, ?_, ?_, hmild.cancelled id, ?_, ?_, ?_⟩
  · exact halive.trans hserving.alive
  · exact hasleep.trans hserving.awake
  · exact hconnected.trans hserving.connected
  · exact hattempt.trans hserving.settled
  · have hnotices : (ended.map fun _ => Task.aborted (.call id)).filter
        (fun task => !task.upTo last) = [] := by
      rw [List.filter_eq_nil_iff]
      intro task hmem
      obtain ⟨_, _, rfl⟩ := List.mem_map.mp hmem
      simp [Task.upTo, Owner.upTo, hle]
    have hposted := hserving.queue
    rw [hqueue, List.filter_cons_of_neg (by simp [Task.upTo, hle])] at hposted
    rw [htasks, List.filter_append, hnotices, List.append_nil]
    exact hposted
  · rcases cancelled_waits begun id with hwaits | hwaits
    · rw [hwaits]
      exact hserving.waits
    · rw [hwaits, List.filter_filter, ← hserving.waits]
      refine List.filter_congr fun wait _ => ?_
      cases howner : wait.owner with
      | attempt => simp [Owner.upTo]
      | call other =>
        by_cases hother : other = id
        · simp [Owner.upTo, hother, hle]
        · simp [hother]
  · intro wait hmem other howner hother
    have hbefore : wait ∈ loop.waits := by
      rcases cancelled_waits begun id with hwaits | hwaits
      · rw [hwaits] at hmem
        exact hmem
      · rw [hwaits] at hmem
        exact (List.mem_filter.mp hmem).1
    obtain ⟨hposted, hlasting⟩ := hserving.doomed wait hbefore other howner hother
    have hready : begun.Abortable other := hlasting
    have hne : other ≠ id := by
      rintro rfl
      rw [cancelled_waits_of_abortable hready] at hmem
      simp [howner] at hmem
    refine ⟨?_, hready.cancelled hne⟩
    rw [hqueue, List.mem_cons] at hposted
    rw [htasks]
    rcases hposted with h | h
    · cases h
      exact (hne rfl).elim
    · exact List.mem_append_left _ h

private theorem Serving.noticed {id : Nat} {rest : List Task}
    (hserving : loop.Serving last posted awaited) (hqueue : loop.queue = .aborted (.call id) :: rest)
    (hle : id ≤ last) (outcome : Except Failure Json) :
    (Loop.settle { loop with queue := rest } id outcome).Serving last posted awaited := by
  let begun : Loop := { loop with queue := rest }
  have hmild : begun.Mild := hserving.mild.of_calls rfl
  refine ⟨hserving.alive, hserving.awake, hserving.connected, hserving.settled, hmild.settle id outcome,
    ?_, hserving.waits, ?_⟩
  · have hposted := hserving.queue
    rw [hqueue, List.filter_cons_of_neg (by simp [Task.upTo, Owner.upTo, hle])] at hposted
    exact hposted
  · intro wait hmem other howner hother
    obtain ⟨hposted, hlasting⟩ := hserving.doomed wait hmem other howner hother
    have hready : begun.Abortable other := hlasting
    rw [hqueue, List.mem_cons] at hposted
    refine ⟨?_, hready.settle id outcome⟩
    rcases hposted with h | h
    · cases h
    · exact h

/-- What a loop that serves calls does next: it tidies up, or runs the first of the given tasks, or
takes up one of the given events. -/
theorem Serving.turn (hserving : loop.Serving last posted awaited)
    (hturn : loop.turn env = some (env', after)) :
    (env' = env ∧ after.Serving last posted awaited ∧ after.host = loop.host ∧
        ∀ id, last < id → after.call? id = loop.call? id) ∨
      (∃ task tasks rest, posted = task :: tasks ∧
        Serving last tasks awaited { loop with queue := rest } ∧
        runTask env { loop with queue := rest } task = (env', after)) ∨
      ∃ wait others, posted = [] ∧ loop.queue = [] ∧ loop.waits = awaited ∧
        takeDue env.clock awaited = some (wait, others) ∧
        fire env { loop with waits := others } wait.owner wait.event = (env', after) := by
  cases hqueue : loop.queue with
  | nil =>
    rw [turn_of_no_task hserving.alive hserving.awake hqueue] at hturn
    obtain ⟨⟨wait, others⟩, htake, hfire⟩ := Option.map_eq_some_iff.mp hturn
    have hwaits : loop.waits = awaited := hserving.waits_of_idle hqueue
    have hposted : posted = [] := by
      rw [← hserving.queue, hqueue]
      rfl
    rw [hwaits] at htake
    rw [hqueue] at hfire
    exact .inr (.inr ⟨wait, others, hposted, rfl, hwaits, htake, hfire⟩)
  | cons task rest =>
    rw [turn_of_task hserving.alive hserving.awake hqueue, Option.some.injEq] at hturn
    have hposted := hserving.queue
    cases hearlier : task.upTo last with
    | false =>
      rw [hqueue, List.filter_cons_of_pos (by simp [hearlier])] at hposted
      refine .inr (.inl ⟨task, _, rest, hposted.symm, ?_, hturn⟩)
      refine ⟨hserving.alive, hserving.awake, hserving.connected, hserving.settled,
        hserving.mild.of_calls rfl, rfl, hserving.waits, ?_⟩
      intro wait hmem id howner hle
      obtain ⟨hcancel, hready⟩ := hserving.doomed wait hmem id howner hle
      rw [hqueue, List.mem_cons] at hcancel
      refine ⟨?_, hready⟩
      rcases hcancel with h | h
      · rw [← h] at hearlier
        simp [Task.upTo, hle] at hearlier
      · exact h
    | true =>
      refine .inl ?_
      cases task with
      | connect | start _ _ | shutdown | stop => simp [Task.upTo] at hearlier
      | cancel id =>
        have hle : id ≤ last := by simpa [Task.upTo] using hearlier
        have hmild : Mild { loop with queue := rest } := hserving.mild.of_calls rfl
        rw [runTask, cancelCall_of_mild hmild] at hturn
        cases hturn
        obtain ⟨_, _, _, _, hhost⟩ := cancelled_frame { loop with queue := rest } id
        refine ⟨rfl, hserving.cancelled hqueue hle, hhost, fun other hother => ?_⟩
        rw [cancelled_call?_of_ne _ (by omega)]
        rfl
      | aborted owner =>
        cases owner with
        | attempt => simp [Task.upTo, Owner.upTo] at hearlier
        | call id =>
          have hle : id ≤ last := by simpa [Task.upTo, Owner.upTo] using hearlier
          rw [runTask] at hturn
          cases hturn
          refine ⟨rfl, hserving.noticed hqueue hle _, rfl, fun other hother => ?_⟩
          have hother : ¬other = id := by omega
          rw [deliver, call?_settle]
          simp only [hother, false_and, if_false]
          exact Option.map_id'

theorem Serving.rest (hserving : loop.Serving last posted awaited) (hrest : loop.turn env = none) :
    posted = [] ∧ loop.queue = [] ∧ loop.waits = awaited ∧ takeDue env.clock awaited = none ∧
      loop.nextDue = soonest awaited := by
  cases hqueue : loop.queue with
  | nil =>
    have hwaits : loop.waits = awaited := hserving.waits_of_idle hqueue
    rw [turn_of_no_task hserving.alive hserving.awake hqueue, Option.map_eq_none_iff, hwaits] at hrest
    refine ⟨?_, rfl, hwaits, hrest, ?_⟩
    · rw [← hserving.queue, hqueue]
      rfl
    · rw [nextDue, hserving.alive, hserving.awake, hwaits]
      rfl
  | cons task rest =>
    rw [turn_of_task hserving.alive hserving.awake hqueue] at hrest
    cases hrest

theorem Serving.of_calls {calls : List Call} (hserving : loop.Serving last posted awaited)
    (hmild : Mild { loop with calls })
    (hsame : ∀ id ≤ last, call? { loop with calls } id = loop.call? id) :
    Serving last posted awaited { loop with calls } := by
  refine ⟨hserving.alive, hserving.awake, hserving.connected, hserving.settled, hmild, hserving.queue,
    hserving.waits, ?_⟩
  intro wait hmem id howner hle
  obtain ⟨hcancel, call, hcall, hlasting⟩ := hserving.doomed wait hmem id howner hle
  refine ⟨hcancel, call, ?_, hlasting⟩
  rw [hsame id hle]
  exact hcall

theorem Serving.settle (hserving : loop.Serving last posted awaited) {id : Nat} (hlater : last < id)
    (outcome : Except Failure Json) : (loop.settle id outcome).Serving last posted awaited := by
  refine hserving.of_calls (hserving.mild.settle id outcome) fun other hle => ?_
  have hother : ¬other = id := by omega
  have hsame := call?_settle loop id outcome other
  simp only [hother, false_and, if_false] at hsame
  exact hsame.trans Option.map_id'

theorem Serving.await (hserving : loop.Serving last posted awaited) {id : Nat} (hlater : last < id)
    (due : Option Nat) (event : Event) :
    (loop.await (.call id) due event).Serving last posted (awaited ++ [⟨.call id, due, event⟩]) := by
  have hnew : (⟨.call id, due, event⟩ : Wait).owner.upTo last = false := by
    simpa [Owner.upTo] using hlater
  refine ⟨hserving.alive, hserving.awake, hserving.connected, hserving.settled,
    hserving.mild.of_calls rfl, hserving.queue, ?_, ?_⟩
  · rw [Loop.await, List.filter_append, hserving.waits, List.filter_cons_of_pos (by rw [hnew]; rfl)]
    rfl
  · intro wait hmem other howner hle
    rcases List.mem_append.mp hmem with h | h
    · exact hserving.doomed wait h other howner hle
    · rw [List.mem_singleton.mp h] at howner
      cases howner
      omega

theorem Serving.clear (hserving : loop.Serving last posted awaited) :
    Serving last posted [] { loop with waits := [] } :=
  ⟨hserving.alive, hserving.awake, hserving.connected, hserving.settled, hserving.mild.of_calls rfl,
    hserving.queue, rfl, by simp⟩

theorem Serving.post (hserving : loop.Serving last posted awaited) (task : Task)
    (hlater : task.upTo last = false) : (loop.post task).Serving last (posted ++ [task]) awaited := by
  refine ⟨hserving.alive, hserving.awake, hserving.connected, hserving.settled,
    hserving.mild.of_calls rfl, ?_, hserving.waits, ?_⟩
  · rw [Loop.post, List.filter_append, hserving.queue, List.filter_cons_of_pos (by rw [hlater]; rfl)]
    rfl
  · intro wait hmem id howner hle
    obtain ⟨hcancel, hready⟩ := hserving.doomed wait hmem id howner hle
    exact ⟨List.mem_append_left _ hcancel, hready⟩

/-- Once the later calls are over or doomed, they count among the earlier ones. -/
theorem Serving.advance {later : Nat} (hserving : loop.Serving last posted awaited)
    (hle : last ≤ later) (hposted : ∀ task ∈ posted, task.upTo later = true)
    (hawaited : ∀ wait ∈ awaited, ∃ id, wait.owner = .call id ∧ id ≤ later ∧
      .cancel id ∈ loop.queue ∧ loop.Abortable id) : loop.Serving later [] [] := by
  have hwait : ∀ wait ∈ loop.waits, wait.owner.upTo last = true ∨ wait ∈ awaited := by
    intro wait hmem
    cases hearlier : wait.owner.upTo last with
    | true => exact .inl rfl
    | false =>
      right
      rw [← hserving.waits]
      exact List.mem_filter.mpr ⟨hmem, by rw [hearlier]; rfl⟩
  refine ⟨hserving.alive, hserving.awake, hserving.connected, hserving.settled, hserving.mild, ?_, ?_,
    ?_⟩
  · rw [List.filter_eq_nil_iff]
    intro task hmem
    have hdone : task.upTo later = true := by
      cases hearlier : task.upTo last with
      | true => exact Task.upTo_mono hle hearlier
      | false =>
        apply hposted task
        rw [← hserving.queue]
        exact List.mem_filter.mpr ⟨hmem, by rw [hearlier]; rfl⟩
    simp [hdone]
  · rw [List.filter_eq_nil_iff]
    intro wait hmem
    have hdone : wait.owner.upTo later = true := by
      rcases hwait wait hmem with h | h
      · exact Owner.upTo_mono hle h
      · obtain ⟨id, howner, hid, _⟩ := hawaited wait h
        simpa [howner, Owner.upTo] using hid
    simp [hdone]
  · intro wait hmem id howner _
    rcases hwait wait hmem with h | h
    · apply hserving.doomed wait hmem id howner
      simpa [howner, Owner.upTo] using h
    · obtain ⟨other, hother, _, hdoomed⟩ := hawaited wait h
      cases howner.symm.trans hother
      exact hdoomed

theorem soonest_singleton (wait : Wait) : soonest [wait] = wait.due := by
  cases hdue : wait.due <;> simp [soonest, earlier, hdue]

theorem takeDue_singleton {wait taken : Wait} {others : List Wait} {clock : Nat}
    (htake : takeDue clock [wait] = some (taken, others)) :
    taken = wait ∧ others = [] ∧ ∃ due, wait.due = some due ∧ due ≤ clock := by
  rw [takeDue, soonest_singleton] at htake
  cases hdue : wait.due with
  | none =>
    rw [hdue] at htake
    cases htake
  | some due =>
    rw [hdue] at htake
    simp only at htake
    split at htake
    · next hle =>
      rw [takeAt, if_pos hdue] at htake
      cases htake
      exact ⟨rfl, rfl, due, rfl, hle⟩
    · cases htake

end Loop

end Offload
