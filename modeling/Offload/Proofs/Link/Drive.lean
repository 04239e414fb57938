import Offload.Proofs.Link.Work

namespace Offload

section Earlier

variable {α : Type} (due : α → Option Nat)

/-- The instant found is one of those looked at, and none of them is before it. -/
theorem foldl_earlier_eq_some {items : List α} {found : Option Nat} {first : Nat}
    (hfirst : items.foldl (fun found item => Loop.earlier found (due item)) found = some first) :
    (found = some first ∨ ∃ item ∈ items, due item = some first) ∧
      (∀ instant, found = some instant → first ≤ instant) ∧
      ∀ item ∈ items, ∀ instant, due item = some instant → first ≤ instant := by
  induction items generalizing found with
  | nil =>
    simp only [List.foldl_nil] at hfirst
    subst hfirst
    simp
  | cons item rest ih =>
    rw [List.foldl_cons] at hfirst
    obtain ⟨horigin, hbound, hrest⟩ := ih hfirst
    simp only [List.mem_cons, forall_eq_or_imp, exists_eq_or_imp]
    cases hitem : due item with
    | none =>
      have hsame : Loop.earlier found none = found := by cases found <;> rfl
      rw [hitem, hsame] at horigin hbound
      refine ⟨?_, hbound, by simp, hrest⟩
      rcases horigin with h | h
      · exact .inl h
      · exact .inr (.inr h)
    | some other =>
      cases found with
      | none =>
        rw [hitem] at horigin hbound
        refine ⟨?_, by simp, fun instant hinstant => hbound instant hinstant, hrest⟩
        rcases horigin with h | h
        · exact .inr (.inl h)
        · exact .inr (.inr h)
      | some earlierOne =>
        rw [hitem] at horigin hbound
        have hmin : first ≤ min earlierOne other := hbound _ rfl
        refine ⟨?_, ?_, ?_, hrest⟩
        · rcases horigin with h | h
          · have heq : min earlierOne other = first := Option.some.inj h
            by_cases hle : earlierOne ≤ other
            · exact .inl (by rw [← heq, Nat.min_eq_left hle])
            · exact .inr (.inl (by rw [← heq, Nat.min_eq_right (by omega)]))
          · exact .inr (.inr h)
        · intro instant hinstant
          cases hinstant
          omega
        · intro instant hinstant
          cases hinstant
          omega

theorem foldl_earlier_eq_none {items : List α} {found : Option Nat}
    (hnone : items.foldl (fun found item => Loop.earlier found (due item)) found = none) :
    found = none ∧ ∀ item ∈ items, due item = none := by
  induction items generalizing found with
  | nil => exact ⟨hnone, List.forall_mem_nil _⟩
  | cons item rest ih =>
    rw [List.foldl_cons] at hnone
    obtain ⟨hearlier, hrest⟩ := ih hnone
    cases found <;> cases hitem : due item <;> rw [hitem] at hearlier <;> cases hearlier
    exact ⟨rfl, List.forall_mem_cons.mpr ⟨hitem, hrest⟩⟩

theorem foldl_earlier_le {items : List α} {item : α} {instant : Nat} (hmem : item ∈ items)
    (hdue : due item = some instant) :
    ∃ first, items.foldl (fun found item => Loop.earlier found (due item)) none = some first ∧
      first ≤ instant := by
  cases hfirst : items.foldl (fun found item => Loop.earlier found (due item)) none with
  | none =>
    rw [(foldl_earlier_eq_none due hfirst).2 item hmem] at hdue
    cases hdue
  | some first => exact ⟨first, rfl, (foldl_earlier_eq_some due hfirst).2.2 item hmem instant hdue⟩

end Earlier

namespace Loop

theorem takeAt_eq_none {due : Nat} {waits : List Wait} (htake : takeAt due waits = none) :
    ∀ wait ∈ waits, wait.due ≠ some due := by
  induction waits with
  | nil => simp
  | cons first rest ih =>
    simp only [takeAt] at htake
    split at htake
    · cases htake
    · next hfirst =>
      have hrest := ih (Option.map_eq_none_iff.mp htake)
      simpa using ⟨hfirst, hrest⟩

theorem takeDue_isSome {clock due : Nat} {waits : List Wait} (hsoonest : soonest waits = some due)
    (hle : due ≤ clock) : ∃ wait others, takeDue clock waits = some (wait, others) := by
  simp only [takeDue, hsoonest, if_pos hle]
  cases htake : takeAt due waits with
  | some found => exact ⟨found.1, found.2, rfl⟩
  | none =>
    obtain ⟨horigin, _⟩ := foldl_earlier_eq_some Wait.due hsoonest
    rcases horigin with h | ⟨wait, hmem, hdue⟩
    · cases h
    · exact (takeAt_eq_none htake wait hmem hdue).elim

variable {loop : Loop} {env : Environment} {due : Nat}

theorem turn_of_task {task : Task} {rest : List Task} (halive : loop.alive = true)
    (hawake : loop.asleep = none) (hqueue : loop.queue = task :: rest) (env : Environment) :
    loop.turn env = some (runTask env { loop with queue := rest } task) := by
  simp only [turn, halive, hawake, hqueue, if_true]

theorem turn_of_no_task (halive : loop.alive = true) (hawake : loop.asleep = none)
    (hqueue : loop.queue = []) (env : Environment) :
    loop.turn env = (takeDue env.clock loop.waits).map fun found =>
      fire env { loop with waits := found.2 } found.1.owner found.1.event := by
  simp only [turn, halive, hawake, hqueue, if_true]
  cases takeDue env.clock loop.waits <;> rfl

theorem turn_at_nextDue (loop : Loop) (env : Environment) {due : Nat} (hdue : loop.nextDue = some due) :
    ∃ after, loop.turn { env with clock := due } = some after := by
  simp only [nextDue] at hdue
  split at hdue
  · next halive =>
    simp only [turn, halive, if_true]
    cases hasleep : loop.asleep with
    | some sleep =>
      simp only [hasleep] at hdue
      cases hdue
      exact ⟨_, if_pos (Nat.le_refl _)⟩
    | none =>
      simp only [hasleep] at hdue
      cases hqueue : loop.queue with
      | cons task rest => exact ⟨_, rfl⟩
      | nil =>
        obtain ⟨wait, others, htake⟩ := takeDue_isSome hdue (Nat.le_refl due)
        exact ⟨_, by simp only [htake]; rfl⟩
  · cases hdue

end Loop

namespace Link

theorem turnAny_eq_none {env : Environment} {loops : List Loop} :
    turnAny env loops = none ↔ ∀ loop ∈ loops, loop.turn env = none := by
  induction loops with
  | nil => simp [turnAny]
  | cons loop rest ih =>
    simp only [turnAny, List.mem_cons, forall_eq_or_imp]
    cases hturn : loop.turn env with
    | some after => simp
    | none => simp [ih]

theorem turnAny_work_lt {env env' : Environment} {loops after : List Loop}
    (hturn : turnAny env loops = some (env', after)) :
    total Loop.work after < total Loop.work loops := by
  induction loops generalizing after with
  | nil => cases hturn
  | cons loop rest ih =>
    simp only [turnAny] at hturn
    cases hfirst : loop.turn env with
    | some next =>
      simp only [hfirst, Option.some.injEq, Prod.mk.injEq] at hturn
      obtain ⟨_, rfl⟩ := hturn
      have hlt : next.2.work < loop.work := Loop.turn_work_lt hfirst
      simp only [total]
      omega
    | none =>
      simp only [hfirst] at hturn
      obtain ⟨⟨_, left⟩, hfound, heq⟩ := Option.map_eq_some_iff.mp hturn
      simp only [Prod.mk.injEq] at heq
      obtain ⟨rfl, rfl⟩ := heq
      have hlt := ih hfound
      simp only [total]
      omega

variable {link after : Link}

/-- A link is at rest when all of its loops are. -/
theorem turn_eq_none :
    link.turn = none ↔ ∀ loop ∈ link.loops, loop.turn link.env = none := by
  unfold turn loops
  cases hlive : link.live with
  | none => simp [turnAny_eq_none]
  | some loop =>
    cases hturn : loop.turn link.env with
    | some next => simp [hturn]
    | none => simp [hturn, turnAny_eq_none]

theorem turn_work_lt (hturn : link.turn = some after) : after.work < link.work := by
  unfold turn at hturn
  split at hturn
  · next env loop hlive =>
    obtain ⟨before, hbefore, hloop⟩ := Option.bind_eq_some_iff.mp hlive
    have hlt := Loop.turn_work_lt hloop
    cases hturn
    simp only [work, loops, hbefore, Option.toList_some, total_append, total]
    omega
  · obtain ⟨⟨env, detached⟩, hfound, heq⟩ := Option.map_eq_some_iff.mp hturn
    have hlt := turnAny_work_lt hfound
    subst heq
    simp only [work, loops, total_append]
    omega

@[simp] theorem setClock_work (link : Link) (clock : Nat) :
    (link.setClock clock).work = link.work := rfl

theorem turn_at_nextDue {due : Nat} (hdue : link.nextDue = some due) :
    ∃ next, (link.setClock due).turn = some next := by
  obtain ⟨horigin, _⟩ := foldl_earlier_eq_some Loop.nextDue hdue
  rcases horigin with h | ⟨loop, hmem, hloop⟩
  · cases h
  · obtain ⟨after, hafter⟩ := loop.turn_at_nextDue link.env hloop
    cases hturn : (link.setClock due).turn with
    | some next => exact ⟨next, rfl⟩
    | none =>
      have hnone := turn_eq_none.mp hturn loop hmem
      rw [show (link.setClock due).env = { link.env with clock := due } from rfl, hafter] at hnone
      cases hnone

/-- Where a wait has come to, if the invariant held all the way. -/
inductive Waited (holds : Link → Prop) (ready : Link → Bool) (deadline : Nat) : Link → Prop
  | inTime (link : Link) (hholds : holds link) (hrest : link.turn = none) (hready : ready link = true) :
    Waited holds ready deadline link
  | late (link : Link) (hholds : holds link) (hrest : link.turn = none)
    (hready : ready link = false) (hdue : ∀ due, link.nextDue = some due → deadline < due) :
    Waited holds ready deadline (link.setClock deadline)

section Rule

variable {holds : Link → Prop} {ready : Link → Bool} {deadline : Nat}
  (hturn : ∀ link after, holds link → link.turn = some after → holds after)
  (hwake : ∀ link due, holds link → link.turn = none → ready link = false →
    link.nextDue = some due → due ≤ deadline → holds (link.setClock due))

include hturn hwake

/-- The induction is on the rounds. A move of the clock takes a round without using up work, but the
next round takes a turn, so that two rounds for each unit of work are enough. -/
private theorem driveFor_waited (rounds : Nat) (link : Link) (hrounds : 2 * link.work + 2 ≤ rounds)
    (hholds : holds link) : Waited holds ready deadline (driveFor ready deadline rounds link) := by
  induction rounds using Nat.strongRecOn generalizing link with
  | _ rounds ih =>
    obtain ⟨rounds, rfl⟩ : ∃ fewer, rounds = fewer + 2 := ⟨rounds - 2, by omega⟩
    rw [driveFor]
    cases hnext : link.turn with
    | some next =>
      have hless := turn_work_lt hnext
      exact ih (rounds + 1) (by omega) next (by omega) (hturn link next hholds hnext)
    | none =>
      simp only
      cases hready : ready link with
      | true => exact .inTime link hholds hnext hready
      | false =>
        simp only [Bool.false_eq_true, if_false]
        cases hdue : link.nextDue with
        | none => exact .late link hholds hnext hready (by simp [hdue])
        | some due =>
          simp only
          split
          · next hle =>
            obtain ⟨awake, hawake⟩ := turn_at_nextDue hdue
            have hless := turn_work_lt hawake
            rw [setClock_work] at hless
            rw [driveFor, hawake]
            have hwoken := hwake link due hholds hnext hready hdue hle
            exact ih rounds (by omega) awake (by omega) (hturn _ awake hwoken hawake)
          · next hlate =>
            refine .late link hholds hnext hready fun other hother => ?_
            rw [hdue] at hother
            cases hother
            omega

/-- A wait ends as it should, with the invariant intact. -/
theorem drive_waited (link : Link) (hholds : holds link) :
    Waited holds ready deadline (link.drive ready deadline) :=
  driveFor_waited hturn hwake _ link (Nat.le_refl _) hholds

end Rule

def running (link : Link) (env : Environment) (loop : Loop) : Link :=
  { link with env, live := some loop }

theorem running_self {loop : Loop} (hlive : link.live = some loop) :
    link.running link.env loop = link := by
  cases link
  cases hlive
  rfl

theorem turn_running (halone : link.detached = []) (env : Environment) (loop : Loop) :
    (link.running env loop).turn =
      (loop.turn env).map fun next => link.running next.1 next.2 := by
  simp only [turn, running, halone, Option.bind_some, turnAny, Option.map_none]
  cases loop.turn env <;> rfl

theorem nextDue_running (halone : link.detached = []) (env : Environment) (loop : Loop) :
    (link.running env loop).nextDue = loop.nextDue := by
  simp only [nextDue, loops, running, halone, Option.toList_some, List.append_nil, List.foldl_cons,
    List.foldl_nil]
  cases loop.nextDue <;> rfl

section Rule

variable {holds : Environment → Loop → Prop} {ready : Link → Bool} {deadline : Nat}
  (hturn : ∀ env loop env' loop', holds env loop → loop.turn env = some (env', loop') →
    holds env' loop')
  (hwake : ∀ env loop due, holds env loop → loop.turn env = none →
    ready (link.running env loop) = false → loop.nextDue = some due → due ≤ deadline →
    holds { env with clock := due } loop)

include hturn hwake

/-- Waiting on a single loop: the invariant is one of the loop and its surroundings. -/
theorem drive_running {loop : Loop} (hlive : link.live = some loop) (halone : link.detached = [])
    (hholds : holds link.env loop) :
    ∃ env loop, holds env loop ∧ loop.turn env = none ∧
      (ready (link.running env loop) = true ∧
          link.drive ready deadline = link.running env loop ∨
        ready (link.running env loop) = false ∧
          (∀ due, loop.nextDue = some due → deadline < due) ∧
          link.drive ready deadline = link.running { env with clock := deadline } loop) := by
  let kept (now : Link) : Prop := ∃ env loop, now = link.running env loop ∧ holds env loop
  have hstart : kept link := ⟨link.env, loop, (running_self hlive).symm, hholds⟩
  have hkept : ∀ now after, kept now → now.turn = some after → kept after := by
    rintro _ after ⟨env, loop, rfl, hnow⟩ hnext
    rw [turn_running halone] at hnext
    obtain ⟨⟨env', loop'⟩, hloop, rfl⟩ := Option.map_eq_some_iff.mp hnext
    exact ⟨env', loop', rfl, hturn env loop env' loop' hnow hloop⟩
  have hwoken : ∀ now due, kept now → now.turn = none → ready now = false →
      now.nextDue = some due → due ≤ deadline → kept (now.setClock due) := by
    rintro _ due ⟨env, loop, rfl, hnow⟩ hrest hready hdue hle
    rw [turn_running halone, Option.map_eq_none_iff] at hrest
    rw [nextDue_running halone] at hdue
    exact ⟨_, loop, rfl, hwake env loop due hnow hrest hready hdue hle⟩
  generalize hresult : link.drive ready deadline = result
  have hwaited := drive_waited hkept hwoken link hstart
  rw [hresult] at hwaited
  cases hwaited with
  | inTime _ hnow hrest hready =>
    obtain ⟨env, loop, rfl, hloop⟩ := hnow
    rw [turn_running halone, Option.map_eq_none_iff] at hrest
    exact ⟨env, loop, hloop, hrest, .inl ⟨hready, rfl⟩⟩
  | late now hnow hrest hready hdue =>
    obtain ⟨env, loop, rfl, hloop⟩ := hnow
    rw [turn_running halone, Option.map_eq_none_iff] at hrest
    rw [nextDue_running halone] at hdue
    exact ⟨env, loop, hloop, hrest, .inr ⟨hready, hdue, rfl⟩⟩

end Rule

end Link

end Offload
