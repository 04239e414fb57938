import Offload.Proofs.Link.Clock

namespace Offload

namespace Loop

theorem turn_eq_none_before {loop : Loop} {env : Environment} {clock : Nat}
    (hrest : loop.turn env = none) (hearly : ∀ due, loop.nextDue = some due → clock < due) :
    loop.turn { env with clock } = none := by
  cases halive : loop.alive with
  | false => exact turn_of_dead halive _
  | true =>
    cases hasleep : loop.asleep with
    | some sleep =>
      have hdeep := hearly sleep.wakes (by simp only [nextDue, halive, hasleep, if_true])
      rw [turn_of_sleep halive hasleep, if_neg (Nat.not_le.mpr hdeep)]
    | none =>
      by_cases htasks : loop.queue = []
      · rw [turn_of_no_task halive hasleep htasks, Option.map_eq_none_iff, takeDue]
        cases hsoonest : soonest loop.waits with
        | none => rfl
        | some due =>
          have hlater := hearly due (by simp only [nextDue, halive, hasleep, hsoonest, if_true])
          exact if_neg (Nat.not_le.mpr hlater)
      · obtain ⟨task, rest, htasks⟩ := List.exists_cons_of_ne_nil htasks
        rw [turn_of_task halive hasleep htasks] at hrest
        cases hrest

end Loop

namespace Link

variable {link next : Link} {ready : Link → Bool} {deadline : Nat}

/-- Any rounds that suffice lead to the same end. -/
private theorem driveFor_of_enough (rounds more : Nat) (link : Link)
    (hrounds : 2 * link.work + 2 ≤ rounds) (hmore : 2 * link.work + 2 ≤ more) :
    driveFor ready deadline rounds link = driveFor ready deadline more link := by
  induction rounds using Nat.strongRecOn generalizing link more with
  | _ rounds ih =>
    obtain ⟨rounds, rfl⟩ : ∃ fewer, rounds = fewer + 2 := ⟨rounds - 2, by omega⟩
    obtain ⟨more, rfl⟩ : ∃ fewer, more = fewer + 2 := ⟨more - 2, by omega⟩
    rw [driveFor, driveFor]
    cases hturn : link.turn with
    | some next =>
      have hless := turn_work_lt hturn
      exact ih (rounds + 1) (by omega) (more + 1) next (by omega) (by omega)
    | none =>
      simp only
      split
      · rfl
      · split
        · next due hdue =>
          split
          · obtain ⟨awake, hawake⟩ := turn_at_nextDue hdue
            have hless := turn_work_lt hawake
            rw [setClock_work] at hless
            rw [driveFor, driveFor, hawake]
            exact ih rounds (by omega) more awake (by omega) (by omega)
          · rfl
        · rfl

theorem drive_of_turn (hturn : link.turn = some next) :
    link.drive ready deadline = next.drive ready deadline := by
  have hless := turn_work_lt hturn
  rw [drive, driveFor, hturn]
  exact driveFor_of_enough _ _ next (by omega) (Nat.le_refl _)

theorem drive_of_ready (hrest : link.turn = none) (hready : ready link = true) :
    link.drive ready deadline = link := by
  rw [drive, driveFor, hrest]
  exact if_pos hready

theorem drive_of_wake {due : Nat} (hrest : link.turn = none) (hready : ready link = false)
    (hdue : link.nextDue = some due) (hle : due ≤ deadline) :
    link.drive ready deadline = (link.setClock due).drive ready deadline := by
  obtain ⟨awake, hawake⟩ := turn_at_nextDue hdue
  have hless := turn_work_lt hawake
  rw [setClock_work] at hless
  rw [drive_of_turn hawake, drive, driveFor, hrest]
  simp only [hready, hdue, if_pos hle, Bool.false_eq_true, if_false]
  rw [driveFor, hawake]
  exact driveFor_of_enough _ _ awake (by omega) (Nat.le_refl _)

theorem drive_of_late (hrest : link.turn = none) (hready : ready link = false)
    (hlate : ∀ due, link.nextDue = some due → deadline < due) :
    link.drive ready deadline = link.setClock deadline := by
  rw [drive, driveFor, hrest]
  simp only [hready, Bool.false_eq_true, if_false]
  split
  · next due hdue => rw [if_neg (Nat.not_le.mpr (hlate due hdue))]
  · rfl

/-- What has become of a link by itself: its loops have taken turns, and time has passed while they were
at rest. -/
inductive Passes (start : Link) : Link → Prop
  | refl : Passes start start
  | turn {now next : Link} (hpasses : Passes start now) (hturn : now.turn = some next) :
    Passes start next
  | wait {now : Link} {clock : Nat} (hpasses : Passes start now) (hrest : now.turn = none)
    (hforward : now.env.clock ≤ clock) (hearly : ∀ due, now.nextDue = some due → clock ≤ due) :
    Passes start (now.setClock clock)

theorem turn_eq_none_before {clock : Nat} (hrest : link.turn = none)
    (hearly : ∀ due, link.nextDue = some due → clock < due) : (link.setClock clock).turn = none := by
  refine turn_eq_none.mpr fun loop hmem => ?_
  refine Loop.turn_eq_none_before (turn_eq_none.mp hrest loop hmem) fun due hdue => ?_
  obtain ⟨first, hfirst, hle⟩ := foldl_earlier_le Loop.nextDue hmem hdue
  exact Nat.lt_of_lt_of_le (hearly first hfirst) hle

theorem drive_rests (link : Link) (ready : Link → Bool) (deadline : Nat) :
    (link.drive ready deadline).turn = none := by
  have hwaited := @drive_waited (fun _ => True) ready deadline (fun _ _ _ _ => trivial)
    (fun _ _ _ _ _ _ _ => trivial) link trivial
  generalize link.drive ready deadline = waited at hwaited
  cases hwaited with
  | inTime _ _ hrest => exact hrest
  | late now _ hrest _ hdue => exact turn_eq_none_before hrest hdue

/-- Moving the clock of a link at rest, by no more than there is time, makes no difference to where it
will be later. -/
theorem drive_of_wait {clock : Nat} (hrest : link.turn = none)
    (hearly : ∀ due, link.nextDue = some due → clock ≤ due) (hle : clock ≤ deadline) :
    link.drive (fun _ => false) deadline = (link.setClock clock).drive (fun _ => false) deadline := by
  by_cases hdue : link.nextDue = some clock
  · exact drive_of_wake hrest rfl hdue hle
  · have hbefore : ∀ due, link.nextDue = some due → clock < due := fun due hnext =>
      Nat.lt_of_le_of_ne (hearly due hnext) fun hsame => hdue (hsame ▸ hnext)
    have hstill := turn_eq_none_before hrest hbefore
    have hsame : (link.setClock clock).nextDue = link.nextDue := rfl
    cases hnext : link.nextDue with
    | none =>
      rw [drive_of_late hrest rfl (by simp [hnext]), drive_of_late hstill rfl (by simp [hsame, hnext])]
      rfl
    | some due =>
      by_cases hsoon : due ≤ deadline
      · rw [drive_of_wake hrest rfl hnext hsoon, drive_of_wake hstill rfl (hsame.trans hnext) hsoon]
        rfl
      · have hlate : ∀ other, link.nextDue = some other → deadline < other := by
          intro other hother
          cases hnext.symm.trans hother
          exact Nat.lt_of_not_le hsoon
        rw [drive_of_late hrest rfl hlate, drive_of_late hstill rfl (hsame ▸ hlate)]
        rfl

theorem Passes.forward {start now : Link} (hpasses : Passes start now) :
    start.env.clock ≤ now.env.clock := by
  induction hpasses with
  | refl => exact Nat.le_refl _
  | turn _ hturn ih => exact (turn_clock hturn).symm ▸ ih
  | wait _ _ hforward _ ih => exact Nat.le_trans ih hforward

/-- However a link has come to where it is, it would have got there, or will get anywhere later, by
letting the time pass from the start. -/
theorem Passes.drive {start now : Link} (hpasses : Passes start now)
    (hle : now.env.clock ≤ deadline) :
    start.drive (fun _ => false) deadline = now.drive (fun _ => false) deadline := by
  induction hpasses with
  | refl => rfl
  | turn _ hturn ih =>
    rw [ih (turn_clock hturn ▸ hle)]
    exact drive_of_turn hturn
  | wait _ hrest hforward hearly ih =>
    rw [ih (Nat.le_trans hforward hle)]
    exact drive_of_wait hrest hearly hle

theorem Passes.trans {start now later : Link} (hpasses : Passes start now) (hlater : Passes now later) :
    Passes start later := by
  induction hlater with
  | refl => exact hpasses
  | turn _ hturn ih => exact ih.turn hturn
  | wait _ hrest hforward hearly ih => exact ih.wait hrest hforward hearly

theorem Passes.sleep {start now : Link} (hpasses : Passes start now) (hrest : now.turn = none) :
    start.sleep (now.env.clock - start.env.clock) = now := by
  have hforward := hpasses.forward
  have hdeadline : start.env.clock + (now.env.clock - start.env.clock) = now.env.clock := by omega
  rw [Link.sleep, hdeadline, hpasses.drive (Nat.le_refl _)]
  exact drive_of_late hrest rfl fun due hdue => clock_lt_nextDue hrest hdue

end Link

end Offload
