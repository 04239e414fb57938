import Offload.Proofs.Link.Numbering
import Offload.Proofs.Link.Passage

namespace Offload

theorem Loop.turn_eq_none_congr {loop : Loop} {env other : Environment} (hclock : env.clock = other.clock)
    (hrest : loop.turn env = none) : loop.turn other = none := by
  cases halive : loop.alive with
  | false => exact turn_of_dead halive _
  | true =>
    cases hasleep : loop.asleep with
    | some sleep =>
      rw [turn_of_sleep halive hasleep, hclock] at hrest
      rw [turn_of_sleep halive hasleep]
      split at hrest
      · cases hrest
      · next hdeep => exact if_neg hdeep
    | none =>
      by_cases htasks : loop.queue = []
      · rw [turn_of_no_task halive hasleep htasks, Option.map_eq_none_iff, hclock] at hrest
        rw [turn_of_no_task halive hasleep htasks, hrest]
        rfl
      · obtain ⟨task, rest, htasks⟩ := List.exists_cons_of_ne_nil htasks
        rw [turn_of_task halive hasleep htasks] at hrest
        cases hrest

namespace Link

variable {link : Link} {account : Account}

/-- The loops that were left behind have nothing to do at the present instant. -/
def Quiet (link : Link) : Prop := ∀ loop ∈ link.detached, loop.turn link.env = none

theorem Quiet.of_rest (hrest : link.turn = none) : link.Quiet := fun loop hmem =>
  turn_eq_none.mp hrest loop (List.mem_append_right _ hmem)

theorem Quiet.env (hquiet : link.Quiet) {env : Environment} (hclock : env.clock = link.env.clock) :
    Quiet { link with env } := fun loop hmem =>
  Loop.turn_eq_none_congr hclock.symm (hquiet loop hmem)

theorem quiet_waitFor (link : Link) (milliseconds : Int) (ready : Link → Bool) :
    (link.waitFor milliseconds ready).Quiet := .of_rest (link.drive_rests _ _)

theorem quiet_sleep (link : Link) (milliseconds : Nat) : (link.sleep milliseconds).Quiet :=
  .of_rest (link.drive_rests _ _)

theorem quiet_stopLoop (link : Link) : link.stopLoop.Quiet := by
  let asked : Link := { link with live := link.live.map Loop.askToStop }
  have hrest : (asked.waitFor link.limits.join isStopped).turn = none := asked.drive_rests _ _
  unfold stopLoop
  simp only
  generalize asked.waitFor link.limits.join isStopped = waited at hrest
  split
  · exact fun loop hmem => turn_eq_none.mp hrest loop (List.mem_append_right _ hmem)
  · intro loop hmem
    have hstill : loop.turn waited.env = none := by
      refine turn_eq_none.mp hrest loop ?_
      rcases List.mem_append.mp hmem with hmem | hmem
      · exact List.mem_append_right _ hmem
      · exact List.mem_append_left _ hmem
    exact @Loop.turn_eq_none_congr loop waited.env _ rfl hstill

theorem Quiet.disconnect (hquiet : link.Quiet) : link.disconnect.Quiet := by
  unfold Link.disconnect
  split
  · exact hquiet
  · exact quiet_stopLoop _

theorem quiet_attempt (link : Link) (host : Bytes) (port : UInt16) :
    (link.attempt host port).2.Quiet := by
  let started : Link := { link with live := some (({ host, port } : Loop).post .connect) }
  have hwaited := started.quiet_waitFor link.limits.connect (·.verdict.isSome)
  unfold attempt
  simp only
  split
  · exact quiet_stopLoop _
  · exact hwaited.env rfl
  · exact quiet_stopLoop _

theorem quiet_missStart (link : Link) (delay : Nat) : (link.missStart delay).Quiet := by
  unfold missStart
  simp only
  split
  · exact quiet_sleep _ _
  · exact (quiet_sleep _ _).env rfl

theorem Quiet.opening (hquiet : link.Quiet) (host : Bytes) (port : UInt16) :
    (link.opening host port).Quiet := by
  intro loop hmem
  refine Loop.turn_eq_none_congr ?_ (hquiet loop hmem)
  rw [Link.opening, link.env.takeStart_eq]
  rfl

theorem Quiet.attach (hquiet : link.Quiet) (host : Bytes) (port : UInt16) :
    (link.attach host port).2.Quiet := by
  unfold Link.attach
  split
  · exact (hquiet.opening host port).env rfl
  · simp only
    split
    · exact quiet_attempt _ host port
    · exact quiet_missStart _ _

theorem Quiet.connect (hquiet : link.Quiet) (host : Bytes) (port : UInt16) :
    (link.connect host port).2.Quiet := by
  unfold Link.connect
  split
  · split
    · exact hquiet
    · exact hquiet.disconnect.attach host port
  · exact hquiet.attach host port

theorem Quiet.call (hquiet : link.Quiet) (timeout : Int) (operation : Operation) :
    (link.call timeout operation).2.Quiet := by
  have hwaited := (link.handing operation).quiet_waitFor timeout
    fun now => (now.outcome? (link.dispatched + 1)).isSome
  unfold Link.call
  split
  · simp only
    split
    · exact hwaited
    · exact hwaited.env rfl
  · exact hquiet

theorem Quiet.invoke (hquiet : link.Quiet) (method : Bytes) (params : Json) (timeout : Int) :
    (link.invoke method params timeout).2.Quiet := by
  unfold Link.invoke
  split
  · exact hquiet.call timeout _
  · exact hquiet

theorem Quiet.perform (hquiet : link.Quiet) (command : Command) : (link.perform command).Quiet := by
  cases command with
  | connect host port => exact hquiet.connect host port
  | disconnect => exact hquiet.disconnect
  | invoke method params timeout => exact hquiet.invoke method params timeout
  | call timeout operation => exact hquiet.call timeout operation
  | wait milliseconds ready => exact link.quiet_waitFor milliseconds ready
  | lay scripts resolutions starts => exact hquiet.env rfl

theorem Tracked.quiet (htracked : Tracked link account) : link.Quiet := by
  induction htracked with
  | opened env limits => exact List.forall_mem_nil _
  | step _ command ih => exact ih.perform command

end Link

end Offload
