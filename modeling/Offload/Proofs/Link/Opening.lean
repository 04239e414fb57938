import Offload.Proofs.Link.Joined

namespace Offload.Link

variable {link : Link}

section Apart

variable (hlive : link.live = none)

include hlive

theorem missStart_apart (delay : Nat) :
    ∃ env detached, link.missStart delay = { link with env, detached } := by
  obtain ⟨env, detached, hwaited⟩ := sleep_apart hlive link.startTime
  unfold missStart missed
  simp only [hwaited]
  split
  · obtain ⟨_, _, hrested⟩ := @sleep_apart (({ link with env, detached } : Link).log _) hlive _
    exact ⟨_, _, hrested⟩
  · obtain ⟨last, left, hrested⟩ := @sleep_apart (({ link with env, detached } : Link).log _) hlive _
    exact ⟨last.log link.unstopped, left, by rw [hrested]; rfl⟩

variable (halone : link.detached = [])

include halone

theorem drive_alone (ready : Link → Bool) (deadline : Nat) :
    ∃ clock, link.drive ready deadline = link.setClock clock := by
  have hloops : link.loops = [] := by rw [loops, hlive, halone]; rfl
  have hrest : link.turn = none := turn_eq_none.mpr (by simp [hloops])
  have hnever : link.nextDue = none := by rw [nextDue, hloops]; rfl
  have hwaited := @drive_waited (· = link) ready deadline
    (by
      rintro _ after rfl hturn
      rw [hrest] at hturn
      cases hturn)
    (by
      rintro _ due rfl _ _ hdue
      rw [hnever] at hdue
      cases hdue)
    link rfl
  generalize link.drive ready deadline = result at hwaited
  cases hwaited with
  | inTime _ hsame => exact ⟨link.env.clock, by rw [hsame]; rfl⟩
  | late now hsame => exact ⟨deadline, by rw [hsame]⟩

theorem missStart_alone (delay : Nat) :
    ∃ clock journal, link.missStart delay = { link with env := { link.env with clock, journal } } := by
  obtain ⟨clock, hwaited⟩ := drive_alone hlive halone (fun _ => false) (link.env.clock + link.startTime)
  unfold missStart missed sleep
  simp only [hwaited]
  split
  · obtain ⟨later, hrested⟩ := @drive_alone ((link.setClock clock).log _) hlive halone
      (fun _ => false) _
    exact ⟨later, _, hrested⟩
  · obtain ⟨later, hrested⟩ := @drive_alone ((link.setClock clock).log _) hlive halone
      (fun _ => false) _
    exact ⟨later, _, by rw [hrested]; rfl⟩

end Apart

/-- The link once its loop runs, from which it makes the attempt to connect. -/
def launched (link : Link) (host : Bytes) (port : UInt16) : Link :=
  match link.env.takeStart.1 with
  | .refused _ => link.opening host port
  | .running delay => (link.opening host port).sleep delay

variable (link) (host : Bytes) (port : UInt16)

theorem launched_apart :
    ∃ env detached, link.launched host port =
      { link with env, host, port, phase := .connecting, live := none, detached } := by
  unfold launched
  split
  · exact ⟨_, link.detached, rfl⟩
  · next delay _ =>
    obtain ⟨env, detached, hslept⟩ := @sleep_apart (link.opening host port) rfl delay
    exact ⟨env, detached, by rw [hslept]; rfl⟩

/-- Connecting fails before there is an attempt, or it is an attempt that is made once the loop runs. -/
theorem attach_launched :
    (∃ env detached, link.attach host port = (false,
        { link with env, host, port, phase := .disconnected, live := none, detached })) ∨
      link.attach host port = (link.launched host port).attempt host port := by
  unfold attach launched
  cases link.env.takeStart.1 with
  | refused reason => exact .inl ⟨_, link.detached, rfl⟩
  | running delay =>
    simp only
    split
    · exact .inr rfl
    · obtain ⟨env, detached, hmissed⟩ := @missStart_apart (link.opening host port) rfl delay
      exact .inl ⟨env, detached, by rw [hmissed]; rfl⟩

variable {link} (halone : link.detached = [])

include halone

theorem launched_alone :
    ∃ clock journal starts, link.launched host port =
      { link with
        env := { link.env with clock, journal, starts }
        host, port, phase := .connecting, live := none } := by
  have hstart := link.env.takeStart_eq
  unfold launched
  split
  · exact ⟨link.env.clock, _, link.env.starts.tail, by rw [opening, hstart]; rfl⟩
  · next delay _ =>
    obtain ⟨clock, hopened⟩ := @drive_alone (link.opening host port) rfl halone (fun _ => false)
      ((link.opening host port).env.clock + delay)
    exact ⟨clock, _, link.env.starts.tail, by rw [sleep, hopened, opening, hstart]; rfl⟩

theorem attach_launched_alone :
    (∃ clock journal starts, link.attach host port = (false,
        { link with
          env := { link.env with clock, journal, starts }
          host, port, phase := .disconnected, live := none })) ∨
      link.attach host port = (link.launched host port).attempt host port := by
  have hstart := link.env.takeStart_eq
  unfold attach launched
  cases link.env.takeStart.1 with
  | refused reason =>
    exact .inl ⟨link.env.clock, _, link.env.starts.tail, by rw [opening, hstart]; rfl⟩
  | running delay =>
    simp only
    split
    · exact .inr rfl
    · obtain ⟨clock, journal, hmissed⟩ := @missStart_alone (link.opening host port) rfl halone delay
      exact .inl ⟨clock, journal, link.env.starts.tail, by rw [hmissed, opening, hstart]; rfl⟩

end Offload.Link
