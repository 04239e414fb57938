import Offload.Proofs.Link.Clock
import Offload.Proofs.Link.Numbering

namespace Offload

namespace Loop

variable {id : Nat} {env env' : Environment} {loop begun after : Loop} {reported : List Report}

def Report.completion? : Report → Option (Except Failure Json)
  | .begun _ => none
  | .completed outcome => some outcome

theorem Acts.outcome? (hacts : Acts id env loop reported env' after)
    (hcall : (loop.call? id).isSome = true) :
    (after.call? id).isSome = true ∧
      after.outcome? id = (loop.outcome? id).or (reported.findSome? Report.completion?) := by
  induction hacts with
  | done => exact ⟨hcall, by simp⟩
  | abort _ ih | await _ _ _ ih | sleep _ _ _ ih | fall _ ih | refuse _ _ ih | tell _ _ _ ih
  | begin _ ih => exact ih hcall
  | @settle _ loop _ _ _ outcome _ ih =>
    obtain ⟨call, hfound⟩ := Option.isSome_iff_exists.mp hcall
    have hsettled := call?_settle loop id outcome id
    rw [hfound, Option.map_some] at hsettled
    obtain ⟨hafter, houtcome⟩ := ih (by rw [hsettled]; rfl)
    refine ⟨hafter, houtcome.trans ?_⟩
    simp only [Loop.outcome?, hsettled, hfound, Option.bind_some, List.findSome?_cons,
      Report.completion?]
    cases houtcome : call.outcome <;> simp [houtcome]
  | @setHandle _ loop _ _ _ handle hid _ ih =>
    obtain ⟨call, hfound⟩ := Option.isSome_iff_exists.mp hcall
    have hset := call?_setHandle loop handle id
    rw [hfound, Option.map_some, if_pos hid.symm] at hset
    obtain ⟨hafter, houtcome⟩ := ih (by rw [hset]; rfl)
    refine ⟨hafter, houtcome.trans ?_⟩
    simp only [Loop.outcome?, hset, hfound, Option.bind_some]

theorem Takes.outcome? (htakes : Takes env loop id begun) (hcall : (loop.call? id).isSome = true) :
    (begun.call? id).isSome = true ∧ begun.outcome? id = loop.outcome? id := by
  cases htakes with
  | wake | task | event => exact ⟨hcall, rfl⟩
  | start operation rest _ hqueue =>
    obtain ⟨call, hfound⟩ := Option.isSome_iff_exists.mp hcall
    have hkept : call? { loop with queue := rest, calls := loop.calls ++ [{ handle := { id } }] } id =
        some call := by
      rw [call?_of_calls_append rfl, show loop.calls.find? _ = some call from hfound, Option.some_or]
    exact ⟨by rw [hkept]; rfl, by rw [Loop.outcome?, Loop.outcome?, hkept, hfound]⟩

theorem outcome?_turn_of_started {service : Service} (hcall : (loop.call? id).isSome = true)
    (hjoined : loop.Joined service) (hturn : loop.turn env = some (env', after)) :
    (after.call? id).isSome = true ∧
      after.outcome? id =
        (loop.outcome? id).or ((loop.reports env id).findSome? Report.completion?) := by
  obtain ⟨other, begun, htakes, hacts, hquiet⟩ := hjoined.turn_acts hturn
  by_cases hother : id = other
  · subst hother
    obtain ⟨hbegun, hsame⟩ := htakes.outcome? hcall
    obtain ⟨hafter, houtcome⟩ := hacts.outcome? hbegun
    exact ⟨hafter, hsame ▸ houtcome⟩
  · have hsame := (hacts.call?_of_ne hother).trans (htakes.call?_of_ne hother)
    rw [hquiet id hother, Loop.outcome?, Loop.outcome?, hsame]
    exact ⟨hcall, by simp⟩

theorem outcome?_turn {service : Service} {outcome : Except Failure Json}
    (houtcome : loop.outcome? id = some outcome) (hjoined : loop.Joined service)
    (hturn : loop.turn env = some (env', after)) : after.outcome? id = some outcome := by
  have hcall : (loop.call? id).isSome = true := by
    obtain ⟨call, hcall, _⟩ := Option.bind_eq_some_iff.mp houtcome
    rw [hcall]
    rfl
  rw [(outcome?_turn_of_started hcall hjoined hturn).2, houtcome, Option.some_or]

/-- The call waits for its turn, or it was started. -/
inductive Known (id : Nat) (operation : Operation) (loop : Loop) : Prop
  | posted (front back : List Task) (hposted : loop.Posted id operation front back)
  | started (hcall : (loop.call? id).isSome = true)

/-- In a turn of the loop a call comes to its outcome by what it reports, and by nothing else. -/
theorem Known.turn {operation : Operation} {service : Service} (hknown : loop.Known id operation)
    (hjoined : loop.Joined service) (hturn : loop.turn env = some (env', after)) :
    after.Known id operation ∧
      after.outcome? id =
        (loop.outcome? id).or ((loop.reports env id).findSome? Report.completion?) := by
  cases hknown with
  | posted front back hposted =>
    have hpending : loop.outcome? id = none := by rw [Loop.outcome?, hposted.call]; rfl
    rcases hposted.turn hjoined hturn with ⟨rfl, halive, hawake⟩ |
        ⟨hquiet, left, notices, hafter, _⟩
    · have hqueue : loop.queue = .start id operation :: back := hposted.queue
      let started : Loop := { loop with queue := back, calls := loop.calls ++ [{ handle := { id } }] }
      have hcall : started.call? id = some { handle := { id } } := by
        rw [call?_of_calls_append rfl, show loop.calls.find? _ = none from hposted.call,
          Option.none_or, if_pos rfl]
      have hacts := perform_acts env started id operation
      rw [turn_of_task halive hawake hqueue, Option.some.injEq] at hturn
      rw [show Loop.perform env started id operation = (env', after) from hturn] at hacts
      obtain ⟨hafter, houtcome⟩ := hacts.outcome? (by rw [hcall]; rfl)
      have hreports : loop.reports env id = performReports env started id operation := by
        rw [reports_of_task halive hawake hqueue]
        exact if_pos rfl
      refine ⟨.started hafter, ?_⟩
      rw [houtcome, hreports, hpending, Loop.outcome?, hcall]
      rfl
    · refine ⟨.posted left _ hafter, ?_⟩
      rw [hquiet, hpending, Loop.outcome?, hafter.call]
      rfl
  | started hcall =>
    obtain ⟨hafter, houtcome⟩ := outcome?_turn_of_started hcall hjoined hturn
    exact ⟨.started hafter, houtcome⟩

theorem reports_of_rest (hrest : loop.turn env = none) (id : Nat) : loop.reports env id = [] := by
  cases halive : loop.alive with
  | false => simp only [reports, halive, Bool.false_eq_true, if_false]
  | true =>
    cases hasleep : loop.asleep with
    | some sleep =>
      rw [turn_of_sleep halive hasleep] at hrest
      rw [reports_of_sleep halive hasleep]
      split at hrest
      · cases hrest
      · next hdeep => rw [if_neg fun h => hdeep h.1]
    | none =>
      cases hqueue : loop.queue with
      | cons task rest =>
        rw [turn_of_task halive hasleep hqueue] at hrest
        cases hrest
      | nil =>
        rw [turn_of_no_task halive hasleep hqueue, Option.map_eq_none_iff] at hrest
        simp only [reports, halive, hasleep, hqueue, hrest, if_true]

end Loop

namespace Link

open Loop

/-- What a call reports in the next turn of a link. -/
def reports (link : Link) (id : Nat) : List Report :=
  match link.live with
  | some loop => loop.reports link.env id
  | none => []

theorem reports_of_live {link : Link} {loop : Loop} (hlive : link.live = some loop) (id : Nat) :
    link.reports id = loop.reports link.env id := by
  rw [reports, hlive]

/-- All that a call reports while nothing but time comes from outside, each time with the instant, up to
the deadline. -/
def reportsUntil (id deadline : Nat) (link : Link) : List (Nat × Report) :=
  match _hturn : link.turn with
  | some next =>
    (link.reports id).map (fun report => (link.env.clock, report)) ++ next.reportsUntil id deadline
  | none =>
    match _hdue : link.nextDue with
    | some due => if due ≤ deadline then (link.setClock due).reportsUntil id deadline else []
    | none => []
termination_by (link.work, if link.turn.isSome then 0 else 1)
decreasing_by
  · exact Prod.Lex.left _ _ (turn_work_lt _hturn)
  · obtain ⟨next, hnext⟩ := turn_at_nextDue _hdue
    rw [setClock_work, hnext, _hturn]
    exact Prod.Lex.right _ (by simp)

variable {link next : Link} {id deadline : Nat}

theorem reportsUntil_of_turn (hturn : link.turn = some next) :
    link.reportsUntil id deadline =
      (link.reports id).map (fun report => (link.env.clock, report)) ++
        next.reportsUntil id deadline := by
  rw [reportsUntil]
  split
  · next other hother =>
    cases hturn.symm.trans hother
    rfl
  · next hrest =>
    rw [hturn] at hrest
    cases hrest

theorem reportsUntil_of_wake {due : Nat} (hrest : link.turn = none) (hdue : link.nextDue = some due)
    (hle : due ≤ deadline) :
    link.reportsUntil id deadline = (link.setClock due).reportsUntil id deadline := by
  rw [reportsUntil]
  split
  · next next hturn =>
    rw [hrest] at hturn
    cases hturn
  · split
    · next other hother =>
      cases hdue.symm.trans hother
      rw [if_pos hle]
    · next hnever =>
      rw [hdue] at hnever
      cases hnever

theorem reportsUntil_of_late (hrest : link.turn = none)
    (hlate : ∀ due, link.nextDue = some due → deadline < due) : link.reportsUntil id deadline = [] := by
  rw [reportsUntil]
  split
  · next next hturn =>
    rw [hrest] at hturn
    cases hturn
  · split
    · next due hdue => rw [if_neg (Nat.not_le.mpr (hlate due hdue))]
    · rfl

/-- The first completion that is told of, with its instant. -/
def firstCompletion? (told : List (Nat × Report)) : Option (Nat × Except Failure Json) :=
  told.findSome? fun report => report.2.completion?.map (report.1, ·)

theorem firstCompletion?_append (instant : Nat) (reported : List Report) (told : List (Nat × Report)) :
    firstCompletion? (reported.map (fun report => (instant, report)) ++ told) =
      ((reported.findSome? Report.completion?).map (instant, ·)).or (firstCompletion? told) := by
  rw [firstCompletion?, List.findSome?_append]
  congr 1
  induction reported with
  | nil => rfl
  | cons report rest ih =>
    rw [List.map_cons, List.findSome?_cons, List.findSome?_cons, ih]
    cases report.completion? <;> rfl

theorem outcome?_of_live {loop : Loop} (hlive : link.live = some loop) (id : Nat) :
    link.outcome? id = loop.outcome? id := by
  rw [outcome?, hlive]
  rfl

/-- The call is on its way to its first completion, or it has come to it just now. -/
structure Heading (id : Nat) (operation : Operation) (deadline : Nat)
    (first : Option (Nat × Except Failure Json)) (link : Link) : Prop where
  known : ∃ loop service, link.live = some loop ∧ loop.Joined service ∧ loop.Known id operation
  first : first = ((link.outcome? id).map (link.env.clock, ·)).or
    (firstCompletion? (link.reportsUntil id deadline))

variable {operation : Operation} {first : Option (Nat × Except Failure Json)}

theorem Heading.turn (hheading : link.Heading id operation deadline first)
    (hturn : link.turn = some next) : next.Heading id operation deadline first := by
  obtain ⟨⟨loop, service, hlive, hjoined, hknown⟩, hfirst⟩ := hheading
  have hnow := turn_clock hturn
  have houtcome := outcome?_of_live hlive id
  have hreports := reports_of_live hlive id
  rw [reportsUntil_of_turn hturn, firstCompletion?_append, houtcome, hreports] at hfirst
  rcases turn_cases hlive hturn with ⟨env, after, hstep, rfl⟩ | ⟨hstep, env, detached, rfl⟩
  · obtain ⟨hafter, hcompleted⟩ := hknown.turn hjoined hstep
    refine ⟨⟨after, service, rfl, hjoined.turn hstep, hafter⟩, hfirst.trans ?_⟩
    rw [hnow, outcome?_of_live rfl, hcompleted, Option.map_or, Option.or_assoc]
  · refine ⟨⟨loop, service, hlive, hjoined, hknown⟩, hfirst.trans ?_⟩
    have hsame : Link.live { link with env, detached } = some loop := hlive
    rw [hnow, outcome?_of_live hsame, reports_of_rest hstep]
    rfl

theorem Heading.wake {due : Nat} (hheading : link.Heading id operation deadline first)
    (hrest : link.turn = none) (hpending : link.outcome? id = none) (hdue : link.nextDue = some due)
    (hle : due ≤ deadline) : (link.setClock due).Heading id operation deadline first := by
  obtain ⟨hknown, hfirst⟩ := hheading
  refine ⟨hknown, hfirst.trans ?_⟩
  rw [reportsUntil_of_wake hrest hdue hle, hpending,
    show (link.setClock due).outcome? id = link.outcome? id from rfl, hpending]
  rfl

/-- The wait for a call ends at its first completion, if that comes by the deadline, and at the deadline
otherwise. -/
theorem Heading.waited (hheading : link.Heading id operation deadline first) :
    (link.drive (fun now => (now.outcome? id).isSome) deadline).outcome? id = first.map Prod.snd ∧
      (link.drive (fun now => (now.outcome? id).isSome) deadline).env.clock =
        (first.map Prod.fst).getD deadline := by
  have hend := @drive_waited (·.Heading id operation deadline first)
    (fun now => (now.outcome? id).isSome) deadline (fun _ _ hnow hturn => hnow.turn hturn)
    (fun _ _ hnow hrest hready hdue hle => hnow.wake hrest (by simpa using hready) hdue hle) link hheading
  generalize link.drive (fun now => (now.outcome? id).isSome) deadline = waited at hend
  cases hend with
  | inTime _ hnow _ hready =>
    obtain ⟨outcome, houtcome⟩ := Option.isSome_iff_exists.mp hready
    have hfirst := hnow.first
    rw [houtcome] at hfirst
    rw [hfirst, houtcome]
    exact ⟨rfl, rfl⟩
  | late now hnow hrest hready hdue =>
    have hpending : now.outcome? id = none := by simpa using hready
    have hfirst := hnow.first
    rw [hpending, reportsUntil_of_late hrest hdue] at hfirst
    rw [hfirst]
    exact ⟨hpending, rfl⟩

/-- A call over a connection settles with its first completion, at the instant of that, if it comes
within the time allowed, and otherwise with a timeout just when this time is over. -/
theorem Numbered.call_settles (hnumbered : link.Numbered) {loop : Loop} (hlive : link.live = some loop)
    (timeout : Int) (operation : Operation) :
    let called := link.call timeout operation
    let deadline := link.env.clock + link.env.span timeout
    let first := firstCompletion? ((link.handing operation).reportsUntil (link.dispatched + 1) deadline)
    called.1 = (first.map fun found => link.conclude found.2).getD (.error (.callTimeout timeout)) ∧
      called.2.env.clock = (first.map Prod.fst).getD deadline := by
  intro called deadline first
  obtain ⟨⟨service, hjoined⟩, hposted⟩ := hnumbered.started hlive operation
  have hheading : (link.handing operation).Heading (link.dispatched + 1) operation deadline first := by
    refine ⟨⟨_, service, ?_, hjoined, .posted _ _ hposted⟩, ?_⟩
    · rw [Link.handing, Link.post, hlive]
      rfl
    · have hpending : (link.handing operation).outcome? (link.dispatched + 1) = none := by
        rw [Link.outcome?, Link.handing, Link.post, hlive]
        simp only [Option.map_some, Option.bind_some, Loop.outcome?, hposted.call, Option.bind_none]
      rw [hpending]
      rfl
  have hend : (link.awaited timeout operation).outcome? (link.dispatched + 1) = first.map Prod.snd ∧
      (link.awaited timeout operation).env.clock = (first.map Prod.fst).getD deadline := hheading.waited
  obtain ⟨houtcome, hclock⟩ := hend
  have hmap : first.map (fun found => link.conclude found.2) = (first.map Prod.snd).map link.conclude := by
    rw [Option.map_map]
    rfl
  rw [hmap, ← houtcome]
  rcases call_of_connected hlive hjoined.connected timeout operation with ⟨outcome, hsome, hcall⟩ |
      ⟨hnone, entry, hcall⟩
  · rw [show called = _ from hcall, hsome]
    exact ⟨rfl, hclock⟩
  · rw [show called = _ from hcall, hnone]
    exact ⟨rfl, hclock⟩

variable {outcome : Except Failure Json}

end Link

end Offload
