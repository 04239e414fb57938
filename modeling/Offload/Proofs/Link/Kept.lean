import Offload.Proofs.Link.Marks

namespace Offload

namespace Link

variable {link next : Link} {env env' : Environment} {loops after : List Loop}

def marksAny (env : Environment) : List Loop → Record
  | [] => []
  | loop :: rest => if (loop.turn env).isSome then loop.marks env else marksAny env rest

def marks (link : Link) : Record := marksAny link.env link.loops

theorem turnAny_loops (hturn : link.turn = some next) :
    turnAny link.env link.loops = some (next.env, next.loops) := by
  cases hlive : link.live with
  | none =>
    simp only [turn, hlive, Option.bind_none] at hturn
    obtain ⟨found, hfound, rfl⟩ := Option.map_eq_some_iff.mp hturn
    simp only [loops, hlive, Option.toList_none, List.nil_append, hfound]
  | some loop =>
    simp only [loops, hlive, Option.toList_some, List.singleton_append, turnAny]
    cases hstep : loop.turn link.env with
    | some found =>
      simp only [turn, hlive, Option.bind_some, hstep, Option.some.injEq] at hturn
      rw [← hturn]
      rfl
    | none =>
      simp only [turn, hlive, Option.bind_some, hstep] at hturn
      obtain ⟨found, hfound, rfl⟩ := Option.map_eq_some_iff.mp hturn
      simp only [hfound, Option.map_some, Option.toList_some, List.singleton_append]

theorem waitFor_live {loop : Loop} (hlive : link.live = some loop) (milliseconds : Int)
    (ready : Link → Bool) : ∃ last, (link.waitFor milliseconds ready).live = some last := by
  obtain ⟨env, last, detached, _, hdrive⟩ := @drive_live link (fun _ _ => True) loop
    (fun _ _ _ _ _ _ => trivial) (fun _ _ _ _ _ => trivial) hlive trivial ready
    (link.env.clock + link.env.span milliseconds)
  exact ⟨last, by rw [Link.waitFor, hdrive]⟩

/-- The record of a wait, turn by turn as the wait goes. -/
def driveForMarks (ready : Link → Bool) (deadline : Nat) : Nat → Link → Record
  | 0, _ => []
  | rounds + 1, link =>
    match link.turn with
    | some next => link.marks ++ driveForMarks ready deadline rounds next
    | none =>
      if ready link then []
      else
        match link.nextDue with
        | some due =>
          if due ≤ deadline then driveForMarks ready deadline rounds (link.setClock due) else []
        | none => []

def driveMarks (link : Link) (ready : Link → Bool) (deadline : Nat) : Record :=
  driveForMarks ready deadline (2 * link.work + 2) link

def waitMarks (link : Link) (milliseconds : Int) (ready : Link → Bool) : Record :=
  link.driveMarks ready (link.env.clock + link.env.span milliseconds)

def sleepMarks (link : Link) (milliseconds : Nat) : Record :=
  link.driveMarks (fun _ => false) (link.env.clock + milliseconds)

def stopMarks (link : Link) : Record :=
  Link.waitMarks { link with live := link.live.map Loop.askToStop } link.limits.join isStopped

def disconnectMarks (link : Link) : Record :=
  if link.live.isNone then []
  else (link.log (.info (utf8 "Disconnecting from " ++ link.endpoint))).stopMarks

/-- Why an attempt to connect is given up that was waited for so long, if it is. -/
def setback? (waited : Link) (patience : Int) : Option Entry :=
  match waited.verdict with
  | none =>
    some <| .error (utf8 "Connection to " ++ waited.endpoint ++ utf8 " timed out after "
      ++ Bytes.decimalInt patience ++ utf8 " ms")
  | some (.ok _) => none
  | some (.error failure) =>
    some <| .error (utf8 "Failed to connect to " ++ waited.endpoint ++ utf8 ": " ++ failure.message)

theorem concluding_eq (waited : Link) (patience : Int) :
    waited.concluding patience =
      match waited.setback? patience with
      | none => (true, { waited.log waited.greeting with phase := .connected })
      | some reason => waited.giveUp reason := by
  unfold concluding setback?
  cases waited.verdict with
  | none => rfl
  | some verdict => cases verdict <;> rfl

def attemptMarks (link : Link) (host : Bytes) (port : UInt16) : Record :=
  let waited := (link.seeking host port).waitFor link.limits.connect (·.verdict.isSome)
  (link.seeking host port).waitMarks link.limits.connect (·.verdict.isSome) ++
    match waited.setback? link.limits.connect with
    | none => []
    | some reason => (waited.log reason).stopMarks

def missMarks (link : Link) (delay : Nat) : Record :=
  let rest := delay - link.startTime
  let patience := link.missed.env.span link.limits.join
  link.sleepMarks link.startTime ++ link.missed.sleepMarks (if rest ≤ patience then rest else patience)

def attachMarks (link : Link) (host : Bytes) (port : UInt16) : Record :=
  let opened := link.opening host port
  match link.env.takeStart.1 with
  | .refused _ => []
  | .running delay =>
    if delay ≤ opened.startTime then
      opened.sleepMarks delay ++ (opened.sleep delay).attemptMarks host port
    else opened.missMarks delay

def connectMarks (link : Link) (host : Bytes) (port : UInt16) : Record :=
  if link.isConnected then
    if host = link.host ∧ port = link.port then []
    else link.disconnectMarks ++ link.disconnect.attachMarks host port
  else link.attachMarks host port

def callMarks (link : Link) (timeout : Int) (operation : Operation) : Record :=
  if (link.live.map (·.connected)).getD false then
    (link.handing operation).waitMarks timeout
      fun now => (now.outcome? (link.dispatched + 1)).isSome
  else []

def invokeMarks (link : Link) (method : Bytes) (params : Json) (timeout : Int) : Record :=
  match params.dump .compact with
  | .ok body => link.callMarks timeout (Operation.ask (utf8 "/rpc/" ++ method) body)
  | .error _ => []

/-- The record of one operation on a link. -/
def marksOf (link : Link) : Command → Record
  | .connect host port => link.connectMarks host port
  | .disconnect => link.disconnectMarks
  | .invoke method params timeout => link.invokeMarks method params timeout
  | .call timeout operation => link.callMarks timeout operation
  | .wait milliseconds ready => link.waitMarks milliseconds ready
  | .lay _ _ _ => []

/-- A property of the loops of a link and of the record so far that turns keep. The surroundings have a
part in it by the cancellations that were signalled at most. -/
structure Lasts (holds : Environment → List Loop → Record → Prop) : Prop where
  still : ∀ {env env' loops record}, holds env loops record → env'.signals = env.signals →
    holds env' loops record
  turn : ∀ {env env' loops after record}, turnAny env loops = some (env', after) →
    holds env loops record → holds env' after (record ++ marksAny env loops)

/-- What else happens to the loops when a link connects and disconnects keeps the property as well. -/
structure Kept (holds : Environment → List Loop → Record → Prop) : Prop extends Lasts holds where
  ask : ∀ {env loop rest record}, holds env (loop :: rest) record →
    holds env (loop.askToStop :: rest) record
  drop : ∀ {env loop rest record}, loop.alive = false → holds env (loop :: rest) record →
    holds env rest record
  leave : ∀ {env loop rest record}, holds env (loop :: rest) record → holds env (rest ++ [loop]) record
  begin : ∀ {env rest record} (host : Bytes) (port : UInt16), holds env rest record →
    holds env (({ host, port } : Loop).post .connect :: rest) record

variable {holds : Environment → List Loop → Record → Prop} {record : Record}

theorem Lasts.drive (hlasts : Lasts holds) (hholds : holds link.env link.loops record)
    (ready : Link → Bool) (deadline : Nat) :
    holds (link.drive ready deadline).env (link.drive ready deadline).loops
      (record ++ link.driveMarks ready deadline) := by
  unfold Link.drive driveMarks
  generalize 2 * link.work + 2 = rounds
  have hclock : ∀ (now : Link) clock record, holds now.env now.loops record →
      holds (now.setClock clock).env (now.setClock clock).loops record :=
    fun _ _ _ hnow => hlasts.still hnow rfl
  induction rounds generalizing link record with
  | zero => simpa only [driveFor, driveForMarks, List.append_nil] using hholds
  | succ rounds ih =>
    rw [driveFor, driveForMarks]
    cases hnext : link.turn with
    | some next =>
      simp only [← List.append_assoc]
      exact ih (hlasts.turn (turnAny_loops hnext) hholds)
    | none =>
      simp only
      split
      · simpa only [List.append_nil] using hholds
      · cases link.nextDue with
        | none => simpa only [List.append_nil] using hclock link deadline record hholds
        | some due =>
          simp only
          split
          · exact ih (hclock link due record hholds)
          · simpa only [List.append_nil] using hclock link deadline record hholds

theorem Lasts.waitFor (hlasts : Lasts holds) (hholds : holds link.env link.loops record)
    (milliseconds : Int) (ready : Link → Bool) :
    holds (link.waitFor milliseconds ready).env (link.waitFor milliseconds ready).loops
      (record ++ link.waitMarks milliseconds ready) :=
  hlasts.drive hholds ready _

theorem Lasts.sleep (hlasts : Lasts holds) (hholds : holds link.env link.loops record)
    (milliseconds : Nat) :
    holds (link.sleep milliseconds).env (link.sleep milliseconds).loops
      (record ++ link.sleepMarks milliseconds) :=
  hlasts.drive hholds _ _

theorem Lasts.missStart (hlasts : Lasts holds) (hholds : holds link.env link.loops record)
    (delay : Nat) :
    holds (link.missStart delay).env (link.missStart delay).loops (record ++ link.missMarks delay) := by
  have hmissed : holds link.missed.env link.missed.loops
      (record ++ link.sleepMarks link.startTime) :=
    hlasts.still (hlasts.sleep hholds link.startTime) rfl
  unfold Link.missStart missMarks
  simp only [← List.append_assoc]
  split
  · exact hlasts.sleep hmissed _
  · exact hlasts.still (hlasts.sleep hmissed _) rfl

namespace Kept

theorem stopLoop (hkept : Kept holds) {loop : Loop} (hlive : link.live = some loop)
    (hholds : holds link.env link.loops record) :
    holds link.stopLoop.env link.stopLoop.loops (record ++ link.stopMarks) := by
  let asked : Link := { link with live := link.live.map Loop.askToStop }
  have hasked : holds asked.env asked.loops record := by
    simp only [loops, hlive, Option.toList_some, List.singleton_append] at hholds
    simp only [asked, loops, hlive, Option.map_some, Option.toList_some, List.singleton_append]
    exact hkept.ask hholds
  have hwaited := hkept.toLasts.waitFor hasked link.limits.join isStopped
  have hpresent : asked.live = some loop.askToStop := by simp [asked, hlive]
  obtain ⟨last, hlast⟩ := waitFor_live hpresent link.limits.join isStopped
  unfold Link.stopLoop stopMarks
  simp only
  generalize asked.waitFor link.limits.join isStopped = waited at hwaited hlast
  simp only [loops, hlast, Option.toList_some, List.singleton_append] at hwaited
  split
  · next hstopped =>
    refine hkept.drop ?_ hwaited
    simpa [isStopped, hlast] using hstopped
  · simp only [log, loops, hlast, Option.toList_none, Option.toList_some, List.nil_append]
    exact hkept.leave (hkept.still hwaited rfl)

theorem disconnect (hkept : Kept holds) (hholds : holds link.env link.loops record) :
    holds link.disconnect.env link.disconnect.loops (record ++ link.disconnectMarks) := by
  unfold Link.disconnect disconnectMarks
  split
  · rw [List.append_nil]
    exact hholds
  · next hsome =>
    obtain ⟨loop, hlive⟩ := Option.ne_none_iff_exists'.mp (by simpa using hsome)
    have hlogged : (link.log (.info (utf8 "Disconnecting from " ++ link.endpoint))).live = some loop :=
      hlive
    exact hkept.stopLoop hlogged (hkept.still hholds rfl)

theorem attempt (hkept : Kept holds) (hlive : link.live = none)
    (hholds : holds link.env link.loops record) (host : Bytes) (port : UInt16) :
    holds (link.attempt host port).2.env (link.attempt host port).2.loops
      (record ++ link.attemptMarks host port) := by
  rw [loops, hlive, Option.toList_none, List.nil_append] at hholds
  have hsought : holds (link.seeking host port).env (link.seeking host port).loops record :=
    hkept.begin host port hholds
  have hwaited := hkept.toLasts.waitFor hsought link.limits.connect (·.verdict.isSome)
  have hpresent : (link.seeking host port).live = some (({ host, port } : Loop).post .connect) := rfl
  obtain ⟨last, hlast⟩ := waitFor_live hpresent link.limits.connect (·.verdict.isSome)
  rw [attempt_eq, concluding_eq, attemptMarks, ← List.append_assoc]
  generalize (link.seeking host port).waitFor _ _ = waited at hwaited hlast
  simp only
  cases waited.setback? link.limits.connect with
  | none =>
    rw [List.append_nil]
    exact hkept.still hwaited rfl
  | some reason =>
    have hlogged : (waited.log reason).live = some last := hlast
    exact hkept.stopLoop hlogged (hkept.still hwaited rfl)

theorem attach (hkept : Kept holds) (hlive : link.live = none)
    (hholds : holds link.env link.loops record) (host : Bytes) (port : UInt16) :
    holds (link.attach host port).2.env (link.attach host port).2.loops
      (record ++ link.attachMarks host port) := by
  have hsignals : link.env.takeStart.2.signals = link.env.signals := by rw [link.env.takeStart_eq]
  have hloops : (link.opening host port).loops = link.loops := by
    rw [loops, loops, hlive]
    rfl
  have hopened : holds (link.opening host port).env (link.opening host port).loops record := by
    rw [hloops]
    exact hkept.still hholds hsignals
  unfold Link.attach attachMarks
  cases link.env.takeStart.1 with
  | refused reason =>
    rw [List.append_nil]
    exact hkept.still hopened rfl
  | running delay =>
    simp only
    split
    · rw [← List.append_assoc]
      exact hkept.attempt (@live_sleep (link.opening host port) rfl delay) (hkept.toLasts.sleep hopened delay) host port
    · exact hkept.still (hkept.toLasts.missStart hopened delay) rfl

theorem connect (hkept : Kept holds) (hapart : link.isConnected = false → link.live = none)
    (hholds : holds link.env link.loops record) (host : Bytes) (port : UInt16) :
    holds (link.connect host port).2.env (link.connect host port).2.loops
      (record ++ link.connectMarks host port) := by
  unfold Link.connect connectMarks
  cases hconnected : link.isConnected with
  | false =>
    simp only [Bool.false_eq_true, if_false]
    exact hkept.attach (hapart hconnected) hholds host port
  | true =>
    simp only [if_true]
    split
    · simpa only [List.append_nil] using hholds
    · obtain ⟨env, detached, hdisconnect⟩ := link.disconnect_eq
      have hgone : link.disconnect.live = none := by rw [hdisconnect]
      rw [← List.append_assoc]
      exact hkept.attach hgone (hkept.disconnect hholds) host port

end Kept

/-- The cancellations signalled since the beginning are those of the record. -/
theorem kept_signals (before : Nat) :
    Kept fun env _ record => env.signals = before + signalled record where
  still hnow hsame := hsame.trans hnow
  ask hnow := hnow
  drop _ hnow := hnow
  leave hnow := hnow
  begin _ _ hnow := hnow
  turn := by
    intro env env' loops after record hturn hnow
    have hstep : env'.signals = env.signals + signalled (marksAny env loops) := by
      clear hnow
      induction loops generalizing after with
      | nil => cases hturn
      | cons loop rest ih =>
        rw [turnAny] at hturn
        rw [marksAny]
        cases hstep : loop.turn env with
        | some found =>
          simp only [hstep, Option.some.injEq, Prod.mk.injEq] at hturn
          obtain ⟨rfl, rfl⟩ := hturn
          exact Loop.turn_signals hstep
        | none =>
          simp only [hstep] at hturn
          obtain ⟨⟨found, left⟩, hfound, heq⟩ := Option.map_eq_some_iff.mp hturn
          cases heq
          exact ih hfound
    rw [hstep, hnow, signalled_append, Nat.add_assoc]

end Link

end Offload
