import Offload.Link.Reply
import Offload.Log

namespace Offload

inductive Stage
  | connect | write | read
  deriving DecidableEq, Repr

/-- What the peer does at the stage where an exchange ends. -/
inductive Conduct
  | answer (status : Int) (body : Bytes)
  | failure (reason : Bytes)
  | silence
  deriving DecidableEq, Repr

/-- How the peer treats an exchange. Times are in milliseconds. -/
structure Script where
  /-- The stage at which the conduct shows; the stages before it succeed. -/
  stage : Stage := .read
  conduct : Conduct
  /-- How long after the request the reply arrives. -/
  delay : Nat := 0
  connectDelay : Nat := 0
  writeDelay : Nat := 0
  deriving DecidableEq, Repr

def Script.lag (script : Script) : Stage → Nat
  | .connect => script.connectDelay
  | .write => script.writeDelay
  | .read => script.delay

def Script.unscripted : Script where
  conduct := .answer 404 (utf8 "\x7b\"error\":\"no reply scripted\"\x7d")

/-- What comes of looking up a host, and after how many milliseconds. -/
inductive Resolution
  | found (delay : Nat := 0)
  | failure (reason : Bytes) (delay : Nat := 0)
  | silence
  deriving DecidableEq, Repr

/-- What comes of starting an event loop. -/
inductive Start
  | running (delay : Nat := 0)
  | refused (reason : Bytes)
  deriving DecidableEq, Repr

structure Request where
  host : Bytes
  target : Bytes
  body : Bytes
  deriving DecidableEq, Repr

def Request.agent : Bytes := utf8 "pangea-compute-client"

structure Environment where
  clock : Nat := 0
  journal : Journal := {}
  /-- The requests sent, the latest first. -/
  requests : List Request := []
  scripts : List Script := []
  resolutions : List Resolution := []
  starts : List Start := []
  signals : Nat := 0
  deriving Repr

namespace Environment

def log (env : Environment) (entry : Entry) : Environment :=
  { env with journal := env.journal.write entry }

def logAll (env : Environment) (entries : List Entry) : Environment :=
  { env with journal := env.journal.writeAll entries }

def send (env : Environment) (request : Request) : Environment :=
  { env with requests := request :: env.requests }

def takeScript (env : Environment) : Script × Environment :=
  match env.scripts with
  | [] => (.unscripted, env)
  | script :: rest => (script, { env with scripts := rest })

def takeResolution (env : Environment) : Resolution × Environment :=
  match env.resolutions with
  | [] => (.found, env)
  | resolution :: rest => (resolution, { env with resolutions := rest })

def takeStart (env : Environment) : Start × Environment :=
  match env.starts with
  | [] => (.running, env)
  | start :: rest => (start, { env with starts := rest })

/-- Looks up a host: when that ends, what comes of it, and what is left. The peer's treatment of the
exchange that follows is settled together with it. -/
def lookUp (env : Environment) : Option Nat × Except Bytes Script × Environment :=
  let (resolution, env) := env.takeResolution
  match resolution with
  | .found delay =>
    let (script, env) := env.takeScript
    (some (env.clock + delay), .ok script, env)
  | .failure reason delay => (some (env.clock + delay), .error reason, env)
  | .silence => (none, .error [], env)

theorem takeScript_eq (env : Environment) :
    env.takeScript.2 = { env with scripts := env.scripts.tail } := by
  unfold takeScript
  cases env with
  | mk _ _ _ scripts => cases scripts <;> rfl

theorem takeResolution_eq (env : Environment) :
    env.takeResolution.2 = { env with resolutions := env.resolutions.tail } := by
  unfold takeResolution
  cases env with
  | mk _ _ _ _ resolutions => cases resolutions <;> rfl

theorem takeStart_eq (env : Environment) : env.takeStart.2 = { env with starts := env.starts.tail } := by
  unfold takeStart
  cases env with
  | mk _ _ _ _ _ starts => cases starts <;> rfl

theorem takeScript_fst (env : Environment) : env.takeScript.1 = env.scripts.headD .unscripted := by
  unfold takeScript
  split
  · next hnone => simp [hnone]
  · next hsome => simp [hsome]

theorem lookUp_found {env : Environment} {script : Script} (hfound : env.lookUp.2.1 = .ok script) :
    script = env.takeScript.1 := by
  unfold lookUp at hfound
  cases hresolution : env.takeResolution.1 with
  | found delay =>
    simp only [hresolution, Except.ok.injEq] at hfound
    rw [← hfound, takeScript_fst, takeScript_fst, takeResolution_eq]
  | failure reason delay =>
    simp only [hresolution] at hfound
    cases hfound
  | silence =>
    simp only [hresolution] at hfound
    cases hfound

theorem lookUp_frame (env : Environment) :
    ∃ scripts resolutions, env.lookUp.2.2 = { env with scripts, resolutions } := by
  unfold lookUp
  simp only [takeResolution_eq, takeScript_eq]
  split <;> exact ⟨_, _, rfl⟩

/-- The instant so many milliseconds from now, as the clock counts it: in nanoseconds, in a word of 64 bits
with a sign, which comes around where the instant is beyond it. -/
def instant (env : Environment) (milliseconds : Int) : Int :=
  (Int64.ofInt ((env.clock + milliseconds) * 1000000)).toInt / 1000000

def timeTo (env : Environment) (milliseconds : Int) : Nat :=
  (env.instant milliseconds - env.clock).toNat

/-- How long a wait of so many milliseconds lasts at most. -/
def span (env : Environment) (milliseconds : Int) : Nat :=
  if milliseconds ≤ 0 then 0 else env.timeTo milliseconds

variable {env : Environment} {milliseconds : Int}

theorem instant_le (hpos : 0 ≤ milliseconds) : env.instant milliseconds ≤ env.clock + milliseconds := by
  have hsize : Int64.size = 18446744073709551616 := rfl
  rw [instant, Int64.toInt_ofInt, hsize, Int.bmod_def]
  omega

/-- A wait may end early, where the clock cannot count to its end, but never late. -/
theorem span_le (env : Environment) (milliseconds : Int) : env.span milliseconds ≤ milliseconds.toNat := by
  unfold span timeTo
  split
  · exact Nat.zero_le _
  · next hpos =>
    have hinstant := @instant_le env milliseconds (Int.le_of_lt (Int.not_le.mp hpos))
    omega

@[simp] theorem span_zero (env : Environment) : env.span 0 = 0 := rfl

theorem span_congr {other : Environment} (hclock : env.clock = other.clock) :
    env.span milliseconds = other.span milliseconds := by
  simp only [span, timeTo, instant, hclock]

end Environment

end Offload
