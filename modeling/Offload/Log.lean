import Offload.Failure

namespace Offload

/-- How serious a log entry is. -/
inductive Level
  | trace | debug | info | warning | error | fatal
  deriving DecidableEq, Repr

namespace Level

def rank : Level → Nat
  | trace => 0
  | debug => 1
  | info => 2
  | warning => 3
  | error => 4
  | fatal => 5

/-- The level of a name. Unknown names mean `info`, and `warn` is short for `warning`. -/
def ofName (name : Bytes) : Level :=
  if name = utf8 "trace" then trace
  else if name = utf8 "debug" then debug
  else if name = utf8 "warning" ∨ name = utf8 "warn" then warning
  else if name = utf8 "error" then error
  else if name = utf8 "fatal" then fatal
  else info

def name : Level → Bytes
  | trace => utf8 "trace"
  | debug => utf8 "debug"
  | info => utf8 "info"
  | warning => utf8 "warning"
  | error => utf8 "error"
  | fatal => utf8 "fatal"

end Level

structure Entry where
  level : Level
  text : Bytes
  deriving DecidableEq, Repr

namespace Entry

def info (text : Bytes) : Entry := ⟨.info, text⟩
def warning (text : Bytes) : Entry := ⟨.warning, text⟩
def error (text : Bytes) : Entry := ⟨.error, text⟩

end Entry

/-- What has been logged so far. Entries below the threshold are dropped when they are written. -/
structure Journal where
  threshold : Level := .trace
  /-- The kept entries, the latest first. -/
  entries : List Entry := []
  deriving Repr

namespace Journal

def setLevel (journal : Journal) (name : Bytes) : Journal :=
  { journal with threshold := Level.ofName name }

def keeps (journal : Journal) (level : Level) : Bool := journal.threshold.rank ≤ level.rank

def write (journal : Journal) (entry : Entry) : Journal :=
  if journal.keeps entry.level then { journal with entries := entry :: journal.entries }
  else journal

def writeAll (journal : Journal) (entries : List Entry) : Journal := entries.foldl write journal

def toList (journal : Journal) : List Entry := journal.entries.reverse

end Journal

/-- A value and the log entries that its computation left, in order. -/
structure Logged (α : Type) where
  value : α
  entries : List Entry := []

namespace Logged

instance : Monad Logged where
  pure a := ⟨a, []⟩
  bind x f := ⟨(f x.value).value, x.entries ++ (f x.value).entries⟩

def log (entry : Entry) : Logged Unit := ⟨(), [entry]⟩

theorem map_eq {α β : Type} (f : α → β) (x : Logged α) : f <$> x = ⟨f x.value, x.entries⟩ :=
  congrArg (mk _) (List.append_nil _)

end Logged

/-- A computation that leaves log entries and ends with a value or a failure. -/
abbrev Attempt := ExceptT Failure Logged

namespace Attempt

def log (entry : Entry) : Attempt Unit := ExceptT.lift (Logged.log entry)

def ofExcept {α : Type} (outcome : Except Failure α) : Attempt α := ExceptT.mk ⟨outcome, []⟩

theorem run_lift {α : Type} (x : Logged α) :
    (ExceptT.lift x : Attempt α).run = ⟨.ok x.value, x.entries⟩ :=
  Logged.map_eq Except.ok x

end Attempt

end Offload
