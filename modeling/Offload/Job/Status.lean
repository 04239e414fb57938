import Offload.Bytes

namespace Offload

inductive Status
  | pending
  | assigned
  | computing
  | verifying
  | completed
  | failed
  | timeout
  | cancelled
  deriving DecidableEq, Repr

namespace Status

def all : List Status :=
  [pending, assigned, computing, verifying, completed, failed, timeout, cancelled]

def code : Status → Nat
  | pending => 0
  | assigned => 1
  | computing => 2
  | verifying => 3
  | completed => 4
  | failed => 5
  | timeout => 6
  | cancelled => 7

def name : Status → Bytes
  | pending => utf8 "pending"
  | assigned => utf8 "assigned"
  | computing => utf8 "computing"
  | verifying => utf8 "verifying"
  | completed => utf8 "completed"
  | failed => utf8 "failed"
  | timeout => utf8 "timeout"
  | cancelled => utf8 "cancelled"

/-- The status of a name. A name that is not known means `failed`, which is what the node reports
when it cannot describe a job. -/
def ofName (name : Bytes) : Status := (all.find? (fun s => s.name = name)).getD failed

def ofCode? (code : Nat) : Option Status := all.find? (fun s => s.code = code)

def codeName (code : Nat) : Bytes := ((ofCode? code).getD failed).name

def isTerminal : Status → Bool
  | completed | failed | timeout | cancelled => true
  | pending | assigned | computing | verifying => false

def endedWithoutResult : Status → Bool
  | failed | timeout | cancelled => true
  | pending | assigned | computing | verifying | completed => false

theorem ofName_name (status : Status) : ofName status.name = status := by
  cases status <;> rfl

theorem ofCode?_code (status : Status) : ofCode? status.code = some status := by
  cases status <;> rfl

end Status

end Offload
