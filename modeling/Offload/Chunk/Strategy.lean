import Offload.Failure

namespace Offload

inductive Strategy
  | fixedSize
  | lineBased
  | recordBased
  /-- By lines if a newline comes early, else by size. -/
  | adaptive
  deriving DecidableEq, Repr

namespace Strategy

def name : Strategy → Bytes
  | fixedSize => utf8 "fixed_size"
  | lineBased => utf8 "line_based"
  | recordBased => utf8 "record_based"
  | adaptive => utf8 "adaptive"

def all : List Strategy := [fixedSize, lineBased, recordBased, adaptive]

def code : Strategy → Int
  | fixedSize => 0
  | lineBased => 1
  | recordBased => 2
  | adaptive => 3

def ofName (name : Bytes) : Except Failure Strategy :=
  match all.find? (fun s => s.name = name) with
  | some strategy => .ok strategy
  | none => .error (.unknownStrategy name)

/-- The strategy of a number. Numbers that name none mean pieces of fixed size. -/
def ofCode (code : Int) : Strategy := (all.find? (fun s => s.code = code)).getD fixedSize

theorem ofName_name (strategy : Strategy) : ofName strategy.name = .ok strategy := by
  cases strategy <;> rfl

theorem ofCode_code (strategy : Strategy) : ofCode strategy.code = strategy := by
  cases strategy <;> rfl

end Strategy

end Offload
