import Offload.Bytes

namespace Offload.Packing

/-- Cuts units off the front of a payload. The unit at hand and the finished units are held
backwards. -/
def unitsOnto (delimiter unit : Bytes) (units : List Bytes) : Bytes → List Bytes
  | [] => (if unit.isEmpty then units else unit.reverse :: units).reverse
  | b :: rest =>
    if delimiter.isPrefixOf (b :: rest) then
      unitsOnto delimiter [] ((delimiter.reverse ++ unit).reverse :: units)
        (rest.drop (delimiter.length - 1))
    else unitsOnto delimiter (b :: unit) units rest
termination_by data => data.length
decreasing_by
  · simp only [List.length_drop, List.length_cons]; omega
  · simp

/-- The units of a payload: each ends with the first delimiter found from its start, and the last
one may lack it. -/
def units (delimiter data : Bytes) : List Bytes := unitsOnto delimiter [] [] data

/-- Packs units behind finished groups. The groups and the group at hand are held backwards, the
latter with its length in bytes. -/
def groupsOnto (limit : Nat) (groups : List (List Bytes)) (group : List Bytes) (size : Nat) :
    List Bytes → List (List Bytes)
  | [] => (if group.isEmpty then groups else group.reverse :: groups).reverse
  | unit :: rest =>
    if !group.isEmpty && limit < size + unit.length then
      groupsOnto limit (group.reverse :: groups) [unit] unit.length rest
    else groupsOnto limit groups (unit :: group) (size + unit.length) rest

/-- Greedy groups of consecutive units: a unit joins the group at hand unless the group would grow
past the limit, and a group is never left empty. -/
def groups (limit : Nat) (units : List Bytes) : List (List Bytes) := groupsOnto limit [] [] 0 units

def chunks (limit : Nat) (delimiter data : Bytes) : List Bytes :=
  (groups limit (units delimiter data)).map List.flatten

end Offload.Packing
