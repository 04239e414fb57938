import Mathlib.Data.List.Chain
import Offload.Chunk.Packing

namespace Offload.Packing

/-- The delimiter occurs in the payload, first behind the given part. -/
structure Cut (delimiter data before after : Bytes) : Prop where
  parts : data = before ++ delimiter ++ after
  first : ∀ early late, data = early ++ delimiter ++ late → before.length ≤ early.length

def Lacks (delimiter data : Bytes) : Prop := ∀ early late, data ≠ early ++ delimiter ++ late

/-- The units of a payload, cut off one by one. -/
inductive Units (delimiter : Bytes) : Bytes → List Bytes → Prop
  | empty : Units delimiter [] []
  | last {data : Bytes} (hdata : data ≠ []) (hlacks : Lacks delimiter data) :
    Units delimiter data [data]
  | cut {data before after : Bytes} {rest : List Bytes} (hcut : Cut delimiter data before after)
    (hrest : Units delimiter after rest) : Units delimiter data ((before ++ delimiter) :: rest)

variable {delimiter data : Bytes}

theorem unitsOnto_append (delimiter unit : Bytes) (units : List Bytes) (data : Bytes) :
    unitsOnto delimiter unit units data = units.reverse ++ unitsOnto delimiter unit [] data := by
  induction hsize : data.length using Nat.strongRecOn generalizing unit units data with
  | _ size ih =>
    cases data with
    | nil =>
      simp only [unitsOnto]
      split <;> simp
    | cons b rest =>
      have hsize : rest.length < size := by
        rw [← hsize]
        exact Nat.lt_succ_self _
      by_cases hfront : delimiter.isPrefixOf (b :: rest)
      · have hdrop : (rest.drop (delimiter.length - 1)).length < size := by
          rw [List.length_drop]
          omega
        have hdone := ih _ hdrop [] ((delimiter.reverse ++ unit).reverse :: units) _ rfl
        have hfirst := ih _ hdrop [] [(delimiter.reverse ++ unit).reverse] _ rfl
        rw [unitsOnto, if_pos hfront, hdone, unitsOnto, if_pos hfront, hfirst]
        simp
      · rw [unitsOnto, if_neg hfront, ih _ hsize _ _ _ rfl, unitsOnto, if_neg hfront]

theorem Cut.at_front {after : Bytes} (hdata : data = delimiter ++ after) :
    Cut delimiter data [] after :=
  ⟨hdata, fun _ _ _ => Nat.zero_le _⟩

theorem Cut.cons {b : UInt8} {before after : Bytes} (hcut : Cut delimiter data before after)
    (hfront : ¬ delimiter <+: b :: data) : Cut delimiter (b :: data) (b :: before) after := by
  refine ⟨congrArg (b :: ·) hcut.parts, fun early late hdata => ?_⟩
  cases early with
  | nil => exact (hfront ⟨late, hdata.symm⟩).elim
  | cons c early =>
    have hlength := hcut.first early late (List.cons.inj hdata).2
    exact Nat.succ_le_succ hlength

theorem Lacks.nil (hdelimiter : delimiter ≠ []) : Lacks delimiter [] := by
  intro early late hdata
  simp [hdelimiter] at hdata

theorem Lacks.cons {b : UInt8} (hlacks : Lacks delimiter data)
    (hfront : ¬ delimiter <+: b :: data) : Lacks delimiter (b :: data) := by
  intro early late hdata
  cases early with
  | nil => exact hfront ⟨late, hdata.symm⟩
  | cons c early => exact hlacks early late (List.cons.inj hdata).2

/-- The unit at hand ends with the first delimiter, or takes all that is left. -/
theorem unitsOnto_cases (hdelimiter : delimiter ≠ []) (unit data : Bytes) :
    (∃ before after, Cut delimiter data before after ∧
        unitsOnto delimiter unit [] data =
          (unit.reverse ++ before ++ delimiter) :: units delimiter after) ∨
      Lacks delimiter data ∧ unitsOnto delimiter unit [] data =
        if unit.reverse ++ data = [] then [] else [unit.reverse ++ data] := by
  induction data generalizing unit with
  | nil =>
    refine .inr ⟨.nil hdelimiter, ?_⟩
    simp only [unitsOnto]
    split <;> simp_all
  | cons b rest ih =>
    by_cases hfront : delimiter <+: b :: rest
    · obtain ⟨after, hafter⟩ := hfront
      refine .inl ⟨[], after, .at_front hafter.symm, ?_⟩
      have hrest : rest.drop (delimiter.length - 1) = after := by
        have hlength := List.length_pos_iff.mpr hdelimiter
        have hdrop : (b :: rest).drop delimiter.length = after := by simp [← hafter]
        rw [← hdrop, ← List.drop_succ_cons, Nat.sub_add_cancel hlength]
      rw [unitsOnto, if_pos (List.isPrefixOf_iff_prefix.mpr ⟨after, hafter⟩), hrest,
        unitsOnto_append]
      simp [units]
    · have hskip : ¬ delimiter.isPrefixOf (b :: rest) = true :=
        fun h => hfront (List.isPrefixOf_iff_prefix.mp h)
      rw [unitsOnto, if_neg hskip]
      rcases ih (b :: unit) with ⟨before, after, hcut, hunits⟩ | ⟨hlacks, hunits⟩
      · exact .inl ⟨b :: before, after, hcut.cons hfront, by simp [hunits]⟩
      · exact .inr ⟨hlacks.cons hfront, by simp [hunits]⟩

/-- The units of a payload are cut off at the first delimiters. -/
theorem units_spec (hdelimiter : delimiter ≠ []) (data : Bytes) :
    Units delimiter data (units delimiter data) := by
  induction hsize : data.length using Nat.strongRecOn generalizing data with
  | _ size ih =>
    rcases unitsOnto_cases hdelimiter [] data with ⟨before, after, hcut, hunits⟩ | ⟨hlacks, hunits⟩
    · have hshorter : after.length < size := by
        have hlength := congrArg List.length hcut.parts
        have hpos := List.length_pos_iff.mpr hdelimiter
        simp only [List.length_append] at hlength
        omega
      rw [units, hunits]
      exact .cut hcut (ih _ hshorter after rfl)
    · rw [units, hunits]
      by_cases hempty : data = []
      · subst hempty
        exact .empty
      · rw [if_neg (by simpa using hempty)]
        exact .last hempty hlacks

namespace Units

variable {units : List Bytes}

theorem flatten (hunits : Units delimiter data units) : units.flatten = data := by
  induction hunits with
  | empty => rfl
  | last => simp
  | cut hcut _ ih => rw [List.flatten_cons, ih, hcut.parts]

theorem ne_nil (hunits : Units delimiter data units) (hdelimiter : delimiter ≠ []) :
    [] ∉ units := by
  induction hunits with
  | empty => exact List.not_mem_nil
  | last hdata => simpa using hdata.symm
  | cut _ _ ih => simp [hdelimiter, ih]

theorem delimited (hunits : Units delimiter data units) :
    units.IsChain fun unit _ => delimiter <:+ unit := by
  induction hunits with
  | empty => exact .nil
  | last => exact .singleton _
  | @cut _ before _ rest _ _ ih =>
    cases rest with
    | nil => exact .singleton _
    | cons next rest => exact .cons_cons ⟨before, rfl⟩ ih

end Units

theorem groupsOnto_flatten (limit : Nat) (groups : List (List Bytes)) (group : List Bytes)
    (size : Nat) (units : List Bytes) :
    (groupsOnto limit groups group size units).flatten =
      groups.reverse.flatten ++ group.reverse ++ units := by
  fun_induction groupsOnto limit groups group size units with
  | case1 groups group size =>
    split <;> simp_all
  | case2 groups group size unit rest hfull ih => simp [ih]
  | case3 groups group size unit rest hroom ih => simp [ih]

theorem groupsOnto_ne_nil (limit : Nat) {groups : List (List Bytes)} (hgroups : [] ∉ groups)
    (group : List Bytes) (size : Nat) (units : List Bytes) :
    [] ∉ groupsOnto limit groups group size units := by
  fun_induction groupsOnto limit groups group size units with
  | case1 groups group size =>
    split <;> simp_all
  | case2 groups group size unit rest hfull ih =>
    refine ih ?_
    simp_all
  | case3 groups group size unit rest hroom ih => exact ih hgroups

theorem groups_flatten (limit : Nat) (units : List Bytes) : (groups limit units).flatten = units :=
  groupsOnto_flatten limit [] [] 0 units

theorem groups_ne_nil (limit : Nat) (units : List Bytes) : [] ∉ groups limit units :=
  groupsOnto_ne_nil limit List.not_mem_nil [] 0 units

theorem chunks_flatten (hdelimiter : delimiter ≠ []) (limit : Nat) (data : Bytes) :
    (chunks limit delimiter data).flatten = data := by
  rw [chunks, ← List.flatten_flatten, groups_flatten, (units_spec hdelimiter data).flatten]

theorem chunks_ne_nil (hdelimiter : delimiter ≠ []) (limit : Nat) (data : Bytes) :
    [] ∉ chunks limit delimiter data := by
  intro hmem
  obtain ⟨group, hgroup, hempty⟩ := List.mem_map.mp hmem
  have hunits := (units_spec hdelimiter data).ne_nil hdelimiter
  rw [← groups_flatten limit (units delimiter data)] at hunits
  cases group with
  | nil => exact groups_ne_nil limit _ hgroup
  | cons unit rest =>
    rw [List.flatten_cons, List.append_eq_nil_iff] at hempty
    exact hunits (List.mem_flatten.mpr ⟨_, hgroup, hempty.1 ▸ List.mem_cons_self⟩)

theorem chunks_delimited (hdelimiter : delimiter ≠ []) (limit : Nat) (data : Bytes) :
    (chunks limit delimiter data).IsChain fun chunk _ => delimiter <:+ chunk := by
  have hgroups := groups_ne_nil limit (units delimiter data)
  have hchain := (units_spec hdelimiter data).delimited
  rw [← groups_flatten limit (units delimiter data), List.isChain_flatten hgroups] at hchain
  rw [chunks, List.isChain_map]
  refine hchain.2.imp_of_mem_imp fun group next hgroup hnext hadjacent => ?_
  have hgroup : group ≠ [] := ne_of_mem_of_not_mem hgroup hgroups
  have hnext : next ≠ [] := ne_of_mem_of_not_mem hnext hgroups
  have hunit := hadjacent (group.getLast hgroup) (List.getLast?_eq_getLast_of_ne_nil hgroup)
    (next.head hnext) (List.head?_eq_some_head hnext)
  refine hunit.trans ⟨group.dropLast.flatten, ?_⟩
  conv_rhs => rw [← List.dropLast_append_getLast hgroup]
  rw [List.flatten_append, List.flatten_singleton]

end Offload.Packing
