import Offload.Chunk.Chunker
import Offload.Proofs.Chunk.Packing

namespace Offload.Packing

/-- The group has no room for the first unit of the next one. -/
def Full (limit : Nat) (group next : List Bytes) : Prop :=
  ∀ unit ∈ next.head?, limit < group.flatten.length + unit.length

/-- Groups of consecutive units, none of them empty. A group stays within the limit or is a single unit,
and it is full when the next one begins. -/
structure Greedy (limit : Nat) (units : List Bytes) (groups : List (List Bytes)) : Prop where
  whole : groups.flatten = units
  nonempty : [] ∉ groups
  bounded : ∀ group ∈ groups, group.flatten.length ≤ limit ∨ group.length = 1
  maximal : groups.IsChain (Full limit)

/-- The chunks are the groups of a payload's units in a greedy packing. -/
def Packed (limit : Nat) (delimiter data : Bytes) (chunks : List Bytes) : Prop :=
  ∃ units groups, Units delimiter data units ∧ Greedy limit units groups ∧
    chunks = groups.map List.flatten

variable {limit : Nat} {delimiter data : Bytes} {units : List Bytes} {packing : List (List Bytes)}

theorem Greedy.head? {unit : Bytes} {rest next : List Bytes}
    (hgreedy : Greedy limit (unit :: rest) (next :: packing)) : next.head? = some unit := by
  have hwhole := hgreedy.whole
  cases next with
  | nil => exact (hgreedy.nonempty List.mem_cons_self).elim
  | cons first others =>
    rw [List.flatten_cons, List.cons_append] at hwhole
    rw [List.head?_cons, (List.cons.inj hwhole).1]

theorem Greedy.cons {group rest : List Bytes} {unit : Bytes} (hgroup : group ≠ [])
    (hbounded : group.flatten.length ≤ limit ∨ group.length = 1)
    (hfull : limit < group.flatten.length + unit.length)
    (hgreedy : Greedy limit (unit :: rest) packing) :
    Greedy limit (group ++ unit :: rest) (group :: packing) where
  whole := by rw [List.flatten_cons, hgreedy.whole]
  nonempty := by
    rw [List.mem_cons, not_or]
    exact ⟨hgroup.symm, hgreedy.nonempty⟩
  bounded := List.forall_mem_cons.mpr ⟨hbounded, hgreedy.bounded⟩
  maximal := by
    have hmaximal := hgreedy.maximal
    cases packing with
    | nil => exact .singleton _
    | cons next others =>
      refine .cons_cons (fun first hfirst => ?_) hmaximal
      rw [hgreedy.head?] at hfirst
      cases hfirst
      exact hfull

theorem Greedy.singleton {group : List Bytes} (hgroup : group ≠ [])
    (hbounded : group.flatten.length ≤ limit ∨ group.length = 1) : Greedy limit group [group] where
  whole := List.flatten_singleton
  nonempty := by simpa using hgroup.symm
  bounded := by simpa using hbounded
  maximal := .singleton _

theorem groupsOnto_append (limit : Nat) (groups : List (List Bytes)) (group : List Bytes) (size : Nat)
    (units : List Bytes) :
    groupsOnto limit groups group size units =
      groups.reverse ++ groupsOnto limit [] group size units := by
  induction units generalizing groups group size with
  | nil =>
    simp only [groupsOnto]
    split <;> simp
  | cons unit rest ih =>
    simp only [groupsOnto]
    split
    · rw [ih, ih [group.reverse]]
      simp
    · exact ih groups _ _

/-- From a group at hand that is not empty, the packing goes on greedily. The induction is on the units
to come; what it carries is that the group at hand stays within the limit or is a single unit. -/
theorem groupsOnto_greedy {group : List Bytes} {size : Nat} (hgroup : group ≠ [])
    (hsize : group.reverse.flatten.length = size) (hbounded : size ≤ limit ∨ group.length = 1)
    (units : List Bytes) :
    Greedy limit (group.reverse ++ units) (groupsOnto limit [] group size units) := by
  have hfront : group.reverse ≠ [] := by simpa using hgroup
  induction units generalizing group size with
  | nil =>
    rw [groupsOnto, if_neg (by simpa using hgroup), List.append_nil]
    refine .singleton hfront ?_
    rw [hsize, List.length_reverse]
    exact hbounded
  | cons unit rest ih =>
    rw [groupsOnto]
    by_cases hfull : limit < size + unit.length
    · have hnext : Greedy limit ([unit].reverse ++ rest) (groupsOnto limit [] [unit] unit.length rest) :=
        ih (List.cons_ne_nil _ _) (by simp) (.inr rfl) (List.cons_ne_nil _ _)
      rw [if_pos (by simp [hgroup, hfull]), groupsOnto_append]
      refine Greedy.cons hfront ?_ ?_ hnext
      · rw [hsize, List.length_reverse]
        exact hbounded
      · rw [hsize]
        exact hfull
    · have hlonger : (unit :: group).reverse.flatten.length = size + unit.length := by
        rw [List.reverse_cons, List.flatten_append, List.length_append, hsize, List.flatten_singleton]
      have hnext := ih (List.cons_ne_nil unit group) hlonger (.inl (Nat.le_of_not_lt hfull)) (by simp)
      rw [if_neg (by simp [hfull])]
      rw [List.reverse_cons, List.append_assoc] at hnext
      exact hnext

theorem groups_greedy (limit : Nat) (units : List Bytes) : Greedy limit units (groups limit units) := by
  cases units with
  | nil => exact ⟨rfl, List.not_mem_nil, nofun, .nil⟩
  | cons unit rest =>
    have hnext := @groupsOnto_greedy limit [unit] unit.length (List.cons_ne_nil _ _) (by simp)
      (.inr rfl) rest
    rw [groups, groupsOnto, if_neg (by simp), Nat.zero_add]
    exact hnext

theorem Greedy.tail {group : List Bytes} (hgreedy : Greedy limit units (group :: packing)) :
    Greedy limit packing.flatten packing where
  whole := rfl
  nonempty := fun hnil => hgreedy.nonempty (List.mem_cons_of_mem _ hnil)
  bounded := fun other hmem => hgreedy.bounded other (List.mem_cons_of_mem _ hmem)
  maximal := hgreedy.maximal.tail

/-- Of two greedy packings neither begins with a longer group, for where the shorter one ends the longer
one was full. -/
theorem Greedy.not_longer {group more : List Bytes} {others : List (List Bytes)} {unit : Bytes}
    (hgreedy : Greedy limit units (group :: packing))
    (hother : Greedy limit units ((group ++ unit :: more) :: others))
    (hrest : packing.flatten = unit :: more ++ others.flatten) : False := by
  have hgroup : group ≠ [] := fun hnil => hgreedy.nonempty (hnil ▸ List.mem_cons_self)
  cases packing with
  | nil => cases hrest
  | cons next packing =>
    have hnext := hgreedy.tail
    rw [hrest, List.cons_append] at hnext
    have hfull := (List.isChain_cons_cons.mp hgreedy.maximal).1 unit hnext.head?
    have hpos := List.length_pos_iff.mpr hgroup
    rcases hother.bounded _ List.mem_cons_self with hshort | hsingle
    · rw [List.flatten_append, List.flatten_cons, List.length_append, List.length_append] at hshort
      omega
    · rw [List.length_append, List.length_cons] at hsingle
      omega

/-- Units are packed greedily in one way only. -/
theorem Greedy.unique {others : List (List Bytes)} (hgreedy : Greedy limit units packing)
    (hother : Greedy limit units others) : packing = others := by
  induction packing generalizing units others with
  | nil =>
    cases others with
    | nil => rfl
    | cons group others =>
      have hnone : (group :: others).flatten = [] := hother.whole.trans hgreedy.whole.symm
      have hnil := List.flatten_eq_nil_iff.mp hnone group List.mem_cons_self
      exact (hother.nonempty (hnil ▸ List.mem_cons_self)).elim
  | cons group packing ih =>
    cases others with
    | nil =>
      have hnone : (group :: packing).flatten = [] := hgreedy.whole.trans hother.whole.symm
      have hnil := List.flatten_eq_nil_iff.mp hnone group List.mem_cons_self
      exact (hgreedy.nonempty (hnil ▸ List.mem_cons_self)).elim
    | cons other others =>
      have hsame : group ++ packing.flatten = other ++ others.flatten := by
        have hwhole := hgreedy.whole.trans hother.whole.symm
        rwa [List.flatten_cons, List.flatten_cons] at hwhole
      obtain ⟨rfl, hrest⟩ : group = other ∧ packing.flatten = others.flatten := by
        rcases List.append_eq_append_iff.mp hsame with ⟨more, rfl, hrest⟩ | ⟨more, rfl, hrest⟩
        · cases more with
          | nil => exact ⟨(List.append_nil _).symm, hrest⟩
          | cons unit more => exact (hgreedy.not_longer hother hrest).elim
        · cases more with
          | nil => exact ⟨List.append_nil _, hrest.symm⟩
          | cons unit more => exact (hother.not_longer hgreedy hrest).elim
      have htail := hgreedy.tail
      rw [hrest] at htail
      rw [ih htail hother.tail]

theorem Cut.unique {before before' after after' : Bytes} (hcut : Cut delimiter data before after)
    (hother : Cut delimiter data before' after') : before = before' ∧ after = after' := by
  have hlength : before.length = before'.length :=
    Nat.le_antisymm (hcut.first _ _ hother.parts) (hother.first _ _ hcut.parts)
  have hparts := hcut.parts.symm.trans hother.parts
  rw [List.append_assoc, List.append_assoc] at hparts
  obtain ⟨hbefore, hrest⟩ := List.append_inj hparts hlength
  exact ⟨hbefore, List.append_cancel_left hrest⟩

theorem Cut.not_lacks {before after : Bytes} (hcut : Cut delimiter data before after) :
    ¬ Lacks delimiter data := fun hlacks => hlacks before after hcut.parts

theorem Cut.ne_nil {before after : Bytes} (hcut : Cut delimiter data before after)
    (hdelimiter : delimiter ≠ []) : data ≠ [] := by
  rw [hcut.parts]
  simp [hdelimiter]

theorem Units.unique {others : List Bytes} (hdelimiter : delimiter ≠ [])
    (hunits : Units delimiter data units) (hother : Units delimiter data others) : units = others := by
  induction hunits generalizing others with
  | empty =>
    cases hother with
    | empty => rfl
    | last hdata => exact (hdata rfl).elim
    | cut hcut => exact (hcut.ne_nil hdelimiter rfl).elim
  | last hdata hlacks =>
    cases hother with
    | empty => exact (hdata rfl).elim
    | last => rfl
    | cut hcut => exact (hcut.not_lacks hlacks).elim
  | cut hcut _ ih =>
    cases hother with
    | empty => exact (hcut.ne_nil hdelimiter rfl).elim
    | last _ hlacks => exact (hcut.not_lacks hlacks).elim
    | cut hcut' hrest' =>
      obtain ⟨rfl, rfl⟩ := hcut.unique hcut'
      rw [ih hrest']

theorem packed_iff (hdelimiter : delimiter ≠ []) (limit : Nat) (data : Bytes) (parts : List Bytes) :
    Packed limit delimiter data parts ↔ parts = chunks limit delimiter data := by
  have hunits := units_spec hdelimiter data
  have hgreedy := groups_greedy limit (units delimiter data)
  constructor
  · rintro ⟨others, packing, hothers, hpacking, rfl⟩
    rw [hothers.unique hdelimiter hunits] at hpacking
    rw [chunks, hpacking.unique hgreedy]
  · rintro rfl
    exact ⟨_, _, hunits, hgreedy, rfl⟩

end Offload.Packing

namespace Offload.Chunker

open Packing

/-- Splitting by lines or by records is the greedy packing of whole units. The units end at the first
delimiters, each found from the start of its unit. The chunks are groups of them in order; a chunk is
within the chunk size or a single unit, and would be above it with the first unit of the next chunk. No
other chunks are like that, so that the list of chunks is told by the payload, the delimiter and the
chunk size. -/
theorem splits_pack_greedily (chunker : Chunker) (data : Bytes) :
    (∀ chunks, Packed chunker.chunkSize.toNat [newline] data chunks ↔
        chunks = chunker.splitLines data) ∧
      (∀ chunks, Packed chunker.chunkSize.toNat chunker.delimiter data chunks ↔
        chunks = chunker.splitRecords data) ∧
      ∀ delimiter, delimiter ≠ [] → ∃ records, chunker.splitRecordsBy delimiter data = .ok records ∧
        ∀ chunks, Packed chunker.chunkSize.toNat delimiter data chunks ↔ chunks = records := by
  refine ⟨?_, ?_, ?_⟩
  · exact packed_iff (List.cons_ne_nil _ _) _ data
  · exact packed_iff chunker.delimiter_ne _ data
  · intro delimiter hdelimiter
    refine ⟨_, ?_, packed_iff hdelimiter _ data⟩
    rw [splitRecordsBy, if_neg hdelimiter]

/-- Of a delimiter that overlaps itself the second occurrence is looked for behind the first one. -/
theorem splits_pack_greedily_overlapping :
    ∃ records, ({ chunkSize := 5 } : Chunker).splitRecordsBy [7, 7] [7, 7, 7, 7, 1, 7, 7, 2] = .ok records ∧
      records = [[7, 7, 7, 7], [1, 7, 7, 2]] ∧ Packed 5 [7, 7] [7, 7, 7, 7, 1, 7, 7, 2] records := by
  obtain ⟨_, _, hrecords⟩ := splits_pack_greedily { chunkSize := 5 } [7, 7, 7, 7, 1, 7, 7, 2]
  obtain ⟨records, hsplit, hpacked⟩ := hrecords [7, 7] (by decide)
  refine ⟨records, hsplit, ?_, (hpacked records).mpr rfl⟩
  have hcomputed : ({ chunkSize := 5 } : Chunker).splitRecordsBy [7, 7] [7, 7, 7, 7, 1, 7, 7, 2] =
      .ok [[7, 7, 7, 7], [1, 7, 7, 2]] := by cbv
  exact Except.ok.inj (hsplit.symm.trans hcomputed)

end Offload.Chunker
