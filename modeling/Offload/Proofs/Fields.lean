import Offload.Fields

namespace Offload

namespace Fields

variable {α : Type}

theorem get?_erase (key other : Bytes) (fields : Fields α) :
    get? other (erase key fields) = if key = other then none else get? other fields := by
  induction fields with
  | nil => simp [erase]
  | cons field rest ih =>
    obtain ⟨k, v⟩ := field
    simp only [erase, List.filter_cons] at ih ⊢
    by_cases hkey : k = key
    · subst hkey
      rw [if_neg (by simp), ih]
      by_cases hother : k = other
      · simp [hother]
      · simp [hother, get?]
    · rw [if_pos (by simpa using hkey)]
      by_cases hother : k = other
      · subst hother
        simp [get?, Ne.symm hkey]
      · simp only [get?, if_neg hother, ih]

private theorem get?_of_lt {key : Bytes} {fields : Fields α}
    (hlt : ∀ field ∈ fields, key < field.1) : get? key fields = none := by
  induction fields with
  | nil => rfl
  | cons field rest ih =>
    obtain ⟨k, v⟩ := field
    have hk : key < k := hlt (k, v) List.mem_cons_self
    have hne : k ≠ key := by
      rintro rfl
      exact List.lt_irrefl k hk
    rw [get?, if_neg hne]
    exact ih fun field hmem => hlt field (List.mem_cons_of_mem _ hmem)

theorem mem_keys_iff {key : Bytes} {fields : Fields α} :
    key ∈ fields.keys ↔ (get? key fields).isSome = true := by
  induction fields with
  | nil => simp [keys]
  | cons field rest ih =>
    obtain ⟨k, v⟩ := field
    simp only [keys, List.map_cons, List.mem_cons, get?] at ih ⊢
    split
    · next hkey => simp [hkey]
    · next hkey => simp [Ne.symm hkey, ih]

theorem insert_of_get? {key : Bytes} {value : α} {fields : Fields α} (hordered : fields.Ordered)
    (hget : get? key fields = some value) : insert key value fields = fields := by
  induction fields with
  | nil => simp at hget
  | cons field rest ih =>
    obtain ⟨k, v⟩ := field
    have hrest := List.pairwise_cons.mp hordered
    by_cases hkey : k = key
    · subst hkey
      have hvalue : v = value := by simpa [get?] using hget
      simp [insert, hvalue]
    · have htail : get? key rest = some value := by simpa [get?, hkey] using hget
      have hlt : ¬ key < k := by
        intro hlt
        have hnone := get?_of_lt fun field hmem => List.lt_trans hlt (hrest.1 field hmem)
        rw [hnone] at htail
        cases htail
      rw [insert, if_neg (Ne.symm hkey), if_neg hlt, ih hrest.2 htail]

end Fields

namespace SortedMap

variable {α : Type}

@[simp] theorem get?_empty (key : Bytes) : (empty : SortedMap α).get? key = none := rfl

@[simp] theorem get?_insert_self (map : SortedMap α) (key : Bytes) (value : α) :
    (map.insert key value).get? key = some value :=
  Fields.get?_insert_self key value map.fields

theorem get?_insert_of_ne (map : SortedMap α) {key other : Bytes} (hne : key ≠ other) (value : α) :
    (map.insert key value).get? other = map.get? other :=
  Fields.get?_insert_of_ne hne value map.fields

theorem get?_erase (map : SortedMap α) (key other : Bytes) :
    (map.erase key).get? other = if key = other then none else map.get? other :=
  Fields.get?_erase key other map.fields

theorem mem_keys_iff {map : SortedMap α} {key : Bytes} :
    key ∈ map.keys ↔ (map.get? key).isSome = true :=
  Fields.mem_keys_iff

theorem keys_sorted (map : SortedMap α) : map.keys.Pairwise (· < ·) :=
  List.pairwise_map.mpr map.ordered

theorem insert_of_get? {map : SortedMap α} {key : Bytes} {value : α}
    (hget : map.get? key = some value) : map.insert key value = map := by
  obtain ⟨fields, hordered⟩ := map
  have heq : fields.insert key value = fields := Fields.insert_of_get? hordered hget
  simp only [insert, heq]

end SortedMap

end Offload
