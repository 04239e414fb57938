import Offload.Bytes

namespace Offload

abbrev Fields (α : Type) := List (Bytes × α)

namespace Fields

variable {α β : Type}

/-- The keys stand in strictly increasing byte order, so no key stands twice. -/
def Ordered (fields : Fields α) : Prop := fields.Pairwise (fun a b => a.1 < b.1)

def get? (key : Bytes) : Fields α → Option α
  | [] => none
  | (k, v) :: rest => if k = key then some v else get? key rest

def has (fields : Fields α) (key : Bytes) : Bool := (fields.get? key).isSome

/-- Puts a field at its place in key order, replacing the field with the same key. -/
def insert (key : Bytes) (value : α) : Fields α → Fields α
  | [] => [(key, value)]
  | (k, v) :: rest =>
    if key = k then (key, value) :: rest
    else if key < k then (key, value) :: (k, v) :: rest
    else (k, v) :: insert key value rest

def erase (key : Bytes) (fields : Fields α) : Fields α := fields.filter (fun f => f.1 ≠ key)

def ofList (fields : List (Bytes × α)) : Fields α :=
  fields.foldl (fun acc f => insert f.1 f.2 acc) []

def keys (fields : Fields α) : List Bytes := fields.map Prod.fst

@[simp] theorem get?_nil (key : Bytes) : get? key ([] : Fields α) = none := rfl

theorem get?_insert (key other : Bytes) (value : α) (fields : Fields α) :
    get? other (insert key value fields) =
      if key = other then some value else get? other fields := by
  induction fields with
  | nil => simp [insert, get?]
  | cons field rest ih =>
    obtain ⟨k, v⟩ := field
    simp only [insert]
    split
    · next hkey => subst hkey; simp only [get?]; split <;> rfl
    · next hkey =>
      split
      · simp only [get?]
      · simp only [get?, ih]
        split
        · next hk => subst hk; simp [hkey]
        · rfl

@[simp] theorem get?_insert_self (key : Bytes) (value : α) (fields : Fields α) :
    get? key (insert key value fields) = some value := by
  simp [get?_insert]

theorem get?_insert_of_ne {key other : Bytes} (hne : key ≠ other) (value : α) (fields : Fields α) :
    get? other (insert key value fields) = get? other fields := by
  simp [get?_insert, hne]

theorem mem_insert {field : Bytes × α} {key : Bytes} {value : α} {fields : Fields α}
    (hmem : field ∈ insert key value fields) : field = (key, value) ∨ field ∈ fields := by
  induction fields with
  | nil => simpa [insert] using hmem
  | cons head rest ih =>
    obtain ⟨k, v⟩ := head
    simp only [insert] at hmem
    split at hmem
    · rcases List.mem_cons.mp hmem with h | h
      · exact .inl h
      · exact .inr (List.mem_cons_of_mem _ h)
    · split at hmem
      · exact List.mem_cons.mp hmem
      · rcases List.mem_cons.mp hmem with h | h
        · exact .inr (h ▸ List.mem_cons_self)
        · exact (ih h).imp id (List.mem_cons_of_mem _)

theorem Ordered.insert {fields : Fields α} (hordered : fields.Ordered) (key : Bytes) (value : α) :
    (fields.insert key value).Ordered := by
  induction fields with
  | nil => simp [Fields.insert, Ordered]
  | cons head rest ih =>
    obtain ⟨k, v⟩ := head
    have hrest := List.pairwise_cons.mp hordered
    simp only [Fields.insert]
    split
    · next hkey => subst hkey; exact List.pairwise_cons.mpr hrest
    · next hkey =>
      split
      · next hlt =>
        refine List.pairwise_cons.mpr ⟨fun field hmem => ?_, hordered⟩
        rcases List.mem_cons.mp hmem with h | h
        · exact h ▸ hlt
        · exact List.lt_trans hlt (hrest.1 field h)
      · next hlt =>
        refine List.pairwise_cons.mpr ⟨fun field hmem => ?_, ih hrest.2⟩
        rcases mem_insert hmem with h | h
        · subst h
          rcases Std.lt_trichotomy key k with h | h | h
          · exact absurd h hlt
          · exact absurd h hkey
          · exact h
        · exact hrest.1 field h

theorem Ordered.erase {fields : Fields α} (hordered : fields.Ordered) (key : Bytes) :
    (fields.erase key).Ordered :=
  List.Pairwise.filter _ hordered

theorem ofList_ordered (fields : List (Bytes × α)) : (ofList fields).Ordered := by
  unfold ofList
  suffices h : ∀ acc : Fields α, acc.Ordered →
      (fields.foldl (fun acc f => insert f.1 f.2 acc) acc).Ordered from h [] List.Pairwise.nil
  induction fields with
  | nil => exact fun acc hacc => hacc
  | cons field rest ih => exact fun acc hacc => ih _ (hacc.insert field.1 field.2)

end Fields

/-- A finite map from byte strings, held as fields in key order. -/
structure SortedMap (α : Type) where
  fields : Fields α
  ordered : fields.Ordered

namespace SortedMap

variable {α : Type}

def empty : SortedMap α := ⟨[], List.Pairwise.nil⟩

instance : Inhabited (SortedMap α) := ⟨empty⟩

def get? (map : SortedMap α) (key : Bytes) : Option α := map.fields.get? key

def insert (map : SortedMap α) (key : Bytes) (value : α) : SortedMap α :=
  ⟨map.fields.insert key value, map.ordered.insert key value⟩

def erase (map : SortedMap α) (key : Bytes) : SortedMap α :=
  ⟨map.fields.erase key, map.ordered.erase key⟩

def ofList (entries : List (Bytes × α)) : SortedMap α :=
  ⟨Fields.ofList entries, Fields.ofList_ordered entries⟩

def keys (map : SortedMap α) : List Bytes := map.fields.keys

end SortedMap

end Offload
