import Offload.Json.Wire
import Offload.Proofs.Base64.Size
import Offload.Proofs.Binary
import Offload.Proofs.Fields

namespace Offload

open Number

namespace Fields

variable {α : Type}

theorem get?_ofList (key : Bytes) (entries : List (Bytes × α)) :
    get? key (ofList entries) = entries.reverse.lookup key := by
  suffices h : ∀ acc : Fields α, get? key (entries.foldl (fun acc f => insert f.1 f.2 acc) acc) =
      (entries.reverse.lookup key).or (get? key acc) by
    simpa [ofList] using h []
  induction entries with
  | nil => simp
  | cons entry rest ih =>
    obtain ⟨k, v⟩ := entry
    intro acc
    rw [List.foldl_cons, ih, get?_insert, List.reverse_cons, List.lookup_append, Option.or_assoc]
    by_cases hkey : k = key
    · simp [hkey]
    · have hbeq : (key == k) = false := by simpa using Ne.symm hkey
      simp [hkey, List.lookup_cons, hbeq]

theorem insert_of_lt {key : Bytes} {value : α} {fields : Fields α}
    (hlt : ∀ field ∈ fields, field.1 < key) : insert key value fields = fields ++ [(key, value)] := by
  induction fields with
  | nil => rfl
  | cons field rest ih =>
    obtain ⟨k, v⟩ := field
    have hk : k < key := hlt (k, v) List.mem_cons_self
    have hne : key ≠ k := by
      rintro rfl
      exact List.lt_irrefl key hk
    rw [insert, if_neg hne, if_neg (List.lt_asymm hk),
      ih fun field hmem => hlt field (List.mem_cons_of_mem _ hmem), List.cons_append]

theorem ofList_of_ordered {fields : Fields α} (hordered : fields.Ordered) : ofList fields = fields := by
  suffices h : ∀ front : Fields α, (front ++ fields).Ordered →
      fields.foldl (fun acc f => insert f.1 f.2 acc) front = front ++ fields from
    h [] hordered
  induction fields with
  | nil => simp
  | cons field rest ih =>
    intro front hall
    have hfront : ∀ other ∈ front, other.1 < field.1 := fun other hmem =>
      (List.pairwise_append.mp hall).2.2 other hmem field List.mem_cons_self
    have hrest : Ordered rest := (List.pairwise_cons.mp hordered).2
    rw [List.foldl_cons, insert_of_lt hfront, ih hrest _ (by rwa [List.append_assoc])]
    exact List.append_assoc front [field] rest

end Fields

theorem SortedMap.ofList_fields {α : Type} (map : SortedMap α) : SortedMap.ofList map.fields = map := by
  obtain ⟨fields, hordered⟩ := map
  simp only [SortedMap.ofList, Fields.ofList_of_ordered hordered]

namespace Wire

@[simp] theorem ok_bind {α β : Type} (value : α) (next : α → Except Failure β) :
    (Except.ok value >>= next) = next value := rfl

/-- A type whose values can be read back from their JSON form. -/
class Lawful (α : Type) [Wire α] : Prop where
  decode_encode : ∀ value : α, decode (encode value) = .ok value

attribute [simp] Lawful.decode_encode

/-- The readings of a type and its JSON form agree: what was written of the values that fit is read again,
and what was read from any value at all, the defaults of absent members included, is read from its own
form as well. -/
structure Faithful (α : Type) [Wire α] (Fits : α → Prop := fun _ => True) : Prop where
  decode_encode : ∀ value : α, Fits value → decode (encode value) = .ok value
  decode_encode_decode : ∀ json : Json,
    (decode json >>= fun value : α => decode (α := α) (encode value)) = decode json

theorem Lawful.faithful (α : Type) [Wire α] [Lawful α] : Faithful α where
  decode_encode value _ := Lawful.decode_encode value
  decode_encode_decode json := by
    cases decode (α := α) json with
    | error failure => rfl
    | ok value => exact Lawful.decode_encode value

theorem Faithful.of_fits {α : Type} [Wire α] {Fits : α → Prop}
    (hwrite : ∀ value : α, Fits value → decode (encode value) = .ok value)
    (hfits : ∀ (json : Json) (value : α), decode json = .ok value → Fits value) : Faithful α Fits where
  decode_encode := hwrite
  decode_encode_decode json := by
    cases hread : decode (α := α) json with
    | error failure => rfl
    | ok value => exact hwrite value (hfits json value hread)

section Widths

theorem ofInt_toNat_uint64 (n : UInt64) : UInt64.ofInt n.toNat = n := by
  have hlt := n.toNat_lt
  have hsame : ((n.toNat : Int) % 18446744073709551616).toNat = n.toNat := by omega
  simp [UInt64.ofInt, hsame]

theorem ofInt_toNat_uint32 (n : UInt32) : UInt32.ofInt n.toNat = n := by
  have hlt := n.toNat_lt
  have hsame : ((n.toNat : Int) % 4294967296).toNat = n.toNat := by omega
  simp [UInt32.ofInt, hsame]

theorem ofInt_toNat_uint16 (n : UInt16) : UInt16.ofInt n.toNat = n := by
  have hlt := n.toNat_lt
  have hsame : ((n.toNat : Int) % 65536).toNat = n.toNat := by omega
  simp [UInt16.ofInt, hsame]

end Widths

instance : Lawful Bytes where
  decode_encode _ := rfl

instance : Lawful Bool where
  decode_encode _ := rfl

instance : Lawful UInt64 where
  decode_encode n := by
    simp [ofInt_toNat_uint64, decode, encode, lift, Json.toInteger, Except.mapError, Except.map]

instance : Lawful Int64 where
  decode_encode n := by
    simp [decode, encode, lift, Json.toInteger, Except.mapError, Except.map]

instance : Lawful UInt32 where
  decode_encode n := by
    simp [ofInt_toNat_uint32, decode, encode, lift, Json.toSmallInteger, Json.toInteger, Except.mapError, Except.map]

instance : Lawful UInt16 where
  decode_encode n := by
    simp [ofInt_toNat_uint16, decode, encode, lift, Json.toSmallInteger, Json.toInteger, Except.mapError, Except.map]

instance : Lawful Single where
  decode_encode x := by
    simp [decode, encode, lift, Json.toSingle, Except.mapError, Single.toSingle_toDouble]

theorem mapM_map_ok {α β : Type} {write : α → β} {read : β → Except Failure α}
    (hread : ∀ item, read (write item) = .ok item) (items : List α) :
    (items.map write).mapM read = .ok items := by
  induction items with
  | nil => rfl
  | cons item rest ih =>
    rw [List.map_cons, List.mapM_cons, hread, ih]
    rfl

/-- A byte comes back although it is read as a signed number of 32 bits. -/
theorem decode_byte (n : UInt8) :
    ∃ number : Int32, decode (.int n.toNat) = .ok number ∧ UInt8.ofInt number.toInt = n := by
  have hlt := n.toNat_lt
  have hread : (Int32.ofInt n.toNat).toInt = n.toNat :=
    Int32.toInt_ofInt_of_le (by omega) (by omega)
  have hsame : ((n.toNat : Int) % 256).toNat = n.toNat := by omega
  refine ⟨Int32.ofInt n.toNat, rfl, ?_⟩
  simp [UInt8.ofInt, hread, hsame]

variable {α : Type} [Wire α] [Lawful α]

instance (priority := low) : Lawful (List α) where
  decode_encode items := mapM_map_ok Lawful.decode_encode items

instance : Lawful (SortedMap α) where
  decode_encode map := by
    have hentries : (map.fields.map fun f => (f.1, encode f.2)).mapM
        (fun m : Bytes × Json => return (m.1, ← decode (α := α) m.2)) = .ok map.fields :=
      mapM_map_ok (fun field => by simp only [Lawful.decode_encode]; rfl) map.fields
    have hdecode : decode (encode map) = (map.fields.map fun f => (f.1, encode f.2)).mapM
        (fun m : Bytes × Json => return (m.1, ← decode (α := α) m.2)) >>= fun entries =>
          return SortedMap.ofList entries := rfl
    rw [hdecode, hentries]
    exact congrArg Except.ok map.ofList_fields

end Wire

namespace Json

variable {members : List (String × Json)} {key : String}

theorem get?_ofMembers (members : List (String × Json)) (key : String) :
    (ofMembers members).get? (utf8 key) = members.reverse.lookup key := by
  suffices h : ∀ entries : List (String × Json),
      (entries.map fun m => (utf8 m.1, m.2)).lookup (utf8 key) = entries.lookup key by
    rw [ofMembers, get?, Fields.get?_ofList, ← List.map_reverse, h]
  intro entries
  induction entries with
  | nil => rfl
  | cons entry rest ih =>
    obtain ⟨k, v⟩ := entry
    have hkey : (utf8 key == utf8 k) = (key == k) := by
      rw [Bool.eq_iff_iff]
      simp [utf8_inj]
    simp [List.lookup_cons, hkey, ih]

variable {α : Type} [Wire α]

@[simp] theorem field_ofMembers (members : List (String × Json)) (key : String) :
    (ofMembers members).field (α := α) key =
      match members.reverse.lookup key with
      | some value => Wire.decode value
      | none => .error (.json (.missingKey (utf8 key))) := by
  have hget := get?_ofMembers members key
  simp only [ofMembers, get?] at hget
  simp only [field, ofMembers, member, hget]
  cases members.reverse.lookup key <;> rfl

@[simp] theorem fieldD_ofMembers (members : List (String × Json)) (key : String) (default : α) :
    (ofMembers members).fieldD key default =
      match members.reverse.lookup key with
      | some value => Wire.decode value
      | none => .ok default := by
  have hget := get?_ofMembers members key
  simp only [ofMembers, get?] at hget
  simp only [fieldD, ofMembers, member?, hget]
  cases members.reverse.lookup key <;> rfl

@[simp] theorem blob_ofMembers (members : List (String × Json)) (key : String) :
    (ofMembers members).blob key =
      match members.reverse.lookup key with
      | some value => Wire.decode value >>= Base64.decode
      | none => .error (.json (.missingKey (utf8 key))) := by
  rw [blob, field_ofMembers]
  cases members.reverse.lookup key <;> rfl

@[simp] theorem blobD_ofMembers (members : List (String × Json)) (key : String) :
    (ofMembers members).blobD key =
      match members.reverse.lookup key with
      | some value => Wire.decode value >>= Base64.decode
      | none => .ok [] := by
  rw [blobD, fieldD_ofMembers]
  cases members.reverse.lookup key <;> rfl

end Json

@[simp] theorem Wire.decode_blob (data : Bytes) :
    (Wire.decode (Wire.blob data) : Except Failure Bytes) = .ok (Base64.text data) := rfl

theorem Json.length_le_of_blob {json : Json} {key : String} {data : Bytes}
    (hblob : json.blob key = .ok data) : data.length ≤ 1610612733 := by
  obtain ⟨text, -, hdecode⟩ := Failure.bind_eq_ok_iff.mp hblob
  exact Base64.length_le_of_decode hdecode

theorem Json.length_le_of_blobD {json : Json} {key : String} {data : Bytes}
    (hblob : json.blobD key = .ok data) : data.length ≤ 1610612733 := by
  obtain ⟨text, -, hdecode⟩ := Failure.bind_eq_ok_iff.mp hblob
  exact Base64.length_le_of_decode hdecode

end Offload
