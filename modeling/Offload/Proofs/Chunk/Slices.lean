import Offload.Proofs.Chunk.Splitting

namespace Offload.Chunker

/-- The slice of a payload at an index. Slices have the given size; the last one ends with the payload. -/
def slice (size : Nat) (data : Bytes) (index : Nat) : Bytes := (data.drop (index * size)).take size

def slices (size : Nat) (data : Bytes) : List Bytes :=
  (List.range ((data.length + size - 1) / size)).map (slice size data)

theorem slice_succ (size : Nat) (data : Bytes) (index : Nat) :
    slice size data (index + 1) = slice size (data.drop size) index := by
  rw [slice, slice, List.drop_drop, Nat.add_comm size, ← Nat.succ_mul]

theorem slices_nil {size : Nat} (hsize : 0 < size) : slices size [] = [] := by
  have hnone : (([] : Bytes).length + size - 1) / size = 0 := by
    rw [List.length_nil, Nat.zero_add]
    exact Nat.div_eq_of_lt (Nat.sub_lt hsize Nat.one_pos)
  rw [slices, hnone]
  rfl

theorem slices_of_ne_nil {size : Nat} (hsize : 0 < size) {data : Bytes} (hdata : data ≠ []) :
    slices size data = data.take size :: slices size (data.drop size) := by
  have hlength := List.length_pos_iff.mpr hdata
  have hfirst : (data.length + size - 1) / size = (data.length - 1) / size + 1 := by
    rw [← Nat.add_div_right _ hsize, Nat.sub_add_comm hlength]
  have hrest : ((data.drop size).length + size - 1) / size = (data.length - 1) / size := by
    rw [List.length_drop]
    by_cases hshort : data.length ≤ size
    · rw [Nat.sub_eq_zero_of_le hshort, Nat.div_eq_of_lt (by omega), Nat.div_eq_of_lt (by omega)]
    · rw [Nat.sub_add_cancel (by omega)]
  have hcount := hfirst.trans (congrArg (· + 1) hrest.symm)
  rw [slices, slices, hcount, List.range_succ_eq_map, List.map_cons, List.map_map]
  refine congrArg₂ List.cons ?_ (List.map_congr_left fun index _ => slice_succ size data index)
  rw [slice, Nat.zero_mul, List.drop_zero]

variable {size offset : UInt64} {data : Bytes}

theorem Pieces.eq_slices {pieces : List Bytes} (hpieces : Pieces size data offset pieces)
    (hdata : data.length < 2 ^ 63) (hsize : 0 < size) (hlanded : Landed size offset) :
    pieces = slices size.toNat (data.drop offset.toNat) := by
  have hpos : 0 < size.toNat := by simpa [UInt64.lt_iff_toNat_lt] using hsize
  induction hpieces with
  | done hend => rw [(drop_eq_nil_iff hdata).mpr hend, slices_nil hpos]
  | piece hmore _ ih =>
    have hleft := mt (drop_eq_nil_iff hdata).mp (not_not_intro hmore)
    rw [slices_of_ne_nil hpos hleft, List.drop_drop, ← hlanded.toNat_add hdata hmore,
      ← ih (hlanded.add hdata hmore)]

theorem splitFixed_eq_slices (chunker : Chunker) (hdata : data.length < 2 ^ 63) :
    chunker.splitFixed data = slices chunker.chunkSize.toNat data :=
  (splitFixed_spec chunker hdata).eq_slices hdata chunker.chunkSize_pos (.inl rfl)

end Offload.Chunker
