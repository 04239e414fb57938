import Mathlib.Algebra.Order.Floor.Div
import Offload.Proofs.Chunk.Slices

namespace Offload.Chunker

variable {size offset : UInt64} {data : Bytes}

/-- Where the loop over offsets stands after a number of rounds. There is another round as long as the
offset is below the length of the payload. -/
inductive Stands (size : UInt64) (data : Bytes) : Nat → UInt64 → Prop
  | front : Stands size data 0 0
  | round {index : Nat} {offset : UInt64} (hstands : Stands size data index offset)
    (hmore : offset < data.length.toUInt64) : Stands size data (index + 1) (offset + size)

theorem Stands.landed {index : Nat} (hstands : Stands size data index offset)
    (hdata : data.length < 2 ^ 63) : Landed size offset := by
  induction hstands with
  | front => exact .inl rfl
  | round _ hmore ih => exact ih.add hdata hmore

theorem Stands.toNat_offset {index : Nat} (hstands : Stands size data index offset)
    (hdata : data.length < 2 ^ 63) : offset.toNat = index * size.toNat := by
  induction hstands with
  | front => rw [UInt64.toNat_zero, Nat.zero_mul]
  | round hstands hmore ih => rw [(hstands.landed hdata).toNat_add hdata hmore, ih, Nat.succ_mul]

/-- The loop of the program comes by wherever the loop over offsets stands, and has cut off the slices
up to there. -/
theorem Stands.piecesFrom_eq {index : Nat} (hstands : Stands size data index offset) (hsize : 0 < size)
    (hdata : data.length < 2 ^ 63) :
    piecesFrom size data.length.toUInt64 0 hsize [] data =
      piecesFrom size data.length.toUInt64 offset hsize
        ((List.range index).map (slice size.toNat data)).reverse (data.drop offset.toNat) := by
  induction hstands with
  | front => rfl
  | @round index offset hstands hmore ih =>
    have hleft := mt (drop_eq_nil_iff hdata).mp (not_not_intro hmore)
    rw [ih, piecesFrom, if_pos ⟨hleft, hmore⟩, List.drop_drop,
      ← (hstands.landed hdata).toNat_add hdata hmore, List.range_succ, List.map_append,
      List.reverse_append, hstands.toNat_offset hdata]
    rfl

theorem Pieces.exists_end {index : Nat} {pieces : List Bytes} (hpieces : Pieces size data offset pieces)
    (hstands : Stands size data index offset) :
    ∃ last, Stands size data (index + pieces.length) last ∧ ¬ last < data.length.toUInt64 := by
  induction hpieces generalizing index with
  | done hend => exact ⟨_, hstands, hend⟩
  | piece hmore _ ih =>
    obtain ⟨last, hlast, hend⟩ := ih (hstands.round hmore)
    refine ⟨last, ?_, hend⟩
    rw [List.length_cons, Nat.add_comm _ 1, ← Nat.add_assoc]
    exact hlast

theorem slices_length (size : Nat) (data : Bytes) :
    (slices size data).length = data.length ⌈/⌉ size := by
  rw [slices, List.length_map, List.length_range, Nat.ceilDiv_eq_add_pred_div]

theorem lt_ceilDiv_iff {size length index : Nat} (hsize : 0 < size) :
    index < length ⌈/⌉ size ↔ index * size < length := by
  rw [← not_le, ceilDiv_le_iff_le_mul hsize, not_le, Nat.mul_comm]

theorem getElem_slices {size : Nat} {data : Bytes} {index : Nat}
    (hindex : index < (slices size data).length) :
    (slices size data)[index] = slice size data index := by
  simp only [slices, List.getElem_map, List.getElem_range]

theorem slice_eq_extract (size : Nat) (data : Bytes) (index : Nat) :
    slice size data index = data.extract (index * size) (min ((index + 1) * size) data.length) := by
  have hnext : (index + 1) * size = index * size + size := Nat.succ_mul index size
  rw [slice, List.extract_eq_take_drop, List.take_eq_take_iff, List.length_drop, hnext]
  omega

theorem slice_length (size : Nat) (data : Bytes) (index : Nat) :
    (slice size data index).length = min size (data.length - index * size) := by
  rw [slice, List.length_take, List.length_drop]

theorem slice_full {size : Nat} (hsize : 0 < size) {piece : Bytes}
    (hpiece : piece ∈ (slices size data).dropLast) : piece.length = size := by
  obtain ⟨index, hindex, rfl⟩ := List.mem_iff_getElem.mp hpiece
  have hnext : index + 1 < (slices size data).length := by
    rw [List.length_dropLast] at hindex
    omega
  have hroom := (lt_ceilDiv_iff hsize).mp (slices_length size data ▸ hnext)
  rw [Nat.succ_mul] at hroom
  rw [List.getElem_dropLast, getElem_slices, slice_length]
  omega

theorem slice_of_mem {size : Nat} (hsize : 0 < size) {piece : Bytes} (hpiece : piece ∈ slices size data) :
    0 < piece.length ∧ piece.length ≤ size := by
  obtain ⟨index, hindex, rfl⟩ := List.mem_iff_getElem.mp hpiece
  have hroom := (lt_ceilDiv_iff hsize).mp (slices_length size data ▸ hindex)
  rw [getElem_slices, slice_length]
  omega

theorem splitFixed_length (chunker : Chunker) (hdata : data.length < 2 ^ 63) :
    (chunker.splitFixed data).length = data.length ⌈/⌉ chunker.chunkSize.toNat := by
  rw [splitFixed_eq_slices chunker hdata, slices_length]

theorem toNat_chunkSize_pos (chunker : Chunker) : 0 < chunker.chunkSize.toNat :=
  UInt64.lt_iff_toNat_lt.mp chunker.chunkSize_pos

theorem estimateChunks_toNat (chunker : Chunker) {length : UInt64} (hlength : length.toNat < 2 ^ 63) :
    (chunker.estimateChunks length).toNat = max 1 (length.toNat ⌈/⌉ chunker.chunkSize.toNat) := by
  have hpos := chunker.toNat_chunkSize_pos
  have hword := chunker.chunkSize.toNat_lt
  have hsum : (length + chunker.chunkSize - 1).toNat =
      (length.toNat + chunker.chunkSize.toNat - 1) % 2 ^ 64 := by
    rw [UInt64.toNat_sub, UInt64.toNat_add, UInt64.toNat_one]
    omega
  rw [estimateChunks, UInt64.toNat_max, UInt64.toNat_div, hsum, UInt64.toNat_one]
  by_cases hfits : length.toNat + chunker.chunkSize.toNat - 1 < 2 ^ 64
  · rw [Nat.mod_eq_of_lt hfits, Nat.ceilDiv_eq_add_pred_div]
  · have hone : length.toNat ⌈/⌉ chunker.chunkSize.toNat ≤ 1 := by
      rw [ceilDiv_le_iff_le_mul hpos]
      omega
    rw [Nat.div_eq_of_lt (by omega), Nat.max_eq_left hone]
    rfl

/-- A payload is cut evenly into pieces of the chunk size. The loop over offsets passes from slice to
slice without wrapping around, and when it ends there are as many pieces as it takes to cover the
payload. -/
structure CutEvenly (chunker : Chunker) (data : Bytes) (pieces : List Bytes) : Prop where
  passes : ∀ index offset, Stands chunker.chunkSize data index offset →
    pieces = piecesFrom chunker.chunkSize data.length.toUInt64 offset chunker.chunkSize_pos
      ((List.range index).map (slice chunker.chunkSize.toNat data)).reverse (data.drop offset.toNat)
  unwrapped : ∀ index offset, Stands chunker.chunkSize data index offset →
    offset < data.length.toUInt64 →
      (offset + chunker.chunkSize).toNat = offset.toNat + chunker.chunkSize.toNat
  ends : ∃ offset, Stands chunker.chunkSize data pieces.length offset ∧
    ¬ offset < data.length.toUInt64
  count : pieces.length = data.length ⌈/⌉ chunker.chunkSize.toNat
  piece : ∀ index (hindex : index < pieces.length), pieces[index] =
    data.extract (index * chunker.chunkSize.toNat)
      (min ((index + 1) * chunker.chunkSize.toNat) data.length)
  full : ∀ piece ∈ pieces.dropLast, piece.length = chunker.chunkSize.toNat
  last : ∀ piece ∈ pieces.getLast?, 1 ≤ piece.length ∧ piece.length ≤ chunker.chunkSize.toNat

theorem splitFixed_cutEvenly (chunker : Chunker) (hdata : data.length < 2 ^ 63) :
    CutEvenly chunker data (chunker.splitFixed data) := by
  have hpos := chunker.toNat_chunkSize_pos
  have hslices := splitFixed_eq_slices chunker hdata
  refine ⟨?passes, ?unwrapped, ?ends, splitFixed_length chunker hdata, ?piece, ?full, ?last⟩
  case passes =>
    intro index offset hstands
    exact hstands.piecesFrom_eq chunker.chunkSize_pos hdata
  case unwrapped =>
    intro index offset hstands hmore
    exact (hstands.landed hdata).toNat_add hdata hmore
  case ends =>
    obtain ⟨offset, hstands, hend⟩ := (splitFixed_spec chunker hdata).exists_end .front
    rw [Nat.zero_add] at hstands
    exact ⟨offset, hstands, hend⟩
  case piece =>
    intro index hindex
    simp only [hslices, getElem_slices]
    exact slice_eq_extract _ _ _
  case full =>
    intro piece hpiece
    rw [hslices] at hpiece
    exact slice_full hpos hpiece
  case last =>
    intro piece hpiece
    rw [hslices] at hpiece
    exact slice_of_mem hpos (List.mem_of_getLast? hpiece)

/-- Pieces of fixed size have the shape that their estimate says, for every chunk size and in spite of
sums in words: the loop over offsets ends without wrapping around, the pieces are the slices of the
payload one by one, and the estimate is their number, or one for an empty payload, which has none. -/
theorem estimate_counts_pieces (chunker : Chunker) {data : Bytes} (hdata : data.length < 2 ^ 63) :
    CutEvenly chunker data (chunker.splitFixed data) ∧
      (data ≠ [] → (chunker.splitFixed data).length =
        (chunker.estimateChunks data.length.toUInt64).toNat) ∧
      (data = [] → chunker.splitFixed data = [] ∧
        chunker.estimateChunks data.length.toUInt64 = 1) := by
  have hlength := toNat_length hdata
  have hestimate := estimateChunks_toNat chunker (hlength ▸ hdata)
  rw [hlength, ← splitFixed_length chunker hdata] at hestimate
  refine ⟨splitFixed_cutEvenly chunker hdata, fun hsome => ?_, fun hnone => ?_⟩
  · have hpieces : 0 < (chunker.splitFixed data).length := by
      rw [splitFixed_length chunker hdata, lt_ceilDiv_iff chunker.toNat_chunkSize_pos, Nat.zero_mul]
      exact List.length_pos_iff.mpr hsome
    rw [hestimate, Nat.max_eq_right hpieces]
  · have hpieces := (splitFixed_lossless chunker hdata).none_of_empty hnone
    refine ⟨hpieces, UInt64.toNat_inj.mp ?_⟩
    rw [hestimate, hpieces]
    rfl

/-- With the greatest chunk size the sum wraps around from two bytes on, and the estimate is right still. -/
theorem estimate_counts_pieces_wrapping :
    ∃ chunker : Chunker, (3 : UInt64) + chunker.chunkSize - 1 = 1 ∧
      CutEvenly chunker [7, 8, 9] (chunker.splitFixed [7, 8, 9]) ∧
      (chunker.splitFixed [7, 8, 9]).length = 1 ∧
      (chunker.splitFixed [7, 8, 9]).length = (chunker.estimateChunks 3).toNat := by
  let chunker : Chunker := { chunkSize := 18446744073709551615 }
  obtain ⟨hcut, hcount, _⟩ := @estimate_counts_pieces chunker [7, 8, 9] (by decide)
  exact ⟨chunker, by decide, hcut, hcut.count.trans (by decide), hcount (by decide)⟩

theorem le_ceilDiv_of_le_div {size length target : Nat} (hsize : 0 < size)
    (hle : size ≤ length / target) : target ≤ length ⌈/⌉ size := by
  cases target with
  | zero => exact Nat.zero_le _
  | succ target =>
    have hroom := (Nat.le_div_iff_mul_le target.succ_pos).mp hle
    rw [Nat.succ_le_iff, lt_ceilDiv_iff hsize]
    have hfirst : target * size < size * (target + 1) := by
      rw [Nat.mul_comm target, Nat.mul_succ]
      exact Nat.lt_add_of_pos_right hsize
    exact hfirst.trans_le hroom

/-- The greatest such size leaves less than one byte for each piece, so that the rest makes fewer pieces
than the target has. -/
theorem ceilDiv_div_le {length target : Nat} (htarget : 0 < target) (hsize : 0 < length / target) :
    length ⌈/⌉ (length / target) ≤ 2 * target - 1 := by
  rw [ceilDiv_le_iff_le_mul hsize]
  have hrest := Nat.lt_mul_div_succ length htarget
  have hpieces : target - 1 ≤ length / target * (target - 1) := Nat.le_mul_of_pos_left _ hsize
  have hsplit : 2 * target - 1 = target + (target - 1) := by omega
  rw [Nat.mul_succ, Nat.mul_comm target] at hrest
  rw [hsplit, Nat.mul_add]
  omega

theorem suggestSize_spec (chunker : Chunker) (length : UInt64) {target : UInt64}
    (htarget : 0 < target.toNat) :
    ∃ suggested, chunker.suggestSize length target = .ok suggested ∧
      suggested.toNat =
        max chunker.minSize.toNat (min (length.toNat / target.toNat) chunker.maxSize.toNat) := by
  have hne : target ≠ 0 := by
    rintro rfl
    exact Nat.lt_irrefl 0 htarget
  refine ⟨_, if_neg hne, ?_⟩
  rw [UInt64.toNat_max, UInt64.toNat_min, UInt64.toNat_div]

theorem suggestSize_le (chunker : Chunker) {length longer target fewer suggested : UInt64}
    (hsuggested : suggested.toNat =
      max chunker.minSize.toNat (min (length.toNat / target.toNat) chunker.maxSize.toNat))
    (hfewer : 0 < fewer.toNat) (hle : length.toNat / target.toNat ≤ longer.toNat / fewer.toNat) :
    ∃ other, chunker.suggestSize longer fewer = .ok other ∧ suggested ≤ other := by
  obtain ⟨other, hother, hvalue⟩ := suggestSize_spec chunker longer hfewer
  refine ⟨other, hother, UInt64.le_iff_toNat_le.mpr ?_⟩
  rw [hsuggested, hvalue]
  exact max_le_max le_rfl (min_le_min_right _ hle)

/-- The size that is suggested for a number of pieces lies between the bounds. It grows with the length
and shrinks with the number. A payload of that length cut into pieces of that size has at least as many as
asked where the size does not exceed the length divided by the number, and fewer than twice as many where
it is that quotient. -/
theorem suggestion_meets_target (chunker : Chunker) {length target : UInt64}
    (hlength : length.toNat < 2 ^ 63) (htarget : 1 ≤ target) :
    ∃ suggested, chunker.suggestSize length target = .ok suggested ∧
      chunker.minSize ≤ suggested ∧ suggested ≤ chunker.maxSize ∧
      (∀ longer, length ≤ longer → ∃ other,
        chunker.suggestSize longer target = .ok other ∧ suggested ≤ other) ∧
      (∀ more, target ≤ more → ∃ other,
        chunker.suggestSize length more = .ok other ∧ other ≤ suggested) ∧
      ∀ (cutter : Chunker) (data : Bytes), cutter.chunkSize = suggested → data.length = length.toNat →
        (suggested ≤ length / target → target.toNat ≤ (cutter.splitFixed data).length) ∧
        (suggested = length / target → target.toNat ≤ (cutter.splitFixed data).length ∧
          (cutter.splitFixed data).length ≤ 2 * target.toNat - 1) := by
  have hpos : 0 < target.toNat := UInt64.le_iff_toNat_le.mp htarget
  have hbounds := UInt64.le_iff_toNat_le.mp chunker.min_le_max
  obtain ⟨suggested, hsuggested, hvalue⟩ := suggestSize_spec chunker length hpos
  refine ⟨suggested, hsuggested, ?least, ?greatest, ?longer, ?more, ?pieces⟩
  case least =>
    rw [UInt64.le_iff_toNat_le, hvalue]
    exact le_max_left _ _
  case greatest =>
    rw [UInt64.le_iff_toNat_le, hvalue]
    exact max_le hbounds (min_le_right _ _)
  case longer =>
    intro longer hlonger
    refine suggestSize_le chunker hvalue hpos (Nat.div_le_div_right ?_)
    exact UInt64.le_iff_toNat_le.mp hlonger
  case more =>
    intro more hmore
    have hmore := UInt64.le_iff_toNat_le.mp hmore
    obtain ⟨other, hother, hless⟩ := suggestSize_spec chunker length (hpos.trans_le hmore)
    obtain ⟨same, hsame, hle⟩ := suggestSize_le chunker hless hpos (Nat.div_le_div_left hmore hpos)
    cases hsuggested.symm.trans hsame
    exact ⟨other, hother, hle⟩
  case pieces =>
    intro cutter data hcutter hdata
    have hcut := splitFixed_length cutter (hdata ▸ hlength)
    have hsize := cutter.toNat_chunkSize_pos
    rw [hcutter, hdata] at hcut
    rw [hcutter] at hsize
    have henough : suggested ≤ length / target → target.toNat ≤ (cutter.splitFixed data).length := by
      intro hle
      rw [UInt64.le_iff_toNat_le, UInt64.toNat_div] at hle
      rw [hcut]
      exact le_ceilDiv_of_le_div hsize hle
    refine ⟨henough, fun hquotient => ⟨henough (UInt64.le_of_eq hquotient), ?_⟩⟩
    rw [hquotient, UInt64.toNat_div] at hsize hcut
    rw [hcut]
    exact ceilDiv_div_le hpos hsize

/-- Where fifteen bytes are to make eight pieces, the quotient is one, and there are all the pieces that
there can be. -/
theorem suggestion_meets_target_fifteen :
    ∃ chunker cutter : Chunker, chunker.suggestSize 15 8 = .ok cutter.chunkSize ∧
      8 ≤ (cutter.splitFixed (List.replicate 15 7)).length ∧
      (cutter.splitFixed (List.replicate 15 7)).length ≤ 2 * 8 - 1 := by
  let chunker : Chunker := { minSize := 1, maxSize := 4 }
  let cutter : Chunker := { chunkSize := 1 }
  obtain ⟨suggested, hsuggested, _, _, _, _, hpieces⟩ :=
    @suggestion_meets_target chunker 15 8 (by decide) (by decide)
  have hone : chunker.suggestSize 15 8 = .ok cutter.chunkSize := rfl
  cases hsuggested.symm.trans hone
  exact ⟨chunker, cutter, hone, (hpieces cutter (List.replicate 15 7) rfl rfl).2 rfl⟩

end Offload.Chunker
