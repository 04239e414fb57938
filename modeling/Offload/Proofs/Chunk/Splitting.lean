import Mathlib.Algebra.Group.Nat.Defs
import Offload.Chunk.Chunker
import Offload.Proofs.Chunk.Packing

namespace Offload.Chunker

/-- The loop over offsets: while the offset is below the length of the payload, a piece is taken there
and the offset moves on by the size, modulo 2⁶⁴. -/
inductive Pieces (size : UInt64) (data : Bytes) : UInt64 → List Bytes → Prop
  | done {offset : UInt64} (hend : ¬ offset < data.length.toUInt64) : Pieces size data offset []
  | piece {offset : UInt64} {rest : List Bytes} (hmore : offset < data.length.toUInt64)
    (hrest : Pieces size data (offset + size) rest) :
    Pieces size data offset ((data.drop offset.toNat).take size.toNat :: rest)

/-- Where the loop can stand: at the front, or behind at least one piece. -/
def Landed (size offset : UInt64) : Prop := offset = 0 ∨ size ≤ offset

variable {size offset : UInt64} {data : Bytes}

theorem toNat_length (hdata : data.length < 2 ^ 63) : data.length.toUInt64.toNat = data.length := by
  rw [Nat.toUInt64_eq, UInt64.toNat_ofNat']
  omega

theorem Landed.toNat_add (hlanded : Landed size offset) (hdata : data.length < 2 ^ 63)
    (hmore : offset < data.length.toUInt64) :
    (offset + size).toNat = offset.toNat + size.toNat := by
  have hsize := size.toNat_lt
  rw [UInt64.lt_iff_toNat_lt, toNat_length hdata] at hmore
  rw [UInt64.toNat_add, Nat.mod_eq_of_lt]
  rcases hlanded with rfl | hlanded
  · simpa using hsize
  · rw [UInt64.le_iff_toNat_le] at hlanded
    omega

theorem Landed.add (hlanded : Landed size offset) (hdata : data.length < 2 ^ 63)
    (hmore : offset < data.length.toUInt64) : Landed size (offset + size) := by
  refine .inr (UInt64.le_iff_toNat_le.mpr ?_)
  rw [hlanded.toNat_add hdata hmore]
  exact Nat.le_add_left _ _

theorem drop_eq_nil_iff (hdata : data.length < 2 ^ 63) :
    data.drop offset.toNat = [] ↔ ¬ offset < data.length.toUInt64 := by
  rw [List.drop_eq_nil_iff, UInt64.lt_iff_toNat_lt, toNat_length hdata, Nat.not_lt]

/-- The pieces of fixed size are those of the loop over offsets, from wherever it stands. -/
theorem piecesFrom_spec (hsize : 0 < size) (hdata : data.length < 2 ^ 63) (hlanded : Landed size offset)
    (done : List Bytes) {rest : Bytes} (hrest : data.drop offset.toNat = rest) :
    ∃ pieces, piecesFrom size data.length.toUInt64 offset hsize done rest = done.reverse ++ pieces ∧
      Pieces size data offset pieces := by
  induction hlength : rest.length using Nat.strongRecOn generalizing offset done rest with
  | _ length ih =>
    rw [piecesFrom]
    split
    · next hmore =>
      have hnext := hlanded.toNat_add hdata hmore.2
      have hdrop : data.drop (offset + size).toNat = rest.drop size.toNat := by
        rw [hnext, ← hrest, List.drop_drop]
      have hshorter : (rest.drop size.toNat).length < length := by
        have hpos : 0 < size.toNat := by simpa [UInt64.lt_iff_toNat_lt] using hsize
        have hrest := List.length_pos_iff.mpr hmore.1
        rw [List.length_drop]
        omega
      obtain ⟨pieces, hpieces, hloop⟩ :=
        ih _ hshorter (hlanded.add hdata hmore.2) (rest.take size.toNat :: done) hdrop rfl
      refine ⟨rest.take size.toNat :: pieces, by simp [hpieces], ?_⟩
      rw [← hrest]
      exact .piece hmore.2 hloop
    · next hend =>
      refine ⟨[], (List.append_nil _).symm, .done fun hmore => hend ⟨?_, hmore⟩⟩
      rw [← hrest]
      exact fun hnil => (drop_eq_nil_iff hdata).mp hnil hmore

theorem splitFixed_spec (chunker : Chunker) (hdata : data.length < 2 ^ 63) :
    Pieces chunker.chunkSize data 0 (chunker.splitFixed data) := by
  have hfront : data.drop (0 : UInt64).toNat = data := rfl
  obtain ⟨pieces, hpieces, hloop⟩ := piecesFrom_spec chunker.chunkSize_pos hdata (.inl rfl) [] hfront
  rw [splitFixed, hpieces]
  exact hloop

namespace Pieces

variable {pieces : List Bytes}

theorem flatten (hpieces : Pieces size data offset pieces) (hdata : data.length < 2 ^ 63)
    (hlanded : Landed size offset) : pieces.flatten = data.drop offset.toNat := by
  induction hpieces with
  | done hend => exact ((drop_eq_nil_iff hdata).mpr hend).symm
  | piece hmore _ ih =>
    rw [List.flatten_cons, ih (hlanded.add hdata hmore), hlanded.toNat_add hdata hmore,
      ← List.drop_drop, List.take_append_drop]

theorem ne_nil (hpieces : Pieces size data offset pieces) (hdata : data.length < 2 ^ 63)
    (hsize : 0 < size) : [] ∉ pieces := by
  induction hpieces with
  | done => exact List.not_mem_nil
  | piece hmore _ ih =>
    have hpos : size.toNat ≠ 0 := by simpa [UInt64.lt_iff_toNat_lt, Nat.pos_iff_ne_zero] using hsize
    have hdrop := mt (drop_eq_nil_iff hdata).mp (not_not_intro hmore)
    simp only [List.mem_cons, not_or]
    refine ⟨fun hnil => ?_, ih⟩
    rcases List.take_eq_nil_iff.mp hnil.symm with hzero | hnil
    · exact hpos hzero
    · exact hdrop hnil

end Pieces

/-- The chunks make up the payload and pass the check against its hash. None of them is empty, so that
an empty payload has none. -/
structure Lossless (data : Bytes) (chunks : List Bytes) : Prop where
  merged : merge chunks = data
  nonempty : [] ∉ chunks
  none_of_empty : data = [] → chunks = []
  intact : verifyIntegrity chunks (Digest.sha256Hex data) = ⟨true, []⟩

theorem Lossless.of_flatten {chunks : List Bytes} (hflatten : chunks.flatten = data)
    (hnonempty : [] ∉ chunks) : Lossless data chunks := by
  have hmerged : merge chunks = data := hflatten
  refine ⟨hmerged, hnonempty, fun hempty => ?_, ?_⟩
  · rw [hempty, List.flatten_eq_nil_iff] at hflatten
    refine List.eq_nil_iff_forall_not_mem.mpr fun chunk hchunk => hnonempty ?_
    rw [← hflatten chunk hchunk]
    exact hchunk
  · rw [verifyIntegrity, hmerged]
    exact if_pos rfl

variable (chunker : Chunker)

theorem splitFixed_lossless (hdata : data.length < 2 ^ 63) :
    Lossless data (chunker.splitFixed data) := by
  have hpieces := splitFixed_spec chunker hdata
  exact .of_flatten (hpieces.flatten hdata (.inl rfl)) (hpieces.ne_nil hdata chunker.chunkSize_pos)

theorem packing_lossless {delimiter : Bytes} (hdelimiter : delimiter ≠ []) (limit : Nat)
    (data : Bytes) : Lossless data (Packing.chunks limit delimiter data) :=
  .of_flatten (Packing.chunks_flatten hdelimiter limit data)
    (Packing.chunks_ne_nil hdelimiter limit data)

theorem splitAs_lossless (strategy : Strategy) (hdata : data.length < 2 ^ 63) :
    Lossless data (chunker.splitAs strategy data) := by
  have hfixed := splitFixed_lossless chunker hdata
  have hlines : Lossless data (chunker.splitLines data) :=
    packing_lossless (List.cons_ne_nil _ _) _ data
  cases strategy with
  | fixedSize => exact hfixed
  | lineBased => exact hlines
  | recordBased => exact packing_lossless chunker.delimiter_ne _ data
  | adaptive =>
    rw [splitAs, splitAdaptive]
    split
    · exact hlines
    · exact hfixed

theorem make_eq_ok {size least greatest : UInt64} {strategy : Strategy} {delimiter : Bytes}
    (hsize : 0 < size) (hbounds : least ≤ greatest) (hdelimiter : delimiter ≠ []) :
    make size least greatest strategy delimiter =
      .ok ⟨size, least, greatest, strategy, delimiter, hsize, hbounds, hdelimiter⟩ := by
  rw [make, dif_pos hsize, dif_pos hbounds, dif_pos hdelimiter]

/-- Splitting is lossless. Every chunk size but zero, all bounds in order and every delimiter but the
empty one make a chunker; its own strategy, any strategy given as a number, and any delimiter of records
given to it cut a payload into chunks that lose nothing. The loop over offsets comes to its end although
its offsets are words. -/
theorem split_lossless {size least greatest : UInt64} (strategy : Strategy) {delimiter : Bytes}
    (hsize : 0 < size) (hbounds : least ≤ greatest) (hdelimiter : delimiter ≠ []) {data : Bytes}
    (hdata : data.length < 2 ^ 63) :
    ∃ chunker, make size least greatest strategy delimiter = .ok chunker ∧
      Lossless data (chunker.split data) ∧
      (∀ code : Int, Lossless data (chunker.splitAs (.ofCode code) data)) ∧
      (∀ other, other ≠ [] → ∃ chunks,
        chunker.splitRecordsBy other data = .ok chunks ∧ Lossless data chunks) ∧
      Pieces size data 0 (chunker.splitFixed data) := by
  refine ⟨_, make_eq_ok hsize hbounds hdelimiter, splitAs_lossless _ _ hdata, ?_, ?_, ?_⟩
  · intro code
    exact splitAs_lossless _ _ hdata
  · intro other hother
    refine ⟨_, ?_, packing_lossless hother size.toNat data⟩
    rw [splitRecordsBy, if_neg hother]
  · exact splitFixed_spec ⟨size, least, greatest, strategy, delimiter, hsize, hbounds, hdelimiter⟩ hdata

theorem split_lossless_overlapping :
    ∃ chunker, make 2 1 3 .recordBased [7, 7] = .ok chunker ∧
      merge (chunker.split [7, 7, 7, 1, 7, 7]) = [7, 7, 7, 1, 7, 7] ∧
      merge (chunker.splitAs (.ofCode (-1)) [7, 7, 7, 1, 7, 7]) = [7, 7, 7, 1, 7, 7] := by
  obtain ⟨chunker, hmake, hsplit, hcode, _⟩ := @split_lossless 2 1 3 .recordBased [7, 7] (by decide)
    (by decide) (by decide) [7, 7, 7, 1, 7, 7] (by decide)
  exact ⟨chunker, hmake, hsplit.merged, (hcode (-1)).merged⟩

end Offload.Chunker
