import Mathlib.Algebra.Group.Nat.Defs
import Offload.Proofs.Base64.Accepted

namespace Offload.Base64

variable {text written : Bytes}

theorem length_le_room (hread : readGroups text = some written) :
    written.length ≤ 3 * text.length / 4 := by
  obtain ⟨front, core, back, hframes⟩ := exists_readGroups_iff.mp ⟨written, hread⟩
  have hcore : core.length ≤ text.length := by
    rw [hframes.split]
    simp only [List.length_append]
    omega
  rw [hframes.readGroups_length hread]
  omega

/-- What is read can be written: the codec is told of whole groups only. -/
theorem length_le_of_decode {data : Bytes} (hdecode : decode text = .ok data) :
    data.length ≤ 1610612733 := by
  obtain ⟨hgroups, written, hread, -, rfl⟩ := decode_eq_ok_iff_part.mp hdecode
  have hroom := length_le_room hread
  have hpart : (part text).length ≤ told text.length := List.length_take_le _ _
  have htold := told_lt text.length
  have htoldGroups := told_mod hgroups
  rw [List.length_take]
  omega

/-- The size of the result as a machine word, which would wrap below zero. -/
def resultSize (text written : Bytes) : UInt64 :=
  written.length.toUInt64 - (padCount text).toUInt64

/-- The word is the difference of the numbers: both fit, and the second is not the larger one. -/
theorem resultSize_toNat (hword : text.length < 2 ^ 31) (hread : readGroups text = some written) :
    (resultSize text written).toNat = written.length - padCount text := by
  have hsize : UInt64.size = 18446744073709551616 := rfl
  have hroom := length_le_room hread
  have hpads := padCount_le_of_readGroups hread
  have hwritten : written.length.toUInt64.toNat = written.length :=
    UInt64.toNat_ofNat_of_lt' (by omega)
  have htaken : (padCount text).toUInt64.toNat = padCount text :=
    UInt64.toNat_ofNat_of_lt' (by omega)
  have hle : (padCount text).toUInt64 ≤ written.length.toUInt64 := by
    rw [UInt64.le_iff_toNat_le, hwritten, htaken]
    exact hpads
  rw [resultSize, UInt64.toNat_sub_of_le _ _ hle, hwritten, htaken]

/-- The size of the result never wraps. Whatever stands around the digits and wherever pad marks stand, a
text shorter than 2^31 characters of which the groups are read gives at least as many bytes as are taken
off again, a whole group if any are. So the word that the result is cut to is the difference of the two
numbers, no larger than the room for the result, and what was read is cut to just so many bytes; a size
beyond that is never asked for. -/
theorem result_size_exact (text : Bytes) (hword : text.length < 2 ^ 31) :
    decode text ≠ .error .base64Overrun ∧
      ∀ written, text.length % 4 = 0 → readGroups text = some written →
        padCount text ≤ written.length ∧ (padCount text ≠ 0 → 3 ≤ written.length) ∧
        (resultSize text written).toNat = written.length - padCount text ∧
        (resultSize text written).toNat ≤ 3 * text.length / 4 ∧
        ∃ data, decode text = .ok data ∧ data = written.take (resultSize text written).toNat ∧
          data.length = (resultSize text written).toNat := by
  refine ⟨fun hoverrun => ?_, fun written hgroups hread => ?_⟩
  · rcases failure_of_decode hoverrun with hlength | hmalformed | ⟨-, hlong⟩
    · cases hlength
    · cases hmalformed
    · omega
  · have hroom := length_le_room hread
    have hsize := resultSize_toNat hword hread
    refine ⟨padCount_le_of_readGroups hread, three_le_of_padCount hread, hsize, by omega, ?_⟩
    refine ⟨_, (decode_eq_ok_iff hword).mpr ⟨hgroups, written, hread, rfl⟩, by rw [hsize], ?_⟩
    rw [List.length_take, hsize]
    omega

/-- Three pad marks fill a group and two of them are counted; the blanks are not read at all. -/
theorem result_size_exact_blanks :
    (utf8 "    T===").length < 2 ^ 31 ∧ (utf8 "    T===").length % 4 = 0 ∧
      readGroups (utf8 "    T===") = some [76, 0, 0] ∧
      ∃ data, decode (utf8 "    T===") = .ok data ∧
        data.length = (resultSize (utf8 "    T===") [76, 0, 0]).toNat := by
  have hword : (utf8 "    T===").length < 2 ^ 31 := by decide +kernel
  have hgroups : (utf8 "    T===").length % 4 = 0 := by decide +kernel
  have hread : readGroups (utf8 "    T===") = some [76, 0, 0] := by decide +kernel
  obtain ⟨_, _, _, _, data, hdecode, _, hlength⟩ := (result_size_exact _ hword).2 _ hgroups hread
  exact ⟨hword, hgroups, hread, data, hdecode, hlength⟩

end Offload.Base64
