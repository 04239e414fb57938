import Mathlib.Algebra.Group.Nat.Defs
import Offload.Chunk.Chunker
import Offload.Proofs.Base64.Accepted

namespace Offload

/-- A length keeps its value as a 32-bit word with a sign. -/
def FitsWord (length : Nat) : Prop := length.toInt32.toInt = length

theorem fitsWord_iff {length : Nat} : FitsWord length ↔ length < 2 ^ 31 := by
  rw [FitsWord, Nat.toInt32, Int32.toInt_ofNat', Int32.size, Int.bmod_def]
  omega

/-- A payload is sent as a text and read back. -/
structure SentAsText (write read : Bytes → Except Failure Bytes) (data text : Bytes) : Prop where
  payload_fits : FitsWord data.length
  text_fits : FitsWord text.length
  write_eq : write data = .ok text
  length_eq : text.length = 4 * ((data.length + 2) / 3)
  shape : ∃ digits pads, text = digits ++ pads ∧ (∀ c ∈ digits, c ∈ Base64.alphabet) ∧
    (∀ c ∈ pads, c = Base64.padMark) ∧ pads.length ≤ 2
  read_write : read text = .ok data

theorem Base64.sentAsText {data : Bytes} (hsize : data.length ≤ 1610612733) :
    SentAsText Base64.encode Base64.decode data (Base64.text data) where
  payload_fits := fitsWord_iff.mpr (by omega)
  text_fits := fitsWord_iff.mpr (Base64.text_length_lt hsize)
  write_eq := Base64.encode_eq_text hsize
  length_eq := by rw [Base64.text_eq hsize, Base64.write_length]
  shape := by
    obtain ⟨digits, hdigits, htext⟩ := Base64.write_shape data
    rw [Base64.text_eq hsize]
    refine ⟨_, _, htext, ?_, fun c hc => List.eq_of_mem_replicate hc, ?_⟩
    · simp only [List.forall_mem_map]
      exact fun n hn => Base64.digitChar_mem_alphabet (hdigits n hn)
    · rw [List.length_replicate, Base64.shortfall]
      omega
  read_write := Base64.decode_text hsize

/-- What is sent is the base64 text of the payload, and it is read back as the payload. -/
theorem Chunker.transmission_faithful {data : Bytes} (hsize : data.length ≤ 1610612733) :
    ∃ text, SentAsText Base64.encode Base64.decode data text ∧
      SentAsText encodeForTransmission decodeFromTransmission data text :=
  ⟨Base64.text data, Base64.sentAsText hsize, Base64.sentAsText hsize⟩

/-- A payload that ends in zeros keeps them, although the pad mark is read as a zero, too. -/
theorem Chunker.transmission_faithful_zeros :
    Base64.encode [0, 0] = .ok (utf8 "AAA=") ∧
      ∃ text, SentAsText Base64.encode Base64.decode [0, 0] text ∧
        SentAsText encodeForTransmission decodeFromTransmission [0, 0] text :=
  ⟨by decide +kernel, transmission_faithful (by decide)⟩

end Offload
