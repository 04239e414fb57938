import Offload.Digest.Stream

namespace Offload.Digest

variable {bytes message : Bytes}

theorem compressBlocks_succ (n : Nat) (s : Words) (bytes : Bytes) :
    compressBlocks (n + 1) s bytes =
      compress (compressBlocks n s bytes) ((bytes.drop (64 * n)).take 64) := by
  induction n generalizing s bytes with
  | zero => rfl
  | succ n ih =>
    rw [compressBlocks, ih, List.drop_drop, compressBlocks, Nat.add_comm 64, ← Nat.mul_succ]

theorem compressBlocks_append {n : Nat} (hblocks : 64 * n ≤ bytes.length) (s : Words) (more : Bytes) :
    compressBlocks n s (bytes ++ more) = compressBlocks n s bytes := by
  induction n generalizing s bytes with
  | zero => rfl
  | succ n ih =>
    have hfirst : 64 ≤ bytes.length := by omega
    have hrest : 64 * n ≤ (bytes.drop 64).length := by
      rw [List.length_drop]
      omega
    rw [compressBlocks, compressBlocks, List.take_append_of_le_length hfirst,
      List.drop_append_of_le_length hfirst, ih hrest]

namespace Stream

variable {stream : Stream}

/-- The stream has taken the message: its whole blocks are compressed, and the bytes behind them are
pending. -/
structure Holds (stream : Stream) (message : Bytes) : Prop where
  length : stream.length = message.length
  words : stream.words = compressBlocks (message.length / 64) Words.initial message
  pending : stream.pending.reverse = message.drop (64 * (message.length / 64))

theorem holds_empty : Holds {} [] := ⟨rfl, rfl, rfl⟩

theorem Holds.push (hholds : Holds stream message) (byte : UInt8) :
    Holds (stream.push byte) (message ++ [byte]) := by
  obtain ⟨hlength, hwords, hpending⟩ := hholds
  have hwhole : 64 * (message.length / 64) ≤ message.length := Nat.mul_div_le _ _
  have hkept := compressBlocks_append hwhole Words.initial [byte]
  have hdrop : (message ++ [byte]).drop (64 * (message.length / 64)) =
      stream.pending.reverse ++ [byte] := by
    rw [List.drop_append_of_le_length hwhole, hpending]
  by_cases hlast : stream.length % 64 = 63
  · rw [Stream.push, if_pos hlast]
    have hblocks : (message ++ [byte]).length / 64 = message.length / 64 + 1 := by
      rw [List.length_append, List.length_singleton]
      omega
    have hblock : (stream.pending.reverse ++ [byte]).length = 64 := by
      rw [hpending, List.length_append, List.length_drop, List.length_singleton]
      omega
    refine ⟨by simp [hlength], ?_, ?_⟩
    · rw [hblocks, compressBlocks_succ, hkept, hdrop, List.take_of_length_le (Nat.le_of_eq hblock), ← hwords,
        List.reverse_cons]
    · rw [hblocks, Nat.mul_succ, ← List.drop_drop, hdrop, List.drop_eq_nil_of_le (Nat.le_of_eq hblock)]
      rfl
  · rw [Stream.push, if_neg hlast]
    have hblocks : (message ++ [byte]).length / 64 = message.length / 64 := by
      rw [List.length_append, List.length_singleton]
      omega
    refine ⟨by simp [hlength], ?_, ?_⟩
    · rw [hblocks, hkept, hwords]
    · rw [hblocks, hdrop, List.reverse_cons]

theorem Holds.append (hholds : Holds stream message) (piece : Bytes) :
    Holds (piece.foldl Stream.push stream) (message ++ piece) := by
  induction piece generalizing stream message with
  | nil => simpa using hholds
  | cons byte rest ih =>
    rw [List.foldl_cons, List.append_cons]
    exact ih (hholds.push byte)

theorem Holds.hexDigest (hholds : Holds stream message) : stream.hexDigest.1 = sha256Hex message := by
  have hpadded := (hholds.append (padding message.length)).words
  rw [Stream.hexDigest, hholds.length, hpadded, sha256Hex, finalWords]

theorem finished_foldl_push (piece : Bytes) :
    (piece.foldl push stream).finished = stream.finished := by
  induction piece generalizing stream with
  | nil => rfl
  | cons byte rest ih =>
    rw [List.foldl_cons, ih, push]
    split <;> rfl

theorem updateAll_eq (hopen : stream.finished = false) (pieces : List Bytes) :
    stream.updateAll pieces = .ok (pieces.flatten.foldl push stream) := by
  induction pieces generalizing stream with
  | nil => rfl
  | cons piece rest ih =>
    have hfirst : stream.update piece = .ok (piece.foldl push stream) := by
      rw [update, hopen]
      rfl
    have hrest := ih ((finished_foldl_push piece).trans hopen)
    rw [List.flatten_cons, List.foldl_append, ← hrest]
    exact congrArg (· >>= (updateAll · rest)) hfirst

theorem update_hexDigest (stream : Stream) (piece : Bytes) :
    stream.hexDigest.2.update piece = .error .digestFinished := rfl

end Stream

theorem hexDigit_mem {n : UInt8} (hn : n < 16) :
    Bytes.hexDigit 97 n ∈ utf8 "0123456789abcdef" := by
  have hall : ∀ i : Fin 16, Bytes.hexDigit 97 (UInt8.ofNat i) ∈ utf8 "0123456789abcdef" := by decide
  have hsmall : n.toNat < 16 := UInt8.lt_iff_toNat_lt.mp hn
  have hdigit := hall ⟨n.toNat, hsmall⟩
  rwa [UInt8.ofNat_toNat] at hdigit

theorem mem_hex {bytes : Bytes} {b : UInt8} (hmem : b ∈ Bytes.hex bytes) :
    b ∈ utf8 "0123456789abcdef" := by
  obtain ⟨byte, -, hdigit⟩ := List.mem_flatMap.mp hmem
  have hhigh : byte / 16 < 16 := by
    rw [UInt8.lt_iff_toNat_lt, UInt8.toNat_div]
    have := byte.toNat_lt
    change byte.toNat / 16 < 16
    omega
  have hlow : byte % 16 < 16 := by
    rw [UInt8.lt_iff_toNat_lt, UInt8.toNat_mod]
    exact Nat.mod_lt _ (by decide)
  rcases List.mem_cons.mp hdigit with rfl | hsecond
  · exact hexDigit_mem hhigh
  · rw [List.mem_singleton.mp hsecond]
    exact hexDigit_mem hlow

theorem length_hex (bytes : Bytes) : (Bytes.hex bytes).length = 2 * bytes.length := by
  induction bytes with
  | nil => rfl
  | cons byte rest ih =>
    rw [Bytes.hex, List.flatMap_cons, List.length_append, ← Bytes.hex, ih, List.length_cons]
    change 2 + 2 * rest.length = _
    omega

theorem length_sha256Hex (message : Bytes) : (sha256Hex message).length = 64 := by
  rw [sha256Hex, wordsHex, length_hex]
  rfl

example : sha256Hex (utf8 "abc") =
    utf8 "ba7816bf8f01cfea414140de5dae2223b00361a396177a9cb410ff61f20015ad" := by decide +kernel

end Offload.Digest
