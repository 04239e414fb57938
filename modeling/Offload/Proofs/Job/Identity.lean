import Mathlib.Data.List.Basic
import Offload.Job.Identity
import Offload.Proofs.Digest.Stream

namespace Offload

namespace Identity

theorem make_eq (name input : Bytes) :
    make name input = utf8 "job-" ++ (Digest.sha256Hex (digested name input)).take 16 := by
  have htaken := (Digest.Stream.holds_empty.append (digested name input)).hexDigest
  rw [digested, List.foldl_append, List.nil_append, ← digested] at htaken
  rw [make, htaken]

theorem make_eq_iff {name input other otherInput : Bytes} :
    make name input = make other otherInput ↔
      (Digest.sha256Hex (digested name input)).take 16 =
        (Digest.sha256Hex (digested other otherInput)).take 16 := by
  rw [make_eq, make_eq, List.append_cancel_left_eq]

/-- The other name goes on behind this one, with bytes that this name's input begins with; what comes
next in this input is the front of the other one. -/
def RunsInto (name input other otherInput : Bytes) : Prop :=
  ∃ moved, moved ≠ [] ∧ other = name ++ moved ∧
    input.take prefixLength = moved ++ otherInput.take prefixLength

/-- Two pairs are digested as the same text just if they are the same as far as inputs take part, or if
one of the names runs into its input. -/
theorem digested_eq_iff {name input other otherInput : Bytes} :
    digested name input = digested other otherInput ↔
      name = other ∧ input.take prefixLength = otherInput.take prefixLength ∨
        RunsInto name input other otherInput ∨ RunsInto other otherInput name input := by
  constructor
  · intro hsame
    rcases List.append_eq_append_iff.mp hsame with ⟨moved, hname, hinput⟩ | ⟨moved, hname, hinput⟩
    · by_cases hempty : moved = []
      · subst hempty
        exact .inl ⟨by simpa using hname.symm, hinput⟩
      · exact .inr (.inl ⟨moved, hempty, hname, hinput⟩)
    · by_cases hempty : moved = []
      · subst hempty
        exact .inl ⟨by simpa using hname, hinput.symm⟩
      · exact .inr (.inr ⟨moved, hempty, hname, hinput⟩)
  · rintro (⟨rfl, hinput⟩ | ⟨moved, _, rfl, hinput⟩ | ⟨moved, _, rfl, hinput⟩)
    · rw [digested, digested, hinput]
    · rw [digested, digested, hinput, List.append_assoc]
    · rw [digested, digested, hinput, List.append_assoc]

theorem RunsInto.length_lt {name input other otherInput : Bytes}
    (hruns : RunsInto name input other otherInput) : name.length < other.length := by
  obtain ⟨moved, hmoved, rfl, _⟩ := hruns
  have hpos := List.length_pos_iff.mpr hmoved
  rw [List.length_append]
  omega

end Identity

namespace Digest

/-- A digest does not depend on how its message is cut. Any pieces, whole blocks or not, are taken one
after the other, and what is read off then is the digest of their concatenation, as 64 hexadecimal digits
in lower case; after that no piece is taken, not even an empty one. So the identity of a job is made of
the digest of its name and the first 1024 bytes of its input, and what comes behind these plays no part. -/
theorem pieces_immaterial (pieces : List Bytes) :
    (∃ stream, Stream.updateAll {} pieces = .ok stream ∧
        stream.hexDigest.1 = sha256Hex pieces.flatten ∧
        (sha256Hex pieces.flatten).length = 64 ∧
        (∀ digit ∈ sha256Hex pieces.flatten, digit ∈ utf8 "0123456789abcdef") ∧
        ∀ piece, stream.hexDigest.2.update piece = .error .digestFinished) ∧
      Failure.digestFinished.kind = .state ∧
      (∀ name input, Identity.make name input =
        utf8 "job-" ++ (sha256Hex (name ++ input.take 1024)).take 16) ∧
      ∀ name input other, input.take 1024 = other.take 1024 →
        Identity.make name input = Identity.make name other := by
  refine ⟨⟨_, Stream.updateAll_eq rfl pieces, ?_, length_sha256Hex _, fun _ => mem_hex,
    Stream.update_hexDigest _⟩, rfl, Identity.make_eq, ?_⟩
  · exact (Stream.holds_empty.append pieces.flatten).hexDigest
  · intro name input other hfront
    rw [Identity.make_eq, Identity.make_eq, Identity.digested, Identity.digested, Identity.prefixLength,
      hfront]

/-- A message in three pieces, one of them empty; and two inputs that differ behind the front. -/
theorem pieces_immaterial_abc :
    (∃ stream, Stream.updateAll {} [utf8 "a", [], utf8 "bc"] = .ok stream ∧
        stream.hexDigest.1 = sha256Hex (utf8 "abc")) ∧
      (List.replicate 1024 112 ++ utf8 "one").take 1024 =
        (List.replicate 1024 112 ++ utf8 "two").take 1024 ∧
      Identity.make (utf8 "big") (List.replicate 1024 112 ++ utf8 "one") =
        Identity.make (utf8 "big") (List.replicate 1024 112 ++ utf8 "two") := by
  have hfront : (List.replicate 1024 112 ++ utf8 "one").take 1024 =
      (List.replicate 1024 112 ++ utf8 "two").take 1024 := by
    rw [List.take_left' List.length_replicate, List.take_left' List.length_replicate]
  obtain ⟨⟨stream, htaken, hdigest, _⟩, _, _, hsame⟩ := pieces_immaterial [utf8 "a", [], utf8 "bc"]
  exact ⟨⟨stream, htaken, hdigest⟩, hfront, hsame _ _ _ hfront⟩

end Digest

end Offload
