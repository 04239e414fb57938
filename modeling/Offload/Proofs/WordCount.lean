import Mathlib.Algebra.GroupWithZero.Nat
import Mathlib.Data.List.TakeWhile
import Offload.Proofs.Chunk.Splitting
import Offload.Proofs.Decimal
import Offload.Proofs.Job.Work
import Offload.WordCount

namespace Offload.WordCount

/-- The maximal runs of bytes that are no white space. -/
def words (text : Bytes) : List Bytes := (text.splitOnP isSpace).filter (· ≠ [])

/-- The words that begin in a text, behind a byte that belongs to a word or not. -/
def begun (inWord : Bool) (text : Bytes) : List Bytes :=
  if inWord then (text.splitOnP isSpace).tail.filter (· ≠ []) else words text

theorem begun_cons (inWord : Bool) (b : UInt8) (rest : Bytes) :
    (begun inWord (b :: rest)).length =
      if isSpace b then (begun false rest).length
      else (begun true rest).length + if inWord then 0 else 1 := by
  obtain ⟨first, others, hrest⟩ := List.exists_cons_of_ne_nil (rest.splitOnP_ne_nil isSpace)
  simp only [begun, words, List.splitOnP_cons_eq_if_modifyHead, hrest]
  cases isSpace b <;> cases inWord <;> simp

theorem countFrom_eq (inWord : Bool) (n : Nat) (text : Bytes) :
    countFrom inWord n text = n + (begun inWord text).length := by
  induction text generalizing inWord n with
  | nil => cases inWord <;> rfl
  | cons b rest ih =>
    rw [countFrom, begun_cons]
    split
    · exact ih false n
    · rw [ih]
      cases inWord
      · exact (Nat.add_assoc n 1 _).trans (congrArg (n + ·) (Nat.add_comm 1 _))
      · rfl

theorem count_eq (text : Bytes) : count text = (words text).length := by
  rw [count, countFrom_eq, Nat.zero_add]
  rfl

theorem count_le_length (text : Bytes) : count text ≤ text.length := by
  have hbegun : ∀ inWord, (begun inWord text).length ≤ text.length := by
    induction text with
    | nil => exact fun inWord => by cases inWord <;> exact Nat.le_refl 0
    | cons b rest ih =>
      intro inWord
      have hfalse := ih false
      have htrue := ih true
      rw [begun_cons, List.length_cons]
      split
      · omega
      · split <;> omega
  rw [count, countFrom_eq, Nat.zero_add]
  exact hbegun false

theorem count_append_space {b : UInt8} (hspace : isSpace b = true) (front back : Bytes) :
    count (front ++ b :: back) = count (front ++ [b]) + count back := by
  have hbegun : ∀ inWord, (begun inWord (front ++ b :: back)).length =
      (begun inWord (front ++ [b])).length + (begun false back).length := by
    induction front with
    | nil =>
      intro inWord
      rw [List.nil_append, List.nil_append, begun_cons, begun_cons, if_pos hspace, if_pos hspace]
      exact (Nat.zero_add _).symm
    | cons c front ih =>
      intro inWord
      rw [List.cons_append, List.cons_append, begun_cons, begun_cons, ih, ih]
      split
      · rfl
      · omega
  have hwhole := hbegun false
  simp only [count, countFrom_eq, Nat.zero_add]
  exact hwhole

/-- Texts of which all but the last end with a newline have as many words together as one by one. -/
theorem sum_count_of_isChain {texts : List Bytes}
    (hlines : texts.IsChain fun text _ => [Chunker.newline] <:+ text) :
    (texts.map count).sum = count texts.flatten := by
  induction texts with
  | nil => rfl
  | cons text rest ih =>
    rw [List.map_cons, List.sum_cons, ih hlines.tail]
    cases rest with
    | nil => simp [count, countFrom]
    | cons next rest =>
      obtain ⟨front, rfl⟩ := hlines.rel
      calc count (front ++ [Chunker.newline]) + count (next :: rest).flatten
          = count (front ++ Chunker.newline :: (next :: rest).flatten) :=
            (count_append_space (by decide) front _).symm
        _ = count ((front ++ [Chunker.newline]) :: next :: rest).flatten := by simp

/-- Chunks of whole lines divide no word, whatever their size. -/
theorem sum_count_splitLines (chunker : Chunker) (data : Bytes) :
    ((chunker.splitLines data).map count).sum = count data := by
  have hnewline : [Chunker.newline] ≠ [] := List.cons_ne_nil _ _
  rw [Chunker.splitLines, sum_count_of_isChain (Packing.chunks_delimited hnewline _ data),
    Packing.chunks_flatten hnewline]

theorem isSpace_of_isDigit {b : UInt8} (hdigit : Bytes.isDigit b = true) : isSpace b = false := by
  simp only [Bytes.isDigit, Bool.and_eq_true, decide_eq_true_eq, UInt8.le_iff_toNat_le,
    UInt8.reduceToNat] at hdigit
  simp only [isSpace, Bool.or_eq_false_iff, Bool.and_eq_false_iff, decide_eq_false_iff_not,
    UInt8.le_iff_toNat_le, ← UInt8.toNat_inj, UInt8.reduceToNat]
  omega

theorem readNumber_decimal {n : Nat} (hn : n < UInt64.size) :
    readNumber (Bytes.decimal n) = .ok n.toUInt64 := by
  obtain ⟨first, rest, hdecimal⟩ := List.exists_cons_of_ne_nil (Bytes.decimal_ne_nil n)
  have hdigits : ∀ b ∈ first :: rest, Bytes.isDigit b = true := by
    rw [← hdecimal]
    exact fun b hb => Bytes.isDigit_of_mem_decimal hb
  have hfirst := hdigits first List.mem_cons_self
  have hbody : (first :: rest).dropWhile isSpace = first :: rest := by
    rw [List.dropWhile_cons, isSpace_of_isDigit hfirst]
    rfl
  have hsign : first ≠ 43 ∧ first ≠ 45 := by
    constructor <;> rintro rfl <;> cases hfirst
  have hrun : (first :: rest).takeWhile Bytes.isDigit = first :: rest :=
    List.takeWhile_eq_self_iff.mpr hdigits
  have hvalue : Bytes.ofDigits (first :: rest) = n := by rw [← hdecimal, Bytes.ofDigits_decimal]
  simp only [readNumber, hdecimal, hbody, List.head?_cons, Option.some.injEq, hsign.1, hsign.2,
    or_self, if_false, hrun, hvalue, List.cons_ne_nil, if_neg (Nat.not_le.mpr hn)]

private theorem foldlM_decimal (counts : List Nat) (sum : Nat)
    (htotal : sum + counts.sum < UInt64.size) :
    (counts.map Bytes.decimal).foldlM
        (fun sum text => return sum + (← readNumber text)) sum.toUInt64 =
      (.ok (sum + counts.sum).toUInt64 : Except Failure UInt64) := by
  induction counts generalizing sum with
  | nil => rfl
  | cons n rest ih =>
    rw [List.sum_cons] at htotal ⊢
    have hn : n < UInt64.size := by omega
    rw [List.map_cons, List.foldlM_cons, readNumber_decimal hn]
    have hsum : sum.toUInt64 + n.toUInt64 = (sum + n).toUInt64 := by
      simp only [Nat.toUInt64_eq, UInt64.ofNat_add]
    rw [← Nat.add_assoc] at htotal ⊢
    rw [← ih (sum + n) htotal, ← hsum]
    rfl

theorem sumTexts_decimal {counts : List Nat} (htotal : counts.sum < UInt64.size) :
    sumTexts (counts.map Bytes.decimal) = .ok (Bytes.decimal counts.sum) := by
  have hloop := foldlM_decimal counts 0 (by rwa [Nat.zero_add])
  rw [Nat.zero_add] at hloop
  have hread : counts.sum.toUInt64.toNat = counts.sum := by
    rw [Nat.toUInt64_eq, UInt64.toNat_ofNat', Nat.mod_eq_of_lt htotal]
  conv_rhs => rw [← hread]
  rw [sumTexts]
  exact congrArg (fun total => total >>= fun total => pure (Bytes.decimal total.toNat)) hloop

/-- A direct run of the job tells the number of words of the input, in chunks of whatever size. -/
theorem job_run {lines : Chunker} (hlines : lines.strategy = .lineBased) (source : Bytes)
    {input : Bytes} (hinput : count input < UInt64.size) :
    ((job lines source).run input).outcome = .ok (countText input) := by
  have hsplit : ((job lines source).split input).outcome = .ok (lines.splitLines input) := by
    have hstrategy : lines.split input = lines.splitLines input := by
      rw [Chunker.split, hlines]
      rfl
    exact congrArg Except.ok hstrategy
  have hexecute := Work.forEach_ok (f := (job lines source).execute) (g := countText) (fun _ => rfl)
    (lines.splitLines input)
  have hsum := sum_count_splitLines lines input
  rw [← hsum] at hinput
  have hmerge := sumTexts_decimal hinput
  rw [List.map_map, hsum] at hmerge
  rw [Definition.run, Work.bind_ok _ hsplit, Work.bind_ok _ hexecute]
  exact hmerge

end Offload.WordCount
