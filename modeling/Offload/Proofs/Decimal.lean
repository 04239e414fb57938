import Offload.Bytes

namespace Offload.Bytes

theorem toNat_digit {n : Nat} (hn : n < 10) : (digit n).toNat = 48 + n := by
  simp only [digit, UInt8.toNat_add, Nat.toUInt8_eq, UInt8.toNat_ofNat', UInt8.reduceToNat]
  omega

theorem isDigit_digit {n : Nat} (hn : n < 10) : isDigit (digit n) = true := by
  have hdigit := toNat_digit hn
  simp only [isDigit, Bool.and_eq_true, decide_eq_true_eq, UInt8.le_iff_toNat_le, hdigit]
  exact ⟨Nat.le_add_right _ _, Nat.add_le_add_left (Nat.le_of_lt_succ hn) 48⟩

theorem digitValue_digit {n : Nat} (hn : n < 10) : digitValue (digit n) = n := by
  rw [digitValue, toNat_digit hn, Nat.add_sub_cancel_left]

theorem isDigit_of_mem_decimalOnto {tail : Bytes} (htail : ∀ b ∈ tail, isDigit b = true) (n : Nat) :
    ∀ b ∈ decimalOnto n tail, isDigit b = true := by
  fun_induction decimalOnto n tail with
  | case1 n tail hsmall => exact List.forall_mem_cons.mpr ⟨isDigit_digit hsmall, htail⟩
  | case2 n tail hlarge ih =>
    exact ih (List.forall_mem_cons.mpr ⟨isDigit_digit (Nat.mod_lt n (by decide)), htail⟩)

theorem isDigit_of_mem_decimal {n : Nat} {b : UInt8} (hb : b ∈ decimal n) : isDigit b = true :=
  isDigit_of_mem_decimalOnto (List.forall_mem_nil _) n b hb

theorem decimalOnto_ne_nil (n : Nat) (tail : Bytes) : decimalOnto n tail ≠ [] := by
  fun_induction decimalOnto n tail with
  | case1 n tail hsmall => exact List.cons_ne_nil _ _
  | case2 n tail hlarge ih => exact ih

theorem decimal_ne_nil (n : Nat) : decimal n ≠ [] := decimalOnto_ne_nil n []

theorem foldl_decimalOnto (n : Nat) (tail : Bytes) :
    (decimalOnto n tail).foldl (fun n b => 10 * n + digitValue b) 0 =
      tail.foldl (fun n b => 10 * n + digitValue b) n := by
  fun_induction decimalOnto n tail with
  | case1 n tail hsmall => rw [List.foldl_cons, digitValue_digit hsmall, Nat.mul_zero, Nat.zero_add]
  | case2 n tail hlarge ih =>
    rw [ih, List.foldl_cons, digitValue_digit (Nat.mod_lt n (by decide)), Nat.div_add_mod]

theorem ofDigits_decimal (n : Nat) : ofDigits (decimal n) = n := foldl_decimalOnto n []

end Offload.Bytes
