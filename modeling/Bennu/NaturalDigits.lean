import Bennu.Tokenizer
import Mathlib.Data.Nat.Digits.Defs

/-! The decimal digits of a natural number as the tokenizer reads them. -/
namespace Bennu

theorem isDigit_of_isDigit {byte : Char} (digit : byte.isDigit = true) : isDigit byte = true := by
  simp only [Char.isDigit,Bool.and_eq_true,decide_eq_true_eq] at digit
  simp only [isDigit,Bool.and_eq_true,decide_eq_true_eq,Char.le_def]
  exact digit

theorem toDigits_digits (n : Nat) : (Nat.toDigits 10 n).all isDigit = true := by
  apply List.all_eq_true.mpr
  intro byte member
  exact isDigit_of_isDigit (Nat.isDigit_of_mem_toDigits (by decide) le_rfl member)

theorem digitChar_digit {n : Nat} (small : n < 10) :
    isDigit n.digitChar = true ∧ digitValue n.digitChar = n := by
  constructor
  · apply isDigit_of_isDigit
    simp [Nat.isDigit_digitChar,small]
  · exact Nat.toNat_digitChar_sub_48_of_lt_ten small

theorem decimalValue_toDigits (n : Nat) : decimalValue (Nat.toDigits 10 n) = n := by
  have same (digits : Text) : decimalValue digits = Nat.ofDigitChars 10 digits 0 := by
    simp only [decimalValue,Nat.ofDigitChars_eq_foldl,digitValue,Nat.mul_comm]
  rw [same,Nat.ofDigitChars_toDigits (by decide) le_rfl]

theorem toDigits_inj {n m : Nat} (same : Nat.toDigits 10 n = Nat.toDigits 10 m) : n = m := by
  rw [← decimalValue_toDigits n,same,decimalValue_toDigits]

/-- A number without a leading zero, zero itself excepted. -/
theorem toDigits_head_zero (n : Nat) : (Nat.toDigits 10 n).head? = some '0' → n = 0 := by
  induction n using Nat.strong_induction_on with
  | _ n ih =>
    intro head
    by_cases small : n < 10
    · rw [Nat.toDigits_of_lt_base small,List.head?_cons,Option.some.injEq] at head
      have value := (digitChar_digit small).2
      rw [head] at value
      exact value.symm
    · have large : 10 ≤ n := Nat.le_of_not_lt small
      have front : (Nat.toDigits 10 (n / 10)).head? = some '0' := by
        rw [Nat.toDigits_of_base_le (by decide) large] at head
        cases digits : Nat.toDigits 10 (n / 10) with
        | nil => exact absurd digits Nat.toDigits_ne_nil
        | cons first rest => rwa [digits,List.cons_append,List.head?_cons] at head
      have := ih (n / 10) (by omega) front
      omega

end Bennu
