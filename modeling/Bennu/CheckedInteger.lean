import Mathlib

/-! Signed 64-bit arithmetic whose overflow is undefined. An operation gives a word
only when the mathematical result fits in one; dividing by zero gives none. A
comparison of a product with a bound is one of a factor with a quotient. -/
namespace CheckedInteger

/-- The integers a signed 64-bit word holds. -/
def Fits (n : Int) : Prop := -2 ^ 63 ≤ n ∧ n < 2 ^ 63

instance (n : Int) : Decidable (Fits n) := inferInstanceAs (Decidable (_ ∧ _))

def word (n : Int) : Option Int64 := if Fits n then some (Int64.ofInt n) else none

def plus (left right : Int64) : Option Int64 := word (left.toInt + right.toInt)

def minus (left right : Int64) : Option Int64 := word (left.toInt - right.toInt)

def times (left right : Int64) : Option Int64 := word (left.toInt * right.toInt)

def negated (operand : Int64) : Option Int64 := word (-operand.toInt)

/-- Division truncates toward zero. -/
def quotient (left right : Int64) : Option Int64 :=
  if right = 0 then none else word (left.toInt.tdiv right.toInt)

/-- The remainder has the sign of the dividend, and is undefined where the quotient is. -/
def remainder (left right : Int64) : Option Int64 := do
  let _ ← quotient left right
  word (left.toInt.tmod right.toInt)

/-- The second operand of `||` is evaluated only when the first is false. -/
def orElse (left : Option Bool) (right : Option Bool) : Option Bool := do
  if ← left then some true else right

/-- The second operand of `&&` is evaluated only when the first is true. -/
def andAlso (left : Bool) (right : Option Bool) : Option Bool :=
  if left then right else some false

theorem fits_toInt (w : Int64) : Fits w.toInt := ⟨w.le_toInt,w.toInt_lt⟩

theorem toInt_ofInt {n : Int} (fits : Fits n) : (Int64.ofInt n).toInt = n :=
  Int64.toInt_ofInt_of_le fits.1 fits.2

/-- A word is the result when it is exactly the integer. -/
theorem word_eq_some_iff {n : Int} {w : Int64} : word n = some w ↔ w.toInt = n := by
  unfold word
  constructor
  · intro given
    split at given
    · rename_i fits
      rw [← Option.some.inj given]
      exact toInt_ofInt fits
    · cases given
  · rintro rfl
    rw [if_pos (fits_toInt w),Int64.ofInt_toInt]

theorem word_of_fits {n : Int} (fits : Fits n) : ∃ w, word n = some w ∧ w.toInt = n :=
  ⟨Int64.ofInt n,if_pos fits,toInt_ofInt fits⟩

theorem andAlso_true {left : Bool} {right : Option Bool} (holds : left = true) :
    andAlso left right = right := if_pos holds

theorem andAlso_false {left : Bool} {right : Option Bool} (fails : left = false) :
    andAlso left right = some false := if_neg (by simp [fails])

theorem andAlso_eq {left : Bool} {right : Option Bool} {value : Bool} (defined : left = true → right = some value) :
    andAlso left right = some (left && value) := by
  cases left
  · rfl
  · exact defined rfl

theorem orElse_some (left right : Bool) : orElse (some left) (some right) = some (left || right) := by
  cases left <;> rfl

/-- Comparing a word that is the result of an operation compares the integer. -/
theorem result_lt {result : Option Int64} {n : Int} (defined : ∃ w, result = some w ∧ w.toInt = n)
    (w : Int64) : (do return (← result) < w) = some (decide (n < w.toInt)) := by
  obtain ⟨bound,given,rfl⟩ := defined
  rw [given]
  exact congrArg some (decide_eq_decide.mpr Int64.lt_iff_toInt_lt)

theorem lt_result {result : Option Int64} {n : Int} (defined : ∃ w, result = some w ∧ w.toInt = n)
    (w : Int64) : (do return w < (← result)) = some (decide (w.toInt < n)) := by
  obtain ⟨bound,given,rfl⟩ := defined
  rw [given]
  exact congrArg some (decide_eq_decide.mpr Int64.lt_iff_toInt_lt)

section Quotients

variable {bound factor left : Int}

/-- A product is over a bound when a factor is over the quotient. -/
theorem tdiv_lt_iff (nonneg : 0 ≤ bound) (positive : 0 < factor) :
    bound.tdiv factor < left ↔ bound < left * factor := by
  rw [Int.tdiv_eq_ediv_of_nonneg nonneg,Int.ediv_lt_iff_lt_mul positive]

/-- A product is under a negative bound when a factor is under the quotient. -/
theorem lt_neg_tdiv_iff (nonneg : 0 ≤ bound) (positive : 0 < factor) :
    left < (-bound).tdiv factor ↔ left * factor < -bound := by
  rw [Int.neg_tdiv,lt_neg,tdiv_lt_iff nonneg positive,neg_mul,lt_neg]

/-- The quotient by a negative factor is negative, and the order turns around. -/
theorem lt_tdiv_neg_iff (nonneg : 0 ≤ bound) (negative : factor < 0) :
    left < bound.tdiv factor ↔ bound < left * factor := by
  have positive : 0 < -factor := by linarith
  rw [← neg_neg factor,Int.tdiv_neg,lt_neg,tdiv_lt_iff nonneg positive,neg_mul_neg,neg_neg]

end Quotients

/-- The one quotient that does not fit is the least word by minus one. -/
theorem fits_tdiv {dividend factor : Int} (fits : Fits dividend)
    (other : dividend = -2 ^ 63 → factor ≠ -1) : Fits (dividend.tdiv factor) := by
  have size : (dividend.tdiv factor).natAbs = dividend.natAbs / factor.natAbs := Int.natAbs_tdiv ..
  obtain ⟨low,high⟩ := fits
  by_cases minusOne : factor = -1
  · subst minusOne
    have least : dividend ≠ -2 ^ 63 := fun least => other least rfl
    rw [Int.tdiv_neg,Int.tdiv_one]
    exact ⟨by omega,by omega⟩
  by_cases one : factor = 1
  · rw [one,Int.tdiv_one]
    exact ⟨low,high⟩
  have halved : (dividend.tdiv factor).natAbs ≤ dividend.natAbs / 2 := by
    rw [size]
    by_cases zero : factor = 0
    · simp [zero]
    · exact Nat.div_le_div_left (by omega) (by norm_num)
  exact ⟨by omega,by omega⟩

/-- A quotient by anything but zero and minus one is defined. -/
theorem quotient_defined {left right : Int64} (nonzero : right.toInt ≠ 0)
    (other : left.toInt = -2 ^ 63 → right.toInt ≠ -1) :
    ∃ w, quotient left right = some w ∧ w.toInt = left.toInt.tdiv right.toInt := by
  have divides : right ≠ 0 := by
    rintro rfl
    exact nonzero rfl
  rw [quotient,if_neg divides]
  exact word_of_fits (fits_tdiv (fits_toInt left) other)

end CheckedInteger
