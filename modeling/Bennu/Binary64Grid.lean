import Bennu.NearestEven
import Bennu.Value
import Mathlib.Algebra.Order.Field.Power
import Mathlib.Data.Rat.Cast.Order
import Mathlib.Algebra.Order.Archimedean.Basic
import Mathlib.Tactic.NormNum
import Mathlib.Tactic.Positivity

/-! The magnitudes of binary64 as a grid of rationals. The index of a magnitude
is its bit pattern without the sign, so that even indexes are even significands;
the pattern of infinity stands at the power of two where the range ends. -/
namespace Bennu

open NearestEven

/-- The magnitude of a pattern below the sign bit. -/
def magnitude (k : Nat) : ℚ :=
  let exponent : Nat := k / 2 ^ 52
  let fraction : Nat := k % 2 ^ 52
  if exponent = 0 then fraction * 2 ^ (-1074 : ℤ)
  else (2 ^ 52 + fraction) * 2 ^ ((exponent : ℤ) - 1075)

/-- The pattern of infinity: the first index out of range. -/
def infinityIndex : Nat := 0x7ff0000000000000

/-- The exponent of the step from a magnitude to the next one. -/
def stepExponent (k : Nat) : ℤ :=
  let exponent : Nat := k / 2 ^ 52
  (max exponent 1 : Nat) - 1075

theorem magnitude_subnormal {k : Nat} (zero : k / 2 ^ 52 = 0) :
    magnitude k = (k % 2 ^ 52 : Nat) * 2 ^ (-1074 : ℤ) := by
  simp only [magnitude,zero,if_true]

theorem magnitude_normal {k : Nat} (positive : k / 2 ^ 52 ≠ 0) :
    magnitude k = (2 ^ 52 + (k % 2 ^ 52 : Nat)) * 2 ^ (((k / 2 ^ 52 : Nat) : ℤ) - 1075) := by
  simp only [magnitude,positive,if_false]

theorem stepExponent_subnormal {k : Nat} (zero : k / 2 ^ 52 = 0) : stepExponent k = -1074 := by
  simp only [stepExponent,zero]
  norm_num

theorem stepExponent_normal {k : Nat} (positive : k / 2 ^ 52 ≠ 0) :
    stepExponent k = ((k / 2 ^ 52 : Nat) : ℤ) - 1075 := by
  have larger : max (k / 2 ^ 52) 1 = k / 2 ^ 52 := max_eq_left (by omega)
  simp only [stepExponent,larger]

theorem magnitude_succ (k : Nat) : magnitude (k + 1) = magnitude k + 2 ^ stepExponent k := by
  have small : k % 2 ^ 52 < 2 ^ 52 := Nat.mod_lt _ (by norm_num)
  by_cases carry : k % 2 ^ 52 + 1 = 2 ^ 52
  · have quotient : (k + 1) / 2 ^ 52 = k / 2 ^ 52 + 1 := by omega
    have remainder : (k + 1) % 2 ^ 52 = 0 := by omega
    have fraction : ((k % 2 ^ 52 : Nat) : ℚ) = 2 ^ 52 - 1 := by
      have cast : ((k % 2 ^ 52 : Nat) : ℚ) + 1 = 2 ^ 52 := by exact_mod_cast carry
      linarith
    rw [magnitude_normal (by omega),quotient,remainder]
    by_cases zero : k / 2 ^ 52 = 0
    · rw [magnitude_subnormal zero,stepExponent_subnormal zero,zero,fraction,
        show (((0 + 1 : Nat) : ℤ) - 1075) = -1074 by norm_num]
      generalize (2 : ℚ) ^ (-1074 : ℤ) = unit
      push_cast
      ring
    · rw [magnitude_normal zero,stepExponent_normal zero,fraction,
        show (((k / 2 ^ 52 + 1 : Nat) : ℤ) - 1075) = ((k / 2 ^ 52 : Nat) : ℤ) - 1075 + 1 by
          push_cast; ring,zpow_add_one₀ (by norm_num)]
      generalize (2 : ℚ) ^ (((k / 2 ^ 52 : Nat) : ℤ) - 1075) = unit
      push_cast
      ring
  · have quotient : (k + 1) / 2 ^ 52 = k / 2 ^ 52 := by omega
    have remainder : (k + 1) % 2 ^ 52 = k % 2 ^ 52 + 1 := by omega
    by_cases zero : k / 2 ^ 52 = 0
    · rw [magnitude_subnormal (by omega),magnitude_subnormal zero,stepExponent_subnormal zero,
        remainder]
      generalize (2 : ℚ) ^ (-1074 : ℤ) = unit
      push_cast
      ring
    · rw [magnitude_normal (by omega),magnitude_normal zero,stepExponent_normal zero,quotient,
        remainder]
      generalize (2 : ℚ) ^ (((k / 2 ^ 52 : Nat) : ℤ) - 1075) = unit
      push_cast
      ring

theorem magnitude_strictMono : StrictMono magnitude := by
  apply strictMono_nat_of_lt_succ
  intro k
  rw [magnitude_succ]
  have step : (0 : ℚ) < 2 ^ stepExponent k := by positivity
  linarith

theorem magnitude_zero : magnitude 0 = 0 := by simp [magnitude]

theorem magnitude_nonneg (k : Nat) : 0 ≤ magnitude k := by
  rw [← magnitude_zero]
  exact magnitude_strictMono.monotone (Nat.zero_le k)

/-- Half of the least magnitude: what it bounds rounds to zero. -/
def halfLeastMagnitude : ℚ := 2 ^ (-1075 : ℤ)

theorem halfway_zero : halfway magnitude 0 = halfLeastMagnitude := by
  have first : magnitude 1 = 2 ^ (-1074 : ℤ) := by norm_num [magnitude]
  simp only [halfway,magnitude_zero,first,halfLeastMagnitude,zero_add]
  rw [show (-1074 : ℤ) = -1075 + 1 by norm_num,zpow_add_one₀ (by norm_num)]
  ring

/-- Half a step past the greatest finite magnitude: nothing from here on rounds to
a finite number. -/
def overflowThreshold : ℚ := 2 ^ (1024 : ℤ) - 2 ^ (970 : ℤ)

theorem halfway_last : halfway magnitude (infinityIndex - 1) = overflowThreshold := by
  have last : magnitude (infinityIndex - 1) = (2 ^ 53 - 1) * 2 ^ (971 : ℤ) := by
    rw [magnitude_normal (by norm_num [infinityIndex])]
    norm_num [infinityIndex]
  have infinity : magnitude (infinityIndex - 1 + 1) = 2 ^ 52 * 2 ^ (972 : ℤ) := by
    rw [magnitude_normal (by norm_num [infinityIndex])]
    norm_num [infinityIndex]
  rw [halfway,last,infinity,overflowThreshold,show (1024 : ℤ) = 970 + 54 by norm_num,
    show (971 : ℤ) = 970 + 1 by norm_num,show (972 : ℤ) = 970 + 2 by norm_num,
    zpow_add₀ (by norm_num),zpow_add₀ (by norm_num),zpow_add₀ (by norm_num)]
  generalize (2 : ℚ) ^ (970 : ℤ) = unit
  norm_num
  ring

/-- A number rounds to zero up to half the least magnitude, the tie included. -/
theorem rounds_zero_iff {q : ℚ} {k : Nat} (rounds : Rounds magnitude q k) :
    k = 0 ↔ q ≤ halfLeastMagnitude := by
  have past := rounds.past_iff magnitude_strictMono 0
  rw [halfway_zero] at past
  constructor
  · intro zero
    by_contra above
    exact absurd (past.mpr (.inl (not_le.mp above))) (by omega)
  · intro le
    by_contra positive
    rcases past.mp (by omega) with above | ⟨-,odd⟩
    · exact absurd le (not_le.mpr above)
    · omega

/-- A number overflows from half a step past the greatest finite magnitude, the
tie included. -/
theorem rounds_infinite_iff {q : ℚ} {k : Nat} (rounds : Rounds magnitude q k) :
    infinityIndex ≤ k ↔ overflowThreshold ≤ q := by
  have past := rounds.past_iff magnitude_strictMono (infinityIndex - 1)
  rw [halfway_last] at past
  have index : infinityIndex - 1 < k ↔ infinityIndex ≤ k := by
    simp only [infinityIndex]
    omega
  rw [← index,past]
  constructor
  · rintro (above | ⟨tie,-⟩)
    · exact above.le
    · exact tie.le
  · intro le
    rcases le.eq_or_lt with tie | above
    · exact .inr ⟨tie,by norm_num [infinityIndex]⟩
    · exact .inl above

/-- The magnitudes pass every rational. -/
theorem exists_magnitude_ge (q : ℚ) : ∃ k, q ≤ magnitude k := by
  obtain ⟨n,large⟩ := exists_nat_gt (q / 2 ^ (-1074 : ℤ))
  have bound (k : Nat) : (k : ℚ) * 2 ^ (-1074 : ℤ) ≤ magnitude k := by
    induction k with
    | zero => simp [magnitude_zero]
    | succ k ih =>
      rw [magnitude_succ]
      have step : (2 : ℚ) ^ (-1074 : ℤ) ≤ 2 ^ stepExponent k :=
        zpow_le_zpow_right₀ (by norm_num) (by simp only [stepExponent]; omega)
      push_cast
      linarith
  refine ⟨n,?_⟩
  have unit : (0 : ℚ) < 2 ^ (-1074 : ℤ) := by positivity
  have le : q ≤ n * 2 ^ (-1074 : ℤ) := ((div_lt_iff₀ unit).mp large).le
  exact le.trans (bound n)

/-- Every nonnegative rational has exactly one rounding. -/
theorem exists_rounds_magnitude (q : ℚ) : ∃ k, Rounds magnitude q k := by
  obtain ⟨bound,le⟩ := exists_magnitude_ge q
  exact exists_rounds magnitude_strictMono le

/-- A bit pattern put together from its sign and the index of its magnitude. -/
def signedBits (negative : Bool) (k : Nat) : Binary64 :=
  UInt64.ofNat ((if negative then 2 ^ 63 else 0) + k)

def Binary64.index (bits : Binary64) : Nat := bits.toNat % 2 ^ 63

def Binary64.negative (bits : Binary64) : Bool := decide (2 ^ 63 ≤ bits.toNat)

theorem and_exponentMask (x : Nat) :
    x &&& (2047 * 2 ^ 52) = x / 2 ^ 52 % 2 ^ 11 * 2 ^ 52 := by
  rw [show 2047 = 2 ^ 11 - 1 by norm_num,← Nat.shiftLeft_eq,← Nat.shiftLeft_eq,
    ← Nat.shiftRight_eq_div_pow]
  apply Nat.eq_of_testBit_eq
  intro i
  simp only [Nat.testBit_and,Nat.testBit_shiftLeft,Nat.testBit_two_pow_sub_one,
    Nat.testBit_mod_two_pow,Nat.testBit_shiftRight]
  by_cases low : 52 ≤ i
  · rw [show 52 + (i - 52) = i by omega]
    simp [low,Bool.and_comm]
  · simp [low]

/-- An exponent field of ones: an infinity, or one of the patterns past it. -/
theorem exponentMask_iff (bits : Binary64) :
    bits &&& binary64ExponentMask = binary64ExponentMask ↔ infinityIndex ≤ bits.index := by
  have size := bits.toNat_lt
  have mask : binary64ExponentMask.toNat = 2047 * 2 ^ 52 := by decide
  rw [← UInt64.toNat_inj,UInt64.toNat_and,mask,and_exponentMask]
  simp only [Binary64.index,infinityIndex]
  omega

theorem signedBits_index (bits : Binary64) : signedBits bits.negative bits.index = bits := by
  have size := bits.toNat_lt
  apply UInt64.toNat_inj.mp
  simp only [signedBits,Binary64.negative,Binary64.index,UInt64.toNat_ofNat']
  by_cases high : 2 ^ 63 ≤ bits.toNat
  · simp only [high,decide_true,if_true]
    omega
  · simp only [high,decide_false,Bool.false_eq_true,if_false]
    omega

theorem index_signedBits (negative : Bool) {k : Nat} (small : k < 2 ^ 63) :
    (signedBits negative k).index = k := by
  simp only [signedBits,Binary64.index,UInt64.toNat_ofNat']
  split <;> omega

theorem negative_signedBits (negative : Bool) {k : Nat} (small : k < 2 ^ 63) :
    (signedBits negative k).negative = negative := by
  cases negative with
  | false =>
    have value : (signedBits false k).toNat = k := by
      simp only [signedBits,UInt64.toNat_ofNat']
      split
      · contradiction
      · omega
    simp only [Binary64.negative,value]
    exact decide_eq_false (by omega)
  | true =>
    have value : (signedBits true k).toNat = 2 ^ 63 + k := by
      simp only [signedBits,UInt64.toNat_ofNat',if_true]
      omega
    simp only [Binary64.negative,value]
    exact decide_eq_true (by omega)

theorem signedBits_inj {negative other : Bool} {k j : Nat} (small : k < 2 ^ 63)
    (smallToo : j < 2 ^ 63) : signedBits negative k = signedBits other j ↔
      negative = other ∧ k = j := by
  constructor
  · intro equal
    have sign := congrArg Binary64.negative equal
    have index := congrArg Binary64.index equal
    rw [negative_signedBits negative small,negative_signedBits other smallToo] at sign
    rw [index_signedBits negative small,index_signedBits other smallToo] at index
    exact ⟨sign,index⟩
  · rintro ⟨rfl,rfl⟩
    rfl

end Bennu
