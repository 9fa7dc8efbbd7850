import Bennu.Binary64Order
import Mathlib.Data.Nat.Log

/-! The promotion of integers to doubles, as the evaluator and the C runtime spell it:
the magnitude is shifted until its leading bit is the hidden one, and what is shifted
out rounds the significand, whose carry may move the exponent. -/
namespace Bennu

open NearestEven

/-- `std::bit_width`. -/
def bitWidth (magnitude : UInt64) : Nat := if magnitude = 0 then 0 else magnitude.toNat.log2 + 1

def integerMagnitude (value : Int64) : UInt64 :=
  if value < 0 then (-(value + 1)).toUInt64 + 1 else value.toUInt64

/-- The significand with its leading bit at 52, and the exponent after the carry. -/
def roundedSignificand (magnitude : UInt64) (mostSignificant : Nat) : UInt64 × Nat :=
  if mostSignificant ≤ 52 then (magnitude <<< UInt64.ofNat (52 - mostSignificant),mostSignificant)
  else
    let shift := UInt64.ofNat (mostSignificant - 52)
    let significand := magnitude >>> shift
    let remainderMask : UInt64 := (1 <<< shift) - 1
    let remainder := magnitude &&& remainderMask
    let halfway : UInt64 := 1 <<< (shift - 1)
    if halfway < remainder || remainder == halfway && significand &&& 1 != 0 then
      let significand : UInt64 := significand + 1
      if significand == (1 : UInt64) <<< (53 : UInt64) then (significand >>> 1,mostSignificant + 1)
      else (significand,mostSignificant)
    else (significand,mostSignificant)

def promotedBits (negative : Bool) (magnitude : UInt64) (mostSignificant : Nat) : Binary64 :=
  let (significand,exponent) := roundedSignificand magnitude mostSignificant
  (if negative then signBit else 0) ||| UInt64.ofNat (exponent + 1023) <<< (52 : UInt64) |||
    significand &&& binary64FractionMask

def intToBinary64 (value : Int64) : Binary64 :=
  if value = 0 then 0
  else promotedBits (value < 0) (integerMagnitude value) (bitWidth (integerMagnitude value) - 1)

/-- The loop of the C runtime that finds the leading bit. -/
def bennuMostSignificant (scan : UInt64) (mostSignificant : Nat) : Nat :=
  if 1 < scan then bennuMostSignificant (scan >>> 1) (mostSignificant + 1) else mostSignificant
termination_by scan.toNat
decreasing_by
  rename_i more
  have positive : 1 < scan.toNat := more
  have halved : (scan >>> 1).toNat = scan.toNat / 2 := by simp [Nat.shiftRight_one]
  omega

def bennuIntToDouble (value : Int64) : Binary64 :=
  let magnitude := integerMagnitude value
  if magnitude = 0 then 0
  else promotedBits (value < 0) magnitude (bennuMostSignificant magnitude 0)

theorem integerMagnitude_toNat (value : Int64) :
    (integerMagnitude value).toNat = value.toInt.natAbs := by
  have word : value.toInt = if 2 * value.toUInt64.toNat < 2 ^ 64 then (value.toUInt64.toNat : ℤ)
      else value.toUInt64.toNat - 2 ^ 64 := BitVec.toInt_eq_toNat_cond value.toBitVec
  have size := value.toUInt64.toNat_lt
  have below : value < 0 ↔ value.toInt < 0 := Int64.lt_iff_toInt_lt
  rw [integerMagnitude]
  by_cases negative : value < 0
  · have less := below.mp negative
    have one : (1 : Int64).toUInt64.toNat = 1 := rfl
    rw [if_pos negative,UInt64.toNat_add,Int64.toUInt64_neg,UInt64.toNat_neg,Int64.toUInt64_add,
      UInt64.toNat_add,one,UInt64.toNat_one]
    simp only [UInt64.size]
    split at word <;> omega
  · rw [if_neg negative]
    have notLess := mt below.mpr negative
    split at word <;> omega

theorem bennuMostSignificant_eq (scan : UInt64) (mostSignificant : Nat) :
    bennuMostSignificant scan mostSignificant = mostSignificant + scan.toNat.log2 := by
  fun_induction bennuMostSignificant scan mostSignificant with
  | case1 scan mostSignificant more ih =>
    have positive : 1 < scan.toNat := more
    have halved : (scan >>> 1).toNat = scan.toNat / 2 := by simp [Nat.shiftRight_one]
    rw [ih,halved,Nat.log2_def scan.toNat,if_pos (by omega)]
    omega
  | case2 scan mostSignificant last =>
    have small : ¬1 < scan.toNat := last
    rw [Nat.log2_def,if_neg (by omega)]
    omega

/-- The C runtime promotes as the evaluator does. -/
theorem bennuIntToDouble_eq : bennuIntToDouble = intToBinary64 := by
  funext value
  have zero : integerMagnitude value = 0 ↔ value = 0 := by
    rw [← UInt64.toNat_inj,integerMagnitude_toNat,← Int64.toInt_inj]
    simp
  simp only [bennuIntToDouble,intToBinary64,zero]
  by_cases origin : value = 0
  · rw [if_pos origin,if_pos origin]
  · have nonzero := mt zero.mp origin
    rw [if_neg origin,if_neg origin,bennuMostSignificant_eq,bitWidth,if_neg nonzero,Nat.zero_add,
      Nat.add_sub_cancel]

section Significand

variable {word : UInt64} {shift : Nat}

theorem toNat_oneShift (small : shift < 64) : ((1 : UInt64) <<< UInt64.ofNat shift).toNat = 2 ^ shift := by
  have power : 2 ^ shift < 2 ^ 64 := Nat.pow_lt_pow_right (by norm_num) small
  rw [UInt64.toNat_shiftLeft,UInt64.toNat_ofNat',UInt64.toNat_one]
  rw [Nat.mod_eq_of_lt (by omega : shift < 2 ^ 64),Nat.mod_eq_of_lt small,Nat.shiftLeft_eq,one_mul,
    Nat.mod_eq_of_lt power]

theorem toNat_shiftedRight (small : shift < 64) :
    (word >>> UInt64.ofNat shift).toNat = word.toNat / 2 ^ shift := by
  rw [UInt64.toNat_shiftRight,UInt64.toNat_ofNat',Nat.mod_eq_of_lt (by omega : shift < 2 ^ 64),
    Nat.mod_eq_of_lt small,Nat.shiftRight_eq_div_pow]

theorem toNat_shiftedLeft (small : shift < 64) (fits : word.toNat * 2 ^ shift < 2 ^ 64) :
    (word <<< UInt64.ofNat shift).toNat = word.toNat * 2 ^ shift := by
  rw [UInt64.toNat_shiftLeft,UInt64.toNat_ofNat',Nat.mod_eq_of_lt (by omega : shift < 2 ^ 64),
    Nat.mod_eq_of_lt small,Nat.shiftLeft_eq,Nat.mod_eq_of_lt fits]

theorem toNat_remainder (small : shift < 64) :
    (word &&& ((1 : UInt64) <<< UInt64.ofNat shift - 1)).toNat = word.toNat % 2 ^ shift := by
  have power : 1 ≤ 2 ^ shift := Nat.one_le_two_pow
  have mask : ((1 : UInt64) <<< UInt64.ofNat shift - 1).toNat = 2 ^ shift - 1 := by
    rw [UInt64.toNat_sub_of_le,toNat_oneShift small,UInt64.toNat_one]
    rw [UInt64.le_iff_toNat_le,toNat_oneShift small,UInt64.toNat_one]
    exact power
  rw [UInt64.toNat_and,mask,Nat.and_two_pow_sub_one_eq_mod]

/-- The word is rounded up past half of the last kept bit, and at half when that
bit is set. -/
theorem roundsUp_iff (positive : 0 < shift) (small : shift < 64) :
    (decide ((1 : UInt64) <<< (UInt64.ofNat shift - 1) < word &&& ((1 : UInt64) <<< UInt64.ofNat shift - 1)) ||
      word &&& ((1 : UInt64) <<< UInt64.ofNat shift - 1) == (1 : UInt64) <<< (UInt64.ofNat shift - 1) &&
        word >>> UInt64.ofNat shift &&& 1 != 0) = true ↔
    2 ^ (shift - 1) < word.toNat % 2 ^ shift ∨
      word.toNat % 2 ^ shift = 2 ^ (shift - 1) ∧ word.toNat / 2 ^ shift % 2 ≠ 0 := by
  have before : UInt64.ofNat shift - 1 = UInt64.ofNat (shift - 1) := by
    apply UInt64.toNat_inj.mp
    rw [UInt64.toNat_sub_of_le,UInt64.toNat_ofNat',UInt64.toNat_ofNat',UInt64.toNat_one]
    · omega
    · rw [UInt64.le_iff_toNat_le,UInt64.toNat_ofNat',UInt64.toNat_one]
      omega
  have half : ((1 : UInt64) <<< UInt64.ofNat (shift - 1)).toNat = 2 ^ (shift - 1) :=
    toNat_oneShift (by omega)
  have last : (word >>> UInt64.ofNat shift &&& 1).toNat = word.toNat / 2 ^ shift % 2 := by
    rw [UInt64.toNat_and,toNat_shiftedRight small,UInt64.toNat_one,Nat.and_one_is_mod]
  rw [before,Bool.or_eq_true,Bool.and_eq_true,decide_eq_true_iff,beq_iff_eq,bne_iff_ne,ne_eq,
    ← UInt64.toNat_inj,← UInt64.toNat_inj,UInt64.lt_iff_toNat_lt,half,toNat_remainder small,last]
  rfl

end Significand

/-- The pattern with a given exponent field and the fraction of a significand. -/
theorem packed_eq {negative : Bool} {significand : UInt64} {exponent : Nat} (small : exponent < 2047) :
    (if negative then signBit else 0) ||| UInt64.ofNat exponent <<< (52 : UInt64) |||
      significand &&& binary64FractionMask =
    signedBits negative (exponent * 2 ^ 52 + significand.toNat % 2 ^ 52) := by
  have fraction : (significand &&& binary64FractionMask).toNat = significand.toNat % 2 ^ 52 := by
    have mask : binary64FractionMask.toNat = 2 ^ 52 - 1 := rfl
    rw [UInt64.toNat_and,mask,Nat.and_two_pow_sub_one_eq_mod]
  have field : (UInt64.ofNat exponent <<< (52 : UInt64)).toNat = 2 ^ 52 * exponent := by
    have word : (UInt64.ofNat exponent).toNat = exponent :=
      UInt64.toNat_ofNat_of_lt' (by simp only [UInt64.size]; omega)
    rw [show (52 : UInt64) = UInt64.ofNat 52 by rfl,toNat_shiftedLeft (by norm_num) (by omega),word,
      Nat.mul_comm]
  have sign : (if negative then signBit else 0 : UInt64).toNat = 2 ^ 63 * negative.toNat := by
    cases negative <;> rfl
  have low : significand.toNat % 2 ^ 52 < 2 ^ 52 := Nat.mod_lt _ (by norm_num)
  apply UInt64.toNat_inj.mp
  rw [UInt64.toNat_or,UInt64.toNat_or,fraction,field,sign,Nat.or_assoc,
    ← Nat.two_pow_add_eq_or_of_lt low,← Nat.two_pow_add_eq_or_of_lt (by omega),signedBits,
    UInt64.toNat_ofNat']
  cases negative <;> simp only [Bool.toNat_false,Bool.toNat_true,Bool.false_eq_true,if_true,if_false] <;>
    omega

section Packed

variable {exponent significand : Nat}

/-- The index with a given exponent and a significand that has its leading bit at 52. -/
def packedIndex (exponent significand : Nat) : Nat :=
  (exponent + 1023) * 2 ^ 52 + significand % 2 ^ 52

theorem magnitude_packedIndex (low : 2 ^ 52 ≤ significand) (high : significand < 2 ^ 53) :
    magnitude (packedIndex exponent significand) = significand * 2 ^ ((exponent : ℤ) - 52) := by
  have quotient : packedIndex exponent significand / 2 ^ 52 = exponent + 1023 := by
    rw [packedIndex]
    omega
  have remainder : packedIndex exponent significand % 2 ^ 52 = significand - 2 ^ 52 := by
    rw [packedIndex]
    omega
  rw [magnitude_normal (by omega),quotient,remainder,Nat.cast_sub low]
  push_cast
  ring_nf

theorem magnitude_packedIndex_succ (low : 2 ^ 52 ≤ significand) (high : significand < 2 ^ 53) :
    magnitude (packedIndex exponent significand + 1) =
      (significand + 1) * 2 ^ ((exponent : ℤ) - 52) := by
  have quotient : packedIndex exponent significand / 2 ^ 52 = exponent + 1023 := by
    rw [packedIndex]
    omega
  have step : stepExponent (packedIndex exponent significand) = (exponent : ℤ) - 52 := by
    rw [stepExponent_normal (by omega),quotient]
    push_cast
    ring
  rw [magnitude_succ,magnitude_packedIndex low high,step]
  ring

theorem halfway_packedIndex (low : 2 ^ 52 ≤ significand) (high : significand < 2 ^ 53) :
    halfway magnitude (packedIndex exponent significand) =
      (significand + 1 / 2) * 2 ^ ((exponent : ℤ) - 52) := by
  rw [halfway,magnitude_packedIndex_succ low high,magnitude_packedIndex low high]
  ring

/-- The carry of a significand of ones moves the exponent. -/
theorem packedIndex_carry : packedIndex (exponent + 1) (2 ^ 53 / 2) = packedIndex exponent (2 ^ 53 - 1) + 1 := by
  simp only [packedIndex]
  omega

theorem packedIndex_succ (low : 2 ^ 52 ≤ significand) (high : significand + 1 < 2 ^ 53) :
    packedIndex exponent (significand + 1) = packedIndex exponent significand + 1 := by
  simp only [packedIndex]
  omega

/-- The significand and the part shifted out of it, rounded at half of what was shifted. -/
theorem rounds_packedIndex {n half remainder : Nat} (low : 2 ^ 52 ≤ significand)
    (high : significand < 2 ^ 53) (step : 2 ^ ((exponent : ℤ) - 52) = (2 * half : ℚ))
    (split : n = significand * (2 * half) + remainder) (small : remainder < 2 * half) :
    Rounds magnitude n (packedIndex exponent significand +
      if half < remainder ∨ remainder = half ∧ significand % 2 ≠ 0 then 1 else 0) := by
  have value : (n : ℚ) = significand * (2 * half) + remainder := by
    rw [split]
    push_cast
    ring
  have point : magnitude (packedIndex exponent significand) = _ := magnitude_packedIndex low high
  have next : magnitude (packedIndex exponent significand + 1) = _ := magnitude_packedIndex_succ low high
  have middle : halfway magnitude (packedIndex exponent significand) = _ := halfway_packedIndex low high
  rw [step] at point next middle
  have parity : packedIndex exponent significand % 2 = significand % 2 := by
    rw [packedIndex]
    omega
  by_cases up : half < remainder ∨ remainder = half ∧ significand % 2 ≠ 0
  · rw [if_pos up]
    apply Rounds.of_ceiling magnitude_strictMono
    · rw [middle,value]
      rcases up with more | ⟨tie,odd⟩
      · have cast : (half : ℚ) < remainder := by exact_mod_cast more
        exact .inl (by linarith)
      · refine .inr ⟨?_,by omega⟩
        rw [tie]
        ring
    · have cast : (remainder : ℚ) < 2 * half := by exact_mod_cast small
      rw [next,value]
      linarith
  · rw [if_neg up,Nat.add_zero]
    apply Rounds.of_floor magnitude_strictMono
    · have nonneg : (0 : ℚ) ≤ remainder := Nat.cast_nonneg _
      rw [point,value]
      linarith
    · rw [middle,value]
      rcases Nat.lt_trichotomy remainder half with less | tie | more
      · have cast : (remainder : ℚ) < half := by exact_mod_cast less
        exact .inl (by linarith)
      · refine .inr ⟨?_,by omega⟩
        rw [tie]
        ring
      · omega

end Packed

/-- The significand and the exponent computed from a magnitude are those of its rounding. -/
theorem roundedSignificand_rounds {word : UInt64} (nonzero : word.toNat ≠ 0) :
    Rounds magnitude word.toNat
        (packedIndex (roundedSignificand word word.toNat.log2).2
          (roundedSignificand word word.toNat.log2).1.toNat) ∧
      (roundedSignificand word word.toNat.log2).2 ≤ 64 := by
  have size := word.toNat_lt
  have leading : 2 ^ word.toNat.log2 ≤ word.toNat := Nat.log2_self_le nonzero
  have past : word.toNat < 2 ^ (word.toNat.log2 + 1) := Nat.lt_log2_self
  have exponent : word.toNat.log2 < 64 := (Nat.log2_lt nonzero).mpr size
  generalize word.toNat.log2 = e at *
  by_cases whole : e ≤ 52
  · -- the magnitude fits in the significand
    have low : 2 ^ 52 ≤ word.toNat * 2 ^ (52 - e) := by
      calc 2 ^ 52 = 2 ^ e * 2 ^ (52 - e) := by rw [← pow_add]; congr 1; omega
        _ ≤ _ := Nat.mul_le_mul_right _ leading
    have high : word.toNat * 2 ^ (52 - e) < 2 ^ 53 := by
      calc word.toNat * 2 ^ (52 - e) < 2 ^ (e + 1) * 2 ^ (52 - e) :=
            Nat.mul_lt_mul_of_pos_right past (Nat.two_pow_pos _)
        _ = 2 ^ 53 := by rw [← pow_add]; congr 1; omega
    rw [roundedSignificand,if_pos whole,toNat_shiftedLeft (by omega) (by omega)]
    refine ⟨?_,by omega⟩
    have exact : (word.toNat : ℚ) = magnitude (packedIndex e (word.toNat * 2 ^ (52 - e))) := by
      rw [magnitude_packedIndex low high]
      push_cast
      rw [mul_assoc,← zpow_natCast,← zpow_add₀ (by norm_num),Nat.cast_sub whole]
      simp
    rw [exact]
    exact .point magnitude_strictMono _
  · have low : 2 ^ 52 ≤ word.toNat / 2 ^ (e - 52) := by
      rw [Nat.le_div_iff_mul_le (Nat.two_pow_pos _),← pow_add,Nat.add_sub_cancel' (by omega)]
      exact leading
    have high : word.toNat / 2 ^ (e - 52) < 2 ^ 53 := by
      rw [Nat.div_lt_iff_lt_mul (Nat.two_pow_pos _),← pow_add,show 53 + (e - 52) = e + 1 by omega]
      exact past
    have double : 2 ^ (e - 52) = 2 * 2 ^ (e - 52 - 1) := by
      rw [← pow_succ']
      congr 1
      omega
    have step : (2 : ℚ) ^ ((e : ℤ) - 52) = 2 * (2 ^ (e - 52 - 1) : ℕ) := by
      rw [show (e : ℤ) - 52 = ((e - 52 : ℕ) : ℤ) by omega,zpow_natCast]
      exact_mod_cast double
    have remainder := Nat.mod_lt word.toNat (Nat.two_pow_pos (e - 52))
    rw [double] at remainder
    have rounds : Rounds magnitude word.toNat _ :=
      rounds_packedIndex low high step (double ▸ (Nat.div_add_mod' word.toNat (2 ^ (e - 52))).symm) remainder
    have past := @roundsUp_iff word (e - 52) (by omega) (by omega)
    rw [roundedSignificand,if_neg whole]
    rw [← double] at rounds
    dsimp only
    simp only [past]
    by_cases up : 2 ^ (e - 52 - 1) < word.toNat % 2 ^ (e - 52) ∨
        word.toNat % 2 ^ (e - 52) = 2 ^ (e - 52 - 1) ∧ word.toNat / 2 ^ (e - 52) % 2 ≠ 0
    · rw [if_pos up] at rounds ⊢
      have kept : (word >>> UInt64.ofNat (e - 52)).toNat = word.toNat / 2 ^ (e - 52) :=
        toNat_shiftedRight (by omega)
      have next : (word >>> UInt64.ofNat (e - 52) + 1).toNat = word.toNat / 2 ^ (e - 52) + 1 := by
        rw [UInt64.toNat_add,kept,UInt64.toNat_one]
        omega
      have ones : (word >>> UInt64.ofNat (e - 52) + 1 == (1 : UInt64) <<< (53 : UInt64)) = true ↔
          word.toNat / 2 ^ (e - 52) + 1 = 2 ^ 53 := by
        rw [beq_iff_eq,← UInt64.toNat_inj,next]
        rfl
      simp only [ones]
      by_cases carry : word.toNat / 2 ^ (e - 52) + 1 = 2 ^ 53
      · have halved : ((word >>> UInt64.ofNat (e - 52) + 1) >>> 1).toNat = 2 ^ 53 / 2 := by
          have shifted := @toNat_shiftedRight (word >>> UInt64.ofNat (e - 52) + 1) 1 (by norm_num)
          rw [next,carry] at shifted
          exact shifted
        rw [if_pos carry]
        dsimp only
        rw [halved,packedIndex_carry]
        rw [show word.toNat / 2 ^ (e - 52) = 2 ^ 53 - 1 by omega] at rounds
        exact ⟨rounds,by omega⟩
      · rw [if_neg carry]
        dsimp only
        rw [next,packedIndex_succ low (by omega)]
        exact ⟨rounds,by omega⟩
    · rw [if_neg up,Nat.add_zero] at rounds
      rw [if_neg up]
      dsimp only
      rw [toNat_shiftedRight (by omega)]
      exact ⟨rounds,by omega⟩

/-- The double nearest to a rational: no finite double is nearer, and one that is as near
and is another number leaves it the even significand. -/
structure IsNearestDouble (x : ℚ) (bits : Binary64) : Prop where
  finite : bits.index < infinityIndex
  nearest : ∀ other : Binary64, other.index < infinityIndex →
    |x - signedMagnitude bits| ≤ |x - signedMagnitude other|
  even : ∀ other : Binary64, other.index < infinityIndex →
    signedMagnitude other ≠ signedMagnitude bits →
    |x - signedMagnitude bits| = |x - signedMagnitude other| → bits.index % 2 = 0

theorem abs_signedMagnitude (bits : Binary64) : |signedMagnitude bits| = magnitude bits.index := by
  rw [signedMagnitude]
  split
  · rw [abs_neg,abs_of_nonneg (magnitude_nonneg _)]
  · exact abs_of_nonneg (magnitude_nonneg _)

/-- A pattern with the sign of a number and the rounding of its absolute value is the
nearest double. -/
theorem isNearestDouble {x : ℚ} {bits : Binary64} (finite : bits.index < infinityIndex)
    (sign : bits.negative = decide (x < 0)) (rounds : Rounds magnitude |x| bits.index) :
    IsNearestDouble x bits := by
  have distance : |x - signedMagnitude bits| = abs (|x| - magnitude bits.index) := by
    by_cases negative : x < 0
    · rw [signedMagnitude,if_pos (by simpa [negative] using sign),abs_of_neg negative,← abs_neg]
      congr 1
      ring
    · rw [signedMagnitude,if_neg (by simp [sign,negative]),abs_of_nonneg (not_lt.mp negative)]
  have farther (other : Binary64) :
      abs (|x| - magnitude other.index) ≤ |x - signedMagnitude other| := by
    rw [← abs_signedMagnitude other]
    exact abs_abs_sub_abs_le_abs_sub x (signedMagnitude other)
  refine ⟨finite,?_,?_⟩
  · intro other _
    rw [distance]
    exact (rounds.nearest magnitude_strictMono other.index).trans (farther other)
  · intro other _ apart equal
    have near := rounds.nearest magnitude_strictMono other.index
    have tie : abs (|x| - magnitude bits.index) = abs (|x| - magnitude other.index) :=
      le_antisymm near (((farther other).trans equal.symm.le).trans distance.le)
    by_cases same : other.index = bits.index
    · -- the opposite number is as near only to zero, which is its own rounding
      exfalso
      have size : |signedMagnitude other| = |signedMagnitude bits| := by
        rw [abs_signedMagnitude,abs_signedMagnitude,same]
      have opposite : signedMagnitude other = -signedMagnitude bits :=
        (abs_eq_abs.mp size).resolve_left apart
      have zero : x = 0 := by
        rw [opposite,sub_neg_eq_add] at equal
        rcases abs_eq_abs.mp equal with sum | difference
        · have none' : signedMagnitude bits = 0 := by linarith
          exact absurd (by rw [opposite,none',neg_zero]) apart
        · linarith
      have origin : Rounds magnitude |x| 0 := by
        rw [zero,abs_zero,← magnitude_zero]
        exact .point magnitude_strictMono 0
      have index := rounds.unique magnitude_strictMono origin
      apply apart
      rw [opposite,signedMagnitude,index,magnitude_zero]
      simp
    · exact rounds.even_of_tie magnitude_strictMono same tie

/-- Every integer is promoted to the double nearest to it, on both sides. -/
theorem intToBinary64_nearest (value : Int64) :
    IsNearestDouble value.toInt (intToBinary64 value) ∧
      (intToBinary64 value).negative = decide (value.toInt < 0) ∧
      bennuIntToDouble value = intToBinary64 value := by
  suffices promoted : ∃ k, Rounds magnitude |(value.toInt : ℚ)| k ∧ k < infinityIndex ∧
      intToBinary64 value = signedBits (decide (value.toInt < 0)) k by
    obtain ⟨k,rounds,finite,bits⟩ := promoted
    have small : k < 2 ^ 63 := finite.trans (by norm_num [infinityIndex])
    have index : (intToBinary64 value).index = k := by rw [bits,index_signedBits _ small]
    have sign : (intToBinary64 value).negative = decide (value.toInt < 0) := by
      rw [bits,negative_signedBits _ small]
    refine ⟨isNearestDouble (index ▸ finite) ?_ (index ▸ rounds),sign,by rw [bennuIntToDouble_eq]⟩
    rw [sign]
    simp
  by_cases zero : value = 0
  · refine ⟨0,?_,by norm_num [infinityIndex],by rw [zero]; rfl⟩
    have origin : |(value.toInt : ℚ)| = magnitude 0 := by simp [zero,magnitude_zero]
    rw [origin]
    exact .point magnitude_strictMono 0
  · have size := integerMagnitude_toNat value
    have nonzero : (integerMagnitude value).toNat ≠ 0 := by
      rw [size,Int.natAbs_ne_zero]
      intro origin
      exact zero (Int64.toInt_inj.mp origin)
    have width : bitWidth (integerMagnitude value) - 1 = (integerMagnitude value).toNat.log2 := by
      rw [bitWidth,if_neg (fun origin => nonzero (by rw [origin]; rfl)),Nat.add_sub_cancel]
    have sign : decide (value < 0) = decide (value.toInt < 0) := by
      simp [Int64.lt_iff_toInt_lt]
    obtain ⟨rounds,exponent⟩ := roundedSignificand_rounds nonzero
    have absolute : |(value.toInt : ℚ)| = (integerMagnitude value).toNat := by
      rw [size]
      simp
    refine ⟨_,absolute ▸ rounds,?_,?_⟩
    · simp only [packedIndex,infinityIndex]
      omega
    · rw [intToBinary64,if_neg zero,width,promotedBits,sign]
      dsimp only
      rw [packed_eq (by omega),packedIndex]

end Bennu
