import Bennu.Binary64Grid
import Mathlib.Data.Nat.Bitwise
import Mathlib.Order.RelClasses

/-! Comparisons of doubles on their bits, as the evaluator and the C runtime spell
them. A pattern denotes a number of the extended line unless it is a NaN, and the
comparisons are those of the extended line. -/
namespace Bennu

def signBit : UInt64 := 0x8000000000000000

def binary64IsInfinity (bits : Binary64) : Bool := bits &&& ~~~signBit == binary64ExponentMask

def binary64IsZero (bits : Binary64) : Bool := bits &&& ~~~signBit == 0

def binary64OrderKey (bits : Binary64) : UInt64 :=
  if bits &&& signBit != 0 then ~~~bits else bits ||| signBit

def binary64Equal (left right : Binary64) : Bool :=
  if isNanBits left || isNanBits right then false
  else if binary64IsZero left && binary64IsZero right then true
  else left == right

def binary64LessThan (left right : Binary64) : Bool :=
  if isNanBits left || isNanBits right || binary64IsZero left && binary64IsZero right then false
  else decide (binary64OrderKey left < binary64OrderKey right)

def binary64IsPositive (bits : Binary64) : Bool :=
  !isNanBits bits && !binary64IsZero bits && bits &&& signBit == 0

def binary64IsNegative (bits : Binary64) : Bool :=
  !isNanBits bits && !binary64IsZero bits && bits &&& signBit != 0

/-! The same predicates of the C runtime. -/

def bennuDoubleIsNan (bits : Binary64) : Bool :=
  bits &&& 0x7ff0000000000000 == 0x7ff0000000000000 && bits &&& 0x000fffffffffffff != 0

def bennuDoubleIsInfinity (bits : Binary64) : Bool :=
  bits &&& 0x7fffffffffffffff == 0x7ff0000000000000

def bennuDoubleIsZero (bits : Binary64) : Bool := bits &&& 0x7fffffffffffffff == 0

def bennuDoubleOrderKey (bits : Binary64) : UInt64 :=
  if bits &&& 0x8000000000000000 != 0 then ~~~bits else bits ||| 0x8000000000000000

def bennuDoubleEqual (left right : Binary64) : Bool :=
  if bennuDoubleIsNan left || bennuDoubleIsNan right then false
  else if bennuDoubleIsZero left && bennuDoubleIsZero right then true
  else left == right

def bennuDoubleLessThan (left right : Binary64) : Bool :=
  if bennuDoubleIsNan left || bennuDoubleIsNan right ||
      bennuDoubleIsZero left && bennuDoubleIsZero right then false
  else decide (bennuDoubleOrderKey left < bennuDoubleOrderKey right)

def bennuDoubleIsPositive (bits : Binary64) : Bool :=
  !bennuDoubleIsNan bits && !bennuDoubleIsZero bits && bits &&& 0x8000000000000000 == 0

def bennuDoubleIsNegative (bits : Binary64) : Bool :=
  !bennuDoubleIsNan bits && !bennuDoubleIsZero bits && bits &&& 0x8000000000000000 != 0

theorem bennuDoubleIsNan_eq : bennuDoubleIsNan = isNanBits := rfl

theorem bennuDoubleIsZero_eq : bennuDoubleIsZero = binary64IsZero := rfl

theorem bennuDoubleIsInfinity_eq : bennuDoubleIsInfinity = binary64IsInfinity := rfl

theorem bennuDoubleEqual_eq : bennuDoubleEqual = binary64Equal := rfl

theorem bennuDoubleLessThan_eq : bennuDoubleLessThan = binary64LessThan := rfl

theorem bennuDoubleIsPositive_eq : bennuDoubleIsPositive = binary64IsPositive := rfl

theorem bennuDoubleIsNegative_eq : bennuDoubleIsNegative = binary64IsNegative := rfl

/-- The magnitude with its sign. An infinity is read as the power of two where the
range ends. -/
def signedMagnitude (bits : Binary64) : ℚ :=
  if bits.negative then -magnitude bits.index else magnitude bits.index

/-- The rationals between two infinities. -/
abbrev ExtendedRational := WithBot (WithTop ℚ)

/-- What a pattern denotes on the extended line: a NaN denotes nothing. -/
def denoted (bits : Binary64) : Option ExtendedRational :=
  if infinityIndex < bits.index then none
  else if bits.index = infinityIndex then some (if bits.negative then ⊥ else ((⊤ : WithTop ℚ) :))
  else some ((signedMagnitude bits : WithTop ℚ) :)

def IeeeLess (left right : Binary64) : Prop :=
  ∃ x y, denoted left = some x ∧ denoted right = some y ∧ x < y

def IeeeEqual (left right : Binary64) : Prop :=
  ∃ x y, denoted left = some x ∧ denoted right = some y ∧ x = y

section Fields

variable (bits : Binary64)

theorem and_fractionMask : (bits &&& binary64FractionMask).toNat = bits.index % 2 ^ 52 := by
  have mask : binary64FractionMask.toNat = 2 ^ 52 - 1 := rfl
  rw [UInt64.toNat_and,mask,Nat.and_two_pow_sub_one_eq_mod,Binary64.index]
  omega

/-- A NaN is a pattern past infinity. -/
theorem isNanBits_iff : isNanBits bits = true ↔ infinityIndex < bits.index := by
  have small : bits.index < 2 ^ 63 := Nat.mod_lt _ (by norm_num)
  have fraction : bits &&& binary64FractionMask = 0 ↔ bits.index % 2 ^ 52 = 0 := by
    rw [← UInt64.toNat_inj,and_fractionMask]
    rfl
  simp only [isNanBits,Bool.and_eq_true,beq_iff_eq,bne_iff_ne,ne_eq,exponentMask_iff,fraction,
    infinityIndex]
  omega

theorem isNanBits_eq_false_iff : isNanBits bits = false ↔ bits.index ≤ infinityIndex := by
  rw [← Bool.not_eq_true,isNanBits_iff,not_lt]

theorem isNanBits_iff_denoted : isNanBits bits = true ↔ denoted bits = none := by
  rw [isNanBits_iff,denoted]
  split
  · simp [*]
  · split <;> simp [*]

theorem and_not_signBit : (bits &&& ~~~signBit).toNat = bits.index := by
  have mask : (~~~signBit).toNat = 2 ^ 63 - 1 := rfl
  rw [UInt64.toNat_and,mask,Nat.and_two_pow_sub_one_eq_mod,Binary64.index]

theorem binary64IsZero_iff : binary64IsZero bits = true ↔ bits.index = 0 := by
  rw [binary64IsZero,beq_iff_eq,← UInt64.toNat_inj,and_not_signBit]
  rfl

theorem binary64IsInfinity_iff : binary64IsInfinity bits = true ↔ bits.index = infinityIndex := by
  rw [binary64IsInfinity,beq_iff_eq,← UInt64.toNat_inj,and_not_signBit]
  rfl

theorem toNat_eq : bits.toNat = (if bits.negative then 2 ^ 63 else 0) + bits.index := by
  have size := bits.toNat_lt
  by_cases high : 2 ^ 63 ≤ bits.toNat
  · simp only [Binary64.negative,Binary64.index,high,decide_true,if_true]
    omega
  · simp only [Binary64.negative,Binary64.index,high,decide_false,Bool.false_eq_true,if_false]
    omega

theorem and_signBit : bits &&& signBit ≠ 0 ↔ bits.negative = true := by
  have size := bits.toNat_lt
  have mask : signBit.toNat = 2 ^ 63 := rfl
  have top : bits.toNat.testBit 63 = true ↔ 2 ^ 63 ≤ bits.toNat := by
    rw [Nat.testBit_eq_decide_div_mod_eq,decide_eq_true_iff]
    omega
  rw [ne_eq,← UInt64.toNat_inj,UInt64.toNat_and,mask,Nat.and_two_pow,Binary64.negative,
    decide_eq_true_iff,← top]
  cases bits.toNat.testBit 63 <;> simp

/-- The keys of negative patterns stand below those of the others, in reverse. -/
theorem binary64OrderKey_toNat : (binary64OrderKey bits).toNat =
    if bits.negative then 2 ^ 63 - 1 - bits.index else 2 ^ 63 + bits.index := by
  have value := toNat_eq bits
  have small : bits.index < 2 ^ 63 := Nat.mod_lt _ (by norm_num)
  simp only [binary64OrderKey,bne_iff_ne,and_signBit]
  by_cases negative : bits.negative = true
  · rw [if_pos negative,if_pos negative,UInt64.toNat_not,value,if_pos negative]
    norm_num
    omega
  · rw [if_neg negative] at value
    have mask : signBit.toNat = 2 ^ 63 := rfl
    rw [if_neg negative,if_neg negative,UInt64.toNat_or,value,mask,zero_add,
      Nat.or_two_pow_eq_add_of_lt small,Nat.add_comm]

end Fields

/-- The place of a pattern on the line of all patterns: both zeros stand at its origin. -/
def place (bits : Binary64) : ℤ := if bits.negative then -(bits.index : ℤ) else bits.index

section Places

variable {left right : Binary64}

theorem binary64LessThan_iff_place (number : isNanBits left = false) (number' : isNanBits right = false) :
    binary64LessThan left right = true ↔ place left < place right := by
  have zeros : (binary64IsZero left && binary64IsZero right) = true ↔ left.index = 0 ∧ right.index = 0 := by
    rw [Bool.and_eq_true,binary64IsZero_iff,binary64IsZero_iff]
  have small : left.index < 2 ^ 63 := Nat.mod_lt _ (by norm_num)
  have small' : right.index < 2 ^ 63 := Nat.mod_lt _ (by norm_num)
  simp only [binary64LessThan,number,number',Bool.false_or,zeros,place]
  by_cases origin : left.index = 0 ∧ right.index = 0
  · rw [if_pos origin]
    simp [origin.1,origin.2]
  · rw [if_neg origin,decide_eq_true_iff,UInt64.lt_iff_toNat_lt,binary64OrderKey_toNat,
      binary64OrderKey_toNat]
    split <;> split <;> omega

theorem binary64Equal_iff_place (number : isNanBits left = false) (number' : isNanBits right = false) :
    binary64Equal left right = true ↔ place left = place right := by
  have zeros : (binary64IsZero left && binary64IsZero right) = true ↔ left.index = 0 ∧ right.index = 0 := by
    rw [Bool.and_eq_true,binary64IsZero_iff,binary64IsZero_iff]
  have value := toNat_eq left
  have value' := toNat_eq right
  simp only [binary64Equal,number,number',Bool.or_false,Bool.false_eq_true,if_false,zeros,place]
  by_cases origin : left.index = 0 ∧ right.index = 0
  · rw [if_pos origin]
    simp [origin.1,origin.2]
  · rw [if_neg origin,beq_iff_eq,← UInt64.toNat_inj,value,value']
    have small : left.index < 2 ^ 63 := Nat.mod_lt _ (by norm_num)
    have small' : right.index < 2 ^ 63 := Nat.mod_lt _ (by norm_num)
    cases left.negative <;> cases right.negative <;>
      simp only [Bool.false_eq_true,if_true,if_false] <;> omega

end Places

theorem signedMagnitude_eq (bits : Binary64) : signedMagnitude bits =
    if place bits < 0 then -magnitude (place bits).natAbs else magnitude (place bits).natAbs := by
  by_cases negative : bits.negative = true
  · by_cases zero : bits.index = 0
    · simp [signedMagnitude,place,negative,zero,magnitude_zero]
    · have below : place bits = -(bits.index : ℤ) := if_pos negative
      rw [signedMagnitude,if_pos negative,below,if_pos (by omega),Int.natAbs_neg,Int.natAbs_natCast]
  · simp [signedMagnitude,place,negative]

/-- The magnitudes with their signs increase along the line of patterns. -/
theorem signed_strictMono : StrictMono fun r : ℤ =>
    if r < 0 then -magnitude r.natAbs else magnitude r.natAbs := by
  intro r t less
  dsimp only
  by_cases below : r < 0
  · rw [if_pos below]
    have positive : 0 < magnitude r.natAbs := by
      rw [← magnitude_zero]
      exact magnitude_strictMono (by omega)
    by_cases below' : t < 0
    · rw [if_pos below']
      exact neg_lt_neg (magnitude_strictMono (by omega))
    · rw [if_neg below']
      have nonneg := magnitude_nonneg t.natAbs
      linarith
  · rw [if_neg below,if_neg (by omega)]
    exact magnitude_strictMono (by omega)

theorem signedMagnitude_lt_iff {left right : Binary64} :
    signedMagnitude left < signedMagnitude right ↔ place left < place right := by
  rw [signedMagnitude_eq,signedMagnitude_eq]
  exact signed_strictMono.lt_iff_lt

theorem signedMagnitude_eq_iff {left right : Binary64} :
    signedMagnitude left = signedMagnitude right ↔ place left = place right := by
  rw [signedMagnitude_eq,signedMagnitude_eq]
  exact signed_strictMono.injective.eq_iff

/-- The extended line with its finite part closed off at the end of the range. -/
def extend (q : ℚ) : ExtendedRational :=
  if magnitude infinityIndex ≤ q then ((⊤ : WithTop ℚ) :)
  else if q ≤ -magnitude infinityIndex then ⊥
  else ((q : WithTop ℚ) :)

/-- Within the closed range nothing is lost. -/
theorem extend_strictMonoOn :
    StrictMonoOn extend (Set.Icc (-magnitude infinityIndex) (magnitude infinityIndex)) := by
  intro q low r high less
  have positive : 0 < magnitude infinityIndex := by
    rw [← magnitude_zero]
    exact magnitude_strictMono (by norm_num [infinityIndex])
  have notTop : ¬magnitude infinityIndex ≤ q := by linarith [high.2]
  have notBottom : ¬r ≤ -magnitude infinityIndex := by linarith [low.1]
  rw [extend,extend,if_neg notTop,if_neg notBottom]
  by_cases bottom : q ≤ -magnitude infinityIndex
  · rw [if_pos bottom]
    split <;> exact WithBot.bot_lt_coe _
  · rw [if_neg bottom]
    split
    · exact WithBot.coe_lt_coe.mpr (WithTop.coe_lt_top q)
    · exact WithBot.coe_lt_coe.mpr (WithTop.coe_lt_coe.mpr less)

/-- What a pattern denotes is its signed magnitude on the closed line. -/
theorem denoted_eq {bits : Binary64} (number : isNanBits bits = false) :
    denoted bits = some (extend (signedMagnitude bits)) ∧
      signedMagnitude bits ∈ Set.Icc (-magnitude infinityIndex) (magnitude infinityIndex) := by
  have bound : bits.index ≤ infinityIndex := (isNanBits_eq_false_iff bits).mp number
  have le : magnitude bits.index ≤ magnitude infinityIndex := magnitude_strictMono.monotone bound
  have nonneg := magnitude_nonneg bits.index
  have positive : 0 < magnitude infinityIndex := by
    rw [← magnitude_zero]
    exact magnitude_strictMono (by norm_num [infinityIndex])
  constructor
  · rw [denoted,if_neg (by omega),extend,signedMagnitude]
    by_cases infinite : bits.index = infinityIndex
    · rw [if_pos infinite,infinite]
      split
      · rw [if_neg (by linarith),if_pos le_rfl]
      · rw [if_pos le_rfl]
    · have less : magnitude bits.index < magnitude infinityIndex := magnitude_strictMono (by omega)
      rw [if_neg infinite]
      split
      · rw [if_neg (by linarith),if_neg (by linarith)]
      · rw [if_neg (by linarith),if_neg (by linarith)]
  · rw [signedMagnitude]
    split
    · exact ⟨by linarith,by linarith⟩
    · exact ⟨by linarith,le⟩

section Relations

variable {left right : Binary64}

theorem IeeeLess.iff_place (number : isNanBits left = false) (number' : isNanBits right = false) :
    IeeeLess left right ↔ place left < place right := by
  obtain ⟨value,inside⟩ := denoted_eq number
  obtain ⟨value',inside'⟩ := denoted_eq number'
  rw [← signedMagnitude_lt_iff,← extend_strictMonoOn.lt_iff_lt inside inside',IeeeLess,value,value']
  simp only [Option.some.injEq,exists_and_left,exists_eq_left']

theorem IeeeEqual.iff_place (number : isNanBits left = false) (number' : isNanBits right = false) :
    IeeeEqual left right ↔ place left = place right := by
  obtain ⟨value,inside⟩ := denoted_eq number
  obtain ⟨value',inside'⟩ := denoted_eq number'
  rw [← signedMagnitude_eq_iff,← extend_strictMonoOn.injOn.eq_iff inside inside',IeeeEqual,value,value']
  simp only [Option.some.injEq,exists_and_left,exists_eq_left']

/-- A NaN on either side is below nothing and equal to nothing. -/
theorem IeeeLess.numbers (less : IeeeLess left right) :
    isNanBits left = false ∧ isNanBits right = false := by
  obtain ⟨x,y,value,value',-⟩ := less
  simp [← Bool.not_eq_true,isNanBits_iff_denoted,value,value']

theorem IeeeEqual.numbers (equal : IeeeEqual left right) :
    isNanBits left = false ∧ isNanBits right = false := by
  obtain ⟨x,y,value,value',-⟩ := equal
  simp [← Bool.not_eq_true,isNanBits_iff_denoted,value,value']

theorem binary64LessThan_numbers (less : binary64LessThan left right = true) :
    isNanBits left = false ∧ isNanBits right = false := by
  rw [binary64LessThan] at less
  split at less
  · cases less
  · rename_i comparable
    simp only [Bool.or_eq_true,not_or] at comparable
    simpa using comparable.1

theorem binary64Equal_numbers (equal : binary64Equal left right = true) :
    isNanBits left = false ∧ isNanBits right = false := by
  rw [binary64Equal] at equal
  split at equal
  · cases equal
  · rename_i comparable
    simpa using comparable

theorem binary64LessThan_iff : binary64LessThan left right = true ↔ IeeeLess left right := by
  constructor
  · intro less
    obtain ⟨number,number'⟩ := binary64LessThan_numbers less
    exact (IeeeLess.iff_place number number').mpr ((binary64LessThan_iff_place number number').mp less)
  · intro less
    obtain ⟨number,number'⟩ := less.numbers
    exact (binary64LessThan_iff_place number number').mpr ((IeeeLess.iff_place number number').mp less)

theorem binary64Equal_iff : binary64Equal left right = true ↔ IeeeEqual left right := by
  constructor
  · intro equal
    obtain ⟨number,number'⟩ := binary64Equal_numbers equal
    exact (IeeeEqual.iff_place number number').mpr ((binary64Equal_iff_place number number').mp equal)
  · intro equal
    obtain ⟨number,number'⟩ := equal.numbers
    exact (binary64Equal_iff_place number number').mpr ((IeeeEqual.iff_place number number').mp equal)

end Relations

/-- The comparisons on bits are those of the denoted values, a strict weak order with
ties exactly at equality, and the C runtime computes the same ones. -/
theorem comparisons_ieee :
    (∀ a b, binary64LessThan a b = true ↔ IeeeLess a b) ∧
    (∀ a b, binary64Equal a b = true ↔ IeeeEqual a b) ∧
    IsStrictWeakOrder {bits // denoted bits ≠ none} (fun a b => binary64LessThan a.1 b.1 = true) ∧
    (∀ a b : {bits // denoted bits ≠ none},
      [binary64LessThan a.1 b.1,binary64Equal a.1 b.1,binary64LessThan b.1 a.1].count true = 1) ∧
    (∀ a b, bennuDoubleLessThan a b = binary64LessThan a b) ∧
    ∀ a b, bennuDoubleEqual a b = binary64Equal a b := by
  have number {bits : Binary64} (denotes : denoted bits ≠ none) : isNanBits bits = false :=
    Bool.eq_false_iff.mpr (mt (isNanBits_iff_denoted bits).mp denotes)
  refine ⟨fun a b => binary64LessThan_iff,fun a b => binary64Equal_iff,?_,?_,fun a b => rfl,fun a b => rfl⟩
  · have byPlace : (fun a b : {bits // denoted bits ≠ none} => binary64LessThan a.1 b.1 = true) =
        Order.Preimage (fun bits : {bits // denoted bits ≠ none} => place bits.1) (· < ·) := by
      funext a b
      exact propext (binary64LessThan_iff_place (number a.2) (number b.2))
    rw [byPlace]
    have integers : IsStrictWeakOrder ℤ (· < ·) := isStrictWeakOrder_of_isOrderConnected
    infer_instance
  · rintro ⟨a,denotes⟩ ⟨b,denotes'⟩
    have less := binary64LessThan_iff_place (number denotes) (number denotes')
    have equal := binary64Equal_iff_place (number denotes) (number denotes')
    have more := binary64LessThan_iff_place (number denotes') (number denotes)
    rcases lt_trichotomy (place a) (place b) with below | same | above
    · have notEqual : binary64Equal a b = false := by
        rw [← Bool.not_eq_true,equal]
        exact below.ne
      have notMore : binary64LessThan b a = false := by
        rw [← Bool.not_eq_true,more]
        exact below.not_gt
      rw [less.mpr below,notEqual,notMore]
      rfl
    · have notLess : binary64LessThan a b = false := by
        rw [← Bool.not_eq_true,less]
        exact same.not_lt
      have notMore : binary64LessThan b a = false := by
        rw [← Bool.not_eq_true,more]
        exact same.not_gt
      rw [notLess,equal.mpr same,notMore]
      rfl
    · have notLess : binary64LessThan a b = false := by
        rw [← Bool.not_eq_true,less]
        exact above.not_gt
      have notEqual : binary64Equal a b = false := by
        rw [← Bool.not_eq_true,equal]
        exact above.ne'
      rw [notLess,notEqual,more.mpr above]
      rfl

end Bennu
