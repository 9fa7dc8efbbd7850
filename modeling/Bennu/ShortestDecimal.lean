import Bennu.Binary64Grid
import Bennu.DecimalGrid

/-! The decimals that read back as a double. They fill an interval around its value,
which is even-handed except at a power of two, where the doubles below are twice as
dense: there the nearest decimal of a length can miss the interval while another
one of that length is in it. -/
namespace Bennu

open NearestEven

section interval

theorem magnitude_pos {k : ℕ} (positive : 0 < k) : 0 < magnitude k := by
  rw [← magnitude_zero]
  exact magnitude_strictMono positive

/-- The next magnitude has no more than 53 bits in steps of this one. -/
theorem magnitude_succ_le (k : ℕ) : magnitude (k + 1) ≤ 2 ^ 53 * 2 ^ stepExponent k := by
  have small : k % 2 ^ 52 + 1 ≤ 2 ^ 52 := Nat.mod_lt _ (by norm_num)
  have fraction : ((k % 2 ^ 52 : ℕ) : ℚ) + 1 ≤ 2 ^ 52 := by exact_mod_cast small
  rw [magnitude_succ]
  by_cases zero : k / 2 ^ 52 = 0
  · rw [magnitude_subnormal zero,stepExponent_subnormal zero]
    have unit : (0 : ℚ) < 2 ^ (-1074 : ℤ) := by positivity
    generalize (2 : ℚ) ^ (-1074 : ℤ) = unit at *
    nlinarith
  · rw [magnitude_normal zero,stepExponent_normal zero]
    have unit : (0 : ℚ) < 2 ^ (((k / 2 ^ 52 : ℕ) : ℤ) - 1075) := by positivity
    generalize (2 : ℚ) ^ (((k / 2 ^ 52 : ℕ) : ℤ) - 1075) = unit at *
    nlinarith

/-- A normal magnitude has 53 bits in its own steps. -/
theorem magnitude_ge_steps {k : ℕ} (normal : 2 ^ 52 ≤ k) :
    2 ^ 52 * 2 ^ stepExponent k ≤ magnitude k := by
  have nonzero : k / 2 ^ 52 ≠ 0 := by omega
  rw [magnitude_normal nonzero,stepExponent_normal nonzero]
  apply mul_le_mul_of_nonneg_right _ (by positivity)
  have fraction : (0 : ℚ) ≤ (k % 2 ^ 52 : ℕ) := Nat.cast_nonneg _
  linarith

theorem halfway_magnitude (k : ℕ) :
    halfway magnitude k = magnitude k + 2 ^ stepExponent k / 2 := by
  rw [halfway,magnitude_succ]
  ring

/-- A power of two whose neighbour below is nearer than the one above. -/
def Uneven (k : ℕ) : Prop := k % 2 ^ 52 = 0 ∧ 2 ^ 53 ≤ k

/-- The step before a magnitude is the one after it, or half of that. -/
theorem stepExponent_before (k : ℕ) :
    stepExponent (k + 1) = stepExponent k ∧ ¬Uneven (k + 1) ∨
    stepExponent (k + 1) = stepExponent k + 1 ∧ Uneven (k + 1) := by
  simp only [stepExponent,Uneven]
  omega

theorem halfway_before (k : ℕ) :
    halfway magnitude k = magnitude (k + 1) - 2 ^ stepExponent k / 2 := by
  rw [halfway,magnitude_succ]
  ring

/-- What is nearer than a part of 2⁵⁴ reads back. -/
theorem rounds_near {k : ℕ} {x : ℚ} (near : |x - magnitude k| < magnitude k / 2 ^ 54) :
    Rounds magnitude x k := by
  have sides := abs_lt.mp near
  constructor
  · rintro j rfl
    left
    have steps := magnitude_succ_le j
    rw [halfway_before]
    linarith
  · left
    have steps := magnitude_succ_le k
    have order := magnitude_strictMono (Nat.lt_succ_self k)
    rw [Nat.succ_eq_add_one] at order
    rw [halfway_magnitude]
    linarith

/-- What reads back as a normal double is nearer than a part of 2⁵³. -/
theorem rounds_within {k : ℕ} {x : ℚ} (normal : 2 ^ 52 ≤ k) (reads : Rounds magnitude x k) :
    |x - magnitude k| ≤ magnitude k / 2 ^ 53 := by
  have steps := magnitude_ge_steps normal
  apply abs_le.mpr
  constructor
  · obtain ⟨j,rfl⟩ : ∃ j, k = j + 1 := ⟨k - 1,by omega⟩
    have low := reads.halfway_le
    rw [halfway_before] at low
    have unit : (0 : ℚ) < 2 ^ stepExponent j := by positivity
    have before : (2 : ℚ) ^ stepExponent j ≤ 2 ^ stepExponent (j + 1) := by
      apply zpow_le_zpow_right₀ (by norm_num)
      rcases stepExponent_before j with ⟨equal,-⟩ | ⟨more,-⟩ <;> omega
    linarith
  · have high := reads.le_halfway
    rw [halfway_magnitude] at high
    linarith

/-- Zero reads back as nothing else. -/
theorem reads_positive {k d : ℕ} {q : ℤ} (positive : 0 < k)
    (reads : Rounds magnitude (decimalGrid q d) k) : 0 < d := by
  by_contra zero
  have none : d = 0 := by omega
  subst none
  have origin : decimalGrid q 0 = magnitude 0 := by simp [decimalGrid,magnitude_zero]
  rw [origin] at reads
  have same := reads.unique magnitude_strictMono (Rounds.point magnitude_strictMono 0)
  omega

/-- Away from the uneven powers of two a decimal that is no farther reads back too. -/
theorem reads_nearer {k : ℕ} {x y : ℚ} (even : ¬Uneven k) (positive : 0 < k)
    (reads : Rounds magnitude x k) (nearer : |y - magnitude k| ≤ |x - magnitude k|) :
    Rounds magnitude y k := by
  obtain ⟨j,rfl⟩ : ∃ j, k = j + 1 := ⟨k - 1,by omega⟩
  have same : stepExponent (j + 1) = stepExponent j := by
    rcases stepExponent_before j with ⟨equal,-⟩ | ⟨-,uneven⟩
    · exact equal
    · exact absurd uneven even
  have below := reads.below
  have above := reads.above j rfl
  rw [halfway_magnitude,same] at below
  rw [halfway_before] at above
  -- the distance decides, and only an even double takes the two ends
  have half : |x - magnitude (j + 1)| < 2 ^ stepExponent j / 2 ∨
      |x - magnitude (j + 1)| = 2 ^ stepExponent j / 2 ∧ (j + 1) % 2 = 0 := by
    rcases below with less | ⟨equal,ends⟩
    · rcases above with more | ⟨equal,ends⟩
      · exact .inl (abs_lt.mpr ⟨by linarith,by linarith⟩)
      · refine .inr ⟨?_,ends⟩
        rw [← equal,abs_sub_comm,sub_sub_cancel,abs_of_nonneg (by positivity)]
    · refine .inr ⟨?_,ends⟩
      rw [equal,add_sub_cancel_left,abs_of_nonneg (by positivity)]
  constructor
  · rintro i next
    obtain rfl : i = j := Nat.succ.inj next
    rw [halfway_before]
    rcases half with less | ⟨equal,ends⟩
    · have sides := abs_lt.mp (nearer.trans_lt less)
      exact .inl (by linarith)
    · have sides := abs_le.mp (nearer.trans_eq equal)
      rcases (show magnitude (i + 1) - 2 ^ stepExponent i / 2 ≤ y by linarith).lt_or_eq with
        less | tie
      · exact .inl less
      · exact .inr ⟨tie,ends⟩
  · rw [halfway_magnitude,same]
    rcases half with less | ⟨equal,ends⟩
    · have sides := abs_lt.mp (nearer.trans_lt less)
      exact .inl (by linarith)
    · have sides := abs_le.mp (nearer.trans_eq equal)
      rcases (show y ≤ magnitude (j + 1) + 2 ^ stepExponent j / 2 by linarith).lt_or_eq with
        less | tie
      · exact .inl less
      · exact .inr ⟨tie,ends⟩

/-- What reads back as an uneven power of two: a quarter of a step below it, half a
step above. -/
theorem reads_uneven {k : ℕ} {x : ℚ} (uneven : Uneven k) :
    Rounds magnitude x k ↔
      magnitude k - 2 ^ stepExponent k / 4 ≤ x ∧ x ≤ magnitude k + 2 ^ stepExponent k / 2 := by
  have ends : k % 2 = 0 := by
    have zero := uneven.1
    omega
  have large := uneven.2
  obtain ⟨j,rfl⟩ : ∃ j, k = j + 1 := ⟨k - 1,by omega⟩
  have quarter : (2 : ℚ) ^ stepExponent j / 2 = 2 ^ stepExponent (j + 1) / 4 := by
    rcases stepExponent_before j with ⟨-,even⟩ | ⟨next,-⟩
    · exact absurd uneven even
    · rw [next,zpow_add_one₀ (by norm_num)]
      ring
  have low : halfway magnitude j = magnitude (j + 1) - 2 ^ stepExponent (j + 1) / 4 := by
    rw [halfway_before,quarter]
  rw [← low,← halfway_magnitude]
  constructor
  · exact fun reads => ⟨reads.halfway_le,reads.le_halfway⟩
  · rintro ⟨above,below⟩
    constructor
    · intro i next
      obtain rfl : i = j := Nat.succ.inj next
      rcases above.lt_or_eq with less | tie
      · exact .inl less
      · exact .inr ⟨tie,ends⟩
    · rcases below.lt_or_eq with less | tie
      · exact .inl less
      · exact .inr ⟨tie,ends⟩

end interval

section lopsided

/-- Some power of ten has no multiple nearer than the one below the double, which is
more than a quarter of a step away, while the next multiple is within half a step
and needs all its digits. -/
def Lopsided (k : ℕ) : Prop :=
  Uneven k ∧ ∃ q d, Rounds (decimalGrid q) (magnitude k) d ∧ (d + 1) % 10 ≠ 0 ∧
    2 ^ stepExponent k / 4 < magnitude k - decimalGrid q d ∧
    decimalGrid q (d + 1) - magnitude k ≤ 2 ^ stepExponent k / 2

/-- Where a multiple reads back and the nearest one does not, the double is an uneven
power of two between the two, and they are neighbours. -/
theorem nearest_missed {k d m : ℕ} {q : ℤ} (positive : 0 < k)
    (nearest : Rounds (decimalGrid q) (magnitude k) d)
    (reads : Rounds magnitude (decimalGrid q m) k)
    (missed : ¬Rounds magnitude (decimalGrid q d) k) :
    Uneven k ∧ m = d + 1 ∧ 2 ^ stepExponent k / 4 < magnitude k - decimalGrid q d ∧
      decimalGrid q (d + 1) - magnitude k ≤ 2 ^ stepExponent k / 2 := by
  have nearer := nearest.nearest (decimalGrid_strictMono q) m
  have within := abs_le.mp (nearest.within (magnitude_nonneg k))
  have uneven : Uneven k := by
    by_contra even
    refine missed (reads_nearer even positive reads ?_)
    rwa [abs_sub_comm,abs_sub_comm (decimalGrid q m)]
  have ten := tenPower_pos q
  have unit : (0 : ℚ) < 2 ^ stepExponent k := by positivity
  rw [reads_uneven uneven] at reads missed
  generalize (2 : ℚ) ^ stepExponent k = step at *
  have past : magnitude k < decimalGrid q m := by
    by_contra notPast
    rw [abs_of_nonneg (by linarith : 0 ≤ magnitude k - decimalGrid q m)] at nearer
    have sides := abs_le.mp nearer
    exact missed ⟨by linarith,by linarith⟩
  rw [abs_of_neg (by linarith : magnitude k - decimalGrid q m < 0)] at nearer
  have sides := abs_le.mp nearer
  have far : decimalGrid q d < magnitude k - step / 4 := by
    by_contra notFar
    exact missed ⟨by linarith,by linarith⟩
  have less : d < m := (decimalGrid_strictMono q).lt_iff_lt.mp (by linarith)
  have next : m = d + 1 := by
    by_contra other
    have between : decimalGrid q (d + 1 + 1) ≤ decimalGrid q m :=
      (decimalGrid_strictMono q).monotone (by omega)
    rw [decimalGrid_succ,decimalGrid_succ] at between
    linarith
  subst next
  exact ⟨uneven,rfl,by linarith,by linarith⟩

/-- The only multiple that reads back is the one past the nearest. -/
theorem lopsided_only {k d m : ℕ} {q : ℤ} (uneven : Uneven k)
    (nearest : Rounds (decimalGrid q) (magnitude k) d)
    (far : 2 ^ stepExponent k / 4 < magnitude k - decimalGrid q d)
    (reads : Rounds magnitude (decimalGrid q m) k) : m = d + 1 := by
  have large := uneven.2
  refine (nearest_missed (by omega) nearest reads ?_).2.1
  rw [reads_uneven uneven]
  rintro ⟨above,-⟩
  linarith

theorem Uneven.normal {k : ℕ} (uneven : Uneven k) : 2 ^ 52 ≤ k := by
  have large := uneven.2
  omega

/-- The multiples concerned are not farther apart than a step. -/
theorem lopsided_fine {k d : ℕ} {q : ℤ}
    (nearest : Rounds (decimalGrid q) (magnitude k) d)
    (near : decimalGrid q (d + 1) - magnitude k ≤ 2 ^ stepExponent k / 2) :
    (10 : ℚ) ^ q ≤ 2 ^ stepExponent k := by
  have ten := tenPower_pos q
  have within := abs_le.mp (nearest.within (magnitude_nonneg k))
  rw [decimalGrid_succ] at near
  linarith

theorem step_le {k : ℕ} (normal : 2 ^ 52 ≤ k) : 2 ^ stepExponent k ≤ magnitude k / 2 ^ 52 := by
  have steps := magnitude_ge_steps normal
  rw [le_div_iff₀ (by norm_num)]
  linarith

end lopsided

/-- The index of the double 1000000.0. -/
def millionIndex : ℕ := 0x412e848000000000

/-- The index of the double nearest to a ten-thousandth, which is above it. -/
def tenThousandthIndex : ℕ := 0x3f1a36e2eb1c432d

theorem magnitude_million : magnitude millionIndex = 1000000 := by
  norm_num [magnitude,millionIndex]

theorem magnitude_tenThousandth :
    1 / 10000 < magnitude tenThousandthIndex ∧
      Rounds magnitude (1 / 10000) tenThousandthIndex := by
  have value : magnitude tenThousandthIndex = 7378697629483821 / 73786976294838206464 := by
    norm_num [magnitude,tenThousandthIndex]
  refine ⟨by rw [value]; norm_num,rounds_near ?_⟩
  rw [value,abs_lt]
  constructor <;> norm_num

/-- The shortest decimal that reads back as a magnitude, and among those of its length
the closest; of two that are equally close, the one with an even last digit. -/
structure ShortestDecimal (k digits : ℕ) (exponent : ℤ) : Prop where
  readsBack : Rounds magnitude (decimalGrid exponent digits) k
  shortest : ∀ other q, Rounds magnitude (decimalGrid q other) k →
    digitCount digits ≤ digitCount other
  closest : ∀ other q, Rounds magnitude (decimalGrid q other) k →
    digitCount other = digitCount digits →
      |decimalGrid exponent digits - magnitude k| ≤ |decimalGrid q other - magnitude k|
  even : ∀ other q, Rounds magnitude (decimalGrid q other) k →
    digitCount other = digitCount digits → decimalGrid q other ≠ decimalGrid exponent digits →
      |decimalGrid exponent digits - magnitude k| = |decimalGrid q other - magnitude k| →
        digits % 2 = 0

namespace ShortestDecimal

variable {k digits d : ℕ} {exponent q : ℤ}

/-- A multiple that rounds the double, reads back and can be written as short is the
shortest decimal, when that is a multiple too. -/
theorem nearest_eq (short : ShortestDecimal k digits exponent) {n : ℕ}
    (nearest : Rounds (decimalGrid q) (magnitude k) d)
    (reads : Rounds magnitude (decimalGrid q d) k) (fits : exponent = q + n)
    (few : ∃ other r, decimalGrid r other = decimalGrid q d ∧
      digitCount other ≤ digitCount digits) :
    decimalGrid q d = decimalGrid exponent digits := by
  obtain ⟨other,r,same,count⟩ := few
  have multiple : decimalGrid exponent digits = decimalGrid q (digits * 10 ^ n) := by
    rw [decimalGrid_finer,fits]
  have readsToo := reads
  rw [← same] at readsToo
  have length : digitCount other = digitCount digits :=
    Nat.le_antisymm count (short.shortest other r readsToo)
  have close := short.closest other r readsToo length
  have near := nearest.nearest (decimalGrid_strictMono q) (digits * 10 ^ n)
  rw [← multiple,abs_sub_comm,abs_sub_comm (magnitude k)] at near
  rw [same] at close
  by_contra differ
  -- equally close, so both would be even; but neighbours are not
  have evenDigits := short.even other r readsToo length (by rwa [same])
    (by rw [same]; exact le_antisymm close near)
  have apart : digits * 10 ^ n ≠ d := by
    rintro rfl
    exact differ multiple.symm
  obtain ⟨neighbours,evenToo⟩ := nearest.tie (magnitude_nonneg k) apart (by
    rw [← multiple,abs_sub_comm,abs_sub_comm (magnitude k)]
    exact le_antisymm near close)
  have evenMultiple : digits * 10 ^ n % 2 = 0 := by
    rw [Nat.mul_mod,evenDigits,Nat.zero_mul,Nat.zero_mod]
  omega

section scientific

variable {e : ℤ}

/-- In the decade of the double a rounding needs no more digits than it has. -/
theorem few_of_nearest (low : (10 : ℚ) ^ e ≤ magnitude k) (high : magnitude k < 10 ^ (e + 1))
    (p : ℕ) (nearest : Rounds (decimalGrid (e - p)) (magnitude k) d) :
    10 ^ p ≤ d ∧ d ≤ 10 ^ (p + 1) := by
  have first := Rounds.point (decimalGrid_strictMono (e - p)) (10 ^ p)
  have last := Rounds.point (decimalGrid_strictMono (e - p)) (10 ^ (p + 1))
  have increasing := decimalGrid_strictMono (e - p)
  constructor
  · apply first.monotone increasing nearest
    rwa [decimalGrid_power,sub_add_cancel]
  · apply nearest.monotone increasing last
    rw [decimalGrid_power]
    push_cast
    rw [show e - p + (p + 1) = e + 1 by ring]
    exact high.le

/-- The shortest decimal is not below the decade of the double. -/
theorem decade_le (short : ShortestDecimal k digits exponent)
    (low : (10 : ℚ) ^ e ≤ magnitude k) : 10 ^ e ≤ decimalGrid exponent digits := by
  by_contra below
  rw [not_le] at below
  have power : Rounds magnitude (decimalGrid e 1) k := by
    rw [decimalGrid_one]
    exact short.readsBack.between (Rounds.point magnitude_strictMono k) below.le low
  have single : digitCount 1 = 1 := digitCount_power 0
  have count := short.shortest 1 e power
  have more := digitCount_pos digits
  have close := short.closest 1 e power (by omega)
  rw [decimalGrid_one,abs_of_neg (by linarith),abs_of_nonpos (by linarith)] at close
  linarith

/-- It is a multiple in the decade of the double, at its own length. -/
theorem exponent_ge (short : ShortestDecimal k digits exponent)
    (low : (10 : ℚ) ^ e ≤ magnitude k) :
    ∃ n : ℕ, exponent = e - (digitCount digits - 1 : ℕ) + n := by
  have decade := short.decade_le low
  have below : decimalGrid exponent digits < 10 ^ (exponent + digitCount digits) := by
    rw [← decimalGrid_power]
    exact decimalGrid_strictMono exponent (lt_digitCount digits)
  have order := (zpow_lt_zpow_iff_right₀ (by norm_num : (1 : ℚ) < 10)).mp (decade.trans_lt below)
  have more := digitCount_pos digits
  exact ⟨(exponent - e + (digitCount digits - 1 : ℕ)).toNat,by omega⟩

/-- With fewer digits nothing reads back. -/
theorem shorter_fails (short : ShortestDecimal k digits exponent)
    (low : (10 : ℚ) ^ e ≤ magnitude k) (high : magnitude k < 10 ^ (e + 1)) {p : ℕ}
    (fewer : p + 1 < digitCount digits)
    (nearest : Rounds (decimalGrid (e - p)) (magnitude k) d) :
    ¬Rounds magnitude (decimalGrid (e - p) d) k := by
  intro reads
  obtain ⟨other,r,same,count⟩ :=
    exists_few_digits (few_of_nearest low high p nearest).2 (q := e - p)
  have least := short.shortest other r (by rwa [same])
  omega

/-- No shorter multiple of the same grid can be the one past the rounding. -/
theorem past_not_tens (short : ShortestDecimal k digits exponent)
    (low : (10 : ℚ) ^ e ≤ magnitude k) (high : magnitude k < 10 ^ (e + 1)) (uneven : Uneven k)
    (nearest : Rounds (decimalGrid (e - (digitCount digits - 1 : ℕ))) (magnitude k) d)
    (near : decimalGrid (e - (digitCount digits - 1 : ℕ)) (d + 1) - magnitude k ≤
      2 ^ stepExponent k / 2)
    (reads : Rounds magnitude (decimalGrid (e - (digitCount digits - 1 : ℕ)) (d + 1)) k) :
    (d + 1) % 10 ≠ 0 := by
  intro tens
  have more := digitCount_pos digits
  have bounds := few_of_nearest low high _ nearest
  have fine := (lopsided_fine nearest near).trans (step_le uneven.normal)
  have multiple : decimalGrid (e - (digitCount digits - 1 : ℕ)) (d + 1) =
      decimalGrid (e - (digitCount digits - 1 : ℕ) + (1 : ℕ)) ((d + 1) / 10) := by
    rw [← decimalGrid_finer,pow_one,Nat.div_mul_cancel (Nat.dvd_of_mod_eq_zero tens)]
  rw [multiple] at reads
  generalize decade : digitCount digits = c at *
  by_cases single : c = 1
  · subst single
    have ten := tenPower_pos e
    rw [zpow_add_one₀ (by norm_num)] at high
    simp only [Nat.sub_self,Nat.cast_zero,sub_zero] at fine
    rw [le_div_iff₀ (by norm_num)] at fine
    linarith
  · obtain ⟨b,rfl⟩ : ∃ b, c = b + 2 := ⟨c - 2,by omega⟩
    have le : (d + 1) / 10 ≤ 10 ^ (b + 1) := by
      have top : d ≤ 10 ^ (b + 1) * 10 := by
        rw [← pow_succ]
        exact bounds.2
      omega
    obtain ⟨other,r,same,count⟩ :=
      exists_few_digits le (q := e - ((b + 2 - 1 : ℕ) : ℤ) + (1 : ℕ))
    have least := short.shortest other r (by rwa [same])
    omega

/-- With the digits of the shortest decimal the rounding is that decimal, unless the
double is lopsided. -/
theorem nearest_shortest (short : ShortestDecimal k digits exponent) (positive : 0 < k)
    (even : ¬Lopsided k) (low : (10 : ℚ) ^ e ≤ magnitude k) (high : magnitude k < 10 ^ (e + 1))
    (nearest : Rounds (decimalGrid (e - (digitCount digits - 1 : ℕ))) (magnitude k) d) :
    Rounds magnitude (decimalGrid (e - (digitCount digits - 1 : ℕ)) d) k ∧
      decimalGrid (e - (digitCount digits - 1 : ℕ)) d = decimalGrid exponent digits := by
  obtain ⟨n,fits⟩ := short.exponent_ge low
  have more := digitCount_pos digits
  have bounds := few_of_nearest low high _ nearest
  generalize grid : e - (digitCount digits - 1 : ℕ) = g at *
  have few := exists_few_digits bounds.2 (q := g)
  rw [Nat.sub_add_cancel more] at few
  suffices reads : Rounds magnitude (decimalGrid g d) k from
    ⟨reads,short.nearest_eq nearest reads fits few⟩
  by_contra missed
  have multiple : decimalGrid exponent digits = decimalGrid g (digits * 10 ^ n) := by
    rw [decimalGrid_finer,fits]
  have reads := short.readsBack
  rw [multiple] at reads
  obtain ⟨uneven,next,far,near⟩ := nearest_missed positive nearest reads missed
  refine even ⟨uneven,g,d,nearest,?_,far,near⟩
  rw [next] at reads
  subst grid
  exact short.past_not_tens low high uneven nearest near reads

/-- For a lopsided double the rounding with as many digits does not read back. -/
theorem lopsided_misses (short : ShortestDecimal k digits exponent) (lopsided : Lopsided k)
    (low : (10 : ℚ) ^ e ≤ magnitude k) (high : magnitude k < 10 ^ (e + 1))
    (nearest : Rounds (decimalGrid (e - (digitCount digits - 1 : ℕ))) (magnitude k) d) :
    ¬Rounds magnitude (decimalGrid (e - (digitCount digits - 1 : ℕ)) d) k := by
  obtain ⟨uneven,q,below,rounded,tens,far,near⟩ := lopsided
  obtain ⟨n,fits⟩ := short.exponent_ge low
  have more := digitCount_pos digits
  have fine := (lopsided_fine rounded near).trans (step_le uneven.normal)
  have reads := short.readsBack
  rw [fits,← decimalGrid_finer] at reads
  generalize grid : e - (digitCount digits - 1 : ℕ) = g at *
  have only {m : ℕ} (reads : Rounds magnitude (decimalGrid q m) k) : m = below + 1 :=
    lopsided_only uneven rounded far reads
  -- the shortest decimal and the one past the nearest are on the same grid
  have same : g = q := by
    rcases lt_trichotomy g q with finer | equal | coarser
    · have past : Rounds magnitude (decimalGrid q (below + 1)) k := by
        rw [reads_uneven uneven]
        have ten := tenPower_pos q
        have beyond := rounded.le_halfway
        have unit : (0 : ℚ) < 2 ^ stepExponent k := by positivity
        rw [decimalGrid_halfway] at beyond
        rw [decimalGrid_succ] at near ⊢
        constructor <;> linarith
      have shallow : q ≤ e := by
        have order : (10 : ℚ) ^ q < 10 ^ (e + 1) := by
          have positive := magnitude_nonneg k
          have part : magnitude k / 2 ^ 52 ≤ magnitude k := div_le_self positive (by norm_num)
          linarith
        have less := (zpow_lt_zpow_iff_right₀ (by norm_num : (1 : ℚ) < 10)).mp order
        omega
      obtain ⟨p,depth⟩ : ∃ p : ℕ, q = e - p := ⟨(e - q).toNat,by omega⟩
      subst depth
      have under : below < 10 ^ (p + 1) := by
        rw [← (decimalGrid_strictMono (e - p)).lt_iff_lt,decimalGrid_power]
        push_cast
        rw [show e - p + (p + 1) = e + 1 by ring]
        have unit : (0 : ℚ) < 2 ^ stepExponent k := by positivity
        linarith
      obtain ⟨other,r,equal,count⟩ := exists_few_digits (Nat.succ_le_of_lt under) (q := e - p)
      rw [Nat.succ_eq_add_one] at equal
      have least := short.shortest other r (by rwa [equal])
      omega
    · exact equal
    · obtain ⟨i,rfl⟩ : ∃ i : ℕ, g = q + (i + 1 : ℕ) := ⟨(g - q - 1).toNat,by omega⟩
      rw [← decimalGrid_finer] at reads
      have multiple := only reads
      rw [← multiple,pow_succ,← mul_assoc] at tens
      exact absurd (Nat.mul_mod_left _ 10) tens
  subst same
  rw [nearest.unique (decimalGrid_strictMono g) rounded,reads_uneven uneven]
  rintro ⟨above,-⟩
  linarith

end scientific

/-- Seventeen digits always read back. -/
theorem seventeen_read {e : ℤ} (low : (10 : ℚ) ^ e ≤ magnitude k)
    (nearest : Rounds (decimalGrid (e - (16 : ℕ))) (magnitude k) d) :
    Rounds magnitude (decimalGrid (e - (16 : ℕ)) d) k := by
  apply rounds_near
  have ten := tenPower_pos e
  have within := nearest.within (magnitude_nonneg k)
  rw [abs_sub_comm,zpow_sub₀ (by norm_num)] at within
  refine within.trans_lt ?_
  rw [zpow_natCast,div_div,div_lt_div_iff₀ (by norm_num) (by norm_num)]
  linarith

section fixed

/-- Above a ten-thousandth twenty places read back. -/
theorem twenty_read (large : (1 : ℚ) / 10000 ≤ magnitude k)
    (nearest : Rounds (decimalGrid (-(20 : ℕ))) (magnitude k) d) :
    Rounds magnitude (decimalGrid (-(20 : ℕ)) d) k := by
  apply rounds_near
  have within := nearest.within (magnitude_nonneg k)
  rw [abs_sub_comm] at within
  refine within.trans_lt ?_
  rw [zpow_neg,zpow_natCast]
  linarith

/-- An uneven magnitude is a power of two. -/
theorem magnitude_uneven (uneven : Uneven k) : magnitude k = 2 ^ (stepExponent k + 52) := by
  have large := uneven.normal
  have nonzero : k / 2 ^ 52 ≠ 0 := by omega
  rw [magnitude_normal nonzero,stepExponent_normal nonzero,uneven.1,zpow_add₀ (by norm_num)]
  push_cast
  rw [add_zero,mul_comm]
  norm_cast

/-- No number in the range of fixed notation is lopsided: the powers of two there
end within thirteen decimal places. -/
theorem not_lopsided (large : (1 : ℚ) / 10000 ≤ magnitude k) (small : magnitude k < 1000000) :
    ¬Lopsided k := by
  rintro ⟨uneven,q,below,rounded,tens,far,near⟩
  have fine := lopsided_fine rounded near
  have power := magnitude_uneven uneven
  have unit : (0 : ℚ) < 2 ^ stepExponent k := by positivity
  have off (m : ℕ) : magnitude k ≠ decimalGrid q m := by
    intro on
    rw [on] at rounded far
    rw [(Rounds.point (decimalGrid_strictMono q) m).unique (decimalGrid_strictMono q) rounded] at far
    linarith
  generalize stepExponent k = s at *
  rw [power] at large small off
  have low : -14 < s + 52 := by
    apply (zpow_lt_zpow_iff_right₀ (by norm_num : (1 : ℚ) < 2)).mp
    refine lt_of_lt_of_le ?_ large
    norm_num
  have high : s + 52 < 20 := by
    apply (zpow_lt_zpow_iff_right₀ (by norm_num : (1 : ℚ) < 2)).mp
    refine small.trans ?_
    norm_num
  rcases le_or_gt 0 (s + 52) with whole | part
  · obtain ⟨n,exponent⟩ : ∃ n : ℕ, s + 52 = n := ⟨(s + 52).toNat,by omega⟩
    have negative : q < 0 := by
      apply (zpow_lt_zpow_iff_right₀ (by norm_num : (1 : ℚ) < 10)).mp
      refine fine.trans_lt ?_
      rw [zpow_zero]
      exact zpow_lt_one_of_neg₀ (by norm_num) (by omega)
    obtain ⟨i,rfl⟩ : ∃ i : ℕ, q = -i := ⟨(-q).toNat,by omega⟩
    apply off (2 ^ n * 10 ^ i)
    rw [decimalGrid_finer,neg_add_cancel,decimalGrid,exponent]
    push_cast
    simp
  · obtain ⟨i,exponent⟩ : ∃ i : ℕ, s + 52 = -i := ⟨(-(s + 52)).toNat,by omega⟩
    have bound : i ≤ 13 := by omega
    rcases le_or_gt q (-i) with deep | shallow
    · obtain ⟨n,depth⟩ : ∃ n : ℕ, q + n = -i := ⟨(-i - q).toNat,by omega⟩
      apply off (5 ^ i * 10 ^ n)
      rw [decimalGrid_finer,depth,decimalGrid,exponent,zpow_neg,zpow_neg,zpow_natCast,zpow_natCast,
        show (10 : ℚ) = 5 * 2 by norm_num,mul_pow]
      push_cast
      field_simp
    · have coarse : (10 : ℚ) ^ (-(i : ℤ) + 1) ≤ 10 ^ q := zpow_le_zpow_right₀ (by norm_num) shallow
      have whole := coarse.trans fine
      have five : (5 : ℚ) ^ i ≤ 5 ^ 13 := pow_le_pow_right₀ (by norm_num) bound
      have ten : (10 : ℚ) ^ i = 5 ^ i * 2 ^ i := by
        rw [← mul_pow]
        norm_num
      have two : (0 : ℚ) < 2 ^ i := by positivity
      rw [show s = -(i : ℤ) - 52 by omega,zpow_add_one₀ (by norm_num),zpow_sub₀ (by norm_num),
        zpow_neg,zpow_neg,zpow_natCast,zpow_natCast,ten,inv_mul_eq_div,← one_div,div_div,
        div_le_div_iff₀ (by positivity) (by positivity)] at whole
      have many : 10 * 2 ^ 52 ≤ (5 : ℚ) ^ i := by
        apply le_of_mul_le_mul_right _ two
        calc 10 * 2 ^ 52 * 2 ^ i = 10 * (2 ^ i * 2 ^ (52 : ℤ)) := by
              norm_cast
              ring
          _ ≤ 1 * (5 ^ i * 2 ^ i) := whole
          _ = 5 ^ i * 2 ^ i := one_mul _
      norm_num at five
      linarith

theorem normal_of_large (large : (1 : ℚ) / 10000 ≤ magnitude k) : 2 ^ 52 ≤ k := by
  have least : magnitude (2 ^ 52) = 2 ^ (-1022 : ℤ) := by
    rw [show (-1022 : ℤ) = 52 + -1074 by norm_num,zpow_add₀ (by norm_num)]
    norm_num [magnitude]
  have tiny : (2 : ℚ) ^ (-1022 : ℤ) ≤ 2 ^ (-14 : ℤ) :=
    zpow_le_zpow_right₀ (by norm_num) (by norm_num)
  apply magnitude_strictMono.le_iff_le.mp
  rw [least]
  refine tiny.trans (le_trans ?_ large)
  norm_num

/-- Nothing that reads back has more digits before the point. -/
theorem below_top (short : ShortestDecimal k digits exponent) (normal : 2 ^ 52 ≤ k) {y : ℚ}
    (reads : Rounds magnitude y k) : y < 10 ^ (exponent + digitCount digits) := by
  by_contra above
  rw [not_lt] at above
  have under : decimalGrid exponent digits < 10 ^ (exponent + digitCount digits) := by
    rw [← decimalGrid_power]
    exact decimalGrid_strictMono exponent (lt_digitCount digits)
  have top := short.readsBack.between reads under.le above
  have count : digitCount digits = 1 := by
    rw [← decimalGrid_one] at top
    have few := short.shortest 1 _ top
    have single : digitCount 1 = 1 := digitCount_power 0
    have more := digitCount_pos digits
    omega
  have one := abs_le.mp (rounds_within normal short.readsBack)
  have other := abs_le.mp (rounds_within normal top)
  have ten := tenPower_pos exponent
  have digit : (digits : ℚ) ≤ 9 := by
    have small := lt_digitCount digits
    rw [count] at small
    exact_mod_cast (by omega : digits ≤ 9)
  have far : decimalGrid exponent digits ≤ 9 * 10 ^ exponent :=
    mul_le_mul_of_nonneg_right digit ten.le
  rw [count,Nat.cast_one,zpow_add_one₀ (by norm_num)] at other
  linarith

/-- The last digit of the shortest decimal is not zero. -/
theorem last_digit (short : ShortestDecimal k digits exponent) (positive : 0 < k) :
    digits % 10 ≠ 0 := by
  intro tens
  have nonzero := reads_positive positive short.readsBack
  have shorter : decimalGrid exponent digits = decimalGrid (exponent + (1 : ℕ)) (digits / 10) := by
    rw [← decimalGrid_finer,pow_one,Nat.div_mul_cancel (Nat.dvd_of_mod_eq_zero tens)]
  have reads := short.readsBack
  rw [shorter] at reads
  have least := short.shortest _ _ reads
  have large := digitCount_ge (show 0 < digits / 10 by omega)
  have small := lt_digitCount digits
  have power : 10 ^ digitCount digits ≤ 10 ^ (digitCount (digits / 10) - 1) * 10 := by
    rw [← pow_succ,Nat.sub_add_cancel (digitCount_pos _)]
    exact Nat.pow_le_pow_right (by norm_num) least
  have bound : 10 ^ (digitCount (digits / 10) - 1) * 10 ≤ digits / 10 * 10 :=
    Nat.mul_le_mul_right 10 large
  omega

/-- With fewer places after the point nothing reads back. -/
theorem fewer_places_fail (short : ShortestDecimal k digits exponent) (normal : 2 ^ 52 ≤ k) {p : ℕ}
    (fewer : p < (-exponent).toNat) : ¬Rounds magnitude (decimalGrid (-(p : ℤ)) d) k := by
  intro reads
  have nonzero := reads_positive (by omega) reads
  have top := short.below_top normal reads
  have low : (10 : ℚ) ^ (-(p : ℤ)) ≤ decimalGrid (-(p : ℤ)) d := by
    rw [← decimalGrid_one]
    exact (decimalGrid_strictMono _).monotone nonzero
  have order := (zpow_lt_zpow_iff_right₀ (by norm_num : (1 : ℚ) < 10)).mp (low.trans_lt top)
  obtain ⟨n,count⟩ : ∃ n : ℕ, exponent + digitCount digits = -(p : ℤ) + (n + 1 : ℕ) :=
    ⟨(exponent + digitCount digits + p - 1).toNat,by omega⟩
  rw [count,← decimalGrid_power] at top
  have less := (decimalGrid_strictMono _).lt_iff_lt.mp top
  have few := (digitCount_le_iff (Nat.succ_pos n)).mpr less
  have least := short.shortest d _ reads
  omega

/-- With the places of the shortest decimal the rounding is that decimal. -/
theorem places_shortest (short : ShortestDecimal k digits exponent)
    (large : (1 : ℚ) / 10000 ≤ magnitude k) (small : magnitude k < 1000000)
    (nearest : Rounds (decimalGrid (-((-exponent).toNat : ℤ))) (magnitude k) d) :
    Rounds magnitude (decimalGrid (-((-exponent).toNat : ℤ)) d) k ∧
      decimalGrid (-((-exponent).toNat : ℤ)) d = decimalGrid exponent digits := by
  have normal := normal_of_large large
  rcases lt_or_ge exponent 0 with negative | whole
  · have grid : -((-exponent).toNat : ℤ) = exponent := by omega
    rw [grid] at nearest ⊢
    suffices reads : Rounds magnitude (decimalGrid exponent d) k by
      have top := short.below_top normal reads
      rw [← decimalGrid_power] at top
      have less := (decimalGrid_strictMono _).lt_iff_lt.mp top
      exact ⟨reads,short.nearest_eq nearest reads (by simp : exponent = exponent + (0 : ℕ))
        ⟨d,exponent,rfl,(digitCount_le_iff (digitCount_pos _)).mpr less⟩⟩
    by_contra missed
    obtain ⟨uneven,next,far,near⟩ := nearest_missed (by omega) nearest short.readsBack missed
    have last := short.last_digit (by omega)
    rw [next] at last
    exact not_lopsided large small ⟨uneven,exponent,d,nearest,last,far,near⟩
  · obtain ⟨n,rfl⟩ : ∃ n : ℕ, exponent = n := ⟨exponent.toNat,by omega⟩
    have grid : -((-(n : ℤ)).toNat : ℤ) = 0 := by omega
    rw [grid] at nearest ⊢
    have multiple : decimalGrid n digits = decimalGrid 0 (digits * 10 ^ n) := by
      rw [decimalGrid_finer,zero_add]
    have reads := short.readsBack
    rw [multiple] at reads ⊢
    have readsToo : Rounds magnitude (decimalGrid 0 d) k := by
      by_contra missed
      obtain ⟨uneven,-,-,near⟩ := nearest_missed (by omega) nearest reads missed
      have fine := (lopsided_fine nearest near).trans (step_le normal)
      rw [zpow_zero] at fine
      linarith
    refine ⟨readsToo,?_⟩
    have one := abs_le.mp (rounds_within normal reads)
    have other := abs_le.mp (rounds_within normal readsToo)
    rcases Nat.lt_trichotomy d (digits * 10 ^ n) with less | equal | more
    · have step := (decimalGrid_strictMono 0).monotone (Nat.succ_le_of_lt less)
      rw [Nat.succ_eq_add_one,decimalGrid_succ,zpow_zero] at step
      linarith
    · rw [equal]
    · have step := (decimalGrid_strictMono 0).monotone (Nat.succ_le_of_lt more)
      rw [Nat.succ_eq_add_one,decimalGrid_succ,zpow_zero] at step
      linarith

end fixed

section range

/-- The double is a million or more exactly when its shortest decimal is. -/
theorem million_le_iff (short : ShortestDecimal k digits exponent) :
    10 ^ (6 : ℤ) ≤ decimalGrid exponent digits ↔ millionIndex ≤ k := by
  have point := Rounds.point magnitude_strictMono millionIndex
  rw [magnitude_million,show (1000000 : ℚ) = 10 ^ (6 : ℤ) by norm_num] at point
  constructor
  · exact point.monotone magnitude_strictMono short.readsBack
  · intro large
    by_contra below
    rw [not_le] at below
    have same := Nat.le_antisymm large (short.readsBack.monotone magnitude_strictMono point below.le)
    subst same
    rw [← decimalGrid_one] at point
    have single : digitCount 1 = 1 := digitCount_power 0
    have few := short.shortest _ _ point
    have more := digitCount_pos digits
    have close := short.closest _ _ point (by omega)
    rw [decimalGrid_one,magnitude_million] at close
    norm_num at close below
    linarith [sub_eq_zero.mp close]

/-- The double is below the double of a ten-thousandth exactly when its shortest
decimal is below a ten-thousandth. -/
theorem lt_tenThousandth_iff (short : ShortestDecimal k digits exponent) :
    decimalGrid exponent digits < 10 ^ (-4 : ℤ) ↔ k < tenThousandthIndex := by
  obtain ⟨above,point⟩ := magnitude_tenThousandth
  rw [show (1 : ℚ) / 10000 = 10 ^ (-4 : ℤ) by norm_num] at above point
  constructor
  · intro below
    by_contra large
    have same := Nat.le_antisymm
      (short.readsBack.monotone magnitude_strictMono point below.le) (not_lt.mp large)
    subst same
    rw [← decimalGrid_one] at point
    have single : digitCount 1 = 1 := digitCount_power 0
    have few := short.shortest _ _ point
    have more := digitCount_pos digits
    have close := short.closest _ _ point (by omega)
    rw [decimalGrid_one,abs_of_neg (by linarith),abs_of_neg (by linarith)] at close
    linarith
  · intro small
    by_contra notBelow
    have order := point.monotone magnitude_strictMono short.readsBack (not_lt.mp notBelow)
    omega

end range

/-- The decimal that a lopsided double is written with: the one past the nearest. -/
theorem of_lopsided (uneven : Uneven k) (nearest : Rounds (decimalGrid q) (magnitude k) d)
    (last : (d + 1) % 10 ≠ 0) (far : 2 ^ stepExponent k / 4 < magnitude k - decimalGrid q d)
    (near : decimalGrid q (d + 1) - magnitude k ≤ 2 ^ stepExponent k / 2) :
    ShortestDecimal k (d + 1) q := by
  have normal := uneven.normal
  have positive := magnitude_pos (show 0 < k by omega)
  have unit : (0 : ℚ) < 2 ^ stepExponent k := by positivity
  have ten := tenPower_pos q
  have beyond := nearest.le_halfway
  rw [decimalGrid_halfway] at beyond
  have reads : Rounds magnitude (decimalGrid q (d + 1)) k := by
    rw [reads_uneven uneven]
    rw [decimalGrid_succ] at near ⊢
    constructor <;> linarith
  have here := abs_le.mp (rounds_within normal reads)
  -- on the same grid or a coarser one there is no other
  have coarse {other : ℕ} {r : ℤ} (readsToo : Rounds magnitude (decimalGrid r other) k)
      (le : q ≤ r) : r = q ∧ other = d + 1 := by
    obtain ⟨n,rfl⟩ : ∃ n : ℕ, r = q + n := ⟨(r - q).toNat,by omega⟩
    rw [← decimalGrid_finer] at readsToo
    have only := lopsided_only uneven nearest far readsToo
    cases n with
    | zero => exact ⟨by simp,by simpa using only⟩
    | succ n =>
      rw [← only,pow_succ,← mul_assoc] at last
      exact absurd (Nat.mul_mod_left _ 10) last
  have fine := (lopsided_fine nearest near).trans (step_le normal)
  -- a finer one needs more digits
  have finer {other : ℕ} {r : ℤ} (readsToo : Rounds magnitude (decimalGrid r other) k)
      (less : r < q) : digitCount (d + 1) < digitCount other := by
    by_contra fewer
    rw [not_lt] at fewer
    have count := digitCount_pos (d + 1)
    have under : decimalGrid r other < 10 ^ (q + (digitCount (d + 1) - 1 : ℕ)) := by
      have small : other < 10 ^ digitCount (d + 1) := (digitCount_le_iff count).mp fewer
      refine ((decimalGrid_strictMono r) small).trans_le ?_
      rw [decimalGrid_power]
      exact zpow_le_zpow_right₀ (by norm_num) (by omega)
    have top : (10 : ℚ) ^ (q + (digitCount (d + 1) - 1 : ℕ)) ≤ decimalGrid q (d + 1) := by
      rw [← decimalGrid_power]
      exact (decimalGrid_strictMono q).monotone (digitCount_ge (Nat.succ_pos d))
    have power := readsToo.between reads under.le top
    rw [← decimalGrid_power] at power
    have same := (coarse power le_rfl).2
    generalize digitCount (d + 1) - 1 = n at same
    cases n with
    | zero =>
      rw [← same,decimalGrid_power] at here
      simp only [Nat.cast_zero,add_zero] at here
      linarith
    | succ n =>
      rw [← same,pow_succ] at last
      exact absurd (Nat.mul_mod_left _ 10) last
  refine ⟨reads,?_,?_,?_⟩
  · intro other r readsToo
    rcases le_or_gt q r with le | less
    · rw [(coarse readsToo le).2]
    · exact (finer readsToo less).le
  · intro other r readsToo count
    rcases le_or_gt q r with le | less
    · obtain ⟨rfl,rfl⟩ := coarse readsToo le
      exact le_rfl
    · exact absurd count (finer readsToo less).ne'
  · intro other r readsToo count differ
    rcases le_or_gt q r with le | less
    · obtain ⟨rfl,rfl⟩ := coarse readsToo le
      exact absurd rfl differ
    · exact absurd count (finer readsToo less).ne'

end ShortestDecimal

end Bennu
