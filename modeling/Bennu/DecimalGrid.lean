import Bennu.NearestEven
import Mathlib.Algebra.Order.Field.Power
import Mathlib.Data.Rat.Floor
import Mathlib.Tactic.Positivity

/-! The multiples of a power of ten as a grid. A finer power of ten holds every
multiple of a coarser one, and a number of several digits is a multiple in one
way only when its digits are counted. -/
namespace NearestEven

def decimalGrid (q : ℤ) (d : ℕ) : ℚ := d * 10 ^ q

theorem tenPower_pos (q : ℤ) : (0 : ℚ) < 10 ^ q := by positivity

theorem decimalGrid_succ (q : ℤ) (d : ℕ) : decimalGrid q (d + 1) = decimalGrid q d + 10 ^ q := by
  simp only [decimalGrid]
  push_cast
  ring

theorem decimalGrid_strictMono (q : ℤ) : StrictMono (decimalGrid q) := by
  apply strictMono_nat_of_lt_succ
  intro d
  rw [decimalGrid_succ]
  have step := tenPower_pos q
  linarith

theorem decimalGrid_halfway (q : ℤ) (d : ℕ) :
    halfway (decimalGrid q) d = decimalGrid q d + 10 ^ q / 2 := by
  rw [halfway,decimalGrid_succ]
  ring

/-- A multiple of a coarser power of ten is one of a finer power. -/
theorem decimalGrid_finer (q : ℤ) (n d : ℕ) :
    decimalGrid q (d * 10 ^ n) = decimalGrid (q + n) d := by
  simp only [decimalGrid]
  rw [zpow_add₀ (by norm_num),zpow_natCast]
  push_cast
  ring

theorem decimalGrid_one (q : ℤ) : decimalGrid q 1 = 10 ^ q := by simp [decimalGrid]

theorem decimalGrid_power (q : ℤ) (n : ℕ) : decimalGrid q (10 ^ n) = 10 ^ (q + n) := by
  rw [← one_mul (10 ^ n),decimalGrid_finer,decimalGrid_one]

theorem decimalGrid_pos {q : ℤ} {d : ℕ} : 0 < decimalGrid q d ↔ 0 < d := by
  have zero : decimalGrid q 0 = 0 := by simp [decimalGrid]
  rw [← zero]
  exact (decimalGrid_strictMono q).lt_iff_lt

/-- The rounding is within half a step. -/
theorem Rounds.within {q : ℤ} {x : ℚ} {d : ℕ} (nonneg : 0 ≤ x)
    (rounds : Rounds (decimalGrid q) x d) : |x - decimalGrid q d| ≤ 10 ^ q / 2 := by
  have high := rounds.le_halfway
  rw [decimalGrid_halfway] at high
  apply abs_le.mpr
  constructor
  · cases d with
    | zero =>
      have zero : decimalGrid q 0 = 0 := by simp [decimalGrid]
      have step := tenPower_pos q
      linarith
    | succ d =>
      have low := rounds.halfway_le
      rw [decimalGrid_halfway] at low
      rw [decimalGrid_succ]
      linarith
  · linarith

/-- Two multiples at the same distance, one of them the rounding: they are
neighbours, and the rounding is the even one. -/
theorem Rounds.tie {q : ℤ} {x : ℚ} {d m : ℕ} (nonneg : 0 ≤ x)
    (rounds : Rounds (decimalGrid q) x d) (other : m ≠ d)
    (equal : |x - decimalGrid q d| = |x - decimalGrid q m|) :
    (m = d + 1 ∨ d = m + 1) ∧ d % 2 = 0 := by
  have step := tenPower_pos q
  have within := rounds.within nonneg
  have withinToo := within
  rw [equal] at withinToo
  have low := abs_le.mp within
  have high := abs_le.mp withinToo
  rcases Nat.lt_or_gt_of_ne other with less | more
  · have between : decimalGrid q (m + 1) ≤ decimalGrid q d :=
      (decimalGrid_strictMono q).monotone less
    rw [decimalGrid_succ] at between
    have half : x = halfway (decimalGrid q) m := by
      rw [decimalGrid_halfway]
      linarith
    have next : decimalGrid q d = decimalGrid q (m + 1) := by
      rw [decimalGrid_succ]
      linarith
    have same : d = m + 1 := (decimalGrid_strictMono q).injective next
    refine ⟨.inr same,?_⟩
    rcases rounds.above m same.symm with above | ⟨-,even⟩
    · exact absurd half above.ne'
    · exact even
  · have between : decimalGrid q (d + 1) ≤ decimalGrid q m :=
      (decimalGrid_strictMono q).monotone more
    rw [decimalGrid_succ] at between
    have half : x = halfway (decimalGrid q) d := by
      rw [decimalGrid_halfway]
      linarith
    have next : decimalGrid q m = decimalGrid q (d + 1) := by
      rw [decimalGrid_succ]
      linarith
    refine ⟨.inl ((decimalGrid_strictMono q).injective next),?_⟩
    rcases rounds.below with below | ⟨-,even⟩
    · exact absurd half below.ne
    · exact even

/-- The nearest natural number, ties to the even one. -/
def roundHalfEven (x : ℚ) : ℕ :=
  let below := ⌊x⌋₊
  if x - below < 1 / 2 then below
  else if 1 / 2 < x - below then below + 1
  else if below % 2 = 0 then below
  else below + 1

theorem rounds_roundHalfEven {x : ℚ} (nonneg : 0 ≤ x) (q : ℤ) :
    Rounds (decimalGrid q) x (roundHalfEven (x / 10 ^ q)) := by
  have step := tenPower_pos q
  obtain ⟨y,rfl⟩ : ∃ y, x = y * 10 ^ q := ⟨x / 10 ^ q,(div_mul_cancel₀ x step.ne').symm⟩
  rw [mul_div_cancel_right₀ y step.ne']
  have positive : 0 ≤ y := nonneg_of_mul_nonneg_left nonneg step
  have floor := Nat.floor_le positive
  have ceiling := Nat.lt_floor_add_one y
  have half (d : ℕ) : halfway (decimalGrid q) d = (d + 1 / 2) * 10 ^ q := by
    rw [decimalGrid_halfway,decimalGrid]
    ring
  have order {a b : ℚ} (less : a < b) : a * 10 ^ q < b * 10 ^ q := mul_lt_mul_of_pos_right less step
  have before {j : ℕ} (next : j + 1 = ⌊y⌋₊) : halfway (decimalGrid q) j < y * 10 ^ q := by
    rw [half]
    apply order
    have cast : (j : ℚ) + 1 = ⌊y⌋₊ := by exact_mod_cast next
    linarith
  simp only [roundHalfEven]
  split
  · rename_i low
    refine ⟨fun j next => .inl (before next),.inl ?_⟩
    rw [half]
    exact order (by linarith)
  · rename_i notLow
    split
    · rename_i high
      constructor
      · intro j next
        rw [Nat.succ.inj next,half]
        exact .inl (order (by linarith))
      · rw [half]
        left
        apply order
        push_cast
        linarith
    · rename_i notHigh
      have middle : y = ⌊y⌋₊ + 1 / 2 := by linarith
      have tie : halfway (decimalGrid q) ⌊y⌋₊ = y * 10 ^ q := by
        rw [half,← middle]
      split
      · rename_i even
        exact ⟨fun j next => .inl (before next),.inr ⟨tie.symm,even⟩⟩
      · rename_i odd
        constructor
        · intro j next
          rw [Nat.succ.inj next]
          exact .inr ⟨tie,by omega⟩
        · left
          rw [half]
          apply order
          push_cast
          linarith

/-- The number of decimal digits. -/
def digitCount (d : ℕ) : ℕ := (Nat.toDigits 10 d).length

theorem digitCount_pos (d : ℕ) : 0 < digitCount d := Nat.length_toDigits_pos

theorem digitCount_le_iff {d n : ℕ} (positive : 0 < n) : digitCount d ≤ n ↔ d < 10 ^ n :=
  Nat.length_toDigits_le_iff (by norm_num) positive

theorem lt_digitCount (d : ℕ) : d < 10 ^ digitCount d :=
  (digitCount_le_iff (digitCount_pos d)).mp le_rfl

theorem digitCount_ge {d : ℕ} (positive : 0 < d) : 10 ^ (digitCount d - 1) ≤ d := by
  by_cases single : digitCount d = 1
  · rw [single]
    exact positive
  · have more := digitCount_pos d
    by_contra less
    have fewer := (digitCount_le_iff (by omega : 0 < digitCount d - 1)).mpr (not_le.mp less)
    omega

theorem digitCount_eq {d n : ℕ} (low : 10 ^ n ≤ d) (high : d < 10 ^ (n + 1)) :
    digitCount d = n + 1 := by
  have le := (digitCount_le_iff (Nat.succ_pos n)).mpr high
  have notLess : ¬digitCount d ≤ n := by
    intro fewer
    have less : d < 10 ^ n :=
      (lt_digitCount d).trans_le (Nat.pow_le_pow_right (by norm_num) fewer)
    omega
  omega

theorem digitCount_power (n : ℕ) : digitCount (10 ^ n) = n + 1 :=
  digitCount_eq le_rfl (Nat.pow_lt_pow_right (by norm_num) (Nat.lt_succ_self n))

/-- The exponent of the first digit. -/
theorem power_le_iff {q : ℤ} {d : ℕ} (positive : 0 < d) (n : ℤ) :
    10 ^ n ≤ decimalGrid q d ↔ n ≤ q + digitCount d - 1 := by
  have count := digitCount_pos d
  constructor
  · intro le
    have under : decimalGrid q d < 10 ^ (q + digitCount d) := by
      rw [← decimalGrid_power]
      exact decimalGrid_strictMono q (lt_digitCount d)
    have order := (zpow_lt_zpow_iff_right₀ (by norm_num : (1 : ℚ) < 10)).mp (le.trans_lt under)
    omega
  · intro le
    have power : (10 : ℚ) ^ n ≤ 10 ^ (q + (digitCount d - 1 : ℕ)) :=
      zpow_le_zpow_right₀ (by norm_num) (by omega)
    refine power.trans ?_
    rw [← decimalGrid_power]
    exact (decimalGrid_strictMono q).monotone (digitCount_ge positive)

/-- The digits and their exponent are fixed by the number and the digit count. -/
theorem decimalGrid_inj {d other : ℕ} {q r : ℤ} (positive : 0 < d)
    (count : digitCount d = digitCount other) (same : decimalGrid q d = decimalGrid r other) :
    d = other ∧ q = r := by
  have positiveToo : 0 < other := by
    rw [← @decimalGrid_pos r,← same,decimalGrid_pos]
    exact positive
  have finer {d other : ℕ} {q r : ℤ} (positive : 0 < other)
      (count : digitCount d = digitCount other) (same : decimalGrid q d = decimalGrid r other)
      (less : q < r) : False := by
    obtain ⟨n,rfl⟩ : ∃ n : ℕ, r = q + (n + 1 : ℕ) := ⟨(r - q - 1).toNat,by omega⟩
    rw [← decimalGrid_finer] at same
    have equal : d = other * 10 ^ (n + 1) := (decimalGrid_strictMono q).injective same
    have large := digitCount_ge positive
    have small := lt_digitCount d
    rw [count] at small
    have split : 10 ^ digitCount other = 10 ^ (digitCount other - 1) * 10 := by
      rw [← pow_succ,Nat.sub_add_cancel (digitCount_pos other)]
    have scale : 10 ≤ 10 ^ (n + 1) := Nat.le_self_pow (by omega) 10
    have bound : 10 ^ (digitCount other - 1) * 10 ≤ other * 10 ^ (n + 1) :=
      Nat.mul_le_mul large scale
    omega
  rcases lt_trichotomy q r with less | equal | more
  · exact (finer positiveToo count same less).elim
  · subst equal
    exact ⟨(decimalGrid_strictMono q).injective same,rfl⟩
  · exact (finer positive count.symm same.symm more).elim

/-- Up to a power of ten a multiple has a form of few digits. -/
theorem exists_few_digits {q : ℤ} {d n : ℕ} (le : d ≤ 10 ^ (n + 1)) :
    ∃ other r, decimalGrid r other = decimalGrid q d ∧ digitCount other ≤ n + 1 := by
  rcases le.lt_or_eq with less | equal
  · exact ⟨d,q,rfl,(digitCount_le_iff (Nat.succ_pos n)).mpr less⟩
  · refine ⟨1,q + (n + 1 : ℕ),?_,?_⟩
    · rw [equal,decimalGrid_power,decimalGrid_one]
    · exact (digitCount_power 0).trans_le (by omega)

end NearestEven
