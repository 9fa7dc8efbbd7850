import Mathlib

/-! Rounding to the nearest point of an increasing grid, ties to the point with
an even index. A point is the rounding of everything between the midpoints to
its neighbours; the midpoints themselves belong to the even neighbour. -/
namespace NearestEven

variable {K : Type} [Field K] [LinearOrder K] [IsStrictOrderedRing K] {grid : Nat → K}

/-- Halfway between a point and the next one. -/
def halfway (grid : Nat → K) (k : Nat) : K := (grid k + grid (k + 1)) / 2

/-- The point `k` is the rounding of `q`. -/
structure Rounds (grid : Nat → K) (q : K) (k : Nat) : Prop where
  above : ∀ j, j + 1 = k → halfway grid j < q ∨ halfway grid j = q ∧ k % 2 = 0
  below : q < halfway grid k ∨ q = halfway grid k ∧ k % 2 = 0

theorem lt_halfway (increasing : StrictMono grid) (k : Nat) : grid k < halfway grid k := by
  have step := increasing (Nat.lt_succ_self k)
  simp only [halfway,Nat.succ_eq_add_one] at step ⊢
  linarith

theorem halfway_lt (increasing : StrictMono grid) (k : Nat) : halfway grid k < grid (k + 1) := by
  have step := increasing (Nat.lt_succ_self k)
  simp only [halfway,Nat.succ_eq_add_one] at step ⊢
  linarith

theorem halfway_strictMono (increasing : StrictMono grid) : StrictMono (halfway grid) := by
  apply strictMono_nat_of_lt_succ
  intro k
  exact (halfway_lt increasing k).trans (lt_halfway increasing (k + 1))

namespace Rounds

variable {q r : K} {k j : Nat}

omit [IsStrictOrderedRing K] in
theorem le_halfway (rounds : Rounds grid q k) : q ≤ halfway grid k := by
  rcases rounds.below with below | ⟨equal,-⟩
  · exact below.le
  · exact equal.le

omit [IsStrictOrderedRing K] in
theorem halfway_le (rounds : Rounds grid q (k + 1)) : halfway grid k ≤ q := by
  rcases rounds.above k rfl with above | ⟨equal,-⟩
  · exact above.le
  · exact equal.le

/-- A larger number is not rounded to an earlier point. -/
theorem monotone (increasing : StrictMono grid) (first : Rounds grid q k)
    (second : Rounds grid r j) (le : q ≤ r) : k ≤ j := by
  by_contra later
  obtain ⟨i,rfl⟩ : ∃ i, k = i + 1 := ⟨k - 1,by omega⟩
  have between : halfway grid j ≤ halfway grid i :=
    (halfway_strictMono increasing).monotone (by omega)
  have low := first.halfway_le
  have high := second.le_halfway
  -- everything in between is one halfway, which only one parity may take
  have equalMid : halfway grid j = halfway grid i := by linarith
  have same : j = i := (halfway_strictMono increasing).injective equalMid
  subst same
  rcases first.above j rfl with above | ⟨-,even⟩
  · linarith
  · rcases second.below with below | ⟨-,evenToo⟩
    · linarith
    · omega

theorem unique (increasing : StrictMono grid) (first : Rounds grid q k)
    (second : Rounds grid q j) : k = j :=
  Nat.le_antisymm (first.monotone increasing second le_rfl)
    (second.monotone increasing first le_rfl)

/-- A point is its own rounding. -/
theorem point (increasing : StrictMono grid) (k : Nat) : Rounds grid (grid k) k := by
  refine ⟨?_,.inl (lt_halfway increasing k)⟩
  rintro j rfl
  exact .inl (halfway_lt increasing j)

omit [IsStrictOrderedRing K] in
/-- What lies between two numbers with the same rounding has it too. -/
theorem between {low high : K} (first : Rounds grid low k) (second : Rounds grid high k)
    (le : low ≤ q) (ge : q ≤ high) : Rounds grid q k := by
  constructor
  · intro j equal
    rcases first.above j equal with above | ⟨tie,even⟩
    · exact .inl (above.trans_le le)
    · rcases le.eq_or_lt with same | less
      · exact .inr ⟨tie.trans same,even⟩
      · exact .inl (tie ▸ less)
  · rcases second.below with below | ⟨tie,even⟩
    · exact .inl (ge.trans_lt below)
    · rcases ge.eq_or_lt with same | less
      · exact .inr ⟨same.trans tie,even⟩
      · exact .inl (less.trans_eq tie)

/-- No point is nearer than the rounding. -/
theorem nearest (increasing : StrictMono grid) (rounds : Rounds grid q k) (j : Nat) :
    |q - grid k| ≤ |q - grid j| := by
  rcases Nat.lt_trichotomy j k with less | same | more
  · obtain ⟨i,rfl⟩ : ∃ i, k = i + 1 := ⟨k - 1,by omega⟩
    have low := rounds.halfway_le
    have order : grid j ≤ grid i := increasing.monotone (by omega)
    have step := increasing (Nat.lt_succ_self i)
    have half : halfway grid i = (grid i + grid (i + 1)) / 2 := rfl
    simp only [Nat.succ_eq_add_one] at step
    rw [abs_of_nonneg (by linarith : 0 ≤ q - grid j)]
    exact abs_le.mpr ⟨by linarith,by linarith⟩
  · rw [same]
  · have high := rounds.le_halfway
    have order : grid (k + 1) ≤ grid j := increasing.monotone (by omega)
    have step := increasing (Nat.lt_succ_self k)
    have half : halfway grid k = (grid k + grid (k + 1)) / 2 := rfl
    simp only [Nat.succ_eq_add_one] at step
    rw [abs_sub_comm q (grid j),abs_of_nonneg (by linarith : 0 ≤ grid j - q)]
    exact abs_le.mpr ⟨by linarith,by linarith⟩

/-- What lies before the halfway after a point rounds to it, an even point takes the
halfway too. -/
theorem of_floor (increasing : StrictMono grid) (le : grid k ≤ q)
    (below : q < halfway grid k ∨ q = halfway grid k ∧ k % 2 = 0) : Rounds grid q k := by
  refine ⟨?_,below⟩
  rintro j rfl
  exact .inl ((halfway_lt increasing j).trans_le le)

/-- What lies past the halfway before a point rounds to it, an even point takes the
halfway too. -/
theorem of_ceiling (increasing : StrictMono grid)
    (above : halfway grid k < q ∨ halfway grid k = q ∧ (k + 1) % 2 = 0) (le : q ≤ grid (k + 1)) :
    Rounds grid q (k + 1) := by
  refine ⟨?_,.inl (le.trans_lt (lt_halfway increasing (k + 1)))⟩
  rintro j same
  obtain rfl : j = k := by omega
  exact above

/-- When another point is as near as the rounding, the rounding is even. -/
theorem even_of_tie (increasing : StrictMono grid) (rounds : Rounds grid q k) (other : j ≠ k)
    (equal : |q - grid k| = |q - grid j|) : k % 2 = 0 := by
  rcases Nat.lt_or_gt_of_ne other with less | more
  · obtain ⟨i,rfl⟩ : ∃ i, k = i + 1 := ⟨k - 1,by omega⟩
    rcases rounds.above i rfl with above | ⟨-,even⟩
    · have order : grid j ≤ grid i := increasing.monotone (by omega)
      have step := increasing (Nat.lt_succ_self i)
      have half : halfway grid i = (grid i + grid (i + 1)) / 2 := rfl
      simp only [Nat.succ_eq_add_one] at step
      rw [abs_of_nonneg (by linarith : 0 ≤ q - grid j)] at equal
      rcases abs_cases (q - grid (i + 1)) with ⟨same,-⟩ | ⟨same,-⟩ <;> linarith
    · exact even
  · rcases rounds.below with below | ⟨-,even⟩
    · have order : grid (k + 1) ≤ grid j := increasing.monotone (by omega)
      have step := increasing (Nat.lt_succ_self k)
      have half : halfway grid k = (grid k + grid (k + 1)) / 2 := rfl
      simp only [Nat.succ_eq_add_one] at step
      rw [abs_sub_comm q (grid j),abs_of_nonneg (by linarith : 0 ≤ grid j - q)] at equal
      rcases abs_cases (q - grid k) with ⟨same,-⟩ | ⟨same,-⟩ <;> linarith
    · exact even

/-- A number rounds past a point exactly when it is above the halfway after it,
or on it with the point odd. -/
theorem past_iff (increasing : StrictMono grid) (rounds : Rounds grid q k) (j : Nat) :
    j < k ↔ halfway grid j < q ∨ halfway grid j = q ∧ j % 2 = 1 := by
  constructor
  · intro less
    obtain ⟨i,rfl⟩ : ∃ i, k = i + 1 := ⟨k - 1,by omega⟩
    have order : halfway grid j ≤ halfway grid i :=
      (halfway_strictMono increasing).monotone (by omega)
    rcases rounds.above i rfl with above | ⟨tie,even⟩
    · exact .inl (order.trans_lt above)
    · rcases order.eq_or_lt with same | less
      · have equal : j = i := (halfway_strictMono increasing).injective same
        exact .inr ⟨same.trans tie,by omega⟩
      · exact .inl (tie ▸ less)
  · intro past
    by_contra notLess
    have order : halfway grid k ≤ halfway grid j :=
      (halfway_strictMono increasing).monotone (by omega)
    have high := rounds.le_halfway
    rcases past with above | ⟨tie,odd⟩
    · linarith
    · have equal : k = j := (halfway_strictMono increasing).injective (by linarith)
      rcases rounds.below with below | ⟨-,even⟩
      · linarith
      · omega

end Rounds

/-- Every number that some point bounds has a rounding: the first point that it
is not rounded past. -/
theorem exists_rounds (increasing : StrictMono grid) {q : K} {bound : Nat} (le : q ≤ grid bound) :
    ∃ k, Rounds grid q k := by
  classical
  have reached : ∃ k, q < halfway grid k ∨ q = halfway grid k ∧ k % 2 = 0 :=
    ⟨bound,.inl (le.trans_lt (lt_halfway increasing bound))⟩
  refine ⟨Nat.find reached,?_,Nat.find_spec reached⟩
  intro j equal
  have notYet := Nat.find_min reached (show j < Nat.find reached by omega)
  rw [not_or,not_lt] at notYet
  rcases notYet.1.eq_or_lt with same | less
  · refine .inr ⟨same,?_⟩
    have odd : j % 2 ≠ 0 := fun even => notYet.2 ⟨same.symm,even⟩
    omega
  · exact .inl less

end NearestEven
