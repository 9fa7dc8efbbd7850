import Mathlib

/-! Chosen numbers renumbered in their order: the new number of one is how many chosen
numbers are below it, and what each of them contributes to a common list starts where
the contributions below it end. -/
namespace Renumbering

variable (chosen : Nat → Bool)

/-- The chosen numbers below a bound, in order. -/
def below (m : Nat) : List Nat := (List.range m).filter chosen

/-- The new number of a chosen number. -/
def rank (m : Nat) : Nat := (below chosen m).length

/-- Where the contribution of a number starts. -/
def offset (width : Nat → Nat) (m : Nat) : Nat := ((below chosen m).map width).sum

variable {chosen} {m i j : Nat} {width : Nat → Nat}

theorem below_succ_of_chosen (taken : chosen m = true) : below chosen (m + 1) = below chosen m ++ [m] := by
  simp [below,List.range_succ,List.filter_append,taken]

theorem below_succ_of_passed (passed : chosen m = false) : below chosen (m + 1) = below chosen m := by
  simp [below,List.range_succ,List.filter_append,passed]

theorem mem_below : i ∈ below chosen m ↔ i < m ∧ chosen i = true := by
  simp [below]

/-- A chosen number follows the ones below it. -/
theorem below_split (taken : chosen i = true) (inside : i < m) :
    ∃ rest, below chosen m = below chosen i ++ i :: rest := by
  induction m with
  | zero => cases inside
  | succ m ih =>
    rcases Nat.lt_succ_iff_lt_or_eq.mp inside with before | rfl
    · obtain ⟨rest,split⟩ := ih before
      cases last : chosen m with
      | true => exact ⟨rest ++ [m],by rw [below_succ_of_chosen last,split]; simp⟩
      | false => exact ⟨rest,by rw [below_succ_of_passed last,split]⟩
    · exact ⟨[],below_succ_of_chosen taken⟩

theorem rank_lt (taken : chosen i = true) (less : i < j) : rank chosen i < rank chosen j := by
  obtain ⟨rest,split⟩ := below_split taken less
  rw [rank,rank,split,List.length_append,List.length_cons]
  omega

/-- The new numbers are all numbers below their count. -/
theorem map_rank (m : Nat) : (below chosen m).map (rank chosen) = List.range (rank chosen m) := by
  induction m with
  | zero => rfl
  | succ m ih =>
    cases taken : chosen m with
    | true =>
      have size : rank chosen (m + 1) = rank chosen m + 1 := by
        rw [rank,below_succ_of_chosen taken,List.length_append]
        rfl
      rw [below_succ_of_chosen taken,List.map_append,ih,size,List.range_succ]
      rfl
    | false =>
      have size : rank chosen (m + 1) = rank chosen m := by
        rw [rank,below_succ_of_passed taken]
        rfl
      rw [below_succ_of_passed taken,ih,size]

/-- A chosen number stands at its new number. -/
theorem getD_map_below {α : Type} (f : Nat → α) (default : α) (taken : chosen i = true) (inside : i < m) :
    ((below chosen m).map f).getD (rank chosen i) default = f i := by
  obtain ⟨rest,split⟩ := below_split taken inside
  rw [split,List.map_append,List.map_cons,List.getD_append_right _ _ _ _ (by simp [rank])]
  simp [rank]

theorem length_contributions {α : Type} (f : Nat → List α) (m : Nat) :
    ((below chosen m).flatMap f).length = offset chosen (fun i => (f i).length) m := by
  rw [List.length_flatMap,offset]

/-- A contribution stands at its start. -/
theorem getD_contributions {α : Type} (f : Nat → List α) (default : α) (taken : chosen i = true)
    (inside : i < m) {k : Nat} (within : k < (f i).length) :
    ((below chosen m).flatMap f).getD (offset chosen (fun i => (f i).length) i + k) default =
      (f i).getD k default := by
  obtain ⟨rest,split⟩ := below_split taken inside
  have start : ((below chosen i).flatMap f).length = offset chosen (fun i => (f i).length) i :=
    length_contributions f i
  rw [split,List.flatMap_append,List.getD_append_right _ _ _ _ (by omega),start,Nat.add_sub_cancel_left,
    List.flatMap_cons,List.getD_append _ _ _ _ within]

theorem offset_succ_of_chosen (width : Nat → Nat) (taken : chosen m = true) :
    offset chosen width (m + 1) = offset chosen width m + width m := by
  rw [offset,below_succ_of_chosen taken,List.map_append,List.sum_append]
  simp [offset]

theorem offset_succ_of_passed (width : Nat → Nat) (passed : chosen m = false) :
    offset chosen width (m + 1) = offset chosen width m := by
  rw [offset,below_succ_of_passed passed,offset]

/-- A contribution ends inside the common list. -/
theorem offset_le (width : Nat → Nat) (taken : chosen i = true) (inside : i < m) :
    offset chosen width i + width i ≤ offset chosen width m := by
  obtain ⟨rest,split⟩ := below_split taken inside
  rw [offset,offset,split,List.map_append,List.sum_append,List.map_cons,List.sum_cons]
  omega

/-- The contributions fill the common list. -/
theorem flatMap_slots (width : Nat → Nat) (m : Nat) :
    ((below chosen m).flatMap fun i => (List.range (width i)).map (offset chosen width i + ·)) =
      List.range (offset chosen width m) := by
  induction m with
  | zero => rfl
  | succ m ih =>
    cases taken : chosen m with
    | true =>
      rw [below_succ_of_chosen taken,List.flatMap_append,ih,List.flatMap_singleton,
        offset_succ_of_chosen width taken,List.range_add]
    | false => rw [below_succ_of_passed taken,ih,offset_succ_of_passed width taken]

end Renumbering
