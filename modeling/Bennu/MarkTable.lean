import Mathlib

/-! Tables of marks: a table of flags says which numbers a list names, a table of
counts how often. Marking one more number is one more entry of the list. -/
namespace MarkTable

def flags (size : Nat) (named : List Nat) : List Bool :=
  (List.range size).map fun i => decide (i ∈ named)

def counts (size : Nat) (named : List Nat) : List Nat :=
  (List.range size).map fun i => named.count i

variable {size i : Nat} {named more : List Nat}

@[simp] theorem length_flags : (flags size named).length = size := by simp [flags]

@[simp] theorem length_counts : (counts size named).length = size := by simp [counts]

theorem flags_nil : flags size [] = List.replicate size false := by
  simp [flags,List.map_const']

theorem counts_nil : counts size [] = List.replicate size 0 := by
  simp [counts,List.map_const']

theorem getD_flags : (flags size named).getD i false = decide (i < size ∧ i ∈ named) := by
  by_cases inside : i < size
  · simp [flags,List.getD_eq_getElem?_getD,inside]
  · simp [flags,List.getD_eq_getElem?_getD,inside]

theorem getD_counts (inside : i < size) : (counts size named).getD i 0 = named.count i := by
  simp [counts,List.getD_eq_getElem?_getD,inside]

theorem flags_congr (same : ∀ j, j ∈ named ↔ j ∈ more) : flags size named = flags size more := by
  simp only [flags,same]

theorem counts_congr (same : named.Perm more) : counts size named = counts size more := by
  simp only [counts,same.count_eq]

theorem flags_set : (flags size named).set i true = flags size (i :: named) := by
  refine List.ext_getElem (by simp) fun j left right => ?_
  rw [length_flags] at right
  by_cases here : i = j
  · simp [flags,here]
  · simp [flags,here,Ne.symm here]

theorem counts_set : (counts size named).set i (named.count i + 1) = counts size (i :: named) := by
  refine List.ext_getElem (by simp) fun j left right => ?_
  rw [length_counts] at right
  by_cases here : i = j
  · simp [counts,here]
  · simp [counts,here]

/-- A table of flags is full when every number is named. -/
theorem flags_full : (flags size named).any (!·) = false ↔ ∀ j < size, j ∈ named := by
  simp [flags]

/-- A list of distinct numbers that names a whole range, and nothing else, is that range. -/
theorem perm_range (distinct : named.Nodup) (bound : ∀ j ∈ named, j < size)
    (full : ∀ j < size, j ∈ named) : named.Perm (List.range size) :=
  (List.perm_ext_iff_of_nodup distinct List.nodup_range).mpr fun j =>
    ⟨fun member => List.mem_range.mpr (bound j member),fun inside => full j (List.mem_range.mp inside)⟩

/-- Distinct numbers below a bound are at most that many. -/
theorem length_le_of_nodup (distinct : named.Nodup) (bound : ∀ j ∈ named, j < size) :
    named.length ≤ size := by
  have fits := (List.Nodup.subperm distinct fun j member => List.mem_range.mpr (bound j member)).length_le
  rwa [List.length_range] at fits

/-- What one entry names no other entry does. -/
theorem not_mem_of_nodup_flatMap {α β : Type} {whole : List α} {f : α → List β}
    (named : (whole.flatMap f).Nodup) {a b : α} (left : a ∈ whole) (right : b ∈ whole)
    (different : a ≠ b) {x : β} (member : x ∈ f a) : x ∉ f b := by
  have symmetric : Std.Symm (Function.onFun List.Disjoint f) :=
    ⟨fun _ _ apart _ right left => apart left right⟩
  exact (List.nodup_flatMap.mp named).2.forall left right different member

/-- What distinct entries of a list name stays distinct for fewer entries. -/
theorem nodup_flatMap_of_subset {α β : Type} {l whole : List α} {f : α → List β} (distinct : l.Nodup)
    (inside : ∀ a ∈ l, a ∈ whole) (named : (whole.flatMap f).Nodup) :
    (l.flatMap f).Nodup := by
  have each := (List.nodup_flatMap.mp named).1
  refine List.nodup_flatMap.mpr ⟨fun a member => each a (inside a member),?_⟩
  exact List.Pairwise.imp_of_mem (fun memberA memberB different _ left right =>
    not_mem_of_nodup_flatMap named (inside _ memberA) (inside _ memberB) different left right) distinct

theorem range_split (m n : Nat) : List.range (m + n) = List.range m ++ (List.range n).map (· + m) := by
  rw [List.range_add]
  exact congrArg _ (List.map_congr_left fun _ _ => Nat.add_comm _ _)

theorem flatMap_shift {g g' : Nat → List Nat} {n k m : Nat}
    (moved : ∀ i < n, g (i + k) = (g' i).map (· + m)) :
    ((List.range n).map (· + k)).flatMap g = ((List.range n).flatMap g').map (· + m) := by
  rw [List.flatMap_map,List.map_flatMap]
  exact List.flatMap_congr fun i member => moved i (List.mem_range.mp member)

/-- Two lists of slots, the second behind the first. -/
theorem perm_behind {xs ys : List Nat} {m n : Nat} (left : xs.Perm (List.range m))
    (right : ys.Perm (List.range n)) : (xs ++ ys.map (· + m)).Perm (List.range (m + n)) := by
  rw [range_split]
  exact left.append (right.map _)

end MarkTable
