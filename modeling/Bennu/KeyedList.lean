import Mathlib

/-! Finite registries as lists whose entries carry distinct keys: lookup,
in-place adjustment and removal of one key, and how each of them moves a sum
taken over all entries. -/
namespace KeyedList

variable {α κ : Type} [DecidableEq κ] (key : α → κ)

def lookup (k : κ) (entries : List α) : Option α := entries.find? fun x => key x = k

def adjust (k : κ) (f : α → α) (entries : List α) : List α :=
  entries.map fun x => if key x = k then f x else x

def discard (k : κ) (entries : List α) : List α := entries.filter fun x => !decide (key x = k)

def Distinct (entries : List α) : Prop := (entries.map key).Nodup

/-- The sum of a measure over all entries. -/
def total (measure : α → Nat) (entries : List α) : Nat := (entries.map measure).sum

variable {key} {k : κ} {entries : List α} {x : α}

theorem lookup_some (found : lookup key k entries = some x) : x ∈ entries ∧ key x = k :=
  ⟨List.mem_of_find?_eq_some found,by simpa using List.find?_some found⟩

theorem lookup_none (missing : lookup key k entries = none) : ∀ y ∈ entries, key y ≠ k := by
  simpa [lookup] using missing

theorem lookup_of_mem (distinct : Distinct key entries) (member : x ∈ entries) :
    lookup key (key x) entries = some x := by
  induction entries with
  | nil => simp at member
  | cons head rest ih =>
    simp only [Distinct,List.map_cons,List.nodup_cons] at distinct
    rcases List.mem_cons.mp member with rfl | later
    · simp [lookup]
    · have separate : key head ≠ key x := fun same =>
        distinct.1 (same ▸ List.mem_map_of_mem later)
      simpa [lookup,separate] using ih distinct.2 later

@[simp] theorem map_adjust {f : α → α} (keep : ∀ y, key (f y) = key y) :
    (adjust key k f entries).map key = entries.map key := by
  simp only [adjust,List.map_map]
  apply List.map_congr_left
  intro y _
  by_cases same : key y = k <;> simp [same,keep]

theorem distinct_adjust {f : α → α} (keep : ∀ y, key (f y) = key y)
    (distinct : Distinct key entries) : Distinct key (adjust key k f entries) := by
  simpa [Distinct,map_adjust keep] using distinct

theorem distinct_discard (distinct : Distinct key entries) :
    Distinct key (discard key k entries) :=
  distinct.sublist (List.filter_sublist.map key)

omit [DecidableEq κ] in
theorem distinct_append (distinct : Distinct key entries) (fresh : ∀ y ∈ entries, key y ≠ key x) :
    Distinct key (entries ++ [x]) := by
  simp only [Distinct,List.map_append,List.map_cons,List.map_nil]
  exact List.Nodup.append distinct (List.nodup_singleton _) (by simpa [eq_comm] using fresh)

theorem lookup_adjust {f : α → α} (keep : ∀ y, key (f y) = key y) (j : κ) :
    lookup key j (adjust key k f entries) =
      if j = k then (lookup key j entries).map f else lookup key j entries := by
  induction entries with
  | nil => simp [lookup,adjust]
  | cons head rest ih =>
    simp only [lookup,adjust] at ih
    by_cases here : key head = k
    · by_cases wanted : key head = j
      · simp [lookup,adjust,keep,← here,← wanted]
      · have other : ¬ key head = j := wanted
        simp only [lookup,adjust,List.map_cons,here,if_true,List.find?_cons,keep]
        rw [here] at other
        simp [other,ih]
    · by_cases wanted : key head = j
      · have distinctKeys : ¬ j = k := fun same => here (wanted.trans same)
        simp [lookup,adjust,wanted,distinctKeys]
      · simp only [lookup,adjust,List.map_cons,here,if_false,List.find?_cons,wanted,
          decide_false]
        exact ih

theorem lookup_discard (j : κ) :
    lookup key j (discard key k entries) = if j = k then none else lookup key j entries := by
  induction entries with
  | nil => simp [lookup,discard]
  | cons head rest ih =>
    simp only [lookup,discard] at ih
    by_cases here : key head = k
    · simp only [lookup,discard,List.filter_cons,here,decide_true,Bool.not_true,
        Bool.false_eq_true,if_false,List.find?_cons]
      rw [ih]
      by_cases wanted : j = k
      · simp [wanted]
      · have other : ¬ k = j := fun same => wanted same.symm
        simp [wanted,other]
    · by_cases wanted : key head = j
      · have distinctKeys : ¬ j = k := fun same => here (wanted.trans same)
        simp [lookup,discard,wanted,distinctKeys]
      · simp only [lookup,discard,List.filter_cons,here,decide_false,Bool.not_false,
          if_true,List.find?_cons,wanted]
        exact ih

theorem discard_adjust {f : α → α} (keep : ∀ y, key (f y) = key y) :
    discard key k (adjust key k f entries) = discard key k entries := by
  induction entries with
  | nil => rfl
  | cons head rest ih =>
    simp only [discard,adjust,List.map_cons,List.filter_cons] at *
    by_cases here : key head = k
    · simpa [here,keep] using ih
    · simpa [here] using ih

/-- Discarding an entry just added under a new key. -/
theorem discard_append (fresh : ∀ y ∈ entries, key y ≠ key x) :
    discard key (key x) (entries ++ [x]) = entries := by
  simp only [discard,List.filter_append,List.filter_cons,decide_true,Bool.not_true,
    Bool.false_eq_true,if_false,List.filter_nil,List.append_nil]
  exact List.filter_eq_self.mpr fun y member => by simp [fresh y member]

theorem lookup_append (j : κ) :
    lookup key j (entries ++ [x]) =
      (lookup key j entries).or (if key x = j then some x else none) := by
  simp [lookup,List.find?_append,List.find?_cons]
  split <;> simp_all

@[simp] theorem total_append (measure : α → Nat) :
    total measure (entries ++ [x]) = total measure entries + measure x := by
  simp [total]

/-- Removing a key removes exactly its entry's share. -/
theorem total_discard (measure : α → Nat) (distinct : Distinct key entries)
    (found : lookup key k entries = some x) :
    total measure (discard key k entries) + measure x = total measure entries := by
  induction entries with
  | nil => simp [lookup] at found
  | cons head rest ih =>
    simp only [Distinct,List.map_cons,List.nodup_cons] at distinct
    by_cases here : key head = k
    · have same : head = x := by simpa [lookup,here] using found
      subst same
      have untouched : discard key k rest = rest := by
        apply List.filter_eq_self.mpr
        intro y member
        have separate : key y ≠ key head := fun same =>
          distinct.1 (same ▸ List.mem_map_of_mem member)
        simpa [here] using separate
      simp only [discard] at untouched
      simp [total,discard,here,untouched,Nat.add_comm]
    · have later : lookup key k rest = some x := by simpa [lookup,here] using found
      have tail := ih distinct.2 later
      simp only [total,discard] at tail
      simp only [total,discard,List.filter_cons,here,decide_false,Bool.not_false,if_true,
        List.map_cons,List.sum_cons]
      omega

/-- The entries are the one that is removed and the others. -/
theorem perm_discard (distinct : Distinct key entries) (found : lookup key k entries = some x) :
    entries.Perm (x :: discard key k entries) := by
  induction entries with
  | nil => cases found
  | cons head rest ih =>
    simp only [Distinct,List.map_cons,List.nodup_cons] at distinct
    by_cases here : key head = k
    · obtain rfl : head = x := by simpa [lookup,here] using found
      have untouched : discard key k rest = rest := by
        apply List.filter_eq_self.mpr
        intro y member
        have separate : key y ≠ key head := fun same =>
          distinct.1 (same ▸ List.mem_map_of_mem member)
        simpa [here] using separate
      have kept : discard key k (head :: rest) = rest := by
        rw [discard,List.filter_cons_of_neg (by simp [here])]
        exact untouched
      rw [kept]
    · have later : lookup key k rest = some x := by simpa [lookup,here] using found
      have kept : discard key k (head :: rest) = head :: discard key k rest :=
        List.filter_cons_of_pos (by simp [here])
      rw [kept]
      exact ((ih distinct.2 later).cons head).trans (.swap ..)

/-- Adjusting a key exchanges its entry's share. -/
theorem total_adjust (measure : α → Nat) {f : α → α} (distinct : Distinct key entries)
    (found : lookup key k entries = some x) :
    total measure (adjust key k f entries) + measure x = total measure entries + measure (f x) := by
  induction entries with
  | nil => simp [lookup] at found
  | cons head rest ih =>
    simp only [Distinct,List.map_cons,List.nodup_cons] at distinct
    by_cases here : key head = k
    · have same : head = x := by simpa [lookup,here] using found
      subst same
      have untouched : adjust key k f rest = rest := by
        unfold adjust
        nth_rewrite 2 [← List.map_id rest]
        apply List.map_congr_left
        intro y member
        have separate : key y ≠ key head := fun same =>
          distinct.1 (same ▸ List.mem_map_of_mem member)
        simp [← here,separate]
      simp only [adjust] at untouched
      simp only [total,adjust,List.map_cons,here,if_true,List.sum_cons,untouched]
      omega
    · have later : lookup key k rest = some x := by simpa [lookup,here] using found
      have tail := ih distinct.2 later
      simp only [total,adjust] at tail
      simp only [total,adjust,List.map_cons,here,if_false,List.sum_cons]
      omega

theorem share_le_total (measure : α → Nat) (distinct : Distinct key entries) (member : x ∈ entries) :
    measure x ≤ total measure entries := by
  have share := total_discard measure distinct (lookup_of_mem distinct member)
  omega

/-- The sum of a measure, taken over the keys. -/
theorem total_keys (measure : α → Nat) (distinct : Distinct key entries) : total measure entries =
    ∑ q ∈ (entries.map key).toFinset, (lookup key q entries).elim 0 measure := by
  rw [List.sum_toFinset _ distinct,List.map_map,total]
  refine congrArg List.sum (List.map_congr_left fun x member => ?_)
  rw [Function.comp_apply,lookup_of_mem distinct member]
  rfl

theorem total_congr (measure : α → Nat) {others : List α} (distinct : Distinct key entries)
    (distinct' : Distinct key others) (same : ∀ q, lookup key q others = lookup key q entries) :
    total measure entries = total measure others := by
  have keys : (entries.map key).toFinset = (others.map key).toFinset := by
    ext q
    have present : ∀ l : List α, q ∈ (l.map key).toFinset ↔ (lookup key q l).isSome = true := fun l => by
      simp [lookup]
    rw [present,present,same]
  rw [total_keys measure distinct,total_keys measure distinct',keys]
  exact Finset.sum_congr rfl fun q _ => by rw [same]

/-- Removing some keys takes the measures of their entries off the sum. -/
theorem total_removed (measure : α → Nat) {removed : List α} {keys : List κ}
    (distinct : Distinct key entries) (distinct' : Distinct key removed) (nodup : keys.Nodup)
    (edited : ∀ q, lookup key q removed = if q ∈ keys then none else lookup key q entries) :
    total measure entries =
      total measure removed + (keys.map fun q => (lookup key q entries).elim 0 measure).sum := by
  induction keys generalizing entries with
  | nil => exact total_congr measure distinct distinct' fun q => by simpa using edited q
  | cons k keys ih =>
    obtain ⟨other,nodup⟩ := List.nodup_cons.mp nodup
    have step := @ih (discard key k entries) (distinct_discard distinct) nodup fun q => by
      rw [edited,lookup_discard]
      by_cases here : q = k
      · simp [here]
      · simp [here]
    have rest : keys.map (fun q => (lookup key q (discard key k entries)).elim 0 measure) =
        keys.map fun q => (lookup key q entries).elim 0 measure := by
      refine List.map_congr_left fun q member => ?_
      have apart : q ≠ k := fun here => other (here ▸ member)
      rw [lookup_discard,if_neg apart]
    rw [rest] at step
    rw [List.map_cons,List.sum_cons]
    cases found : lookup key k entries with
    | none =>
      have unchanged : discard key k entries = entries := List.filter_eq_self.mpr fun y member => by
        simpa using lookup_none found y member
      rw [unchanged] at step
      rw [step,Option.elim_none,Nat.zero_add]
    | some x =>
      have share := total_discard measure distinct found
      rw [Option.elim_some]
      omega

end KeyedList
