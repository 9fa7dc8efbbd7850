import Mathlib

/-! The least cost over a list, kept while the list is scanned: with the first element
that has it and whether another one has it too, or with the number of elements that have
it. Elements without a cost are passed over. -/
namespace TiedMinimum

variable {α κ : Type} [LinearOrder κ] {cost : α → Option κ}

/-- The first element of least cost so far. -/
structure Leader (α κ : Type) where
  place : Nat
  element : α
  cost : κ
  tied : Bool

/-- The next element takes over, ties with the leader or is passed over. -/
def advance (cost : α → Option κ) (leader : Option (Leader α κ)) (place : Nat) (a : α) :
    Option (Leader α κ) :=
  match cost a,leader with
  | none,_ => leader
  | some c,none => some ⟨place,a,c,false⟩
  | some c,some best =>
    if c < best.cost then some ⟨place,a,c,false⟩
    else if c = best.cost then some { best with tied := true }
    else some best

def scan (cost : α → Option κ) : Option (Leader α κ) → Nat → List α → Option (Leader α κ)
  | leader,_,[] => leader
  | leader,place,a :: rest => scan cost (advance cost leader place a) (place + 1) rest

/-- The same with the number of elements of least cost in place of the first one. -/
def count (cost : α → Option κ) (least : Option (κ × Nat)) (a : α) : Option (κ × Nat) :=
  match cost a,least with
  | none,_ => least
  | some c,none => some (c,1)
  | some c,some (minimum,number) =>
    if c < minimum then some (c,1)
    else if c = minimum then some (minimum,number + 1)
    else some (minimum,number)

def tally (cost : α → Option κ) (least : Option (κ × Nat)) (as : List α) : Option (κ × Nat) :=
  as.foldl (count cost) least

/-- The least cost of a list with the number of elements that have it. -/
structure Least (cost : α → Option κ) (scanned : List α) (minimum : κ) (number : Nat) : Prop where
  least : ∀ a ∈ scanned, ∀ c, cost a = some c → minimum ≤ c
  counted : scanned.countP (fun a => cost a = some minimum) = number
  positive : 0 < number

def Tallied (cost : α → Option κ) (scanned : List α) : Option (κ × Nat) → Prop
  | none => ∀ a ∈ scanned, cost a = none
  | some (minimum,number) => Least cost scanned minimum number

theorem countP_append_single (scanned : List α) (a : α) (c : κ) :
    (scanned ++ [a]).countP (fun a => cost a = some c) =
      scanned.countP (fun a => cost a = some c) + if cost a = some c then 1 else 0 := by
  simp [List.countP_cons]

/-- Nothing costs less than the least cost. -/
theorem countP_below {scanned : List α} {bound c : κ}
    (least : ∀ a ∈ scanned, ∀ c, cost a = some c → bound ≤ c) (below : c < bound) :
    scanned.countP (fun a => cost a = some c) = 0 := by
  rw [List.countP_eq_zero]
  intro a member same
  exact absurd (least a member c (of_decide_eq_true same)) (not_le.mpr below)

theorem Tallied.count {scanned : List α} {least : Option (κ × Nat)} (so : Tallied cost scanned least)
    (a : α) : Tallied cost (scanned ++ [a]) (count cost least a) := by
  have cases {P : α → Prop} (before : ∀ b ∈ scanned, P b) (this : P a) : ∀ b ∈ scanned ++ [a], P b := by
    intro b member
    rcases List.mem_append.mp member with member | last
    · exact before b member
    · exact List.mem_singleton.mp last ▸ this
  cases given : cost a with
  | none =>
    have same : TiedMinimum.count cost least a = least := by
      simp only [TiedMinimum.count,given]
    rw [same]
    rcases least with _ | ⟨minimum,number⟩
    · exact cases so given
    · refine ⟨cases so.least (by simp [given]),?_,so.positive⟩
      rw [countP_append_single,so.counted,given]
      simp
  | some c =>
    rcases least with _ | ⟨minimum,number⟩
    · have first : TiedMinimum.count cost none a = some (c,1) := by
        simp only [TiedMinimum.count,given]
      rw [first]
      refine ⟨cases (fun b member => by simp [so b member]) (by simp [given]),?_,Nat.one_pos⟩
      have free : scanned.countP (fun a => cost a = some c) = 0 := by
        rw [List.countP_eq_zero]
        intro b member
        simp [so b member]
      rw [countP_append_single,free,if_pos given]
    · simp only [TiedMinimum.count,given]
      by_cases less : c < minimum
      · rw [if_pos less]
        refine ⟨cases (fun b member d costs => le_of_lt (lt_of_lt_of_le less (so.least b member d costs))) (by simp [given]),
          ?_,Nat.one_pos⟩
        rw [countP_append_single,countP_below so.least less,if_pos given]
      · rw [if_neg less]
        by_cases equal : c = minimum
        · subst equal
          rw [if_pos rfl]
          refine ⟨cases so.least (by simp [given]),?_,Nat.succ_pos number⟩
          rw [countP_append_single,so.counted,if_pos given]
        · rw [if_neg equal]
          refine ⟨cases so.least ?_,?_,so.positive⟩
          · intro d costs
            rw [given] at costs
            exact Option.some.inj costs ▸ not_lt.mp less
          · rw [countP_append_single,so.counted,given,if_neg (by simpa using equal),Nat.add_zero]

/-- The tally of a list counts its elements of least cost. -/
theorem tally_tallied (cost : α → Option κ) (as : List α) : Tallied cost as (tally cost none as) := by
  suffices run : ∀ scanned least, Tallied cost scanned least →
      Tallied cost (scanned ++ as) (tally cost least as) from
    run [] none fun a member => by cases member
  induction as with
  | nil =>
    intro scanned least so
    rw [List.append_nil]
    exact so
  | cons a rest ih =>
    intro scanned least so
    have later := ih (scanned ++ [a]) _ (so.count a)
    rwa [List.append_assoc] at later

/-- A leader agrees with a tally: the same cost, tied when several elements have it. -/
def Agrees : Option (Leader α κ) → Option (κ × Nat) → Prop
  | none,none => True
  | some best,some (minimum,number) =>
    best.cost = minimum ∧ (best.tied = true ↔ 1 < number) ∧ 0 < number
  | _,_ => False

theorem Agrees.advance {leader : Option (Leader α κ)} {least : Option (κ × Nat)}
    (agrees : Agrees leader least) (place : Nat) (a : α) :
    Agrees (advance cost leader place a) (TiedMinimum.count cost least a) := by
  cases given : cost a with
  | none =>
    simp only [TiedMinimum.advance,TiedMinimum.count,given]
    exact agrees
  | some c =>
    rcases leader with _ | best <;> rcases least with _ | ⟨minimum,number⟩
    · simp [TiedMinimum.advance,TiedMinimum.count,given,Agrees]
    · exact agrees.elim
    · exact agrees.elim
    · obtain ⟨rfl,tied,positive⟩ := agrees
      simp only [TiedMinimum.advance,TiedMinimum.count,given]
      by_cases less : c < best.cost
      · rw [if_pos less,if_pos less]
        exact ⟨rfl,by simp,Nat.one_pos⟩
      · rw [if_neg less,if_neg less]
        by_cases equal : c = best.cost
        · rw [if_pos equal,if_pos equal]
          exact ⟨rfl,iff_of_true rfl (by omega),Nat.succ_pos number⟩
        · rw [if_neg equal,if_neg equal]
          exact ⟨rfl,tied,positive⟩

theorem Agrees.scan {leader : Option (Leader α κ)} {least : Option (κ × Nat)} (as : List α)
    (agrees : Agrees leader least) (place : Nat) :
    Agrees (scan cost leader place as) (tally cost least as) := by
  induction as generalizing leader least place with
  | nil => exact agrees
  | cons a rest ih => exact ih (agrees.advance place a) (place + 1)

theorem agrees_scan (cost : α → Option κ) (as : List α) :
    Agrees (scan cost none 0 as) (tally cost none as) := by
  have start : Agrees (none : Option (Leader α κ)) none := trivial
  exact start.scan as 0

/-- The leader stands where it was found. -/
def Found (cost : α → Option κ) (scanned : List α) (leader : Option (Leader α κ)) : Prop :=
  ∀ best, leader = some best → scanned[best.place]? = some best.element ∧ cost best.element = some best.cost

theorem Found.advance {scanned : List α} {leader : Option (Leader α κ)} (found : Found cost scanned leader)
    (a : α) : Found cost (scanned ++ [a]) (advance cost leader scanned.length a) := by
  have kept : Found cost (scanned ++ [a]) leader := by
    intro best given
    obtain ⟨here,costs⟩ := found best given
    obtain ⟨inside,-⟩ := List.getElem?_eq_some_iff.mp here
    exact ⟨(List.getElem?_append_left inside).trans here,costs⟩
  have last : (scanned ++ [a])[scanned.length]? = some a := by simp
  unfold TiedMinimum.advance
  split
  · exact kept
  · rename_i c costs
    rintro best ⟨⟩
    exact ⟨last,costs⟩
  · rename_i c leading costs
    split
    · rintro best ⟨⟩
      exact ⟨last,costs⟩
    · split
      · rintro best ⟨⟩
        exact kept leading rfl
      · exact kept

theorem Found.scan {scanned : List α} {leader : Option (Leader α κ)} (as : List α)
    (found : Found cost scanned leader) :
    Found cost (scanned ++ as) (scan cost leader scanned.length as) := by
  induction as generalizing scanned leader with
  | nil =>
    rw [List.append_nil]
    exact found
  | cons a rest ih =>
    have later := ih (found.advance a)
    rwa [List.append_assoc,List.length_append] at later

theorem found_scan (cost : α → Option κ) (as : List α) : Found cost as (scan cost none 0 as) := by
  have start : Found cost [] (none : Option (Leader α κ)) := fun best given => by cases given
  exact start.scan as

/-- The leader of a list: an element of least cost, tied when another one has it too. -/
structure Leads (cost : α → Option κ) (as : List α) (best : Leader α κ) : Prop where
  here : as[best.place]? = some best.element
  costs : cost best.element = some best.cost
  least : ∀ a ∈ as, ∀ c, cost a = some c → best.cost ≤ c
  tied : best.tied = true ↔ 1 < as.countP fun a => cost a = some best.cost

/-- Scanning a list finds no leader when no element has a cost, and else a leader of it. -/
theorem scan_leads (cost : α → Option κ) (as : List α) :
    match scan cost none 0 as with
    | none => ∀ a ∈ as, cost a = none
    | some best => Leads cost as best := by
  have agrees := agrees_scan cost as
  have found := found_scan cost as
  have tallied := tally_tallied cost as
  generalize scan cost none 0 as = leader at *
  generalize tally cost none as = least at *
  rcases leader with _ | best <;> rcases least with _ | ⟨minimum,number⟩
  · exact tallied
  · exact agrees.elim
  · exact agrees.elim
  · obtain ⟨rfl,tied,-⟩ := agrees
    obtain ⟨here,costs⟩ := found best rfl
    exact ⟨here,costs,tallied.least,tallied.counted.symm ▸ tied⟩

/-- The leader is tied exactly when the tally counts several elements. -/
theorem tied_iff (cost : α → Option κ) (as : List α) :
    (∃ best, scan cost none 0 as = some best ∧ best.tied = true) ↔
      ∃ minimum number, tally cost none as = some (minimum,number) ∧ 1 < number := by
  have agrees := agrees_scan cost as
  generalize scan cost none 0 as = leader at *
  generalize tally cost none as = least at *
  rcases leader with _ | best <;> rcases least with _ | ⟨minimum,number⟩
  · simp
  · exact agrees.elim
  · exact agrees.elim
  · simpa using agrees.2.1

/-- Two places with a property count twice. -/
theorem two_le_countP {p : α → Bool} {as : List α} {i j : Nat} {a b : α} (less : i < j)
    (first : as[i]? = some a) (second : as[j]? = some b) (holds : p a = true) (holds' : p b = true) :
    2 ≤ as.countP p := by
  have split : as.countP p = (as.take j).countP p + (as.drop j).countP p := by
    rw [← List.countP_append,List.take_append_drop]
  have before : 0 < (as.take j).countP p := by
    refine List.countP_pos_iff.mpr ⟨a,List.mem_of_getElem? (i := i) ?_,holds⟩
    rw [List.getElem?_take_of_lt less]
    exact first
  have after : 0 < (as.drop j).countP p := by
    refine List.countP_pos_iff.mpr ⟨b,List.mem_of_getElem? (i := 0) ?_,holds'⟩
    rw [List.getElem?_drop,Nat.add_zero]
    exact second
  omega

/-- Away from an untied leader everything costs more. -/
theorem Leads.unique {as : List α} {best : Leader α κ} (leads : Leads cost as best)
    (free : best.tied = false) {place : Nat} {a : α} (other : place ≠ best.place)
    (here : as[place]? = some a) {c : κ} (costs : cost a = some c) : best.cost < c := by
  refine lt_of_le_of_ne (leads.least a (List.mem_of_getElem? here) c costs) ?_
  rintro rfl
  have holds : decide (cost a = some best.cost) = true := decide_eq_true costs
  have holds' : decide (cost best.element = some best.cost) = true := decide_eq_true leads.costs
  have twice : 1 < as.countP fun a => cost a = some best.cost := by
    rcases Nat.lt_or_gt_of_ne other with less | more
    · exact two_le_countP less here leads.here holds holds'
    · exact two_le_countP more leads.here here holds' holds
  rw [leads.tied.mpr twice] at free
  cases free

/-- The order of a list does not matter to an untied leader. -/
theorem Leads.perm {as bs : List α} {best other : Leader α κ} (leads : Leads cost as best)
    (leads' : Leads cost bs other) (perm : as.Perm bs) (free : best.tied = false) :
    other.element = best.element ∧ other.cost = best.cost ∧ other.tied = false := by
  have member : best.element ∈ as := List.mem_of_getElem? leads.here
  have member' : other.element ∈ as := perm.mem_iff.mpr (List.mem_of_getElem? leads'.here)
  have same : other.cost = best.cost :=
    le_antisymm (leads'.least _ (perm.mem_iff.mp member) _ leads.costs) (leads.least _ member' _ leads'.costs)
  obtain ⟨place,here⟩ := List.mem_iff_getElem?.mp member'
  refine ⟨?_,same,?_⟩
  · by_cases apart : place = best.place
    · rw [apart,leads.here] at here
      exact (Option.some.inj here).symm
    · exact absurd (leads.unique free apart here leads'.costs) (by rw [same]; exact lt_irrefl _)
  · rw [Bool.eq_false_iff,ne_eq,leads'.tied,same,← perm.countP_eq,← leads.tied,free]
    simp

end TiedMinimum
