import Mathlib

/-! Writing by an explicit stack of work. A round takes the top item, writes what can be
written of it at once and pushes what stands for the rest. -/
namespace WorkStack

variable {α ω ε : Type}

/-- A push onto a stack with room for `capacity` items, whose top comes first. -/
def pushWithin (capacity : Nat) (full : ε) (item : α) (stack : List α) : Except ε (List α) :=
  if stack.length < capacity then .ok (item :: stack) else .error full

/-- Items put in turn behind an output with room for `capacity` of them. -/
def appendWithin (capacity : Nat) (full : ε) : List ω → List ω → Except ε (List ω)
  | [],written => .ok written
  | item :: rest,written =>
    if written.length < capacity then appendWithin capacity full rest (written ++ [item]) else .error full

theorem pushWithin_fits {capacity : Nat} {full : ε} {stack : List α} (room : stack.length < capacity) (item : α) :
    pushWithin capacity full item stack = .ok (item :: stack) :=
  if_pos room

theorem appendWithin_fits {capacity : Nat} {full : ε} {items written : List ω}
    (room : written.length + items.length ≤ capacity) :
    appendWithin capacity full items written = .ok (written ++ items) := by
  induction items generalizing written with
  | nil => rw [appendWithin,List.append_nil]
  | cons item rest ih =>
    rw [List.length_cons] at room
    have fits : written.length < capacity := by omega
    have more : (written ++ [item]).length + rest.length ≤ capacity := by
      rw [List.length_append,List.length_singleton]
      omega
    rw [appendWithin,if_pos fits,ih more,List.append_assoc]
    rfl

/-- The rounds until the stack is empty; `none` when there are not enough of them. -/
def run (step : α → List ω → List α → Except ε (List ω × List α)) :
    Nat → List ω → List α → Option (Except ε (List ω))
  | _,written,[] => some (.ok written)
  | 0,_,_ :: _ => none
  | rounds + 1,written,top :: rest =>
    match step top written rest with
    | .error failure => some (.error failure)
    | .ok (written,stack) => run step rounds written stack

/-- What the items of a stack stand for, and what they need of the rounds, of the stack and of
the output: an item needs at least as much as the items that it is replaced by. -/
structure Unfolding (step : α → List ω → List α → Except ε (List ω × List α))
    (outputCapacity stackCapacity : Nat) where
  Known : α → Prop
  emits : α → List ω
  pushes : α → List α
  text : α → List ω
  rounds : α → Nat
  space : α → Nat
  known : ∀ {a}, Known a → ∀ b ∈ pushes a, Known b
  text_eq : ∀ {a}, Known a → text a = emits a ++ (pushes a).flatMap text
  rounds_le : ∀ {a}, Known a → 1 + ((pushes a).map rounds).sum ≤ rounds a
  space_le : ∀ {a}, Known a → ((pushes a).map space).sum ≤ space a
  space_pos : ∀ {a}, Known a → 0 < space a
  step_eq : ∀ {a} written rest, Known a → written.length + (emits a).length ≤ outputCapacity →
    (pushes a).length + rest.length ≤ stackCapacity →
      step a written rest = .ok (written ++ emits a,pushes a ++ rest)

section separated

/-- Items in their order, a separator in front of every one but the first. -/
def separated (separator : α) (item : Nat → α) (count : Nat) : List α :=
  (List.range count).flatMap fun k => (if k ≠ 0 then [separator] else []) ++ [item k]

variable {separator : α} {item : Nat → α}

theorem separated_succ (count : Nat) : separated separator item (count + 1) =
    separated separator item count ++ ((if count ≠ 0 then [separator] else []) ++ [item count]) := by
  simp [separated,List.range_succ]

/-- What the items need together, with one for each. -/
theorem separated_sum (need : α → Nat) (one : need separator = 1) (count : Nat) :
    ((separated separator item count).map need).sum ≤
      count + ((List.range count).map fun k => need (item k)).sum := by
  induction count with
  | zero => simp [separated]
  | succ count ih =>
    rw [separated_succ,List.range_succ]
    simp only [List.map_append,List.sum_append,List.map_cons,List.map_nil,List.sum_cons,List.sum_nil]
    split <;> simp only [List.map_cons,List.map_nil,List.sum_cons,List.sum_nil,one] <;> omega

theorem mem_separated {count : Nat} {a : α} (member : a ∈ separated separator item count) :
    a = separator ∨ ∃ k < count, a = item k := by
  obtain ⟨k,inside,here⟩ := List.mem_flatMap.mp member
  rcases List.mem_append.mp here with between | own
  · split at between
    · exact .inl (List.mem_singleton.mp between)
    · cases between
  · exact .inr ⟨k,List.mem_range.mp inside,List.mem_singleton.mp own⟩

end separated

namespace Unfolding

variable {step : α → List ω → List α → Except ε (List ω × List α)}
  {outputCapacity stackCapacity : Nat} (u : Unfolding step outputCapacity stackCapacity)

/-- A stack is no longer than the space that its items need. -/
theorem length_le {stack : List α} (known : ∀ a ∈ stack, u.Known a) :
    stack.length ≤ (stack.map u.space).sum := by
  induction stack with
  | nil => simp
  | cons top rest ih =>
    have positive := u.space_pos (known top List.mem_cons_self)
    have tail := ih fun a member => known a (List.mem_cons_of_mem top member)
    simp only [List.length_cons,List.map_cons,List.sum_cons]
    omega

/-- With room for what the stack stands for, the rounds write exactly that. -/
theorem run_eq (rounds : Nat) (written : List ω) (stack : List α) (known : ∀ a ∈ stack, u.Known a)
    (output : written.length + (stack.flatMap u.text).length ≤ outputCapacity)
    (space : (stack.map u.space).sum ≤ stackCapacity) (enough : (stack.map u.rounds).sum ≤ rounds) :
    run step rounds written stack = some (.ok (written ++ stack.flatMap u.text)) := by
  induction rounds generalizing written stack with
  | zero =>
    cases stack with
    | nil => simp [run]
    | cons top rest =>
      have positive := u.rounds_le (known top List.mem_cons_self)
      simp only [List.map_cons,List.sum_cons] at enough
      omega
  | succ rounds ih =>
    cases stack with
    | nil => simp [run]
    | cons top rest =>
      have here := known top List.mem_cons_self
      have later : ∀ a ∈ u.pushes top ++ rest, u.Known a := by
        intro a member
        rcases List.mem_append.mp member with pushed | kept
        · exact u.known here a pushed
        · exact known a (List.mem_cons_of_mem top kept)
      have roundsLe := u.rounds_le here
      have spaceLe := u.space_le here
      simp only [List.flatMap_cons,u.text_eq here,List.map_cons,List.sum_cons,List.length_append]
        at output space enough
      have spaceToo : ((u.pushes top ++ rest).map u.space).sum ≤ stackCapacity := by
        simp only [List.map_append,List.sum_append]
        omega
      have fits : (u.pushes top).length + rest.length ≤ stackCapacity := by
        rw [← List.length_append]
        exact Nat.le_trans (u.length_le later) spaceToo
      rw [run,u.step_eq written rest here (by omega) fits]
      dsimp only
      rw [ih _ _ later _ spaceToo]
      · simp only [List.flatMap_append,List.flatMap_cons,u.text_eq here,List.append_assoc]
      · simp only [List.map_append,List.sum_append]
        omega
      · simp only [List.flatMap_append,List.length_append]
        omega

end Unfolding
end WorkStack
