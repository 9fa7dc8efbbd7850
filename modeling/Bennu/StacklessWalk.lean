import Mathlib

/-! Depth-first walks that keep no stack: every node carries its parent and the
number of its children still to be walked. Nodes are numbered so that children
precede their parents. -/
namespace StacklessWalk

/-- Children precede their parent, are listed once and know it. -/
structure Forest where
  children : Nat → List Nat
  parent : Nat → Nat
  earlier : ∀ {i c}, c ∈ children i → c < i
  linked : ∀ {i c}, c ∈ children i → parent c = i
  distinct : ∀ i, (children i).Nodup

namespace Forest

variable (f : Forest)

/-- The nodes of a subtree as the walk leaves them: the last child's subtree first. -/
def order (i : Nat) : List Nat :=
  ((f.children i).attach.reverse.flatMap fun c => order c.1) ++ [i]
termination_by i
decreasing_by exact f.earlier c.2

/-- The nodes left before a node itself. -/
def below (i : Nat) : List Nat := (f.children i).reverse.flatMap f.order

variable {f}

theorem order_eq (i : Nat) : f.order i = f.below i ++ [i] := by
  have walked : ((f.children i).attach.reverse.flatMap fun c => f.order c.1) = f.below i := by
    have named : (f.children i).attach.reverse.map (·.1) = (f.children i).reverse := by simp
    rw [below,← named,List.flatMap_map]
  rw [order,walked]

/-- What the nodes of a subtree weigh together. -/
def weight (f : Forest) (w : Nat → Nat) (i : Nat) : Nat := ((f.order i).map w).sum

theorem weight_eq (w : Nat → Nat) (i : Nat) :
    f.weight w i = w i + ((f.children i).map (f.weight w)).sum := by
  have below : ((f.below i).map w).sum = ((f.children i).map (f.weight w)).sum := by
    rw [Forest.below,List.flatMap_def,List.map_flatten,List.sum_flatten]
    simp only [List.map_map,Function.comp_def,List.map_reverse,List.sum_reverse]
    rfl
  rw [weight,order_eq,List.map_append,List.sum_append,below,Nat.add_comm]
  simp

theorem self_mem_order (i : Nat) : i ∈ f.order i := by
  rw [order_eq]
  simp

theorem mem_order {i j : Nat} : j ∈ f.order i ↔ j = i ∨ ∃ c ∈ f.children i, j ∈ f.order c := by
  rw [order_eq]
  simp [below,or_comm]

theorem le_of_mem_order {i j : Nat} (member : j ∈ f.order i) : j ≤ i := by
  induction i using Nat.strongRecOn with
  | _ i ih =>
    rcases mem_order.mp member with rfl | ⟨c,child,inside⟩
    · exact Nat.le_refl _
    · have before := f.earlier child
      have bound := ih c before inside
      omega

/-- A subtree that holds a child holds its parent, unless the child is its root. -/
theorem parent_mem_order {i j p : Nat} (member : j ∈ f.order i) (child : j ∈ f.children p)
    (other : j ≠ i) : p ∈ f.order i := by
  induction i using Nat.strongRecOn with
  | _ i ih =>
    obtain ⟨c,isChild,inside⟩ := (mem_order.mp member).resolve_left other
    by_cases top : j = c
    · have same : p = i := (f.linked child).symm.trans (top ▸ f.linked isChild)
      rw [same]
      exact self_mem_order i
    · exact mem_order.mpr (.inr ⟨c,isChild,ih c (f.earlier isChild) inside top⟩)

/-- Two subtrees that meet are nested. -/
theorem nested {i j k : Nat} (left : k ∈ f.order i) (right : k ∈ f.order j) (le : i ≤ j) :
    i ∈ f.order j := by
  induction i using Nat.strongRecOn generalizing k with
  | _ i ih =>
    rcases mem_order.mp left with rfl | ⟨c,child,inside⟩
    · exact right
    · have before := f.earlier child
      have held := ih c before inside right (by omega)
      exact parent_mem_order held child (by omega)

/-- Distinct children have disjoint subtrees. -/
theorem siblings_apart {i a b k : Nat} (childA : a ∈ f.children i) (childB : b ∈ f.children i)
    (left : k ∈ f.order a) (right : k ∈ f.order b) : a = b := by
  by_contra different
  have escapes : ∀ {c d}, c ∈ f.children i → d ∈ f.children i → c ≠ d → c ∈ f.order d → False := by
    intro c d childC childD apart inside
    have up := le_of_mem_order (parent_mem_order inside childC apart)
    have before := f.earlier childD
    omega
  rcases Nat.le_total a b with le | le
  · exact escapes childA childB different (nested left right le)
  · exact escapes childB childA (Ne.symm different) (nested right left le)

theorem order_nodup (i : Nat) : (f.order i).Nodup := by
  induction i using Nat.strongRecOn with
  | _ i ih =>
    rw [order_eq,below]
    refine List.nodup_append.mpr ⟨List.nodup_flatMap.mpr ⟨fun c member => ?_,?_⟩,
      List.nodup_singleton i,?_⟩
    · exact ih c (f.earlier (List.mem_reverse.mp member))
    · refine List.Pairwise.imp_of_mem ?_ (List.nodup_reverse.mpr (f.distinct i))
      intro a b memberA memberB different k left right
      exact different (siblings_apart (List.mem_reverse.mp memberA) (List.mem_reverse.mp memberB)
        left right)
    · intro a member b single same
      obtain ⟨c,child,inside⟩ := List.mem_flatMap.mp member
      have before := f.earlier (List.mem_reverse.mp child)
      have bound := le_of_mem_order inside
      rw [same,List.mem_singleton.mp single] at bound
      omega

/-- A root above every node whose parents all stay below it holds every node. -/
theorem mem_order_root {root : Nat}
    (reached : ∀ j < root, ∃ p ≤ root, j ∈ f.children p) {j : Nat} (bound : j ≤ root) :
    j ∈ f.order root := by
  obtain ⟨gap,isGap⟩ : ∃ gap, gap = root - j := ⟨_,rfl⟩
  induction gap using Nat.strongRecOn generalizing j with
  | _ gap ih =>
    rcases Nat.eq_or_lt_of_le bound with rfl | below
    · exact self_mem_order j
    · obtain ⟨p,within,child⟩ := reached j below
      have before := f.earlier child
      have above := ih (root - p) (by omega) within rfl
      have closed : ∀ q, p ∈ f.order q → j ∈ f.order q := by
        intro q
        induction q using Nat.strongRecOn with
        | _ q descend =>
          intro inside
          rcases mem_order.mp inside with rfl | ⟨c,isChild,deeper⟩
          · exact mem_order.mpr (.inr ⟨j,child,self_mem_order j⟩)
          · exact mem_order.mpr (.inr ⟨c,isChild,descend c (f.earlier isChild) deeper⟩)
      exact closed root above

end Forest

/-- The walk's whole state: what the visits change, the children still to be walked
at each node, and the current node. -/
structure Cursor (σ : Type) where
  data : σ
  pending : Nat → Nat
  node : Nat

inductive Outcome (σ : Type) where
  | advanced (c : Cursor σ)
  | finished (c : Cursor σ)
  | failed (c : Cursor σ)

section Walk

variable {σ : Type} (f : Forest) (root : Nat) (visit : Nat → σ → Option σ)

def take (pending : Nat → Nat) (i : Nat) : Nat → Nat :=
  fun j => if j = i then pending j - 1 else pending j

/-- Go down to the last pending child; a node without one is visited and left. -/
def step (c : Cursor σ) : Outcome σ :=
  if c.pending c.node ≠ 0 then
    .advanced ⟨c.data,take c.pending c.node,(f.children c.node).getD (c.pending c.node - 1) 0⟩
  else match visit c.node c.data with
    | none => .failed c
    | some data =>
      if c.node = root then .finished { c with data := data }
      else .advanced ⟨data,c.pending,f.parent c.node⟩

/-- A number of steps that all advance. -/
inductive Steps : Nat → Cursor σ → Cursor σ → Prop
  | refl (c : Cursor σ) : Steps 0 c c
  | head {n : Nat} {a b c : Cursor σ} (first : step f root visit a = .advanced b)
      (rest : Steps n b c) : Steps (n + 1) a c

/-- The counters after the listed nodes have been walked. -/
def settle (walked : List Nat) (pending : Nat → Nat) : Nat → Nat :=
  fun j => if j ∈ walked then 0 else pending j

variable {f root visit}

theorem Steps.trans {m n : Nat} {a b c : Cursor σ} (first : Steps f root visit m a b)
    (second : Steps f root visit n b c) : Steps f root visit (m + n) a c := by
  induction first with
  | refl a => rwa [Nat.zero_add]
  | head once rest ih =>
    rw [Nat.add_right_comm]
    exact .head once (ih second)

theorem step_pending {a b : Cursor σ} (once : step f root visit a = .advanced b) (j : Nat) :
    b.pending j ≤ a.pending j := by
  unfold step at once
  split at once
  · cases once
    unfold take
    dsimp only
    split
    · exact Nat.sub_le _ _
    · exact Nat.le_refl _
  · split at once
    · cases once
    · split at once
      · cases once
      · cases once
        exact Nat.le_refl _

theorem Steps.pending {n : Nat} {a b : Cursor σ} (steps : Steps f root visit n a b) (j : Nat) :
    b.pending j ≤ a.pending j := by
  induction steps with
  | refl c => exact Nat.le_refl _
  | head once rest ih => exact Nat.le_trans ih (step_pending once j)

/-- A walk that has gone down from a node has fewer children pending there. -/
theorem Steps.descended {n : Nat} {a b : Cursor σ} (steps : Steps f root visit n a b)
    (children : a.pending a.node ≠ 0) (moved : n ≠ 0) : b.pending a.node < a.pending a.node := by
  cases steps with
  | refl => exact absurd rfl moved
  | head once rest =>
    have later := rest.pending a.node
    unfold step at once
    rw [if_pos children] at once
    cases once
    simp only [take,if_true] at later
    omega

/-- How a walk over a list of nodes ends: everything visited, or stopped at a visit
that fails. -/
def Walks (f : Forest) (root : Nat) (visit : Nat → σ → Option σ) (start : Cursor σ) (bound : Nat)
    (result : Option σ) (done : σ → Cursor σ) : Prop :=
  match result with
  | some data => ∃ n ≤ bound, Steps f root visit n start (done data)
  | none => ∃ n ≤ bound, ∃ last, Steps f root visit n start last ∧ step f root visit last = .failed last

theorem Walks.after {start middle : Cursor σ} {n bound : Nat} {result : Option σ} {done : σ → Cursor σ}
    (before : Steps f root visit n start middle) (walks : Walks f root visit middle bound result done) :
    Walks f root visit start (n + bound) result done := by
  cases result with
  | some data =>
    obtain ⟨m,within,steps⟩ := walks
    exact ⟨n + m,by omega,before.trans steps⟩
  | none =>
    obtain ⟨m,within,last,steps,failed⟩ := walks
    exact ⟨n + m,by omega,last,before.trans steps,failed⟩

theorem Walks.weaken {start : Cursor σ} {bound more : Nat} {result : Option σ} {done : σ → Cursor σ}
    (walks : Walks f root visit start bound result done) (le : bound ≤ more) :
    Walks f root visit start more result done := by
  cases result with
  | some data =>
    obtain ⟨m,within,steps⟩ := walks
    exact ⟨m,by omega,steps⟩
  | none =>
    obtain ⟨m,within,rest⟩ := walks
    exact ⟨m,by omega,rest⟩

/-- Visit the listed nodes in turn. -/
def visitAll (visit : Nat → σ → Option σ) : List Nat → σ → Option σ
  | [],data => some data
  | i :: rest,data => (visit i data).bind (visitAll visit rest)

theorem visitAll_append (xs ys : List Nat) (data : σ) :
    visitAll visit (xs ++ ys) data = (visitAll visit xs data).bind (visitAll visit ys) := by
  induction xs generalizing data with
  | nil => rfl
  | cons x xs ih =>
    simp only [List.cons_append,visitAll,Option.bind_assoc]
    exact congrArg _ (funext ih)

theorem visitAll_order (i : Nat) (data : σ) :
    visitAll visit (f.order i) data = (visitAll visit (f.below i) data).bind (visit i) := by
  rw [Forest.order_eq,visitAll_append]
  exact congrArg _ (funext fun d => by simp [visitAll])

/-- The subtree of a node has been walked up to the node itself. -/
def WalksBelow (f : Forest) (root : Nat) (visit : Nat → σ → Option σ) (i : Nat) : Prop :=
  ∀ data pending, (∀ j ∈ f.order i, pending j = (f.children j).length) →
    Walks f root visit ⟨data,pending,i⟩ (2 * (f.below i).length) (visitAll visit (f.below i) data)
      fun after => ⟨after,settle (f.order i) pending,i⟩

/-- Walking one whole child and climbing back to its parent. -/
theorem walks_child {i c : Nat} (bound : i ≤ root) (child : c ∈ f.children i)
    (below : WalksBelow f root visit c) (data : σ) (pending : Nat → Nat)
    (full : ∀ j ∈ f.order c, pending j = (f.children j).length) :
    Walks f root visit ⟨data,pending,c⟩ (2 * (f.below c).length + 1) (visitAll visit (f.order c) data)
      fun after => ⟨after,settle (f.order c) pending,i⟩ := by
  have walked := below data pending full
  rw [visitAll_order]
  cases result : visitAll visit (f.below c) data with
  | none =>
    rw [result] at walked
    exact walked.weaken (Nat.le_succ _)
  | some after =>
    rw [result] at walked
    obtain ⟨n,within,steps⟩ := walked
    have settled : settle (f.order c) pending c = 0 := by simp [settle,Forest.self_mem_order]
    have before := f.earlier child
    have once : step f root visit ⟨after,settle (f.order c) pending,c⟩ = match visit c after with
        | none => .failed ⟨after,settle (f.order c) pending,c⟩
        | some data => .advanced ⟨data,settle (f.order c) pending,i⟩ := by
      have inner : c ≠ root := by omega
      simp only [step,settled,ne_eq,not_true_eq_false,if_false,f.linked child,inner]
    simp only [Option.bind_some]
    cases visited : visit c after with
    | none =>
      rw [visited] at once
      exact ⟨n,by omega,_,steps,once⟩
    | some next =>
      rw [visited] at once
      exact ⟨n + 1,by omega,steps.trans (.head once (.refl _))⟩

/-- The first children of a node, walked from the last of them. -/
def firstChildren (f : Forest) (i k : Nat) : List Nat := ((f.children i).take k).reverse.flatMap f.order

theorem firstChildren_succ {i k : Nat} (bound : k < (f.children i).length) :
    firstChildren f i (k + 1) = f.order ((f.children i)[k]) ++ firstChildren f i k := by
  simp only [firstChildren,List.take_succ_eq_append_getElem bound,List.reverse_append,
    List.reverse_singleton,List.singleton_append,List.flatMap_cons]

theorem walks_children {i : Nat} (bound : i ≤ root)
    (below : ∀ c ∈ f.children i, WalksBelow f root visit c) :
    ∀ (k : Nat), k ≤ (f.children i).length → ∀ data pending, pending i = k →
      (∀ j ∈ firstChildren f i k, pending j = (f.children j).length) →
      Walks f root visit ⟨data,pending,i⟩ (2 * (firstChildren f i k).length)
        (visitAll visit (firstChildren f i k) data)
        fun after => ⟨after,settle (i :: firstChildren f i k) pending,i⟩ := by
  intro k
  induction k with
  | zero =>
    intro _ data pending none _
    have same : settle (i :: firstChildren f i 0) pending = pending := by
      funext j
      simp only [settle,firstChildren,List.take_zero,List.reverse_nil,List.flatMap_nil,
        List.mem_singleton]
      split
      · rename_i top
        rw [top,none]
      · rfl
    exact ⟨0,Nat.zero_le _,by rw [same]; exact .refl _⟩
  | succ k ih =>
    intro within data pending left full
    have inside : k < (f.children i).length := within
    obtain ⟨c,isChild⟩ : ∃ c, c = (f.children i)[k] := ⟨_,rfl⟩
    have child : c ∈ f.children i := isChild ▸ List.getElem_mem inside
    have before := f.earlier child
    have split := firstChildren_succ (f := f) inside
    rw [← isChild] at split
    have down : step f root visit ⟨data,pending,i⟩ = .advanced ⟨data,take pending i,c⟩ := by
      simp only [step,left]
      rw [if_pos (Nat.succ_ne_zero k),Nat.add_sub_cancel,List.getD_eq_getElem _ _ inside,isChild]
    have outside : ∀ j ∈ f.order c, j ≠ i := fun j member same => by
      have le := Forest.le_of_mem_order member
      omega
    have apart : ∀ j ∈ firstChildren f i k, j ∉ f.order c := by
      intro j member shared
      obtain ⟨d,isMember,deeper⟩ := List.mem_flatMap.mp member
      have early := List.mem_reverse.mp isMember
      have same := Forest.siblings_apart (List.mem_of_mem_take early) child deeper shared
      obtain ⟨m,small,place⟩ := List.mem_take_iff_getElem.mp early
      have position : m = k := (List.Nodup.getElem_inj_iff (f.distinct i)).mp
        (place.trans (same.trans isChild))
      omega
    have low : ∀ j ∈ firstChildren f i k, j ≠ i := by
      intro j member same
      obtain ⟨d,isMember,deeper⟩ := List.mem_flatMap.mp member
      have le := Forest.le_of_mem_order deeper
      have less := f.earlier (List.mem_of_mem_take (List.mem_reverse.mp isMember))
      omega
    have childWalk := walks_child bound child (below c child) data (take pending i) fun j member => by
      rw [take,if_neg (outside j member)]
      exact full j (by rw [split]; exact List.mem_append_left _ member)
    rw [split,visitAll_append]
    have size : (f.order c).length = (f.below c).length + 1 := by
      rw [Forest.order_eq,List.length_append,List.length_singleton]
    rw [List.length_append,size]
    have first : Steps f root visit 1 ⟨data,pending,i⟩ ⟨data,take pending i,c⟩ := .head down (.refl _)
    cases result : visitAll visit (f.order c) data with
    | none =>
      rw [result] at childWalk
      exact (childWalk.after first).weaken (by omega)
    | some after =>
      rw [result] at childWalk
      obtain ⟨n,less,steps⟩ := childWalk
      have rest := ih (by omega) after (settle (f.order c) (take pending i))
        (by
          have own : i ∉ f.order c := fun member => outside i member rfl
          simp [settle,own,take,left])
        (fun j member => by
          rw [settle,if_neg (apart j member),take,if_neg (low j member)]
          exact full j (by rw [split]; exact List.mem_append_right _ member))
      have counters : settle (i :: firstChildren f i k) (settle (f.order c) (take pending i)) =
          settle (i :: (f.order c ++ firstChildren f i k)) pending := by
        funext j
        by_cases top : j = i
        · simp [settle,top]
        · by_cases here : j ∈ f.order c
          · simp [settle,here]
          · simp [settle,top,here,take]
      rw [counters] at rest
      simp only [Option.bind_some]
      exact (rest.after (first.trans steps)).weaken (by omega)

theorem walks_below (i : Nat) (bound : i ≤ root) : WalksBelow f root visit i := by
  induction i using Nat.strongRecOn with
  | _ i ih =>
    intro data pending full
    have children := walks_children bound
      (fun c child => ih c (f.earlier child) (by have less := f.earlier child; omega))
      (f.children i).length (Nat.le_refl _) data pending (full i (Forest.self_mem_order i))
    have all : firstChildren f i (f.children i).length = f.below i := by
      rw [firstChildren,List.take_length,Forest.below]
    rw [all] at children
    have counters : settle (i :: f.below i) pending = settle (f.order i) pending := by
      funext j
      simp only [settle,Forest.order_eq,List.mem_cons,List.mem_append,List.not_mem_nil,or_false]
      simp only [or_comm]
    rw [counters] at children
    exact children fun j member => full j (by rw [Forest.order_eq]; exact List.mem_append_left _ member)

/-- A walk from the root visits its nodes in order; it finishes when every visit
succeeds and stops at the first that fails. -/
theorem walk_root {start : Cursor σ} (atRoot : start.node = root)
    (full : ∀ j ∈ f.order root, start.pending j = (f.children j).length) :
    ∃ n ≤ 2 * (f.below root).length, ∃ last, Steps f root visit n start last ∧
      match visitAll visit (f.order root) start.data with
      | some data => step f root visit last =
          .finished ⟨data,settle (f.order root) start.pending,root⟩
      | none => step f root visit last = .failed last := by
  obtain ⟨data,pending,node⟩ := start
  cases atRoot
  have walked : Walks f node visit _ _ _ _ := walks_below node (Nat.le_refl node) data pending full
  rw [visitAll_order]
  cases result : visitAll visit (f.below node) data with
  | none =>
    rw [result] at walked
    exact walked
  | some after =>
    rw [result] at walked
    obtain ⟨n,within,steps⟩ := walked
    refine ⟨n,within,_,steps,?_⟩
    have settled : settle (f.order node) pending node = 0 := by simp [settle,Forest.self_mem_order]
    simp only [step,settled,ne_eq,not_true_eq_false,if_false,if_true,Option.bind_some]
    cases visit node after <;> rfl

end Walk

section Trace

variable {σ : Type}

/-- The node that a step visits and leaves; a step that goes down visits none. -/
def Cursor.visits (c : Cursor σ) : Option Nat := if c.pending c.node = 0 then some c.node else none

/-- The node that a step goes down from. -/
def Cursor.descends (c : Cursor σ) : Option Nat := if c.pending c.node = 0 then none else some c.node

/-- Steps that all advance, with the states that they are taken from. -/
inductive Run (f : Forest) (root : Nat) (visit : Nat → σ → Option σ) :
    List (Cursor σ) → Cursor σ → Cursor σ → Prop
  | refl (c : Cursor σ) : Run f root visit [] c c
  | head {before : List (Cursor σ)} {a b c : Cursor σ} (first : step f root visit a = .advanced b)
      (rest : Run f root visit before b c) : Run f root visit (a :: before) a c

variable {f : Forest} {root : Nat} {visit : Nat → σ → Option σ}

theorem filterMap_head {α β : Type} (g : α → Option β) (a : α) (rest : List α) :
    (a :: rest).filterMap g = (g a).toList ++ rest.filterMap g := by
  cases found : g a <;> simp [found]

theorem Run.steps {before : List (Cursor σ)} {a b : Cursor σ} (run : Run f root visit before a b) :
    Steps f root visit before.length a b := by
  induction run with
  | refl c => exact .refl c
  | head once rest ih => exact .head once ih

/-- A run passes through every state of its trace. -/
theorem Run.split {p q : List (Cursor σ)} {a b c : Cursor σ}
    (run : Run f root visit (p ++ c :: q) a b) :
    Run f root visit p a c ∧ Run f root visit (c :: q) c b := by
  induction p generalizing a with
  | nil =>
    cases run with
    | head once rest => exact ⟨.refl _,.head once rest⟩
  | cons d p ih =>
    cases run with
    | head once rest =>
      obtain ⟨first,second⟩ := ih rest
      exact ⟨.head once first,second⟩

theorem step_advanced {a b : Cursor σ} (once : step f root visit a = .advanced b) :
    visitAll visit a.visits.toList a.data = some b.data ∧
      ∀ j, b.pending j + a.descends.toList.count j = a.pending j := by
  unfold step at once
  unfold Cursor.visits Cursor.descends
  split at once
  · rename_i more
    cases once
    rw [if_neg more,if_neg more]
    refine ⟨rfl,fun j => ?_⟩
    by_cases here : j = a.node
    · subst here
      simp [take]
      omega
    · simp [take,here,Ne.symm here]
  · rename_i done
    rw [not_not] at done
    rw [if_pos done,if_pos done]
    split at once
    · cases once
    · rename_i data visited
      split at once
      · cases once
      · cases once
        exact ⟨by simp [visitAll,visited],fun j => by simp⟩

/-- What the nodes left so far have done to the data. -/
theorem Run.data {before : List (Cursor σ)} {a b : Cursor σ} (run : Run f root visit before a b) :
    visitAll visit (before.filterMap Cursor.visits) a.data = some b.data := by
  induction run with
  | refl c => rfl
  | head once rest ih =>
    rw [filterMap_head,visitAll_append,(step_advanced once).1]
    exact ih

/-- A counter has gone down once for every time the walk went down from its node. -/
theorem Run.pending {before : List (Cursor σ)} {a b : Cursor σ} (run : Run f root visit before a b)
    (j : Nat) : b.pending j + (before.filterMap Cursor.descends).count j = a.pending j := by
  induction run with
  | refl c => simp
  | head once rest ih =>
    have first := (step_advanced once).2 j
    rw [filterMap_head,List.count_append]
    omega

/-- The visits, noting every node. -/
def logged (visit : Nat → σ → Option σ) (i : Nat) (d : σ × List Nat) : Option (σ × List Nat) :=
  (visit i d.1).map fun data => (data,d.2 ++ [i])

def Cursor.unlogged (c : Cursor (σ × List Nat)) : Cursor σ := ⟨c.data.1,c.pending,c.node⟩

theorem visitAll_logged (nodes : List Nat) (d : σ × List Nat) :
    visitAll (logged visit) nodes d = (visitAll visit nodes d.1).map fun data => (data,d.2 ++ nodes) := by
  induction nodes generalizing d with
  | nil => simp [visitAll]
  | cons i rest ih =>
    simp only [visitAll,logged]
    cases visit i d.1 with
    | none => rfl
    | some data => simp [ih]

/-- A step that notes the nodes is a step of the walk itself. -/
theorem step_unlogged (c : Cursor (σ × List Nat)) :
    match step f root (logged visit) c with
    | .advanced d => step f root visit c.unlogged = .advanced d.unlogged ∧
        d.data.2 = c.data.2 ++ c.unlogged.visits.toList
    | .finished d => step f root visit c.unlogged = .finished d.unlogged ∧
        d.data.2 = c.data.2 ++ c.unlogged.visits.toList
    | .failed d => step f root visit c.unlogged = .failed d.unlogged := by
  obtain ⟨⟨data,noted⟩,pending,node⟩ := c
  unfold step Cursor.visits Cursor.unlogged logged
  dsimp only
  by_cases more : pending node = 0
  · rw [if_neg (not_not.mpr more),if_neg (not_not.mpr more)]
    cases visit node data with
    | none => rfl
    | some next =>
      dsimp only [Option.map_some]
      by_cases top : node = root
      · rw [if_pos top,if_pos top,if_pos more]
        exact ⟨rfl,rfl⟩
      · rw [if_neg top,if_neg top,if_pos more]
        exact ⟨rfl,rfl⟩
  · rw [if_pos more,if_pos more]
    simp [more]

theorem Steps.unlogged {n : Nat} {a b : Cursor (σ × List Nat)}
    (steps : Steps f root (logged visit) n a b) :
    ∃ before, before.length = n ∧ Run f root visit before a.unlogged b.unlogged ∧
      b.data.2 = a.data.2 ++ before.filterMap Cursor.visits := by
  induction steps with
  | refl c => exact ⟨[],rfl,.refl _,by simp⟩
  | @head n a b c once rest ih =>
    obtain ⟨before,length,run,noted⟩ := ih
    have first := @step_unlogged _ f root visit a
    rw [once] at first
    refine ⟨a.unlogged :: before,by simp [length],.head first.1 run,?_⟩
    rw [noted,first.2,filterMap_head,List.append_assoc]

/-- A walk whose visits all succeed: it ends at the root, and the nodes that its steps
leave are the nodes of the tree in order. -/
theorem walk_trace {start : Cursor σ} (atRoot : start.node = root)
    (full : ∀ j ∈ f.order root, start.pending j = (f.children j).length) {data : σ}
    (ok : visitAll visit (f.order root) start.data = some data) :
    ∃ before last, before.length ≤ 2 * (f.below root).length ∧ Run f root visit before start last ∧
      step f root visit last = .finished ⟨data,settle (f.order root) start.pending,root⟩ ∧
      (before ++ [last]).filterMap Cursor.visits = f.order root := by
  obtain ⟨n,within,last,steps,ended⟩ := @walk_root _ f root (logged visit)
    ⟨(start.data,[]),start.pending,start.node⟩ atRoot full
  rw [visitAll_logged,ok] at ended
  obtain ⟨before,rfl,run,noted⟩ := steps.unlogged
  have final := @step_unlogged _ f root visit last
  rw [ended] at final
  refine ⟨before,last.unlogged,within,run,final.1,?_⟩
  rw [List.filterMap_append,filterMap_head,List.filterMap_nil,List.append_nil]
  simpa [noted,eq_comm] using final.2

end Trace
end StacklessWalk
