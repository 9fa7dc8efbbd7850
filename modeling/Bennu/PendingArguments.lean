import Bennu.Parser

/-! The pending arguments of a context: a chain of links through one shared list, to which
only the innermost context appends. -/
namespace Bennu

variable {pending pending' : List RewritePendingArgument} {ids nodes : List Nat}
  {context : RewriteContext} {low high : Nat}

/-- The entries at `ids` hold `nodes` and link each to the next. -/
def Chain (pending : List RewritePendingArgument) : List Nat → List Nat → Prop
  | [],[] => True
  | id :: ids,node :: nodes => pending[id]? = some ⟨node,ids.head?⟩ ∧ Chain pending ids nodes
  | _,_ => False

/-- The arguments of a context are `nodes`, in entries from `low` on and below `high`. -/
def Linked (pending : List RewritePendingArgument) (low high : Nat)
    (context : RewriteContext) (nodes : List Nat) : Prop :=
  ∃ ids, Chain pending ids nodes ∧ ids.Pairwise (· < ·) ∧ (∀ id ∈ ids, low ≤ id ∧ id < high) ∧
    context.firstPendingArgument = ids.head? ∧ context.lastPendingArgument = ids.getLast? ∧
    context.argumentCount = nodes.length

theorem Chain.congr (same : ∀ id ∈ ids, pending'[id]? = pending[id]?)
    (chain : Chain pending ids nodes) : Chain pending' ids nodes := by
  induction ids generalizing nodes with
  | nil => cases nodes with
    | nil => trivial
    | cons => simp [Chain] at chain
  | cons id ids ih => cases nodes with
    | nil => simp [Chain] at chain
    | cons node nodes =>
      simp only [Chain] at chain ⊢
      exact ⟨(same id List.mem_cons_self).trans chain.1,
        ih (fun other member => same other (List.mem_cons_of_mem _ member)) chain.2⟩

theorem Chain.length (chain : Chain pending ids nodes) : ids.length = nodes.length := by
  induction ids generalizing nodes with
  | nil => cases nodes with
    | nil => rfl
    | cons => simp [Chain] at chain
  | cons id ids ih => cases nodes with
    | nil => simp [Chain] at chain
    | cons node nodes => simp only [Chain] at chain; simp [ih chain.2]

theorem Chain.pendingNodes (chain : Chain pending ids nodes) :
    ∀ fuel, ids.length ≤ fuel → Bennu.pendingNodes pending fuel ids.head? = nodes := by
  induction ids generalizing nodes with
  | nil =>
    intro fuel _
    cases nodes with
    | nil => cases fuel <;> rfl
    | cons => simp [Chain] at chain
  | cons id ids ih =>
    intro fuel enough
    cases nodes with
    | nil => simp [Chain] at chain
    | cons node nodes =>
      simp only [Chain] at chain
      obtain ⟨fuel,rfl⟩ := Nat.exists_eq_succ_of_ne_zero
        (Nat.ne_of_gt (Nat.lt_of_lt_of_le (Nat.succ_pos _) enough))
      simp only [List.head?_cons,Bennu.pendingNodes,chain.1]
      rw [ih chain.2 fuel (by simpa using enough)]

theorem increasing_length (ids : List Nat) (high : Nat) :
    ∀ low, ids.Pairwise (· < ·) → (∀ id ∈ ids, low ≤ id ∧ id < high) →
      ids.length ≤ high - low := by
  induction ids with
  | nil => intro low _ _; simp
  | cons id ids ih =>
    intro low increasing bounds
    rw [List.pairwise_cons] at increasing
    have first := bounds id List.mem_cons_self
    have later := ih (id + 1) increasing.2 fun other member =>
      ⟨increasing.1 other member,(bounds other (List.mem_cons_of_mem _ member)).2⟩
    rw [List.length_cons]
    omega

theorem Linked.contextNodes (linked : Linked pending low high context nodes)
    (bound : high ≤ pending.length) : Bennu.contextNodes pending context = nodes := by
  obtain ⟨ids,chain,increasing,bounds,first,_⟩ := linked
  have short := increasing_length ids high low increasing bounds
  rw [Bennu.contextNodes,first]
  exact chain.pendingNodes _ (by omega)

theorem Linked.argumentCount (linked : Linked pending low high context nodes) :
    context.argumentCount = nodes.length :=
  linked.choose_spec.2.2.2.2.2

theorem Linked.first (linked : Linked pending low high context nodes) :
    (context.firstPendingArgument.bind (pending[·]?)).map (·.node) = nodes.head? := by
  obtain ⟨ids,chain,_,_,first,_⟩ := linked
  rw [first]
  cases ids with
  | nil => cases nodes with
    | nil => rfl
    | cons => simp [Chain] at chain
  | cons id ids => cases nodes with
    | nil => simp [Chain] at chain
    | cons node nodes => simp only [Chain] at chain; simp [chain.1]

theorem Linked.congr (same : ∀ id < high, pending'[id]? = pending[id]?)
    (linked : Linked pending low high context nodes) : Linked pending' low high context nodes := by
  obtain ⟨ids,chain,increasing,bounds,rest⟩ := linked
  exact ⟨ids,chain.congr fun id member => same id (bounds id member).2,increasing,bounds,rest⟩

theorem Linked.fresh (pending : List RewritePendingArgument) (low high : Nat)
    (first : context.firstPendingArgument = none) (last : context.lastPendingArgument = none)
    (count : context.argumentCount = 0) : Linked pending low high context [] :=
  ⟨[],trivial,.nil,by simp,first,last,count⟩

/-- The entries after a node has been appended: only the last link of the context changes. -/
theorem Chain.append (chain : Chain pending ids nodes) (increasing : ids.Pairwise (· < ·))
    (bound : ∀ id ∈ ids, id < pending.length) (last : ids.getLast? = some final) :
    Chain (setNext (pending ++ [⟨node,none⟩]) final pending.length)
      (ids ++ [pending.length]) (nodes ++ [node]) := by
  induction ids generalizing nodes with
  | nil => simp at last
  | cons id ids ih => cases nodes with
    | nil => simp [Chain] at chain
    | cons first nodes =>
      simp only [Chain] at chain
      rw [List.pairwise_cons] at increasing
      have idBound := bound id List.mem_cons_self
      cases ids with
      | nil =>
        cases nodes with
        | cons => simp [Chain] at chain
        | nil =>
          cases (show id = final by simpa using last)
          simp only [List.cons_append,List.nil_append,Chain,and_true,List.head?_cons,
            List.head?_nil,setNext]
          constructor
          · rw [List.getElem?_modify_eq,List.getElem?_append_left idBound,chain.1]
            rfl
          · rw [List.getElem?_modify_ne _ _ (Nat.ne_of_lt idBound)]
            simp
      | cons next ids =>
        have more := ih chain.2 increasing.2
          (fun other member => bound other (List.mem_cons_of_mem _ member))
          (by simpa using last)
        simp only [List.cons_append,Chain] at more ⊢
        refine ⟨?_,more⟩
        have finalMember : final ∈ next :: ids :=
          List.mem_of_getLast? (by simpa using last)
        have less := increasing.1 final finalMember
        rw [setNext,List.getElem?_modify_ne _ _ (Nat.ne_of_gt less),
          List.getElem?_append_left idBound,chain.1]
        rfl

/-- What appending a pending argument does to the entries and to the context. -/
theorem Linked.append (linked : Linked pending low high context nodes) (order : low ≤ high)
    (bound : high ≤ pending.length) (node : Nat) :
    Linked (appendPendingArgument pending context node).1 low
        (appendPendingArgument pending context node).1.length
        (appendPendingArgument pending context node).2 (nodes ++ [node]) ∧
      (appendPendingArgument pending context node).1.length = pending.length + 1 ∧
      (∀ id < low, (appendPendingArgument pending context node).1[id]? = pending[id]?) ∧
      ∃ first, (appendPendingArgument pending context node).2 =
        { context with
          firstPendingArgument := first, lastPendingArgument := some pending.length,
          argumentCount := context.argumentCount + 1 } := by
  obtain ⟨ids,chain,increasing,bounds,first,last,count⟩ := linked
  have below : ∀ id ∈ ids, id < pending.length := fun id member =>
    Nat.lt_of_lt_of_le (bounds id member).2 bound
  have newIncreasing : (ids ++ [pending.length]).Pairwise (· < ·) := by
    rw [List.pairwise_append]
    exact ⟨increasing,by simp,by simpa using below⟩
  have newBounds : ∀ id ∈ ids ++ [pending.length], low ≤ id ∧ id < pending.length + 1 := by
    intro id member
    rcases List.mem_append.mp member with member | member
    · exact ⟨(bounds id member).1,Nat.lt_succ_of_lt (below id member)⟩
    · cases List.mem_singleton.mp member
      exact ⟨Nat.le_trans order bound,Nat.lt_succ_self _⟩
  cases ids with
  | nil =>
    have noNodes : nodes = [] := List.length_eq_zero_iff.mp chain.length.symm
    subst noNodes
    simp only [List.head?_nil] at first
    simp only [appendPendingArgument,first]
    refine ⟨⟨[pending.length],?_,by simp,by simpa using newBounds,rfl,rfl,?_⟩,by simp,?_,_,rfl⟩
    · simp [Chain]
    · simpa using count
    · intro id less
      rw [List.getElem?_append_left (Nat.lt_of_lt_of_le less (Nat.le_trans order bound))]
  | cons id ids =>
    obtain ⟨final,finalIs⟩ : ∃ final, (id :: ids).getLast? = some final :=
      ⟨_,List.getLast?_eq_some_getLast (by simp)⟩
    have finalMember : final ∈ id :: ids := List.mem_of_getLast? finalIs
    rw [finalIs] at last
    simp only [List.head?_cons] at first
    simp only [appendPendingArgument,first,last]
    have length : (setNext (pending ++ [⟨node,none⟩]) final pending.length).length =
        pending.length + 1 := by simp [setNext]
    refine ⟨⟨(id :: ids) ++ [pending.length],chain.append increasing below finalIs,
      newIncreasing,?_,rfl,?_,?_⟩,length,?_,_,rfl⟩
    · rw [length]; exact newBounds
    · rw [List.getLast?_concat]
    · simp [count]
    · intro other less
      have notFinal : final ≠ other :=
        Nat.ne_of_gt (Nat.lt_of_lt_of_le less (bounds final finalMember).1)
      rw [setNext,List.getElem?_modify_ne _ _ notFinal,
        List.getElem?_append_left (Nat.lt_of_lt_of_le less (Nat.le_trans order bound))]

end Bennu
