import Bennu.ArenaExactness

/-! What an accepted tuple arena is: every node is checked, children precede their
one parent, and no two nodes share a payload, a table or a buffer. -/
namespace Bennu

open MarkTable

theorem getD_set {α : Type} (l : List α) (k j : Nat) (x d : α) :
    (l.set k x).getD j d = if k = j ∧ j < l.length then x else l.getD j d := by
  simp only [List.getD_eq_getElem?_getD,List.getElem?_set]
  by_cases same : k = j
  · by_cases inside : j < l.length
    · simp [same,inside]
    · simp [same,inside]
  · simp [same]

/-- The checks that concern one node alone. -/
structure NodeChecked (h : Host) (t : TupleValue) (i : Nat) : Prop where
  bound : i ≤ t.nodes.length
  earlier : t.containerAt i = .tuple → ∀ k < t.childCountAt i, t.childOf i k < i
  table : t.containerAt i = .tuple → ∃ r, t.reservationAt (t.tableIndex i) = some r ∧
    reservationValid h r (t.childCountAt i) = true
  payload : t.containerAt i = .vector → ∃ v, t.vectorPayloads[(t.node i).vectorPayloadIndex]? = some v ∧
    vectorValidation h v = none
  siblings : t.containerAt i = .tuple → ∀ k < t.childCountAt i, ∀ l < t.childCountAt i,
    t.childOf i k = t.childOf i l → k = l

/-- Two nodes that share no child, table, payload or buffer. -/
structure NodesApart (t : TupleValue) (i j : Nat) : Prop where
  children : t.containerAt i = .tuple → t.containerAt j = .tuple → ∀ k < t.childCountAt i,
    ∀ l < t.childCountAt j, t.childOf i k ≠ t.childOf j l
  tables : t.containerAt i = .tuple → t.containerAt j = .tuple → t.tableIndex i ≠ t.tableIndex j
  payloads : t.containerAt i = .vector → t.containerAt j = .vector →
    (t.node i).vectorPayloadIndex ≠ (t.node j).vectorPayloadIndex
  buffers : ∀ p, t.bufferAt i = some p → t.bufferAt j ≠ some p

/-- Whether a node is some checked node's child. -/
def ChildOfSeen (t : TupleValue) (seen : Nat → Prop) (c : Nat) : Prop :=
  ∃ i, seen i ∧ t.containerAt i = .tuple ∧ ∃ k < t.childCountAt i, t.childOf i k = c

/-- The validation's claims, as a property of the nodes it has seen. -/
structure SeenChecked (h : Host) (t : TupleValue) (seen : Nat → Prop) : Prop where
  checked : ∀ i, seen i → NodeChecked h t i
  apart : ∀ i j, seen i → seen j → i ≠ j → NodesApart t i j
  reached : ∀ i, seen i → i = t.rootIndex ∨ ChildOfSeen t seen i

/-- An accepted arena: all its nodes are checked, apart from each other and reached from
the root, and every payload and table belongs to one of them. -/
structure TupleValue.WellFormed (h : Host) (t : TupleValue) : Prop where
  root : t.rootIndex = t.nodes.length
  seen : SeenChecked h t (· ≤ t.nodes.length)
  payloads : ∀ p < t.vectorPayloads.length, ∃ i ≤ t.nodes.length, t.containerAt i = .vector ∧
    (t.node i).vectorPayloadIndex = p
  tables : ∀ q ≤ t.reservations.length, ∃ i ≤ t.nodes.length, t.containerAt i = .tuple ∧
    t.tableIndex i = q

namespace TupleValue

variable {h : Host} {t : TupleValue} {scalar : ScalarValue} {i j : Nat}

theorem mem_childrenAt {c : Nat} : c ∈ t.childrenAt i ↔
    i ≤ t.nodes.length ∧ t.containerAt i = .tuple ∧ ∃ k < t.childCountAt i, t.childOf i k = c := by
  unfold childrenAt
  split
  · rename_i inside
    simp [inside]
  · rename_i outside
    simp only [List.not_mem_nil,false_iff]
    exact fun ⟨bound,tuple,_⟩ => outside ⟨bound,tuple⟩

theorem mem_payloadsAt {p : Nat} : p ∈ t.payloadsAt i ↔
    t.containerAt i = .vector ∧ (t.node i).vectorPayloadIndex = p := by
  unfold payloadsAt
  by_cases vector : t.containerAt i = .vector
  · simp [vector,eq_comm]
  · simp [vector]

theorem mem_tablesAt {q : Nat} : q ∈ t.tablesAt i ↔ t.containerAt i = .tuple ∧ t.tableIndex i = q := by
  unfold tablesAt
  by_cases tuple : t.containerAt i = .tuple
  · simp [tuple,eq_comm]
  · simp [tuple]

theorem Exact.node_checked (exact : t.Exact h scalar) (bound : i ≤ t.nodes.length) : NodeChecked h t i := by
  have sound := exact.sound i bound
  unfold NodeSound at sound
  have child : t.containerAt i = .tuple → ∀ k < t.childCountAt i, t.childOf i k ∈ t.childrenAt i :=
    fun tuple k less => mem_childrenAt.mpr ⟨bound,tuple,k,less,rfl⟩
  refine ⟨bound,fun tuple k less => exact.earlier i bound _ (child tuple k less),fun tuple => ?_,
    fun vector => ?_,fun tuple k inside l within same => ?_⟩
  · rw [tuple] at sound
    obtain ⟨-,-,-,r,found,sound⟩ := sound
    exact ⟨r,found,(reservationValid_iff h r _).mpr sound⟩
  · rw [vector] at sound
    obtain ⟨-,-,-,-,v,found,sound⟩ := sound
    exact ⟨v,found,(vectorValidation_none h v).mpr sound⟩
  · have distinct := (List.nodup_flatMap.mp (exact.nodes.nodup_iff.mpr List.nodup_range)).1 i
      (List.mem_range.mpr (Nat.lt_succ_of_le bound))
    rw [childrenAt,if_pos ⟨bound,tuple⟩] at distinct
    exact List.inj_on_of_nodup_map distinct (List.mem_range.mpr inside) (List.mem_range.mpr within) same

theorem Exact.nodes_apart (exact : t.Exact h scalar) (boundI : i ≤ t.nodes.length)
    (boundJ : j ≤ t.nodes.length) (different : i ≠ j) : NodesApart t i j := by
  have left := List.mem_range.mpr (Nat.lt_succ_of_le boundI)
  have right := List.mem_range.mpr (Nat.lt_succ_of_le boundJ)
  refine ⟨fun tupleI tupleJ k inside l within same => ?_,fun tupleI tupleJ same => ?_,
    fun vectorI vectorJ same => ?_,fun p own same => ?_⟩
  · exact not_mem_of_nodup_flatMap (exact.nodes.nodup_iff.mpr List.nodup_range) left right different
      (mem_childrenAt.mpr ⟨boundI,tupleI,k,inside,rfl⟩)
      (mem_childrenAt.mpr ⟨boundJ,tupleJ,l,within,same.symm⟩)
  · exact not_mem_of_nodup_flatMap (exact.tables.nodup_iff.mpr List.nodup_range) left right different
      (mem_tablesAt.mpr ⟨tupleI,rfl⟩) (mem_tablesAt.mpr ⟨tupleJ,same.symm⟩)
  · exact not_mem_of_nodup_flatMap (exact.payloads.nodup_iff.mpr List.nodup_range) left right different
      (mem_payloadsAt.mpr ⟨vectorI,rfl⟩) (mem_payloadsAt.mpr ⟨vectorJ,same.symm⟩)
  · exact not_mem_of_nodup_flatMap exact.storage left right different
      (Option.mem_toList.mpr own) (Option.mem_toList.mpr same)

/-- An exact arena, in the terms of the walks that rely on it. -/
theorem Exact.wellFormed (exact : t.Exact h scalar) : t.WellFormed h := by
  refine ⟨exact.root,⟨fun i bound => exact.node_checked bound,
    fun i j left right different => exact.nodes_apart left right different,fun i bound => ?_⟩,
    fun p inside => ?_,fun q inside => ?_⟩
  · rcases Relation.ReflTransGen.cases_tail (exact.reached i bound) with same | ⟨p,-,child⟩
    · exact .inl same
    · obtain ⟨within,tuple,rest⟩ := mem_childrenAt.mp child
      exact .inr ⟨p,within,tuple,rest⟩
  · obtain ⟨i,within,slot⟩ :=
      List.mem_flatMap.mp (exact.payloads.mem_iff.mpr (List.mem_range.mpr inside))
    exact ⟨i,Nat.le_of_lt_succ (List.mem_range.mp within),mem_payloadsAt.mp slot⟩
  · obtain ⟨i,within,slot⟩ :=
      List.mem_flatMap.mp (exact.tables.mem_iff.mpr (List.mem_range.mpr (Nat.lt_succ_of_le inside)))
    exact ⟨i,Nat.le_of_lt_succ (List.mem_range.mp within),mem_tablesAt.mp slot⟩

end TupleValue

theorem Valid.wellFormed {h : Host} {v : Value} (valid : Valid h v) (container : v.container = .tuple) :
    v.tuple.WellFormed h :=
  (((invalidity_none_iff h v).mp valid).tuple container).wellFormed

end Bennu
