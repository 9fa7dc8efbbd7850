import Bennu.ArenaVisits

/-! A node of one arena found again in another, with its indexes moved: the two own the
same, point to the same and mean the same. -/
namespace Bennu

/-- How far the indexes of a moved node are moved. -/
structure Offsets where
  nodes : Nat
  edges : Nat
  payloads : Nat
  tables : Nat

def noOffsets : Offsets := ⟨0,0,0,0⟩

/-- The tables of one arena lie in those of another; of its reservations, the first `tables`. -/
structure Carries (o : Offsets) (tables : Nat) (t u : TupleValue) : Prop where
  edge : ∀ k < t.childIndexes.length, u.childAt (k + o.edges) = t.childAt k + o.nodes
  edges : t.childIndexes.length + o.edges ≤ u.childIndexes.length
  payload : ∀ k v, t.vectorPayloads[k]? = some v → u.vectorPayloads[k + o.payloads]? = some v
  table : ∀ k < tables, ∀ r, t.reservationAt k = some r → u.reservationAt (k + o.tables) = some r

/-- One node moved: its container and fields, each index by its own offset. -/
structure Relocated (o : Offsets) (scalar scalar' : ScalarValue) (t u : TupleValue) (i : Nat) : Prop where
  container : u.containerAt (i + o.nodes) = t.containerAt i
  leaf : t.containerAt i ≠ .tuple → u.node (i + o.nodes) = rebaseNode o.edges o.payloads o.tables (t.node i) ∧
    (t.node i).container = t.containerAt i
  range : t.containerAt i = .tuple →
    u.childRange (i + o.nodes) = ((t.childRange i).1 + o.edges,(t.childRange i).2)
  slot : t.containerAt i = .tuple → u.tableIndex (i + o.nodes) = t.tableIndex i + o.tables
  scalar : t.containerAt i = .tuple → t.scalarAt scalar i = emptyScalar →
    u.scalarAt scalar' (i + o.nodes) = emptyScalar
  unused : t.containerAt i = .tuple → (i ≠ t.rootIndex → (t.node i).vectorPayloadIndex = 0) →
    i + o.nodes ≠ u.rootIndex → (u.node (i + o.nodes)).vectorPayloadIndex = 0

section Relocation

variable {o : Offsets} {tables : Nat} {scalar scalar' : ScalarValue} {t u : TupleValue} {i : Nat}
  {h : Host}

theorem Relocated.edgesAt (relocated : Relocated o scalar scalar' t u i) :
    u.edgesAt (i + o.nodes) = (t.edgesAt i).map (· + o.edges) := by
  unfold TupleValue.edgesAt TupleValue.childCountAt
  rw [relocated.container]
  by_cases tuple : t.containerAt i = .tuple
  · rw [if_pos tuple,if_pos tuple,relocated.range tuple,List.map_map]
    exact List.map_congr_left fun k _ => by simp only [Function.comp_apply]; omega
  · rw [if_neg tuple,if_neg tuple]
    rfl

theorem Relocated.payloadsAt (relocated : Relocated o scalar scalar' t u i) :
    u.payloadsAt (i + o.nodes) = (t.payloadsAt i).map (· + o.payloads) := by
  unfold TupleValue.payloadsAt
  rw [relocated.container]
  by_cases vector : t.containerAt i = .vector
  · obtain ⟨moved,own⟩ := relocated.leaf (by simp [vector])
    rw [if_pos vector,if_pos vector,moved,rebaseNode,own,vector]
    rfl
  · rw [if_neg vector,if_neg vector]
    rfl

theorem Relocated.tablesAt (relocated : Relocated o scalar scalar' t u i) :
    u.tablesAt (i + o.nodes) = (t.tablesAt i).map (· + o.tables) := by
  unfold TupleValue.tablesAt
  rw [relocated.container]
  by_cases tuple : t.containerAt i = .tuple
  · rw [if_pos tuple,if_pos tuple,relocated.slot tuple]
    rfl
  · rw [if_neg tuple,if_neg tuple]
    rfl

theorem Relocated.childOf (carries : Carries o tables t u) (relocated : Relocated o scalar scalar' t u i)
    (tuple : t.containerAt i = .tuple)
    (within : (t.childRange i).1 + t.childCountAt i ≤ t.childIndexes.length) {k : Nat}
    (less : k < t.childCountAt i) : u.childOf (i + o.nodes) k = t.childOf i k + o.nodes := by
  unfold TupleValue.childOf
  rw [relocated.range tuple]
  dsimp only
  rw [Nat.add_right_comm]
  exact carries.edge _ (by omega)

theorem Relocated.childrenAt (carries : Carries o tables t u) (relocated : Relocated o scalar scalar' t u i)
    (bound : i ≤ t.nodes.length) (inside : i + o.nodes ≤ u.nodes.length)
    (within : t.containerAt i = .tuple →
      (t.childRange i).1 + t.childCountAt i ≤ t.childIndexes.length) :
    u.childrenAt (i + o.nodes) = (t.childrenAt i).map (· + o.nodes) := by
  unfold TupleValue.childrenAt
  by_cases tuple : t.containerAt i = .tuple
  · have count : u.childCountAt (i + o.nodes) = t.childCountAt i := by
      rw [TupleValue.childCountAt,relocated.range tuple]
      rfl
    rw [if_pos ⟨inside,relocated.container.trans tuple⟩,if_pos ⟨bound,tuple⟩,List.map_map,count]
    exact List.map_congr_left fun k member =>
      relocated.childOf carries tuple (within tuple) (List.mem_range.mp member)
  · rw [if_neg fun both => tuple (relocated.container ▸ both.2),if_neg fun both => tuple both.2]
    rfl

theorem Relocated.bufferAt (carries : Carries o tables t u) (relocated : Relocated o scalar scalar' t u i)
    (sound : t.NodeSound h scalar i) (owned : t.containerAt i = .tuple → t.tableIndex i < tables) :
    u.bufferAt (i + o.nodes) = t.bufferAt i := by
  unfold TupleValue.NodeSound at sound
  unfold TupleValue.bufferAt
  rw [relocated.container]
  cases container : t.containerAt i with
  | scalar => rfl
  | vector =>
    rw [container] at sound
    obtain ⟨-,-,-,-,v,found,-⟩ := sound
    obtain ⟨moved,own⟩ := relocated.leaf (by simp [container])
    have index : (u.node (i + o.nodes)).vectorPayloadIndex = (t.node i).vectorPayloadIndex + o.payloads := by
      rw [moved,rebaseNode,own,container]
    dsimp only
    rw [index,carries.payload _ _ found,found]
  | tuple =>
    rw [container] at sound
    obtain ⟨-,-,-,r,found,-⟩ := sound
    dsimp only
    rw [relocated.slot container,carries.table _ (owned container) _ found,found]

/-- A moved node is as sound as it was. -/
theorem Relocated.sound (carries : Carries o tables t u) (relocated : Relocated o scalar scalar' t u i)
    (sound : t.NodeSound h scalar i) (owned : t.containerAt i = .tuple → t.tableIndex i < tables) :
    u.NodeSound h scalar' (i + o.nodes) := by
  unfold TupleValue.NodeSound at sound ⊢
  rw [relocated.container]
  cases container : t.containerAt i with
  | scalar =>
    rw [container] at sound
    obtain ⟨moved,own⟩ := relocated.leaf (by simp [container])
    dsimp only
    rw [moved,rebaseNode,own,container]
    exact sound
  | vector =>
    rw [container] at sound
    obtain ⟨empty,first,count,table,v,found,valid⟩ := sound
    obtain ⟨moved,own⟩ := relocated.leaf (by simp [container])
    dsimp only
    rw [moved,rebaseNode,own,container]
    exact ⟨empty,first,count,table,v,carries.payload _ _ found,valid⟩
  | tuple =>
    rw [container] at sound
    obtain ⟨empty,unused,within,r,found,valid⟩ := sound
    have range := relocated.range container
    have count : u.childCountAt (i + o.nodes) = t.childCountAt i := by
      rw [TupleValue.childCountAt,range]
      rfl
    have edges := carries.edges
    refine ⟨relocated.scalar container empty,relocated.unused container unused,?_,r,?_,?_⟩
    · rw [count,range]
      dsimp only
      omega
    · rw [relocated.slot container]
      exact carries.table _ (owned container) _ found
    · rw [count]
      exact valid

/-- A moved node means what it meant, when all nodes below it are moved with it. -/
theorem Relocated.meaningAt (carries : Carries o tables t u) {limit : Nat}
    (relocated : ∀ i < limit, Relocated o scalar scalar' t u i)
    (sound : ∀ i < limit, t.NodeSound h scalar i)
    (earlier : ∀ i < limit, t.containerAt i = .tuple → ∀ k < t.childCountAt i, t.childOf i k < i)
    (depth : Nat) : ∀ i < limit, u.meaningAt depth (i + o.nodes) = t.meaningAt depth i := by
  induction depth with
  | zero => exact fun _ _ => rfl
  | succ depth ih =>
    intro i inside
    have moved := relocated i inside
    have node := sound i inside
    unfold TupleValue.NodeSound at node
    unfold TupleValue.meaningAt
    rw [moved.container]
    cases container : t.containerAt i with
    | scalar =>
      obtain ⟨same,own⟩ := moved.leaf (by simp [container])
      dsimp only
      rw [same,rebaseNode,own,container]
    | vector =>
      rw [container] at node
      obtain ⟨-,-,-,-,v,found,-⟩ := node
      obtain ⟨same,own⟩ := moved.leaf (by simp [container])
      have index : (u.node (i + o.nodes)).vectorPayloadIndex =
          (t.node i).vectorPayloadIndex + o.payloads := by
        rw [same,rebaseNode,own,container]
      dsimp only
      unfold TupleValue.payloadOf
      rw [index,List.getD_eq_getElem?_getD,List.getD_eq_getElem?_getD,carries.payload _ _ found,found]
    | tuple =>
      rw [container] at node
      obtain ⟨-,-,within,-⟩ := node
      have count : u.childCountAt (i + o.nodes) = t.childCountAt i := by
        rw [TupleValue.childCountAt,moved.range container]
        rfl
      dsimp only
      rw [count]
      refine congrArg Datum.tuple (List.map_congr_left fun k member => ?_)
      have less := List.mem_range.mp member
      rw [moved.childOf carries container within less]
      exact ih _ (Nat.lt_trans (earlier i inside container k less) inside)

/-- Any depth that covers a node gives the same meaning. -/
theorem meaningAt_depth {limit : Nat}
    (earlier : ∀ i < limit, t.containerAt i = .tuple → ∀ k < t.childCountAt i, t.childOf i k < i)
    (i : Nat) (inside : i < limit) (depth : Nat) (covered : i < depth) :
    t.meaningAt depth i = t.meaningAt (i + 1) i := by
  induction i using Nat.strongRecOn generalizing depth with
  | _ i ih =>
    obtain ⟨depth,rfl⟩ := Nat.exists_eq_succ_of_ne_zero (Nat.ne_of_gt (Nat.zero_lt_of_lt covered))
    unfold TupleValue.meaningAt
    cases container : t.containerAt i with
    | scalar => rfl
    | vector => rfl
    | tuple =>
      refine congrArg Datum.tuple (List.map_congr_left fun k member => ?_)
      have less := earlier i inside container k (List.mem_range.mp member)
      rw [ih _ less (by omega) depth (by omega),ih _ less (by omega) i less]

end Relocation
end Bennu
