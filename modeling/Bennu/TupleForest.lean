import Bennu.TupleRelocation

/-! The tables of a tuple under construction as a forest: one exact tree for each element
moved so far, nothing shared and nothing left over. -/
namespace Bennu

open MarkTable

namespace TupleTables

/-- The tables as an arena whose root, past all nodes, has no children. -/
def arena (t : TupleTables) : TupleValue :=
  ⟨t.nodes,t.childIndexes,t.nodes.length,t.vectorPayloads,t.reservations,emptyReservation,0,0⟩

/-- The finished arena, whose root's edges follow all others. -/
def close (t : TupleTables) (root : TupleTableReservation) : TupleValue :=
  ⟨t.nodes,t.childIndexes ++ t.roots,t.nodes.length,t.vectorPayloads,t.reservations,root,
    t.childIndexes.length,t.roots.length⟩

/-- The second tables moved behind the first. -/
def join (a b : TupleTables) : TupleTables where
  nodes := a.nodes ++
    b.nodes.map (rebaseNode a.childIndexes.length a.vectorPayloads.length a.reservations.length)
  childIndexes := a.childIndexes ++ b.childIndexes.map (· + a.nodes.length)
  vectorPayloads := a.vectorPayloads ++ b.vectorPayloads
  reservations := a.reservations ++ b.reservations
  roots := a.roots ++ b.roots.map (· + a.nodes.length)

def empty : TupleTables := ⟨[],[],[],[],[]⟩

/-- One element on its own. -/
def block (v : Value) : TupleTables := empty.append v

/-- Trees under the given roots: children come before their parents, and every node, edge
slot, payload and reservation is used exactly once, no two of them with the same storage. -/
structure Forest (h : Host) (t : TupleTables) : Prop where
  sound : ∀ i < t.nodes.length, t.arena.NodeSound h emptyScalar i
  earlier : ∀ i < t.nodes.length, ∀ c ∈ t.arena.childrenAt i, c < i
  nodes : (t.roots ++ (List.range t.nodes.length).flatMap t.arena.childrenAt).Perm
    (List.range t.nodes.length)
  edges : ((List.range t.nodes.length).flatMap t.arena.edgesAt).Perm (List.range t.childIndexes.length)
  payloads : ((List.range t.nodes.length).flatMap t.arena.payloadsAt).Perm
    (List.range t.vectorPayloads.length)
  tables : ((List.range t.nodes.length).flatMap t.arena.tablesAt).Perm
    (List.range t.reservations.length)
  storage : ((List.range t.nodes.length).flatMap t.arena.buffersAt).Nodup

/-- The storage of the forest's records. -/
def storages (t : TupleTables) : List Nat := (List.range t.nodes.length).flatMap t.arena.buffersAt

/-- What the forest's trees mean. -/
def meanings (t : TupleTables) : List Datum := t.roots.map fun i => t.arena.meaningAt (i + 1) i

theorem rebaseNode_zero (node : ValueNode) : rebaseNode 0 0 0 node = node := by
  unfold rebaseNode
  split <;> rfl

theorem append_eq_join (t : TupleTables) (v : Value) : t.append v = t.join (block v) := by
  unfold block join append empty
  cases v.container with
  | scalar => simp [rebaseNode]
  | vector => simp [rebaseNode]
  | tuple =>
    have zero : rebaseNode 0 0 0 = id := funext rebaseNode_zero
    simp [rebaseNode,zero,Nat.add_comm]

section Parts

variable {h : Host} {a b t : TupleTables}

theorem node_arena {i : Nat} (inside : i < t.nodes.length) : t.arena.node i = t.nodes[i] := by
  simp [TupleValue.node,arena,inside]

/-- A node of an arena found in another one, both inside their tables. -/
theorem relocated_of_node {o : Offsets} {t u : TupleValue} {i : Nat} (top : i ≠ t.rootIndex)
    (inner : i + o.nodes ≠ u.rootIndex)
    (moved : u.node (i + o.nodes) = rebaseNode o.edges o.payloads o.tables (t.node i)) (s s' : ScalarValue) :
    Relocated o s s' t u i := by
  have own : t.containerAt i = (t.node i).container := by rw [TupleValue.containerAt,if_neg top]
  have kept : (u.node (i + o.nodes)).container = (t.node i).container := by
    rw [moved,rebaseNode]
    split <;> rfl
  have fields : t.containerAt i = .tuple → u.node (i + o.nodes) = { t.node i with
      firstChild := (t.node i).firstChild + o.edges
      tupleReservationIndex := (t.node i).tupleReservationIndex + o.tables } := by
    intro tuple
    rw [own] at tuple
    rw [moved]
    simp only [rebaseNode,tuple]
  refine ⟨?_,fun _ => ⟨moved,own.symm⟩,fun tuple => ?_,fun tuple => ?_,fun tuple => ?_,fun tuple => ?_⟩
  · rw [TupleValue.containerAt,if_neg inner,own,kept]
  · rw [TupleValue.childRange,TupleValue.childRange,if_neg inner,if_neg top,fields tuple]
  · rw [TupleValue.tableIndex,TupleValue.tableIndex,if_neg inner,if_neg top,fields tuple]
  · rw [TupleValue.scalarAt,TupleValue.scalarAt,if_neg inner,if_neg top,fields tuple]
    exact id
  · rw [fields tuple]
    exact fun unused _ => unused top

/-- A forest found again in an arena, its indexes moved. -/
structure Moved (h : Host) (o : Offsets) (scalar : ScalarValue) (t : TupleTables) (u : TupleValue) : Prop where
  sound : ∀ i < t.nodes.length, u.NodeSound h scalar (i + o.nodes)
  children : ∀ i < t.nodes.length,
    u.childrenAt (i + o.nodes) = (t.arena.childrenAt i).map (· + o.nodes)
  edges : ∀ i < t.nodes.length, u.edgesAt (i + o.nodes) = (t.arena.edgesAt i).map (· + o.edges)
  payloads : ∀ i < t.nodes.length,
    u.payloadsAt (i + o.nodes) = (t.arena.payloadsAt i).map (· + o.payloads)
  tables : ∀ i < t.nodes.length, u.tablesAt (i + o.nodes) = (t.arena.tablesAt i).map (· + o.tables)
  buffers : ∀ i < t.nodes.length, u.buffersAt (i + o.nodes) = t.arena.buffersAt i
  meaning : ∀ depth, ∀ i < t.nodes.length,
    u.meaningAt depth (i + o.nodes) = t.arena.meaningAt depth i

theorem Forest.owned (forest : t.Forest h) {i : Nat} (inside : i < t.nodes.length)
    (tuple : t.arena.containerAt i = .tuple) : t.arena.tableIndex i < t.reservations.length := by
  have listed : t.arena.tableIndex i ∈ (List.range t.nodes.length).flatMap t.arena.tablesAt :=
    List.mem_flatMap.mpr ⟨i,List.mem_range.mpr inside,TupleValue.mem_tablesAt.mpr ⟨tuple,rfl⟩⟩
  exact List.mem_range.mp (forest.tables.mem_iff.mp listed)

theorem Forest.within (forest : t.Forest h) {i : Nat} (inside : i < t.nodes.length)
    (tuple : t.arena.containerAt i = .tuple) :
    (t.arena.childRange i).1 + t.arena.childCountAt i ≤ t.arena.childIndexes.length := by
  have sound := forest.sound i inside
  unfold TupleValue.NodeSound at sound
  rw [tuple] at sound
  exact sound.2.2.1

theorem Forest.child_earlier (forest : t.Forest h) (i : Nat) (inside : i < t.nodes.length)
    (tuple : t.arena.containerAt i = .tuple) (k : Nat) (less : k < t.arena.childCountAt i) :
    t.arena.childOf i k < i :=
  forest.earlier i inside _ (TupleValue.mem_childrenAt.mpr ⟨Nat.le_of_lt inside,tuple,k,less,rfl⟩)

theorem Forest.moved (forest : t.Forest h) {o : Offsets} {scalar : ScalarValue} {u : TupleValue}
    (carries : Carries o t.reservations.length t.arena u)
    (relocated : ∀ i < t.nodes.length, Relocated o emptyScalar scalar t.arena u i)
    (room : t.nodes.length + o.nodes ≤ u.nodes.length) : Moved h o scalar t u where
  sound i inside := (relocated i inside).sound carries (forest.sound i inside) (forest.owned inside)
  children i inside := (relocated i inside).childrenAt carries (Nat.le_of_lt inside) (by omega)
    (forest.within inside)
  edges i inside := (relocated i inside).edgesAt
  payloads i inside := (relocated i inside).payloadsAt
  tables i inside := (relocated i inside).tablesAt
  buffers i inside := by
    rw [TupleValue.buffersAt,TupleValue.buffersAt,
      (relocated i inside).bufferAt carries (forest.sound i inside) (forest.owned inside)]
  meaning := Relocated.meaningAt carries relocated forest.sound forest.child_earlier

theorem join_left (a b : TupleTables) (forest : a.Forest h) :
    Moved h noOffsets emptyScalar a (a.join b).arena := by
  refine forest.moved ⟨fun k less => ?_,?_,fun k v found => ?_,fun k less r found => ?_⟩
    (fun i inside => relocated_of_node (Nat.ne_of_lt inside) ?_ ?_ _ _) ?_
  · change k < a.childIndexes.length at less
    change (a.childIndexes ++ b.childIndexes.map (· + a.nodes.length)).getD k 0 = a.childIndexes.getD k 0
    simp only [List.getD_eq_getElem?_getD,List.getElem?_append_left less]
  · simp [arena,join,noOffsets]
  · change a.vectorPayloads[k]? = some v at found
    obtain ⟨inside,-⟩ := List.getElem?_eq_some_iff.mp found
    simp only [arena,join,noOffsets,Nat.add_zero]
    rw [List.getElem?_append_left inside,found]
  · have inner : k ≠ (a.join b).arena.reservations.length := by
      simp only [arena,join,List.length_append]
      omega
    have own : k ≠ a.arena.reservations.length := Nat.ne_of_lt less
    rw [TupleValue.reservationAt,if_neg own] at found
    simp only [noOffsets,Nat.add_zero]
    rw [TupleValue.reservationAt,if_neg inner]
    exact (List.getElem?_append_left less).trans found
  · simp only [noOffsets,arena,join,List.length_append]
    omega
  · have both : i < (a.join b).nodes.length := by
      simp only [join,List.length_append]
      omega
    rw [noOffsets,Nat.add_zero,node_arena both,node_arena inside,rebaseNode_zero]
    exact List.getElem_append_left inside
  · simp only [noOffsets,arena,join,List.length_append]
    omega

theorem join_right (a b : TupleTables) (forest : b.Forest h) :
    Moved h ⟨a.nodes.length,a.childIndexes.length,a.vectorPayloads.length,a.reservations.length⟩
      emptyScalar b (a.join b).arena := by
  refine forest.moved ⟨fun k less => ?_,?_,fun k v found => ?_,fun k less r found => ?_⟩
    (fun i inside => relocated_of_node (Nat.ne_of_lt inside) ?_ ?_ _ _) ?_
  · change k < b.childIndexes.length at less
    change (a.childIndexes ++ b.childIndexes.map (· + a.nodes.length)).getD (k + a.childIndexes.length) 0 =
      b.childIndexes.getD k 0 + a.nodes.length
    rw [List.getD_eq_getElem?_getD,List.getElem?_append_right (by omega),Nat.add_sub_cancel,
      List.getElem?_map,List.getD_eq_getElem _ _ less,List.getElem?_eq_getElem less]
    rfl
  · simp only [arena,join,List.length_append,List.length_map]
    omega
  · change b.vectorPayloads[k]? = some v at found
    simp only [arena,join]
    rw [List.getElem?_append_right (by omega),Nat.add_sub_cancel,found]
  · have inner : k + a.reservations.length ≠ (a.join b).arena.reservations.length := by
      simp only [arena,join,List.length_append]
      omega
    have own : k ≠ b.arena.reservations.length := Nat.ne_of_lt less
    rw [TupleValue.reservationAt,if_neg own] at found
    rw [TupleValue.reservationAt,if_neg inner]
    simp only [arena,join]
    rw [List.getElem?_append_right (by omega),Nat.add_sub_cancel]
    exact found
  · simp only [arena,join,List.length_append,List.length_map]
    omega
  · have both : i + a.nodes.length < (a.join b).nodes.length := by
      simp only [join,List.length_append,List.length_map]
      omega
    rw [node_arena both,node_arena inside]
    simp only [join]
    rw [List.getElem_append_right (by omega),List.getElem_map]
    simp only [Nat.add_sub_cancel]
  · simp only [arena,join,List.length_append,List.length_map]
    omega

theorem join_storages (left : a.Forest h) (right : b.Forest h) :
    (a.join b).storages = a.storages ++ b.storages := by
  have first := join_left a b left
  have second := join_right a b right
  unfold storages
  have size : (a.join b).nodes.length = a.nodes.length + b.nodes.length := by simp [join]
  rw [size,range_split,List.flatMap_append,List.flatMap_map]
  exact congrArg₂ _ (List.flatMap_congr fun i member => first.buffers i (List.mem_range.mp member))
    (List.flatMap_congr fun i member => second.buffers i (List.mem_range.mp member))

theorem Forest.root_inside (forest : t.Forest h) {i : Nat} (root : i ∈ t.roots) : i < t.nodes.length :=
  List.mem_range.mp (forest.nodes.mem_iff.mp (List.mem_append_left _ root))

theorem join_meanings (left : a.Forest h) (right : b.Forest h) :
    (a.join b).meanings = a.meanings ++ b.meanings := by
  have first := join_left a b left
  have second := join_right a b right
  unfold meanings
  simp only [join,List.map_append,List.map_map]
  refine congrArg₂ _ (List.map_congr_left fun i root => ?_) (List.map_congr_left fun i root => ?_)
  · exact first.meaning (i + 1) i (left.root_inside root)
  · have inside := right.root_inside root
    refine (second.meaning (i + a.nodes.length + 1) i inside).trans ?_
    exact meaningAt_depth right.child_earlier i inside _ (by omega)

/-- Forests that share no storage, one behind the other. -/
theorem Forest.join (left : a.Forest h) (right : b.Forest h)
    (apart : ∀ q ∈ a.storages, q ∉ b.storages) : (a.join b).Forest h := by
  have first := join_left a b left
  have second := join_right a b right
  have size : (a.join b).nodes.length = a.nodes.length + b.nodes.length := by simp [TupleTables.join]
  have split : List.range (a.join b).nodes.length =
      List.range a.nodes.length ++ (List.range b.nodes.length).map (· + a.nodes.length) := by
    rw [size,range_split]
  have part : ∀ i < (a.join b).nodes.length, i < a.nodes.length ∨
      ∃ j < b.nodes.length, i = j + a.nodes.length := by
    intro i inside
    by_cases low : i < a.nodes.length
    · exact .inl low
    · exact .inr ⟨i - a.nodes.length,by omega,by omega⟩
  have zero : ∀ l : List Nat, l.map (· + 0) = l := fun l => by simp
  have here : ∀ g g' : Nat → List Nat, (∀ i < a.nodes.length, g (i + 0) = (g' i).map (· + 0)) →
      (List.range a.nodes.length).flatMap g = (List.range a.nodes.length).flatMap g' := by
    intro g g' same
    refine List.flatMap_congr fun i member => ?_
    exact (same i (List.mem_range.mp member)).trans (zero _)
  refine ⟨fun i inside => ?_,fun i inside c child => ?_,?_,?_,?_,?_,?_⟩
  · rcases part i inside with low | ⟨j,bound,rfl⟩
    · exact first.sound i low
    · exact second.sound j bound
  · rcases part i inside with low | ⟨j,bound,rfl⟩
    · have same := first.children i low
      rw [noOffsets,Nat.add_zero,zero] at same
      exact left.earlier i low c (same ▸ child)
    · rw [second.children j bound] at child
      obtain ⟨d,own,rfl⟩ := List.mem_map.mp child
      have less := right.earlier j bound d own
      dsimp only
      omega
  · have order : (a.roots ++ b.roots.map (· + a.nodes.length) ++
        ((List.range a.nodes.length).flatMap a.arena.childrenAt ++
          ((List.range b.nodes.length).flatMap b.arena.childrenAt).map (· + a.nodes.length))).Perm
        ((a.roots ++ (List.range a.nodes.length).flatMap a.arena.childrenAt) ++
          (b.roots ++ (List.range b.nodes.length).flatMap b.arena.childrenAt).map (· + a.nodes.length)) := by
      rw [List.map_append]
      simp only [List.append_assoc]
      exact (List.perm_append_comm_assoc _ _ _).append_left _
    rw [split,List.flatMap_append,here _ _ first.children,flatMap_shift second.children,← split,size]
    exact order.trans (perm_behind left.nodes right.nodes)
  · rw [split,List.flatMap_append,here _ _ first.edges,flatMap_shift second.edges]
    have edges := perm_behind left.edges right.edges
    simpa [TupleTables.join] using edges
  · rw [split,List.flatMap_append,here _ _ first.payloads,flatMap_shift second.payloads]
    have payloads := perm_behind left.payloads right.payloads
    simpa [TupleTables.join] using payloads
  · rw [split,List.flatMap_append,here _ _ first.tables,flatMap_shift second.tables]
    have tables := perm_behind left.tables right.tables
    simpa [TupleTables.join] using tables
  · have both : (a.join b).storages.Nodup := by
      rw [join_storages left right]
      exact List.nodup_append.mpr ⟨left.storage,right.storage,
        fun p inA q inB same => apart p inA (same ▸ inB)⟩
    exact both

/-- Every node is reached when each is some later node's child. -/
theorem reached_of_nodes {u : TupleValue} (root : u.rootIndex = u.nodes.length)
    (earlier : ∀ i ≤ u.nodes.length, ∀ c ∈ u.childrenAt i, c < i)
    (nodes : ((List.range (u.nodes.length + 1)).flatMap u.childrenAt).Perm (List.range u.nodes.length))
    (i : Nat) (bound : i ≤ u.nodes.length) :
    Relation.ReflTransGen (fun p c => c ∈ u.childrenAt p) u.rootIndex i := by
  obtain ⟨gap,isGap⟩ : ∃ gap, gap = u.nodes.length - i := ⟨_,rfl⟩
  induction gap using Nat.strongRecOn generalizing i with
  | _ gap ih =>
    rcases Nat.eq_or_lt_of_le bound with top | below
    · rw [top,root]
    · obtain ⟨p,inside,child⟩ := List.mem_flatMap.mp (nodes.mem_iff.mpr (List.mem_range.mpr below))
      have within := Nat.le_of_lt_succ (List.mem_range.mp inside)
      have less := earlier p within i child
      exact (ih (u.nodes.length - p) (by omega) p within rfl).tail child

theorem close_moved (forest : t.Forest h) (root : TupleTableReservation) (scalar : ScalarValue) :
    Moved h noOffsets scalar t (t.close root) := by
  refine forest.moved ⟨fun k less => ?_,?_,fun k v found => found,fun k less r found => ?_⟩
    (fun i inside => relocated_of_node (Nat.ne_of_lt inside) (Nat.ne_of_lt inside)
      (rebaseNode_zero _).symm _ _) (Nat.le_refl _)
  · change (t.childIndexes ++ t.roots).getD k 0 = t.childIndexes.getD k 0
    simp only [List.getD_eq_getElem?_getD,List.getElem?_append_left (show k < t.childIndexes.length from less)]
  · change t.childIndexes.length ≤ (t.childIndexes ++ t.roots).length
    simp
  · have own : k ≠ t.arena.reservations.length := Nat.ne_of_lt less
    have inner : k ≠ (t.close root).reservations.length := Nat.ne_of_lt less
    rw [TupleValue.reservationAt,if_neg own] at found
    rw [noOffsets,Nat.add_zero,TupleValue.reservationAt,if_neg inner]
    exact found

theorem close_root (t : TupleTables) (root : TupleTableReservation) :
    (t.close root).containerAt t.nodes.length = .tuple ∧
    (t.close root).childRange t.nodes.length = (t.childIndexes.length,t.roots.length) ∧
    (t.close root).childrenAt t.nodes.length = t.roots ∧
    (t.close root).tableIndex t.nodes.length = t.reservations.length ∧
    (t.close root).reservationAt t.reservations.length = some root := by
  have container : (t.close root).containerAt t.nodes.length = .tuple := by
    simp [TupleValue.containerAt,close]
  have range : (t.close root).childRange t.nodes.length = (t.childIndexes.length,t.roots.length) := by
    simp [TupleValue.childRange,close]
  refine ⟨container,range,?_,by simp [TupleValue.tableIndex,close],
    by simp [TupleValue.reservationAt,close]⟩
  have inside : t.nodes.length ≤ (t.close root).nodes.length := Nat.le_refl _
  rw [TupleValue.childrenAt,if_pos ⟨inside,container⟩,TupleValue.childCountAt,range]
  refine List.ext_getElem (by simp) fun k left right => ?_
  rw [List.getElem_map,List.getElem_range,TupleValue.childOf,range]
  change (t.childIndexes ++ t.roots).getD (t.childIndexes.length + k) 0 = _
  rw [List.getD_eq_getElem?_getD,List.getElem?_append_right (Nat.le_add_right _ _),
    Nat.add_sub_cancel_left,List.getElem?_eq_getElem right]
  rfl

/-- The finished tuple owns the forest's storage and its own table. -/
theorem close_storages (forest : t.Forest h) (root : TupleTableReservation) :
    (List.range (t.nodes.length + 1)).flatMap (t.close root).buffersAt =
      t.storages ++ root.payload.toList := by
  have moved := close_moved forest root emptyScalar
  obtain ⟨container,-,-,slot,table⟩ := close_root t root
  have own : (t.close root).buffersAt t.nodes.length = root.payload.toList := by
    rw [TupleValue.buffersAt,TupleValue.bufferAt,container]
    dsimp only
    rw [slot,table]
    rfl
  have before : (List.range t.nodes.length).flatMap (t.close root).buffersAt = t.storages :=
    List.flatMap_congr fun i member => moved.buffers i (List.mem_range.mp member)
  rw [List.range_succ,List.flatMap_append,List.flatMap_singleton,own,before]

/-- Closing a forest over a fresh table makes an exact arena. -/
theorem close_exact (forest : t.Forest h) {root : TupleTableReservation}
    (sound : root.Sound h t.roots.length) (fresh : ∀ q, root.payload = some q → q ∉ t.storages) :
    (t.close root).Exact h emptyScalar := by
  have moved := close_moved forest root emptyScalar
  obtain ⟨container,range,children,slot,table⟩ := close_root t root
  have size : (t.close root).nodes.length = t.nodes.length := rfl
  have zero : ∀ l : List Nat, l.map (· + 0) = l := fun l => by simp
  have here : ∀ g g' : Nat → List Nat, (∀ i < t.nodes.length, g (i + 0) = (g' i).map (· + 0)) →
      (List.range (t.nodes.length + 1)).flatMap g =
        (List.range t.nodes.length).flatMap g' ++ g t.nodes.length := by
    intro g g' same
    rw [List.range_succ,List.flatMap_append,List.flatMap_singleton]
    refine congrArg (· ++ _) (List.flatMap_congr fun i member => ?_)
    exact (same i (List.mem_range.mp member)).trans (zero _)
  have part : ∀ i ≤ (t.close root).nodes.length, i < t.nodes.length ∨ i = t.nodes.length :=
    fun i bound => Nat.lt_or_eq_of_le bound
  have earlier : ∀ i ≤ (t.close root).nodes.length, ∀ c ∈ (t.close root).childrenAt i, c < i := by
    intro i bound c child
    rcases part i bound with low | rfl
    · have same := moved.children i low
      rw [noOffsets,Nat.add_zero,zero] at same
      exact forest.earlier i low c (same ▸ child)
    · rw [children] at child
      exact forest.root_inside child
  have nodes : ((List.range ((t.close root).nodes.length + 1)).flatMap (t.close root).childrenAt).Perm
      (List.range (t.close root).nodes.length) := by
    rw [size,here _ _ moved.children,children]
    exact List.perm_append_comm.trans forest.nodes
  refine ⟨rfl,fun i bound => ?_,earlier,reached_of_nodes rfl earlier nodes,nodes,?_,?_,?_,?_⟩
  · rcases part i bound with low | rfl
    · exact moved.sound i low
    · unfold TupleValue.NodeSound
      rw [container]
      refine ⟨by simp [TupleValue.scalarAt,close],fun inner => absurd rfl inner,?_,root,?_,?_⟩
      · rw [TupleValue.childCountAt,range]
        simp [close]
      · rw [slot]
        exact table
      · rw [TupleValue.childCountAt,range]
        exact sound
  · have own : (t.close root).edgesAt t.nodes.length =
        (List.range t.roots.length).map (· + t.childIndexes.length) := by
      rw [TupleValue.edgesAt,if_pos container,TupleValue.childCountAt,range]
      exact List.map_congr_left fun k _ => Nat.add_comm _ _
    rw [size,here _ _ moved.edges,own]
    have whole := perm_behind forest.edges (List.Perm.refl (List.range t.roots.length))
    simpa [close] using whole
  · have own : (t.close root).payloadsAt t.nodes.length = [] := by
      rw [TupleValue.payloadsAt,if_neg (by simp [container])]
    rw [size,here _ _ moved.payloads,own,List.append_nil]
    exact forest.payloads
  · have own : (t.close root).tablesAt t.nodes.length = [t.reservations.length] := by
      rw [TupleValue.tablesAt,if_pos container,slot]
    rw [size,here _ _ moved.tables,own,List.range_succ]
    exact forest.tables.append_right _
  · rw [size,close_storages forest root]
    refine List.nodup_append.mpr ⟨forest.storage,?_,fun p inside q own same => ?_⟩
    · cases root.payload <;> simp
    · exact fresh q (Option.mem_toList.mp own) (same ▸ inside)

/-- The finished tuple's elements are the trees of the forest. -/
theorem close_meaning (forest : t.Forest h) (root : TupleTableReservation) :
    (t.close root).meaningAt (t.nodes.length + 1) t.nodes.length = .tuple t.meanings := by
  have moved := close_moved forest root emptyScalar
  obtain ⟨container,range,children,-,-⟩ := close_root t root
  have inside : t.nodes.length ≤ (t.close root).nodes.length := Nat.le_refl _
  rw [TupleValue.childrenAt,if_pos ⟨inside,container⟩] at children
  rw [TupleValue.meaningAt,container]
  dsimp only
  unfold meanings
  have listed : (List.range ((t.close root).childCountAt t.nodes.length)).map
      (fun k => (t.close root).meaningAt t.nodes.length ((t.close root).childOf t.nodes.length k)) =
      t.roots.map ((t.close root).meaningAt t.nodes.length) := by
    rw [← children,List.map_map]
    rfl
  rw [listed]
  refine congrArg Datum.tuple (List.map_congr_left fun i member => ?_)
  have below := forest.root_inside member
  refine (moved.meaning t.nodes.length i below).trans ?_
  exact meaningAt_depth forest.child_earlier i below _ below

end Parts

section Blocks

variable {h : Host} {v : Value}

/-- What an element brings: one tree, its meaning and its storage. -/
structure BlockOf (h : Host) (v : Value) (t : TupleTables) : Prop where
  forest : t.Forest h
  meanings : t.meanings = [v.meaning]
  storages : t.storages.Perm v.storages
  roots : t.roots.length = 1

theorem block_scalar (exact : v.Exact h) (container : v.container = .scalar) :
    BlockOf h v (block v) := by
  have same : block v = ⟨[⟨.scalar,v.scalar,0,0,0,0⟩],[],[],[],[0]⟩ := by
    simp [block,append,empty,container]
  have kind : (block v).arena.containerAt 0 = .scalar := by rw [same]; rfl
  have sound : (block v).arena.NodeSound h emptyScalar 0 := by
    unfold TupleValue.NodeSound
    rw [kind,same]
    exact ⟨rfl,rfl,rfl,rfl,exact.scalar container⟩
  have range : List.range (block v).nodes.length = [0] := by rw [same]; rfl
  have children : (block v).arena.childrenAt 0 = [] := by simp [TupleValue.childrenAt,kind]
  have edges : (block v).arena.edgesAt 0 = [] := by simp [TupleValue.edgesAt,kind]
  have payloads : (block v).arena.payloadsAt 0 = [] := by simp [TupleValue.payloadsAt,kind]
  have tables : (block v).arena.tablesAt 0 = [] := by simp [TupleValue.tablesAt,kind]
  have buffers : (block v).arena.buffersAt 0 = [] := by
    simp [TupleValue.buffersAt,TupleValue.bufferAt,kind]
  have only : ∀ i < (block v).nodes.length, i = 0 := fun i inside => by
    have member := List.mem_range.mpr inside
    rw [range] at member
    exact List.mem_singleton.mp member
  refine ⟨⟨fun i inside => only i inside ▸ sound,fun i inside c child => ?_,?_,?_,?_,?_,?_⟩,?_,?_,?_⟩
  · rw [only i inside,children] at child
    cases child
  all_goals try rw [range,List.flatMap_singleton]
  · rw [children,same]
    exact .refl _
  · rw [edges,same]
    exact .refl _
  · rw [payloads,same]
    exact .refl _
  · rw [tables,same]
    exact .refl _
  · rw [buffers]
    exact .nil
  · have root : (block v).roots = [0] := by rw [same]
    have scalar : ((block v).arena.node 0).scalar = v.scalar := by rw [same]; rfl
    rw [meanings,root,List.map_singleton,TupleValue.meaningAt,kind]
    dsimp only
    rw [scalar,Value.meaning,container]
  · rw [storages,range,List.flatMap_singleton,buffers,Value.storages,container]
  · rw [same]
    rfl

theorem block_vector (exact : v.Exact h) (container : v.container = .vector) :
    BlockOf h v (block v) := by
  have same : block v = ⟨[⟨.vector,v.scalar,0,0,0,0⟩],[],[v.vector],[],[0]⟩ := by
    simp [block,append,empty,container]
  have kind : (block v).arena.containerAt 0 = .vector := by rw [same]; rfl
  have sound : (block v).arena.NodeSound h emptyScalar 0 := by
    unfold TupleValue.NodeSound
    rw [kind,same]
    exact ⟨exact.scalarEmpty (by simp [container]),rfl,rfl,rfl,v.vector,rfl,exact.vector container⟩
  have range : List.range (block v).nodes.length = [0] := by rw [same]; rfl
  have children : (block v).arena.childrenAt 0 = [] := by simp [TupleValue.childrenAt,kind]
  have edges : (block v).arena.edgesAt 0 = [] := by simp [TupleValue.edgesAt,kind]
  have payloads : (block v).arena.payloadsAt 0 = [0] := by
    rw [TupleValue.payloadsAt,if_pos kind,same]
    rfl
  have tables : (block v).arena.tablesAt 0 = [] := by simp [TupleValue.tablesAt,kind]
  have buffers : (block v).arena.buffersAt 0 = v.vector.storage.toList := by
    rw [TupleValue.buffersAt,TupleValue.bufferAt,kind,same]
    rfl
  have only : ∀ i < (block v).nodes.length, i = 0 := fun i inside => by
    have member := List.mem_range.mpr inside
    rw [range] at member
    exact List.mem_singleton.mp member
  refine ⟨⟨fun i inside => only i inside ▸ sound,fun i inside c child => ?_,?_,?_,?_,?_,?_⟩,?_,?_,?_⟩
  · rw [only i inside,children] at child
    cases child
  all_goals try rw [range,List.flatMap_singleton]
  · rw [children,same]
    exact .refl _
  · rw [edges,same]
    exact .refl _
  · rw [payloads,same]
    exact .refl _
  · rw [tables,same]
    exact .refl _
  · rw [buffers]
    cases v.vector.storage <;> simp
  · have root : (block v).roots = [0] := by rw [same]
    have payload : (block v).arena.payloadOf 0 = v.vector := by rw [same]; rfl
    rw [meanings,root,List.map_singleton,TupleValue.meaningAt,kind]
    dsimp only
    rw [payload,Value.meaning,container]
  · rw [storages,range,List.flatMap_singleton,buffers,Value.storages,container]
  · rw [same]
    rfl

/-- A tuple's nodes followed by one for its root. -/
theorem block_relocated (exact : v.Exact h) (container : v.container = .tuple) :
    Carries noOffsets (v.tuple.reservations.length + 1) v.tuple (block v).arena ∧
      (block v).nodes.length = v.tuple.nodes.length + 1 ∧
      ∀ i ≤ v.tuple.nodes.length, Relocated noOffsets v.scalar emptyScalar v.tuple (block v).arena i := by
  have zero : rebaseNode 0 0 0 = id := funext rebaseNode_zero
  have same : block v = ⟨v.tuple.nodes ++ [⟨.tuple,v.scalar,v.tuple.firstChild,v.tuple.childCount,
      v.tuple.reservations.length,0⟩],v.tuple.childIndexes,v.tuple.vectorPayloads,
      v.tuple.reservations ++ [v.tuple.rootReservation],[v.tuple.nodes.length]⟩ := by
    simp [block,append,empty,container,zero]
  have arena := exact.tuple container
  have size : (block v).nodes.length = v.tuple.nodes.length + 1 := by rw [same]; simp
  refine ⟨⟨fun k less => by rw [same]; rfl,by rw [same]; exact Nat.le_refl _,
    fun k w found => by rw [same]; exact found,fun k less r found => ?_⟩,size,fun i bound => ?_⟩
  · have inner : k + noOffsets.tables ≠ (block v).arena.reservations.length := by
      rw [same]
      simp only [TupleTables.arena,noOffsets,List.length_append,List.length_singleton]
      omega
    rw [TupleValue.reservationAt,if_neg inner,same]
    simp only [TupleTables.arena,noOffsets,Nat.add_zero]
    unfold TupleValue.reservationAt at found
    split at found
    · rename_i top
      rw [top,List.getElem?_append_right (Nat.le_refl _),Nat.sub_self,← found]
      rfl
    · rw [List.getElem?_append_left (by omega),found]
  · rcases Nat.lt_or_eq_of_le bound with low | top
    · refine relocated_of_node (by rw [arena.root]; exact Nat.ne_of_lt low) ?_ ?_ _ _
      · change i ≠ (block v).nodes.length
        omega
      · rw [noOffsets,rebaseNode_zero,Nat.add_zero,node_arena (by omega)]
        simp only [same]
        rw [List.getElem_append_left low,TupleValue.node,List.getD_eq_getElem _ _ low]
    · subst top
      have root : v.tuple.containerAt v.tuple.nodes.length = .tuple := by
        simp [TupleValue.containerAt,arena.root]
      have inner : v.tuple.nodes.length ≠ (block v).arena.rootIndex := by
        change v.tuple.nodes.length ≠ (block v).nodes.length
        omega
      have node : (block v).arena.node v.tuple.nodes.length = ⟨.tuple,v.scalar,v.tuple.firstChild,
          v.tuple.childCount,v.tuple.reservations.length,0⟩ := by
        rw [node_arena (by omega)]
        simp [same]
      have moved : (block v).arena.containerAt v.tuple.nodes.length = .tuple := by
        rw [TupleValue.containerAt,if_neg inner,node]
      refine ⟨moved.trans root.symm,fun leaf => absurd root leaf,fun _ => ?_,fun _ => ?_,fun _ => ?_,
        fun _ _ _ => ?_⟩
      · change (block v).arena.childRange v.tuple.nodes.length = _
        rw [TupleValue.childRange,TupleValue.childRange,if_neg inner,if_pos arena.root.symm,node]
        rfl
      · change (block v).arena.tableIndex v.tuple.nodes.length = _
        rw [TupleValue.tableIndex,TupleValue.tableIndex,if_neg inner,if_pos arena.root.symm,node]
        rfl
      · change _ → (block v).arena.scalarAt emptyScalar v.tuple.nodes.length = _
        rw [TupleValue.scalarAt,TupleValue.scalarAt,if_neg inner,if_pos arena.root.symm,node]
        exact id
      · change ((block v).arena.node v.tuple.nodes.length).vectorPayloadIndex = 0
        rw [node]

theorem block_tuple (exact : v.Exact h) (container : v.container = .tuple) :
    BlockOf h v (block v) := by
  obtain ⟨carries,size,relocated⟩ := block_relocated exact container
  have arena := exact.tuple container
  have roots : (block v).roots = [v.tuple.nodes.length] := by simp [block,append,empty,container]
  have edgeCount : (block v).childIndexes.length = v.tuple.childIndexes.length := by
    simp [block,append,empty,container]
  have payloadCount : (block v).vectorPayloads.length = v.tuple.vectorPayloads.length := by
    simp [block,append,empty,container]
  have tableCount : (block v).reservations.length = v.tuple.reservations.length + 1 := by
    simp [block,append,empty,container]
  have zero : ∀ l : List Nat, l.map (· + 0) = l := fun l => by simp
  have owned : ∀ i ≤ v.tuple.nodes.length, v.tuple.containerAt i = .tuple →
      v.tuple.tableIndex i < v.tuple.reservations.length + 1 := by
    intro i bound tuple
    have sound := arena.sound i bound
    unfold TupleValue.NodeSound at sound
    rw [tuple] at sound
    obtain ⟨-,-,-,r,found,-⟩ := sound
    exact reservationAt_some found
  have within : ∀ i ≤ v.tuple.nodes.length, v.tuple.containerAt i = .tuple →
      (v.tuple.childRange i).1 + v.tuple.childCountAt i ≤ v.tuple.childIndexes.length := by
    intro i bound tuple
    have sound := arena.sound i bound
    unfold TupleValue.NodeSound at sound
    rw [tuple] at sound
    exact sound.2.2.1
  have children : ∀ i ≤ v.tuple.nodes.length, (block v).arena.childrenAt i = v.tuple.childrenAt i :=
    fun i bound => ((relocated i bound).childrenAt carries bound
      (show i ≤ (block v).nodes.length by omega) (within i bound)).trans (zero _)
  have edges : ∀ i ≤ v.tuple.nodes.length, (block v).arena.edgesAt i = v.tuple.edgesAt i :=
    fun i bound => ((relocated i bound).edgesAt).trans (zero _)
  have payloads : ∀ i ≤ v.tuple.nodes.length, (block v).arena.payloadsAt i = v.tuple.payloadsAt i :=
    fun i bound => ((relocated i bound).payloadsAt).trans (zero _)
  have tables : ∀ i ≤ v.tuple.nodes.length, (block v).arena.tablesAt i = v.tuple.tablesAt i :=
    fun i bound => ((relocated i bound).tablesAt).trans (zero _)
  have every : ∀ (g g' : Nat → List Nat), (∀ i ≤ v.tuple.nodes.length, g i = g' i) →
      (List.range (block v).nodes.length).flatMap g =
        (List.range (v.tuple.nodes.length + 1)).flatMap g' := by
    intro g g' same
    rw [size]
    exact List.flatMap_congr fun i member => same i (Nat.le_of_lt_succ (List.mem_range.mp member))
  have buffers : ∀ i ≤ v.tuple.nodes.length, (block v).arena.buffersAt i = v.tuple.buffersAt i := by
    intro i bound
    have same : (block v).arena.bufferAt i = v.tuple.bufferAt i :=
      (relocated i bound).bufferAt carries (arena.sound i bound) (owned i bound)
    rw [TupleValue.buffersAt,TupleValue.buffersAt,same]
  refine ⟨⟨fun i inside => ?_,fun i inside c child => ?_,?_,?_,?_,?_,?_⟩,?_,?_,by rw [roots]; rfl⟩
  · have bound : i ≤ v.tuple.nodes.length := by omega
    exact (relocated i bound).sound carries (arena.sound i bound) (owned i bound)
  · have bound : i ≤ v.tuple.nodes.length := by omega
    exact arena.earlier i bound c (children i bound ▸ child)
  · rw [every _ _ children,roots,size,List.range_succ (n := v.tuple.nodes.length)]
    exact List.perm_append_comm.trans ((List.range_succ (n := v.tuple.nodes.length) ▸ arena.nodes).append_right _)
  · rw [every _ _ edges,edgeCount]
    exact arena.edges
  · rw [every _ _ payloads,payloadCount]
    exact arena.payloads
  · rw [every _ _ tables,tableCount]
    exact arena.tables
  · rw [every _ _ buffers]
    exact arena.storage
  · have below : ∀ i < v.tuple.nodes.length + 1,
        Relocated noOffsets v.scalar emptyScalar v.tuple (block v).arena i :=
      fun i inside => relocated i (Nat.le_of_lt_succ inside)
    have moved := Relocated.meaningAt carries below
      (fun i inside => arena.sound i (Nat.le_of_lt_succ inside))
      (fun i inside tuple k less => arena.earlier i (Nat.le_of_lt_succ inside) _
        (TupleValue.mem_childrenAt.mpr ⟨Nat.le_of_lt_succ inside,tuple,k,less,rfl⟩))
      (v.tuple.nodes.length + 1) v.tuple.nodes.length (Nat.lt_succ_self _)
    rw [meanings,roots,List.map_singleton,Value.meaning,container,arena.root]
    exact congrArg (fun d => [d]) moved
  · rw [storages,every _ _ buffers]
    rw [Value.storages_tuple container]
    exact arena.storages_perm.symm

theorem block_of (exact : v.Exact h) : BlockOf h v (block v) := by
  cases container : v.container with
  | scalar => exact block_scalar exact container
  | vector => exact block_vector exact container
  | tuple => exact block_tuple exact container

end Blocks

end TupleTables
end Bennu
