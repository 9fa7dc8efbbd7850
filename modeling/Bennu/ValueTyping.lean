import Bennu.Renumbering
import Bennu.TupleComposition
import Bennu.TypeComposition
import Bennu.ValueFormatting

/-! `value_type`: the type of a value, or of a node of its arena, from the nodes that the
node leads to, renumbered in their order. -/
namespace Bennu

inductive ValueTypeFailure where
  | invalid (value : InvalidValue)
  | invalidView (nodeIndex : Nat)
  | resource (reason : HostResourceErrorReason)
  deriving DecidableEq, Repr

/-- `allocate_host_array` without an injected failure: only the container limit counts. -/
def HostRequests.allocateLimited (r : HostRequests) : List Nat → HostRequests × HostResourceErrorReason
  | [] => (r,.none)
  | capacity :: rest =>
    if capacity = 0 then r.allocateLimited rest
    else if r.failure.maxContainerElements.any fun maximum => decide (capacity > maximum) then
      (r,.sizeOverflow)
    else match r.host.allocateHostArrays 1 with
      | (next,.none) => HostRequests.allocateLimited ⟨r.failure,next⟩ rest
      | (next,reason) => (⟨r.failure,next⟩,reason)

section nodes

variable (t : TupleValue)

/-- The nodes that the stacked ones lead to; `none` when the rounds run out. -/
def reachNodes (capacity : Nat) :
    Nat → List Bool → List Nat → Option (Except HostResourceErrorReason (List Bool))
  | rounds,reachable,stack => match stack with
    | [] => some (.ok reachable)
    | index :: rest => match rounds with
      | 0 => none
      | rounds + 1 =>
        if reachable.getD index false then reachNodes capacity rounds reachable rest
        else
          let marked := reachable.set index true
          if t.containerAt index ≠ .tuple then reachNodes capacity rounds marked rest
          else match pushStackAll capacity ((List.range (t.childRange index).2).map fun offset =>
              t.childAt ((t.childRange index).1 + offset)) rest with
            | .error reason => some (.error reason)
            | .ok stack => reachNodes capacity rounds marked stack

/-- The type node of a value node whose edges start at this slot. -/
def typeNodeOf (index firstChild : Nat) : TypeNode :=
  match t.containerAt index with
  | .scalar => ⟨some .scalar,some (t.node index).scalar.type,0,0⟩
  | .vector => ⟨some .vector,some (t.payloadOf index).elementType,0,0⟩
  | .tuple => ⟨some .tuple,some .boolean,firstChild,(t.childRange index).2⟩

/-- The type arena under construction, with the new numbers of the nodes. -/
structure TypeEmission where
  indexMap : List Nat
  nodes : List TypeNode
  childIndexes : List Nat
  deriving DecidableEq, Repr

/-- One node that is reachable, behind the ones before it. -/
def emitTypeNode (nodeCapacity edgeCapacity index : Nat) (e : TypeEmission) :
    Except HostResourceErrorReason TypeEmission := do
  let childIndexes ← (if t.containerAt index = .tuple then
    pushAll edgeCapacity ((List.range (t.childRange index).2).map fun offset =>
      e.indexMap.getD (t.childAt ((t.childRange index).1 + offset)) 0) e.childIndexes
    else .ok e.childIndexes)
  let nodes ← pushAll nodeCapacity [typeNodeOf t index e.childIndexes.length] e.nodes
  return ⟨e.indexMap.set index e.nodes.length,nodes,childIndexes⟩

/-- The reachable nodes among these, in their order. -/
def emitTypeNodes (nodeCapacity edgeCapacity : Nat) (reachable : List Bool) :
    List Nat → TypeEmission → Except HostResourceErrorReason TypeEmission
  | [],e => .ok e
  | index :: rest,e =>
    if reachable.getD index false then
      (emitTypeNode t nodeCapacity edgeCapacity index e).bind
        (emitTypeNodes nodeCapacity edgeCapacity reachable rest)
    else emitTypeNodes nodeCapacity edgeCapacity reachable rest e

/-- The type of the node, in arrays already allocated. -/
def arenaType (requestedRoot : Nat) : Option (Except HostResourceErrorReason TypeArena) :=
  let logicalCount := t.nodes.length + 1
  match pushStack logicalCount requestedRoot [] with
  | .error reason => some (.error reason)
  | .ok stack => match reachNodes t logicalCount (logicalCount + 1) (List.replicate logicalCount false) stack with
    | none => none
    | some (.error reason) => some (.error reason)
    | some (.ok reachable) =>
      match emitTypeNodes t logicalCount t.childIndexes.length reachable
          (List.range (requestedRoot + 1)) ⟨List.replicate logicalCount 0,[],[]⟩ with
      | .error reason => some (.error reason)
      | .ok e => some (.ok ⟨e.nodes,e.childIndexes,e.indexMap.getD requestedRoot 0,none⟩)

end nodes

/-- `type_for_value_node`. -/
def typeForValueNode (v : Value) (requestedRoot : Nat) (r : HostRequests) :
    HostRequests × Option (Except ValueTypeFailure TypeArena) :=
  match beginHostAllocation r.failure with
  | (begun,.none) =>
    let next : HostRequests := ⟨begun,r.host⟩
    match v.container with
    | .tuple =>
      let logicalCount := v.tuple.nodes.length + 1
      match next.allocateLimited [logicalCount,logicalCount,logicalCount,logicalCount,
          v.tuple.childIndexes.length] with
      | (last,.none) => (last,(arenaType v.tuple requestedRoot).map
          fun answer => answer.mapError ValueTypeFailure.resource)
      | (last,reason) => (last,some (.error (.resource reason)))
    | container =>
      if begun.maxContainerElements.any fun maximum => decide (maximum < 1) then
        (next,some (.error (.resource .sizeOverflow)))
      else (next,some (.ok (if container = .scalar then makeLeafType .scalar v.scalar.type
        else makeLeafType .vector v.vector.elementType)))
  | (begun,reason) => (⟨begun,r.host⟩,some (.error (.resource reason)))

def ValidationFailure.typing : ValidationFailure → ValueTypeFailure
  | .invalid value => .invalid value
  | .resource reason => .resource reason

def valueType (v : Value) (r : HostRequests) : HostRequests × Option (Except ValueTypeFailure TypeArena) :=
  match validateValue r.failure r.host v with
  | (failure,host,some fault) => (⟨failure,host⟩,some (.error fault.typing))
  | (failure,host,none) =>
    typeForValueNode v (if v.container = .tuple then v.tuple.rootIndex else 0) ⟨failure,host⟩

/-- `value_type` of a borrowed view: a node of a tuple, the root excepted. -/
def borrowedValueType (owner : Value) (nodeIndex : Nat) (r : HostRequests) :
    HostRequests × Option (Except ValueTypeFailure TypeArena) :=
  match validateValue r.failure r.host owner with
  | (failure,host,some fault) => (⟨failure,host⟩,some (.error fault.typing))
  | (failure,host,none) =>
    if owner.container ≠ .tuple ∨ nodeIndex ≥ owner.tuple.nodes.length then
      (⟨failure,host⟩,some (.error (.invalidView nodeIndex)))
    else typeForValueNode owner nodeIndex ⟨failure,host⟩

section meaning

mutual

/-- The type of a datum: the same tree with types for elements. -/
def Datum.typeTree : Datum → TypeTree
  | .scalar value => .scalar value.type
  | .booleans _ => .vector .boolean
  | .integers _ => .vector .integer
  | .doubles _ => .vector .doublePrecision
  | .tuple elements => .tuple (Datum.typeTrees elements)

def Datum.typeTrees : List Datum → List TypeTree
  | [] => []
  | datum :: rest => datum.typeTree :: Datum.typeTrees rest

end

theorem Datum.typeTrees_eq (elements : List Datum) : typeTrees elements = elements.map typeTree := by
  induction elements with
  | nil => rfl
  | cons datum rest ih => rw [typeTrees,ih,List.map_cons]

theorem VectorValue.meaning_typeTree (v : VectorValue) : v.meaning.typeTree = .vector v.elementType := by
  unfold VectorValue.meaning
  cases v.elementType <;> rfl

end meaning

section reach

open MarkTable TreeTable Renumbering

variable {h : Host} {t : TupleValue} {scalar : ScalarValue} {requested i : Nat} {stack done all : List Nat}

/-- Nodes of a walk of an arena share no child. -/
theorem arena_distinct (exact : t.Exact h scalar) (inside : requested ≤ t.nodes.length)
    (walk : Walk t.childrenAt requested (i :: stack) done) : ((i :: done).flatMap t.childrenAt).Nodup := by
  have bound : ∀ j ∈ i :: done, j ∈ List.range (t.nodes.length + 1) := by
    intro j member
    have within : j ≤ requested := walk.le_root (by
      rcases List.mem_cons.mp member with rfl | isDone
      · exact List.mem_append_left _ (List.mem_cons_self ..)
      · exact List.mem_append_right _ isDone)
    exact List.mem_range.mpr (by omega)
  exact nodup_flatMap_of_subset
    (List.nodup_cons.mpr ⟨walk.fresh,(List.nodup_append.mp walk.nodup).2.1⟩) bound
    (exact.nodes.nodup_iff.mpr List.nodup_range)

/-- The walk of the reachable nodes ends within its rounds and its stack. -/
theorem reachNodes_ends (exact : t.Exact h scalar) (inside : requested ≤ t.nodes.length) {rounds : Nat}
    (walk : Walk t.childrenAt requested stack done) (enough : t.nodes.length + 2 ≤ rounds + done.length) :
    ∃ all, Walk t.childrenAt requested [] all ∧
      reachNodes t (t.nodes.length + 1) rounds (flags (t.nodes.length + 1) done) stack =
        some (.ok (flags (t.nodes.length + 1) all)) := by
  induction rounds generalizing stack done with
  | zero =>
    have few := length_le_of_nodup (List.nodup_append.mp walk.nodup).2.1 fun j member =>
      Nat.lt_succ_of_le (walk.le_root (List.mem_append_right _ member))
    omega
  | succ rounds ih =>
    cases stack with
    | nil => exact ⟨done,walk,rfl⟩
    | cons i rest =>
      have within := walk.le_root (List.mem_append_left _ (List.mem_cons_self ..))
      have bound : i ≤ t.nodes.length := by omega
      have unvisited : (flags (t.nodes.length + 1) done).getD i false = false :=
        getD_flags.trans (by simp [walk.fresh])
      have earlier := exact.earlier i bound
      have distinct := arena_distinct exact inside walk
      have next : t.nodes.length + 2 ≤ rounds + (i :: done).length := by
        rw [List.length_cons]
        omega
      rw [reachNodes,unvisited]
      simp only [Bool.false_eq_true,if_false,flags_set]
      by_cases container : t.containerAt i = .tuple
      · have children : t.childrenAt i = (List.range (t.childRange i).2).map fun offset =>
            t.childAt ((t.childRange i).1 + offset) := if_pos ⟨bound,container⟩
        have stepped := walk.step (List.reverse_perm (t.childrenAt i)) earlier distinct
        have few := length_le_of_nodup stepped.nodup fun j member =>
          Nat.lt_succ_of_le (stepped.le_root member)
        simp only [List.length_append,List.length_reverse] at few
        have room : rest.length + (t.childrenAt i).length ≤ t.nodes.length + 1 := by omega
        rw [if_neg (by simp [container]),← children,pushStackAll_ok room]
        exact ih stepped next
      · have leaf : t.childrenAt i = [] := if_neg fun both => container both.2
        have nothing : ([] : List Nat).Perm (t.childrenAt i) := by rw [leaf]
        have stepped := walk.step nothing earlier distinct
        rw [if_pos container]
        exact ih stepped next

end reach

section emission

open MarkTable TreeTable Renumbering

variable {h : Host} {t : TupleValue} {scalar : ScalarValue} {requested i m : Nat} {all : List Nat}

/-- The reachable nodes. -/
def reached (all : List Nat) (i : Nat) : Bool := decide (i ∈ all)

/-- The edges that a node contributes, to the new numbers of its children. -/
def renumberedChildren (t : TupleValue) (all : List Nat) (i : Nat) : List Nat :=
  (t.childrenAt i).map (rank (reached all))

/-- Where the edges of a node start. -/
def edgeStart (t : TupleValue) (all : List Nat) (i : Nat) : Nat :=
  offset (reached all) (fun i => (renumberedChildren t all i).length) i

/-- The type arena once the reachable nodes below a bound are emitted. -/
structure Emitted (t : TupleValue) (all : List Nat) (m : Nat) (e : TypeEmission) : Prop where
  size : e.indexMap.length = t.nodes.length + 1
  indexes : ∀ j ∈ below (reached all) m, e.indexMap.getD j 0 = rank (reached all) j
  nodes : e.nodes = (below (reached all) m).map fun i => typeNodeOf t i (edgeStart t all i)
  edges : e.childIndexes = (below (reached all) m).flatMap (renumberedChildren t all)

theorem length_renumberedChildren (i : Nat) :
    (renumberedChildren t all i).length = (t.childrenAt i).length :=
  List.length_map _

theorem Emitted.start (t : TupleValue) (all : List Nat) :
    Emitted t all 0 ⟨List.replicate (t.nodes.length + 1) 0,[],[]⟩ :=
  ⟨List.length_replicate,by simp [below],rfl,rfl⟩

theorem Emitted.edges_length {e : TypeEmission} (emitted : Emitted t all m e) :
    e.childIndexes.length = edgeStart t all m := by
  rw [emitted.edges,length_contributions,edgeStart]

/-- What a whole walk has visited, in order. -/
theorem below_perm (walk : Walk t.childrenAt requested [] all) :
    (below (reached all) (requested + 1)).Perm all := by
  have nodup : all.Nodup := walk.nodup
  refine (List.perm_ext_iff_of_nodup (List.Nodup.filter _ List.nodup_range) nodup).mpr fun j => ?_
  refine mem_below.trans ?_
  rw [reached,decide_eq_true_iff]
  exact ⟨And.right,fun member => ⟨Nat.lt_succ_of_le (walk.le_root member),member⟩⟩

theorem requested_reached (walk : Walk t.childrenAt requested [] all) :
    reached all requested = true :=
  decide_eq_true (walk.waiting.mem_iff.mpr (List.mem_cons_self ..))

/-- A child of a reachable node is a reachable node before it. -/
theorem child_reached (walk : Walk t.childrenAt requested [] all) (taken : reached all i = true) :
    ∀ c ∈ t.childrenAt i, reached all c = true ∧ c < i := by
  intro c child
  have member := of_decide_eq_true taken
  exact ⟨decide_eq_true (walk.waiting.mem_iff.mpr
    (List.mem_cons_of_mem _ (List.mem_flatMap.mpr ⟨i,member,child⟩))),walk.earlier i member c child⟩

/-- The edges of the reachable nodes are no more than all edges. -/
theorem edgeStart_le (exact : t.Exact h scalar) (inside : requested ≤ t.nodes.length)
    (walk : Walk t.childrenAt requested [] all) :
    edgeStart t all (requested + 1) ≤ t.childIndexes.length := by
  have total : edgeStart t all (requested + 1) = (all.flatMap t.childrenAt).length := by
    rw [edgeStart,offset,List.length_flatMap]
    simp only [length_renumberedChildren]
    exact ((below_perm walk).map _).sum_eq
  have same : (all.flatMap t.childrenAt).length = (all.flatMap t.edgesAt).length := by
    rw [List.length_flatMap,List.length_flatMap]
    refine congrArg List.sum (List.map_congr_left fun i member => ?_)
    exact childrenAt_length ((walk.le_root member).trans inside)
  have bound : ∀ i ∈ all, i ∈ List.range (t.nodes.length + 1) := fun i member =>
    List.mem_range.mpr (Nat.lt_succ_of_le ((walk.le_root member).trans inside))
  have distinct : (all.flatMap t.edgesAt).Nodup :=
    nodup_flatMap_of_subset walk.nodup bound (exact.edges.nodup_iff.mpr List.nodup_range)
  rw [total,same]
  refine length_le_of_nodup distinct fun e member => ?_
  obtain ⟨i,isDone,edge⟩ := List.mem_flatMap.mp member
  exact edgesAt_inside (exact.sound i ((walk.le_root isDone).trans inside)) e edge

/-- One reachable node more: its children have their new numbers, and there is room. -/
theorem Emitted.step {e : TypeEmission} (emitted : Emitted t all m e) (exact : t.Exact h scalar)
    (inside : requested ≤ t.nodes.length) (walk : Walk t.childrenAt requested [] all)
    (taken : reached all m = true) (within : m ≤ requested) :
    ∃ next, emitTypeNode t (t.nodes.length + 1) t.childIndexes.length m e = .ok next ∧
      Emitted t all (m + 1) next := by
  have start := emitted.edges_length
  have ends := offset_le (fun i => (renumberedChildren t all i).length) taken (Nat.lt_succ_of_le within)
  have total := edgeStart_le exact inside walk
  change edgeStart t all m + (renumberedChildren t all m).length ≤ edgeStart t all (requested + 1) at ends
  have few : e.nodes.length ≤ m := by
    rw [emitted.nodes,List.length_map,below]
    exact (List.length_filter_le _ _).trans (by rw [List.length_range])
  have children : (if t.containerAt m = .tuple then
      pushAll t.childIndexes.length ((List.range (t.childRange m).2).map fun offset =>
        e.indexMap.getD (t.childAt ((t.childRange m).1 + offset)) 0) e.childIndexes
      else .ok e.childIndexes) =
        (.ok (e.childIndexes ++ renumberedChildren t all m) : Except HostResourceErrorReason (List Nat)) := by
    by_cases container : t.containerAt m = .tuple
    · have own : t.childrenAt m = (List.range (t.childRange m).2).map fun offset =>
          t.childAt ((t.childRange m).1 + offset) := if_pos ⟨by omega,container⟩
      have mapped : ((List.range (t.childRange m).2).map fun offset =>
          e.indexMap.getD (t.childAt ((t.childRange m).1 + offset)) 0) = renumberedChildren t all m := by
        have read : ((List.range (t.childRange m).2).map fun offset =>
            e.indexMap.getD (t.childAt ((t.childRange m).1 + offset)) 0) =
              (t.childrenAt m).map fun c => e.indexMap.getD c 0 := by
          rw [own,List.map_map]
          rfl
        rw [read]
        refine List.map_congr_left fun c child => ?_
        obtain ⟨chosen,before⟩ := child_reached walk taken c child
        exact emitted.indexes c (mem_below.mpr ⟨before,chosen⟩)
      rw [if_pos container,mapped,pushAll_ok (by omega)]
    · have leaf : t.childrenAt m = [] := if_neg fun both => container both.2
      rw [if_neg container,renumberedChildren,leaf,List.map_nil,List.append_nil]
  have placed : pushAll (t.nodes.length + 1) [typeNodeOf t m e.childIndexes.length] e.nodes =
      .ok (e.nodes ++ [typeNodeOf t m e.childIndexes.length]) :=
    pushAll_ok (by rw [List.length_singleton]; omega)
  have number : e.nodes.length = rank (reached all) m := by
    rw [emitted.nodes,List.length_map,rank]
  refine ⟨⟨e.indexMap.set m e.nodes.length,e.nodes ++ [typeNodeOf t m e.childIndexes.length],
    e.childIndexes ++ renumberedChildren t all m⟩,?_,?_,fun j member => ?_,?_,?_⟩
  · rw [emitTypeNode,children]
    change (pushAll (t.nodes.length + 1) [typeNodeOf t m e.childIndexes.length] e.nodes >>= _) = _
    rw [placed]
    rfl
  · rw [List.length_set,emitted.size]
  · have index : m < e.indexMap.length := by
      rw [emitted.size]
      omega
    obtain ⟨less,chosen⟩ := mem_below.mp member
    rw [getD_set,number]
    rcases Nat.lt_succ_iff_lt_or_eq.mp less with before | rfl
    · rw [if_neg fun both => by omega]
      exact emitted.indexes j (mem_below.mpr ⟨before,chosen⟩)
    · rw [if_pos ⟨rfl,index⟩]
  · dsimp only
    rw [below_succ_of_chosen taken,List.map_append,emitted.nodes,start]
    rfl
  · dsimp only
    rw [below_succ_of_chosen taken,List.flatMap_append,emitted.edges,List.flatMap_singleton]

/-- The loop over the nodes up to the requested one. -/
theorem Emitted.run (exact : t.Exact h scalar) (inside : requested ≤ t.nodes.length)
    (walk : Walk t.childrenAt requested [] all) {e : TypeEmission} (count : Nat)
    (emitted : Emitted t all m e) (within : m + count = requested + 1) :
    ∃ last, emitTypeNodes t (t.nodes.length + 1) t.childIndexes.length
      (flags (t.nodes.length + 1) all) (List.range' m count) e = .ok last ∧
        Emitted t all (requested + 1) last := by
  induction count generalizing m e with
  | zero =>
    rw [← within]
    exact ⟨e,rfl,emitted⟩
  | succ count ih =>
    have bound : m < t.nodes.length + 1 := by omega
    have flag : (flags (t.nodes.length + 1) all).getD m false = reached all m := by
      rw [getD_flags,reached]
      simp [bound]
    rw [List.range'_succ,emitTypeNodes,flag]
    cases taken : reached all m with
    | true =>
      obtain ⟨next,stepped,more⟩ := emitted.step exact inside walk taken (by omega)
      obtain ⟨last,looped,ends⟩ := ih more (by omega)
      rw [if_pos rfl,stepped]
      exact ⟨last,looped,ends⟩
    | false =>
      have passed : Emitted t all (m + 1) e := by
        refine ⟨emitted.size,fun j member => ?_,?_,?_⟩
        · exact emitted.indexes j (below_succ_of_passed taken ▸ member)
        · rw [below_succ_of_passed taken,emitted.nodes]
        · rw [below_succ_of_passed taken,emitted.edges]
      obtain ⟨last,looped,ends⟩ := ih passed (by omega)
      rw [if_neg Bool.false_ne_true]
      exact ⟨last,looped,ends⟩

/-- The type arena of the reachable nodes. -/
def reachedType (t : TupleValue) (all : List Nat) (requested : Nat) : TypeArena where
  nodes := (below (reached all) (requested + 1)).map fun i => typeNodeOf t i (edgeStart t all i)
  childIndexes := (below (reached all) (requested + 1)).flatMap (renumberedChildren t all)
  rootIndex := rank (reached all) requested
  inlineLeaf := none

theorem reachedType_size (t : TupleValue) (all : List Nat) (requested : Nat) :
    (reachedType t all requested).typeNodes.length = rank (reached all) (requested + 1) :=
  List.length_map _

theorem reachedType_edges (t : TupleValue) (all : List Nat) (requested : Nat) :
    (reachedType t all requested).childIndexes.length = edgeStart t all (requested + 1) :=
  length_contributions _ _

theorem reachedType_node (taken : reached all i = true) (within : i ≤ requested) :
    (reachedType t all requested).node (rank (reached all) i) = typeNodeOf t i (edgeStart t all i) :=
  getD_map_below _ _ taken (Nat.lt_succ_of_le within)

/-- Every new number is the number of a reachable node. -/
theorem reachedType_index {k : Nat} (inside : k < (reachedType t all requested).typeNodes.length) :
    ∃ i ≤ requested, reached all i = true ∧ k = rank (reached all) i := by
  rw [reachedType_size] at inside
  have member := List.mem_range.mpr inside
  rw [← map_rank] at member
  obtain ⟨i,chosen,rfl⟩ := List.mem_map.mp member
  obtain ⟨less,taken⟩ := mem_below.mp chosen
  exact ⟨i,Nat.le_of_lt_succ less,taken,rfl⟩

theorem typeNodeOf_kind (t : TupleValue) (i start : Nat) :
    (typeNodeOf t i start).kind = some .tuple ↔ t.containerAt i = .tuple := by
  unfold typeNodeOf
  cases t.containerAt i <;> simp

theorem typeNodeOf_tuple (container : t.containerAt i = .tuple) (start : Nat) :
    typeNodeOf t i start = ⟨some .tuple,some .boolean,start,t.childCountAt i⟩ := by
  rw [typeNodeOf,container]
  rfl

theorem length_childrenAt_tuple (container : t.containerAt i = .tuple) (inside : i ≤ t.nodes.length) :
    (t.childrenAt i).length = t.childCountAt i := by
  rw [TupleValue.childrenAt,if_pos ⟨inside,container⟩,List.length_map,List.length_range]

theorem childrenAt_leaf (leaf : t.containerAt i ≠ .tuple) : t.childrenAt i = [] :=
  if_neg fun both => leaf both.2

variable (inside : requested ≤ t.nodes.length) (taken : reached all i = true) (within : i ≤ requested)
include inside taken within

/-- A renumbered node has the renumbered children. -/
theorem reachedType_children : (reachedType t all requested).childrenAt (rank (reached all) i) =
    renumberedChildren t all i := by
  rw [TypeArena.childrenAt]
  by_cases container : t.containerAt i = .tuple
  · have own := length_childrenAt_tuple container (within.trans inside)
    rw [reachedType_node taken within,typeNodeOf_tuple container,if_pos rfl]
    refine List.ext_getElem ?_ fun k short long => ?_
    · rw [List.length_map,List.length_range,length_renumberedChildren,own]
    · rw [List.getElem_map,List.getElem_range,TypeArena.childOf,reachedType_node taken within,
        typeNodeOf_tuple container]
      exact (getD_contributions _ _ taken (Nat.lt_succ_of_le within) long).trans
        (List.getD_eq_getElem _ _ long)
  · rw [reachedType_node taken within,if_neg fun kind => container ((typeNodeOf_kind ..).mp kind),
      renumberedChildren,childrenAt_leaf container,List.map_nil]

theorem reachedType_edgesAt : (reachedType t all requested).edgesAt (rank (reached all) i) =
    (List.range (renumberedChildren t all i).length).map (edgeStart t all i + ·) := by
  rw [TypeArena.edgesAt,reachedType_node taken within,length_renumberedChildren]
  by_cases container : t.containerAt i = .tuple
  · rw [typeNodeOf_tuple container,if_pos rfl,length_childrenAt_tuple container (within.trans inside)]
  · rw [if_neg fun kind => container ((typeNodeOf_kind ..).mp kind),childrenAt_leaf container]
    rfl

theorem reachedType_sound :
    (reachedType t all requested).NodeSound (rank (reached all) i) := by
  rw [TypeArena.NodeSound,reachedType_node taken within,reachedType_edges]
  cases container : t.containerAt i with
  | scalar => simp [typeNodeOf,container]
  | vector => simp [typeNodeOf,container]
  | tuple =>
    have ends := offset_le (fun i => (renumberedChildren t all i).length) taken (Nat.lt_succ_of_le within)
    simp only [length_renumberedChildren,
      length_childrenAt_tuple container (within.trans inside)] at ends
    rw [typeNodeOf_tuple container]
    refine ⟨rfl,?_⟩
    simpa only [edgeStart,length_renumberedChildren] using ends

end emission

section homomorphism

open MarkTable TreeTable Renumbering

variable {h : Host} {t : TupleValue} {scalar : ScalarValue} {requested i : Nat} {all : List Nat}

/-- The reachable nodes renumbered are a tree. -/
theorem reachedType_exact (inside : requested ≤ t.nodes.length)
    (walk : Walk t.childrenAt requested [] all) : (reachedType t all requested).Exact := by
  have size := reachedType_size t all requested
  have root := requested_reached walk
  have last : rank (reached all) (requested + 1) = rank (reached all) requested + 1 := by
    rw [rank,below_succ_of_chosen root,List.length_append]
    rfl
  have renumbered : ∀ (f g : Nat → List Nat), (∀ i ≤ requested, reached all i = true →
      f (rank (reached all) i) = g i) →
      (List.range (rank (reached all) (requested + 1))).flatMap f =
        (below (reached all) (requested + 1)).flatMap g := by
    intro f g same
    rw [← map_rank,List.flatMap_map]
    refine List.flatMap_congr fun i member => ?_
    obtain ⟨less,taken⟩ := mem_below.mp member
    exact same i (Nat.le_of_lt_succ less) taken
  refine ⟨(fun given => by cases given),by rw [size,last]; rfl,fun k bound => ?_,.of_parents (by omega) (fun k bound c child => ?_)
    ?_ ?_⟩
  · obtain ⟨i,within,taken,rfl⟩ := reachedType_index bound
    exact reachedType_sound inside taken within
  · obtain ⟨i,within,taken,rfl⟩ := reachedType_index bound
    rw [reachedType_children inside taken within] at child
    obtain ⟨d,member,rfl⟩ := List.mem_map.mp child
    obtain ⟨chosen,before⟩ := child_reached walk taken d member
    exact rank_lt chosen before
  · have waiting : all.Perm (requested :: all.flatMap t.childrenAt) := walk.waiting
    have order := (below_perm walk).trans waiting
    rw [below_succ_of_chosen root] at order
    have others : (below (reached all) requested).Perm (all.flatMap t.childrenAt) :=
      ((List.perm_append_singleton _ _).symm.trans order).cons_inv
    rw [size,renumbered _ _ fun i within taken => reachedType_children inside taken within,last,
      Nat.add_sub_cancel,← map_rank]
    have whole : (below (reached all) (requested + 1)).flatMap (renumberedChildren t all) =
        ((below (reached all) (requested + 1)).flatMap t.childrenAt).map (rank (reached all)) := by
      rw [List.map_flatMap]
      rfl
    rw [whole]
    exact (((below_perm walk).flatMap_right _).trans others.symm).map _
  · rw [size,renumbered _ _ fun i within taken => reachedType_edgesAt inside taken within,
      reachedType_edges]
    exact List.Perm.of_eq (flatMap_slots _ _)

/-- Each renumbered node has the type of what it stands for. -/
theorem reachedType_nodeTree (exact : t.Exact h scalar) (inside : requested ≤ t.nodes.length)
    (walk : Walk t.childrenAt requested [] all) (taken : reached all i = true) (within : i ≤ requested) :
    (reachedType t all requested).nodeTree (rank (reached all) i) =
      (t.meaningAt (i + 1) i).typeTree := by
  have typeExact := reachedType_exact inside walk
  have node := @reachedType_node t requested i all taken within
  induction i using Nat.strongRecOn with
  | _ i ih =>
    have kept : rank (reached all) i < (reachedType t all requested).typeNodes.length := by
      rw [reachedType_size]
      exact rank_lt taken (Nat.lt_succ_of_le within)
    unfold TupleValue.meaningAt
    cases container : t.containerAt i with
    | scalar =>
      simp only [typeNodeOf,container] at node
      exact TypeArena.nodeTree_scalar (by rw [node]) (by rw [node])
    | vector =>
      simp only [typeNodeOf,container] at node
      dsimp only
      rw [VectorValue.meaning_typeTree]
      exact TypeArena.nodeTree_vector (by rw [node]) (by rw [node])
    | tuple =>
      rw [typeNodeOf_tuple container] at node
      rw [TypeArena.nodeTree_tuple typeExact.tree.earlier kept (by rw [node]),
        reachedType_children inside taken within]
      have own : t.childrenAt i = (List.range (t.childCountAt i)).map (t.childOf i) :=
        if_pos ⟨within.trans inside,container⟩
      have meanings : (List.range (t.childCountAt i)).map (fun k => t.meaningAt i (t.childOf i k)) =
          (t.childrenAt i).map fun c => t.meaningAt (c + 1) c := by
        rw [own,List.map_map]
        refine List.map_congr_left fun k member => ?_
        have less := List.mem_range.mp member
        have before := exact.earlier i (within.trans inside) _
          (TupleValue.mem_childrenAt.mpr ⟨within.trans inside,container,k,less,rfl⟩)
        have earlier : ∀ i < t.nodes.length + 1, t.containerAt i = .tuple →
            ∀ k < t.childCountAt i, t.childOf i k < i := by
          intro i bound tuple k less
          have bound := Nat.le_of_lt_succ bound
          exact exact.earlier i bound _ (TupleValue.mem_childrenAt.mpr ⟨bound,tuple,k,less,rfl⟩)
        exact meaningAt_depth earlier _ (by omega) _ before
      dsimp only
      rw [meanings,Datum.typeTree,Datum.typeTrees_eq,renumberedChildren,List.map_map,List.map_map]
      refine congrArg TypeTree.tuple (List.map_congr_left fun c child => ?_)
      obtain ⟨chosen,before⟩ := child_reached walk taken c child
      exact ih c before chosen (by omega) (reachedType_node chosen (by omega))

/-- The arena of a requested node: a tree that denotes the type of what the node means. -/
theorem arenaType_exact (exact : t.Exact h scalar) (inside : requested ≤ t.nodes.length) :
    ∃ type : TypeArena, type.Exact ∧ type.tree = (t.meaningAt (requested + 1) requested).typeTree ∧
      arenaType t requested = some (.ok type) := by
  have begins : Walk t.childrenAt requested [requested] [] := .start _ _
  have rounds : t.nodes.length + 2 ≤ t.nodes.length + 1 + 1 + ([] : List Nat).length := Nat.le_refl _
  obtain ⟨all,walk,looped⟩ := reachNodes_ends exact inside begins rounds
  obtain ⟨last,emittedNodes,emitted⟩ := (Emitted.start t all).run exact inside walk (requested + 1)
    (Nat.zero_add _)
  have root := requested_reached walk
  have pushed : pushStack (t.nodes.length + 1) requested [] = .ok [requested] :=
    WorkStack.pushWithin_fits (Nat.succ_pos _) requested
  refine ⟨reachedType t all requested,reachedType_exact inside walk,
    reachedType_nodeTree exact inside walk root (Nat.le_refl _),?_⟩
  have number := emitted.indexes requested (mem_below.mpr ⟨Nat.lt_succ_self _,root⟩)
  rw [flags_nil] at looped
  rw [← List.range_eq_range'] at emittedNodes
  unfold arenaType
  dsimp only
  rw [pushed]
  dsimp only
  rw [looped]
  dsimp only
  rw [emittedNodes]
  dsimp only
  rw [number,emitted.nodes,emitted.edges]
  rfl

end homomorphism

section requests

variable {v : Value} {r : HostRequests}

/-- The outcome of a typing that only the host can keep from its value. -/
def typed (requests : HostRequests × HostResourceErrorReason) (type : TypeArena) :
    HostRequests × Option (Except ValueTypeFailure TypeArena) :=
  match requests with
  | (next,.none) => (next,some (.ok type))
  | (next,reason) => (next,some (.error (.resource reason)))

theorem typed_granted {requests : HostRequests × HostResourceErrorReason} (granted : requests.2 = .none)
    (type : TypeArena) : typed requests type = (requests.1,some (.ok type)) := by
  obtain ⟨next,reason⟩ := requests
  cases granted
  rfl

/-- The host's answer to the validation of a valid value. -/
def validationRequests (v : Value) (r : HostRequests) : HostRequests × HostResourceErrorReason :=
  match if v.container = .tuple then validationScratch r.failure r.host v.tuple
    else (r.failure,r.host,.none) with
  | (failure,host,reason) => (⟨failure,host⟩,reason)

/-- The host's answer to the typing of a node. -/
def nodeTypeRequests (v : Value) (r : HostRequests) : HostRequests × HostResourceErrorReason :=
  match beginHostAllocation r.failure with
  | (begun,.none) => match v.container with
    | .tuple => HostRequests.allocateLimited ⟨begun,r.host⟩ [v.tuple.nodes.length + 1,
        v.tuple.nodes.length + 1,v.tuple.nodes.length + 1,v.tuple.nodes.length + 1,
        v.tuple.childIndexes.length]
    | _ =>
      if begun.maxContainerElements.any fun maximum => decide (maximum < 1) then
        (⟨begun,r.host⟩,.sizeOverflow)
      else (⟨begun,r.host⟩,.none)
  | (begun,reason) => (⟨begun,r.host⟩,reason)

def valueTypeRequests (v : Value) (r : HostRequests) : HostRequests × HostResourceErrorReason :=
  thenRequest (validationRequests v r) (nodeTypeRequests v)

theorem typeForValueNode_tuple {requested : Nat} {type : TypeArena} (container : v.container = .tuple)
    (arena : arenaType v.tuple requested = some (.ok type)) (r : HostRequests) :
    typeForValueNode v requested r = typed (nodeTypeRequests v r) type := by
  unfold typeForValueNode nodeTypeRequests
  generalize beginHostAllocation r.failure = answer
  obtain ⟨begun,reason⟩ := answer
  cases reason with
  | none =>
    simp only [container,arena]
    generalize HostRequests.allocateLimited _ _ = arrays
    obtain ⟨last,reason⟩ := arrays
    cases reason <;> rfl
  | sizeOverflow => rfl
  | allocationUnavailable => rfl

theorem typeForValueNode_leaf (container : v.container ≠ .tuple) (requested : Nat) (r : HostRequests) :
    typeForValueNode v requested r = typed (nodeTypeRequests v r)
      (if v.container = .scalar then makeLeafType .scalar v.scalar.type
        else makeLeafType .vector v.vector.elementType) := by
  unfold typeForValueNode nodeTypeRequests
  generalize beginHostAllocation r.failure = answer
  obtain ⟨begun,reason⟩ := answer
  cases reason with
  | none =>
    cases kind : v.container with
    | tuple => exact absurd kind container
    | scalar =>
      dsimp only
      split <;> rfl
    | vector =>
      dsimp only
      split <;> rfl
  | sizeOverflow => rfl
  | allocationUnavailable => rfl

/-- A valid value passes its validation unless the host refuses a table. -/
theorem validated_then {type : TypeArena} (valid : Valid r.host v)
    (answer : HostRequests → HostRequests × Option (Except ValueTypeFailure TypeArena))
    (typing : ∀ next, answer next = typed (nodeTypeRequests v next) type) :
    (match validateValue r.failure r.host v with
      | (failure,host,some fault) => (⟨failure,host⟩,some (.error fault.typing))
      | (failure,host,none) => answer ⟨failure,host⟩) = typed (valueTypeRequests v r) type := by
  rw [validateValue_valid valid]
  unfold valueTypeRequests validationRequests
  generalize (if v.container = .tuple then validationScratch r.failure r.host v.tuple
    else (r.failure,r.host,HostResourceErrorReason.none)) = scratch
  obtain ⟨failure,host,reason⟩ := scratch
  cases reason with
  | none => exact typing _
  | sizeOverflow => rfl
  | allocationUnavailable => rfl

/-- `value_type` of a valid value is a tree that denotes the type of what the value means. -/
theorem valueType_valid (valid : Valid r.host v) : ∃ type : TypeArena, type.Exact ∧
    type.tree = v.meaning.typeTree ∧ valueType v r = typed (valueTypeRequests v r) type := by
  have exact := (invalidity_none_iff r.host v).mp valid
  by_cases container : v.container = .tuple
  · have arena := exact.tuple container
    obtain ⟨type,whole,tree,answer⟩ := arenaType_exact arena arena.root.le
    refine ⟨type,whole,tree.trans ?_,validated_then valid _ fun next => ?_⟩
    · rw [Value.meaning,container,arena.root]
    · rw [if_pos container]
      exact typeForValueNode_tuple container answer next
  · refine ⟨if v.container = .scalar then makeLeafType .scalar v.scalar.type
      else makeLeafType .vector v.vector.elementType,?_,?_,
      validated_then valid _ fun next => typeForValueNode_leaf container _ next⟩
    · split
      · exact makeLeafType_exact (by decide) _
      · exact makeLeafType_exact (by decide) _
    · rw [Value.meaning]
      cases kind : v.container with
      | scalar => exact TypeArena.nodeTree_scalar rfl rfl
      | vector =>
        dsimp only
        rw [VectorValue.meaning_typeTree]
        exact TypeArena.nodeTree_vector rfl rfl
      | tuple => exact absurd kind container

theorem borrowedValueType_valid (valid : Valid r.host v) (container : v.container = .tuple) {i : Nat}
    (inside : i < v.tuple.nodes.length) : ∃ type : TypeArena, type.Exact ∧
      type.tree = (v.tuple.meaningAt (i + 1) i).typeTree ∧
      borrowedValueType v i r = typed (valueTypeRequests v r) type := by
  have arena := ((invalidity_none_iff r.host v).mp valid).tuple container
  obtain ⟨type,whole,tree,answer⟩ := arenaType_exact arena inside.le
  refine ⟨type,whole,tree,?_⟩
  unfold borrowedValueType
  have node : ¬(v.container ≠ .tuple ∨ i ≥ v.tuple.nodes.length) := by simp [container,inside]
  simp only [if_neg node]
  exact validated_then valid _ (typeForValueNode_tuple container answer)

/-- A type that `value_type` returns. -/
theorem valueType_returned {type : TypeArena} {next : HostRequests}
    (returned : valueType v r = (next,some (.ok type))) : type.Exact ∧ type.tree = v.meaning.typeTree := by
  have valid : Valid r.host v := by
    refine (invalidity_none_iff r.host v).mpr ((validateValue_verdict r.failure r.host v).1.mp ?_).1
    unfold valueType at returned
    split at returned
    · cases returned
    · rename_i accepted
      rw [accepted]
  obtain ⟨own,whole,tree,answer⟩ := valueType_valid valid
  rw [answer] at returned
  generalize valueTypeRequests v r = requests at returned
  obtain ⟨last,reason⟩ := requests
  cases reason with
  | none =>
    cases returned
    exact ⟨whole,tree⟩
  | sizeOverflow => cases returned
  | allocationUnavailable => cases returned

end requests

section composition

/-- Types that `value_type` returns for values, one for each. -/
def TypesOf (elements : List Value) (types : List TypeArena) : Prop :=
  List.Forall₂ (fun e type => ∃ r next, valueType e r = (next,some (.ok type))) elements types

variable {elements : List Value} {types : List TypeArena}

theorem TypesOf.trees (typesOf : TypesOf elements types) : (∀ type ∈ types, type.Exact) ∧
    types.map TypeArena.tree = elements.map fun e => e.meaning.typeTree := by
  induction typesOf with
  | nil => exact ⟨nofun,rfl⟩
  | cons returned _ ih =>
    obtain ⟨_,_,returned⟩ := returned
    obtain ⟨exact,tree⟩ := valueType_returned returned
    exact ⟨List.forall_mem_cons.mpr ⟨exact,ih.1⟩,by rw [List.map_cons,List.map_cons,tree,ih.2]⟩

theorem TypesOf.total (each : ∀ e ∈ elements, ∃ r next type, valueType e r = (next,some (.ok type))) :
    ∃ types, TypesOf elements types := by
  induction elements with
  | nil => exact ⟨[],.nil⟩
  | cons e rest ih =>
    obtain ⟨r,next,type,returned⟩ := each e List.mem_cons_self
    obtain ⟨types,typesOf⟩ := ih fun e member => each e (List.mem_cons_of_mem _ member)
    exact ⟨type :: types,.cons ⟨r,next,returned⟩ typesOf⟩

/-- `make_tuple_type` takes the types of the elements, and the type of the composed tuple is
structurally what it makes of them. -/
theorem composedType_equal {h h' : Host} {owner : Nat} {v : Value} (composed : Composed h owner elements h' v)
    (typesOf : TypesOf elements types) : ∃ tuple : TypeArena, tuple.Exact ∧
      (∀ r, makeTupleType types r = answered (tupleTypeRequests types r) tuple) ∧
      ∀ r last whole, valueType v r = (last,some (.ok whole)) →
      ∀ final, structuralTypeEqual whole tuple final = answered (equalRequests whole tuple final) true := by
  obtain ⟨exact,trees⟩ := typesOf.trees
  obtain ⟨tupleExact,tupleTree⟩ := tupleType_tree exact
  refine ⟨tupleType types,tupleExact,makeTupleType_trees exact,fun r last whole returned final => ?_⟩
  obtain ⟨wholeExact,wholeTree⟩ := valueType_returned returned
  obtain ⟨equal,verdict,answer⟩ := structuralTypeEqual_trees wholeExact tupleExact
  have agree : whole.tree = (tupleType types).tree := by
    rw [wholeTree,tupleTree,composed.meaning,trees,Datum.typeTree,Datum.typeTrees_eq,List.map_map]
    rfl
  rw [answer,verdict.mpr agree]

end composition

/-- The type of a valid value, and of any node of its arena, is an arena that `validate_type`
accepts and that mirrors the value node for node; no failure but the host's keeps it back.
And of the types of values that make a tuple in any session `make_tuple_type` makes a type, which
is structurally that of the tuple. -/
theorem value_type_homomorphism :
    (∀ (r : HostRequests) (v : Value), Valid r.host v → ∃ type : TypeArena,
      type.Exact ∧ (∀ next, validateType type next = answered (typeRequests type next) ()) ∧
      type.tree = v.meaning.typeTree ∧ valueType v r = typed (valueTypeRequests v r) type) ∧
    (∀ (r : HostRequests) (v : Value), Valid r.host v → v.container = .tuple →
      ∀ i < v.tuple.nodes.length, ∃ type : TypeArena,
      type.Exact ∧ (∀ next, validateType type next = answered (typeRequests type next) ()) ∧
      type.tree = (v.tuple.meaningAt (i + 1) i).typeTree ∧
      borrowedValueType v i r = typed (valueTypeRequests v r) type) ∧
    ∀ (bufferPlan : Nat → Nat → HostResourceErrorReason) (arrayPlan : Nat → HostResourceErrorReason)
      (accounts : List Account), (∀ a ∈ accounts, a.Sized) →
      ∀ (operations : List ResourceOperation) (r : EvaluationResources) (f : HostFailureInjection)
        (elements : List Value),
      let h := ((startSession bufferPlan arrayPlan accounts).run operations).host
      ∀ used h' left v, makeTupleValue f h r elements = (used,h',left,.ok v) →
      (∀ e ∈ elements, Valid h e) ∧ Valid h' v ∧
      ∀ types, TypesOf elements types → ∃ tuple : TypeArena, tuple.Exact ∧
        (∀ asked, makeTupleType types asked = answered (tupleTypeRequests types asked) tuple) ∧
        ∀ asked last whole, valueType v asked = (last,some (.ok whole)) →
        ∀ final, structuralTypeEqual whole tuple final =
          answered (equalRequests whole tuple final) true := by
  refine ⟨fun r v valid => ?_,fun r v valid container i inside => ?_,?_⟩
  · obtain ⟨type,exact,tree,answer⟩ := valueType_valid valid
    exact ⟨type,exact,validateType_tree exact,tree,answer⟩
  · obtain ⟨type,exact,tree,answer⟩ := borrowedValueType_valid valid container inside
    exact ⟨type,exact,validateType_tree exact,tree,answer⟩
  · intro bufferPlan arrayPlan accounts sized operations r f elements h used h' left v made
    have balanced := (ResourceSession.run_sound (@startSession_sound bufferPlan arrayPlan accounts sized)
      operations).accounted.balanced
    have composed := ((makeTupleValue_composes balanced f elements made).1 v rfl).2
    exact ⟨composed.inputs,composed.valid,fun types typesOf => composedType_equal composed typesOf⟩

/-- An empty tuple, a vector and a scalar, and the tuple `[[] (0 0) 7]` made of them. -/
theorem value_type_homomorphism_nested :
    let s := (startSession (fun _ _ => .none) (fun _ => .none) [trustedLocalV2Account]).run
      [.makeTuple 0 noHostFailure 0 0,.allocateVector 0 .integer 2 2,.makeScalar ⟨.integer,false,7,0⟩]
    let composed := makeTupleValue noHostFailure s.host (s.context 0) s.values
    ∃ v types whole tuple, composed.2.2.2 = .ok v ∧ TypesOf s.values types ∧
      (valueType v ⟨noHostFailure,composed.2.1⟩).2 = some (.ok whole) ∧
      whole.tree = v.meaning.typeTree ∧
      (∀ r, makeTupleType types r = answered (tupleTypeRequests types r) tuple) ∧
      ∀ r, structuralTypeEqual whole tuple r = answered (equalRequests whole tuple r) true := by
  intro s composed
  obtain ⟨v,made⟩ : ∃ v, composed.2.2.2 = .ok v := by
    have ok : ResourceSession.isOk composed.2.2.2 = true := by decide +kernel
    cases result : composed.2.2.2 with
    | error failure =>
      rw [result] at ok
      cases ok
    | ok v => exact ⟨v,rfl⟩
  have sized : ∀ a ∈ [trustedLocalV2Account], a.Sized := by simpa using trustedLocalV2Account_sized
  obtain ⟨inputs,valid,equal⟩ := value_type_homomorphism.2.2 (fun _ _ => .none) (fun _ => .none)
    [trustedLocalV2Account] sized
    [.makeTuple 0 noHostFailure 0 0,.allocateVector 0 .integer 2 2,.makeScalar ⟨.integer,false,7,0⟩]
    (s.context 0) noHostFailure s.values composed.1 composed.2.1 composed.2.2.1 v (by rw [← made])
  have elements : ∃ types, TypesOf s.values types := by
    refine TypesOf.total fun e member => ?_
    obtain ⟨type,-,-,-,answer⟩ := value_type_homomorphism.1 ⟨noHostFailure,s.host⟩ e (inputs e member)
    have granted : ∀ e ∈ s.values, (valueTypeRequests e ⟨noHostFailure,s.host⟩).2 = .none := by decide +kernel
    exact ⟨_,_,type,answer.trans (typed_granted (granted e member) type)⟩
  obtain ⟨types,typesOf⟩ := elements
  obtain ⟨tuple,-,answers,same⟩ := equal types typesOf
  obtain ⟨whole,-,-,tree,answer⟩ := value_type_homomorphism.1 ⟨noHostFailure,composed.2.1⟩ v valid
  have granted : (valueTypeRequests v ⟨noHostFailure,composed.2.1⟩).2 = .none := by
    have checked : composed.2.2.2.toOption.all (fun v =>
        (valueTypeRequests v ⟨noHostFailure,composed.2.1⟩).2 = .none) = true := by decide +kernel
    rw [made] at checked
    exact of_decide_eq_true checked
  have returned := answer.trans (typed_granted granted whole)
  exact ⟨v,types,whole,tuple,made,typesOf,congrArg Prod.snd returned,tree,answers,
    same _ _ whole returned⟩

end Bennu
