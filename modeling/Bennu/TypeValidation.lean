import Bennu.TreeTable
import Bennu.TypeArena

/-! `validate_type` accepts exactly the arenas that are trees with nothing shared and
nothing left over, and its walk ends within its rounds and its stack. -/
namespace Bennu

open MarkTable TreeTable

namespace TypeArena

variable (type : TypeArena)

/-- The child a tuple node reaches through one of its edges. -/
def childOf (i k : Nat) : Nat := type.childAt ((type.node i).firstChild + k)

def childrenAt (i : Nat) : List Nat :=
  if (type.node i).kind = some .tuple then (List.range (type.node i).childCount).map (type.childOf i)
  else []

/-- The edge slots of a tuple node. -/
def edgesAt (i : Nat) : List Nat :=
  if (type.node i).kind = some .tuple then
    (List.range (type.node i).childCount).map ((type.node i).firstChild + ·)
  else []

/-- One node on its own: a known kind, only the fields of its kind set, its edges in the table. -/
def NodeSound (i : Nat) : Prop :=
  match (type.node i).kind with
  | none => False
  | some .tuple => (type.node i).scalar = some .boolean ∧
      (type.node i).firstChild + (type.node i).childCount ≤ type.childIndexes.length
  | some _ => (type.node i).scalar.isSome ∧ (type.node i).firstChild = 0 ∧ (type.node i).childCount = 0

/-- The node table is a finite tree under its last node: children come before their parent,
every node is reached from the root, every node and edge slot is used exactly once, and
no node has a field set that its kind does not use. -/
structure Exact : Prop where
  inline : type.inlineLeaf.isSome → type.nodes = []
  root : type.rootIndex + 1 = type.typeNodes.length
  sound : ∀ i < type.typeNodes.length, type.NodeSound i
  tree : TreeTable.Exact type.typeNodes.length type.childIndexes.length type.childrenAt type.edgesAt

end TypeArena

section Push

variable {α : Type} {capacity : Nat} {items stack : List α}

theorem pushStackAll_ok (room : stack.length + items.length ≤ capacity) :
    pushStackAll capacity items stack = .ok (items.reverse ++ stack) := by
  induction items generalizing stack with
  | nil => rfl
  | cons item rest ih =>
    rw [List.length_cons] at room
    have fits : stack.length < capacity := by omega
    have more : (item :: stack).length + rest.length ≤ capacity := by
      rw [List.length_cons]
      omega
    rw [pushStackAll,pushStack,WorkStack.pushWithin_fits fits]
    dsimp only
    rw [ih more]
    simp

theorem pushAll_ok {array : List α} (room : array.length + items.length ≤ capacity) :
    pushAll capacity items array = .ok (array ++ items) :=
  WorkStack.appendWithin_fits room

end Push

section Walk

variable {type : TypeArena} {after : TypeTables} {i first : Nat} {done stack : List Nat}

theorem childrenAt_outside (outside : type.typeNodes.length ≤ i) : type.childrenAt i = [] := by
  have none : (type.node i).kind = none := by
    rw [TypeArena.node,List.getD_eq_default _ _ outside]
  simp [TypeArena.childrenAt,none]

theorem length_childrenAt (i : Nat) : (type.childrenAt i).length = (type.edgesAt i).length := by
  unfold TypeArena.childrenAt TypeArena.edgesAt
  split <;> simp

theorem typeEdges_inside (sound : type.NodeSound i) : ∀ e ∈ type.edgesAt i, e < type.childIndexes.length := by
  unfold TypeArena.edgesAt
  split
  · rename_i kind
    unfold TypeArena.NodeSound at sound
    rw [kind] at sound
    obtain ⟨-,range⟩ := sound
    intro e member
    obtain ⟨k,inside,rfl⟩ := List.mem_map.mp member
    have less := List.mem_range.mp inside
    omega
  · simp

/-- The scratch tables with these nodes visited, edges claimed and children counted. -/
def markedTypes (type : TypeArena) (nodes edges children stack : List Nat) : TypeTables :=
  ⟨flags type.typeNodes.length nodes,flags type.childIndexes.length edges,
    counts type.typeNodes.length children,stack⟩

/-- The scratch tables once exactly these nodes are done. -/
def walkedTypes (type : TypeArena) (done stack : List Nat) : TypeTables :=
  markedTypes type done (done.flatMap type.edgesAt) (done.flatMap type.childrenAt) stack

theorem claimTypeEdges_cons (bound : i < type.typeNodes.length) {o : Nat}
    {rest nodes edges owned : List Nat} (inside : first + o < type.childIndexes.length) :
    claimTypeEdges type i first (o :: rest) (markedTypes type nodes edges owned stack) = .ok after ↔
      first + o ∉ edges ∧ type.childAt (first + o) < i ∧ type.childAt (first + o) ∉ owned ∧
        claimTypeEdges type i first rest (markedTypes type nodes ((first + o) :: edges)
          (type.childAt (first + o) :: owned) stack) = .ok after := by
  obtain ⟨c,isChild⟩ : ∃ c, c = type.childAt (first + o) := ⟨_,rfl⟩
  have claimed : (markedTypes type nodes edges owned stack).edgeOwners.getD (first + o) false =
      decide (first + o ∈ edges) := getD_flags.trans (by simp only [inside,true_and])
  rw [claimTypeEdges]
  dsimp only
  rw [claimed,← isChild]
  split
  · rename_i overlapping
    simp [of_decide_eq_true overlapping]
  · rename_i fresh
    have unclaimed : first + o ∉ edges := fun member => fresh (decide_eq_true member)
    split
    · rename_i outside
      simp only [reduceCtorEq,false_iff]
      rintro ⟨-,early,-⟩
      omega
    · rename_i within
      split
      · rename_i late
        simp only [reduceCtorEq,false_iff]
        rintro ⟨-,early,-⟩
        omega
      · rename_i early
        have counted : (markedTypes type nodes edges owned stack).parentCounts.getD c 0 = owned.count c :=
          getD_counts (by omega)
        rw [counted]
        split
        · rename_i again
          have shared : c ∈ owned := List.count_pos_iff.mp (by omega)
          simp [shared]
        · rename_i single
          have unowned : c ∉ owned := List.count_eq_zero.mp (by omega)
          simp only [markedTypes,flags_set,counts_set,unclaimed,unowned,not_false_eq_true,true_and]
          exact ⟨fun ok => ⟨by omega,ok⟩,And.right⟩

/-- Claiming edges succeeds exactly when they are fresh and lead to fresh, earlier nodes. -/
theorem claimTypeEdges_ok_iff (bound : i < type.typeNodes.length)
    {offsets nodes edges owned : List Nat}
    (inside : ∀ o ∈ offsets, first + o < type.childIndexes.length) (edgesApart : edges.Nodup)
    (ownedApart : owned.Nodup) :
    claimTypeEdges type i first offsets (markedTypes type nodes edges owned stack) = .ok after ↔
      (offsets.map (first + ·) ++ edges).Nodup ∧ (∀ o ∈ offsets, type.childAt (first + o) < i) ∧
        (offsets.map (fun o => type.childAt (first + o)) ++ owned).Nodup ∧
        after = markedTypes type nodes (offsets.map (first + ·) ++ edges)
          (offsets.map (fun o => type.childAt (first + o)) ++ owned) stack := by
  induction offsets generalizing edges owned with
  | nil => simp [claimTypeEdges,edgesApart,ownedApart,eq_comm]
  | cons o rest ih =>
    obtain ⟨here,later⟩ := List.forall_mem_cons.mp inside
    obtain ⟨c,isChild⟩ : ∃ c, c = type.childAt (first + o) := ⟨_,rfl⟩
    have edgeOrder : (rest.map (first + ·) ++ (first + o) :: edges).Perm
        ((o :: rest).map (first + ·) ++ edges) := List.perm_middle
    have childOrder : (rest.map (fun o => type.childAt (first + o)) ++ c :: owned).Perm
        ((o :: rest).map (fun o => type.childAt (first + o)) ++ owned) := isChild ▸ List.perm_middle
    have marked : markedTypes type nodes (rest.map (first + ·) ++ (first + o) :: edges)
        (rest.map (fun o => type.childAt (first + o)) ++ c :: owned) stack =
        markedTypes type nodes ((o :: rest).map (first + ·) ++ edges)
          ((o :: rest).map (fun o => type.childAt (first + o)) ++ owned) stack := by
      unfold markedTypes
      rw [flags_congr fun _ => edgeOrder.mem_iff,counts_congr childOrder]
    rw [claimTypeEdges_cons bound here,← isChild]
    constructor
    · rintro ⟨fresh,early,unowned,ok⟩
      obtain ⟨edgesNew,earlier,childrenNew,same⟩ := (ih later (List.nodup_cons.mpr ⟨fresh,edgesApart⟩)
        (List.nodup_cons.mpr ⟨unowned,ownedApart⟩)).mp ok
      exact ⟨edgeOrder.nodup_iff.mp edgesNew,List.forall_mem_cons.mpr ⟨isChild ▸ early,earlier⟩,
        childOrder.nodup_iff.mp childrenNew,same.trans marked⟩
    · rintro ⟨edgesNew,earlier,childrenNew,same⟩
      obtain ⟨early,earlier⟩ := List.forall_mem_cons.mp earlier
      have edgesNew := edgeOrder.nodup_iff.mpr edgesNew
      have childrenNew := childOrder.nodup_iff.mpr childrenNew
      have fresh := (List.nodup_append.mp edgesNew).2.1
      have unowned := (List.nodup_append.mp childrenNew).2.1
      exact ⟨(List.nodup_cons.mp fresh).1,isChild ▸ early,(List.nodup_cons.mp unowned).1,
        (ih later fresh unowned).mpr ⟨edgesNew,earlier,childrenNew,same.trans marked.symm⟩⟩

theorem claimTypeEdges_error {offsets : List Nat} {tables : TypeTables} {failure : TypeFailure}
    (refused : claimTypeEdges type i first offsets tables = .error failure) :
    ∃ invariant node edge, failure = .invalid invariant node edge := by
  induction offsets generalizing tables with
  | nil => cases refused
  | cons o rest ih =>
    rw [claimTypeEdges] at refused
    dsimp only at refused
    split at refused
    · exact ⟨_,_,_,(Except.error.inj refused).symm⟩
    · split at refused
      · exact ⟨_,_,_,(Except.error.inj refused).symm⟩
      · split at refused
        · exact ⟨_,_,_,(Except.error.inj refused).symm⟩
        · split at refused
          · exact ⟨_,_,_,(Except.error.inj refused).symm⟩
          · exact ih refused

/-- The node is sound and shares no child and no edge slot with the nodes done. -/
structure TypeArena.Admits (type : TypeArena) (done : List Nat) (i : Nat) : Prop where
  sound : type.NodeSound i
  earlier : ∀ c ∈ type.childrenAt i, c < i
  edges : ((i :: done).flatMap type.edgesAt).Nodup
  children : ((i :: done).flatMap type.childrenAt).Nodup

/-- A leaf has no edges to claim. -/
theorem admits_leaf {kind : TypeKind} (isKind : (type.node i).kind = some kind) (leaf : kind ≠ .tuple)
    (edges : (done.flatMap type.edgesAt).Nodup) (children : (done.flatMap type.childrenAt).Nodup) :
    type.childrenAt i = [] ∧ type.edgesAt i = [] ∧ (type.Admits done i ↔
      (type.node i).scalar.isSome ∧ (type.node i).firstChild = 0 ∧ (type.node i).childCount = 0) := by
  have noChildren : type.childrenAt i = [] := by simp [TypeArena.childrenAt,isKind,leaf]
  have noEdges : type.edgesAt i = [] := by simp [TypeArena.edgesAt,isKind,leaf]
  have sound : type.NodeSound i ↔
      (type.node i).scalar.isSome ∧ (type.node i).firstChild = 0 ∧ (type.node i).childCount = 0 := by
    unfold TypeArena.NodeSound
    rw [isKind]
    cases kind with
    | scalar => rfl
    | vector => rfl
    | tuple => exact absurd rfl leaf
  refine ⟨noChildren,noEdges,fun admits => sound.mp admits.sound,fun own => ⟨sound.mpr own,?_,?_,?_⟩⟩
  · simp [noChildren]
  · simpa [noEdges] using edges
  · simpa [noChildren] using children

/-- All that a round can do: visit a node that is admitted, or name what is wrong with it. -/
def RoundDone (type : TypeArena) (done stack : List Nat) (i : Nat)
    (answer : Except TypeFailure TypeTables) : Prop :=
  type.Admits done i ∧ answer = .ok (walkedTypes type (i :: done) (type.childrenAt i ++ stack)) ∨
    ¬type.Admits done i ∧ ∃ invariant node edge, answer = .error (.invalid invariant node edge)

/-- The tables with one more node visited, its edges not yet claimed. -/
def visitedTypes (type : TypeArena) (done stack : List Nat) (i : Nat) : TypeTables :=
  markedTypes type (i :: done) (done.flatMap type.edgesAt) (done.flatMap type.childrenAt) stack

theorem validateTypeLeaf_done {kind : TypeKind} (isKind : (type.node i).kind = some kind)
    (leaf : kind ≠ .tuple) (edges : (done.flatMap type.edgesAt).Nodup)
    (children : (done.flatMap type.childrenAt).Nodup) :
    RoundDone type done stack i (validateTypeLeaf type i (visitedTypes type done stack i)) := by
  obtain ⟨noChildren,noEdges,admits⟩ := admits_leaf isKind leaf edges children
  have same : visitedTypes type done stack i =
      walkedTypes type (i :: done) (type.childrenAt i ++ stack) := by
    simp [visitedTypes,walkedTypes,noChildren,noEdges]
  unfold RoundDone validateTypeLeaf
  dsimp only
  rw [admits,same]
  by_cases scalar : (type.node i).scalar.isNone
  · rw [if_pos scalar]
    refine .inr ⟨fun own => ?_,_,_,_,rfl⟩
    have present := own.1
    rw [Option.isNone_iff_eq_none.mp scalar] at present
    cases present
  · rw [if_neg scalar]
    have present : (type.node i).scalar.isSome := by simpa [Option.isSome_iff_ne_none] using scalar
    by_cases inactive : (type.node i).firstChild ≠ 0 ∨ (type.node i).childCount ≠ 0
    · rw [if_pos inactive]
      refine .inr ⟨fun own => ?_,_,_,_,rfl⟩
      omega
    · rw [if_neg inactive]
      exact .inl ⟨⟨present,by omega,by omega⟩,rfl⟩

/-- A tuple node whose range is in the table claims its edges and its children. -/
theorem claimTypeEdges_node_iff (kind : (type.node i).kind = some .tuple)
    (bound : i < type.typeNodes.length) (edges : (done.flatMap type.edgesAt).Nodup)
    (children : (done.flatMap type.childrenAt).Nodup) (sound : type.NodeSound i) :
    claimTypeEdges type i (type.node i).firstChild (List.range (type.node i).childCount)
        (visitedTypes type done stack i) = .ok after ↔
      type.Admits done i ∧ after = walkedTypes type (i :: done) stack := by
  have within : (type.node i).firstChild + (type.node i).childCount ≤ type.childIndexes.length := by
    unfold TypeArena.NodeSound at sound
    rw [kind] at sound
    exact sound.2
  have isEdges : type.edgesAt i = (List.range (type.node i).childCount).map
      ((type.node i).firstChild + ·) := if_pos kind
  have isChildren : type.childrenAt i = (List.range (type.node i).childCount).map
      fun k => type.childAt ((type.node i).firstChild + k) := if_pos kind
  have inside : ∀ o ∈ List.range (type.node i).childCount,
      (type.node i).firstChild + o < type.childIndexes.length := by
    intro o member
    have less := List.mem_range.mp member
    omega
  have early : (∀ o ∈ List.range (type.node i).childCount,
      type.childAt ((type.node i).firstChild + o) < i) ↔ ∀ c ∈ type.childrenAt i, c < i := by
    rw [isChildren]
    simp
  rw [visitedTypes,claimTypeEdges_ok_iff bound inside edges children,early,← isEdges,← isChildren,
    ← List.flatMap_cons,← List.flatMap_cons]
  exact ⟨fun ⟨edges,earlier,children,same⟩ => ⟨⟨sound,earlier,edges,children⟩,same⟩,
    fun ⟨admits,same⟩ => ⟨admits.edges,admits.earlier,admits.children,same⟩⟩

theorem validateTypeTuple_done {capacity : Nat} (kind : (type.node i).kind = some .tuple)
    (bound : i < type.typeNodes.length) (edges : (done.flatMap type.edgesAt).Nodup)
    (children : (done.flatMap type.childrenAt).Nodup)
    (room : type.Admits done i → stack.length + (type.childrenAt i).length ≤ capacity) :
    RoundDone type done stack i
      (validateTypeTuple type capacity i (visitedTypes type done stack i)) := by
  have sound : type.NodeSound i ↔ (type.node i).scalar = some .boolean ∧
      (type.node i).firstChild + (type.node i).childCount ≤ type.childIndexes.length := by
    unfold TypeArena.NodeSound
    rw [kind]
  unfold validateTypeTuple
  dsimp only
  by_cases boolean : (type.node i).scalar = some .boolean
  · rw [if_neg (by simp [boolean])]
    by_cases range : (type.node i).firstChild > type.childIndexes.length ∨
        (type.node i).childCount > type.childIndexes.length - (type.node i).firstChild
    · rw [if_pos range]
      refine .inr ⟨fun admits => ?_,_,_,_,rfl⟩
      have within := (sound.mp admits.sound).2
      omega
    · rw [if_neg range]
      have claims := fun after => @claimTypeEdges_node_iff type after i done stack kind bound edges
        children (sound.mpr ⟨boolean,by omega⟩)
      cases claimed : claimTypeEdges type i (type.node i).firstChild
          (List.range (type.node i).childCount) (visitedTypes type done stack i) with
      | error failure =>
        obtain ⟨invariant,node,edge,rfl⟩ := claimTypeEdges_error claimed
        refine .inr ⟨fun admits => ?_,invariant,node,edge,rfl⟩
        have granted := (claims _).mpr ⟨admits,rfl⟩
        rw [claimed] at granted
        cases granted
      | ok after =>
        obtain ⟨admits,rfl⟩ := (claims after).mp claimed
        have backward : (childrenBackward type (type.node i).firstChild
            (type.node i).childCount).reverse = type.childrenAt i := by
          rw [TypeArena.childrenAt,if_pos kind,childrenBackward,← List.map_reverse,
            List.reverse_reverse]
          rfl
        have fits : stack.length + (childrenBackward type (type.node i).firstChild
            (type.node i).childCount).length ≤ capacity := by
          have space := room admits
          rwa [← backward,List.length_reverse] at space
        refine .inl ⟨admits,?_⟩
        dsimp only
        rw [walkedTypes,markedTypes,pushStackAll_ok fits,backward]
        rfl
  · rw [if_pos (by simp [boolean])]
    exact .inr ⟨fun admits => boolean (sound.mp admits.sound).1,_,_,_,rfl⟩

theorem validateTypeNode_done {capacity : Nat} (bound : i < type.typeNodes.length) (fresh : i ∉ done)
    (edges : (done.flatMap type.edgesAt).Nodup) (children : (done.flatMap type.childrenAt).Nodup)
    (room : type.Admits done i → stack.length + (type.childrenAt i).length ≤ capacity) :
    RoundDone type done stack i
      (validateTypeNode type capacity i (walkedTypes type done stack)) := by
  have unvisited : (walkedTypes type done stack).visited.getD i false = false :=
    getD_flags.trans (by simp [fresh])
  have visited : { walkedTypes type done stack with
      visited := (walkedTypes type done stack).visited.set i true } = visitedTypes type done stack i := by
    simp only [walkedTypes,visitedTypes,markedTypes,flags_set]
  unfold validateTypeNode
  rw [unvisited,visited]
  simp only [Bool.false_eq_true,if_false]
  cases kind : (type.node i).kind with
  | none =>
    refine .inr ⟨fun admits => ?_,_,_,_,rfl⟩
    have sound := admits.sound
    simp [TypeArena.NodeSound,kind] at sound
  | some known =>
    cases known with
    | scalar => exact validateTypeLeaf_done kind (by decide) edges children
    | vector => exact validateTypeLeaf_done kind (by decide) edges children
    | tuple => exact validateTypeTuple_done kind bound edges children room

/-- The walk of an arena in front of its stack: the nodes done are sound and share nothing. -/
structure TypeWalk (type : TypeArena) (stack done : List Nat) : Prop where
  walk : Walk type.childrenAt type.rootIndex stack done
  sound : ∀ i ∈ done, type.NodeSound i
  edges : (done.flatMap type.edgesAt).Nodup

theorem TypeWalk.start (type : TypeArena) : TypeWalk type [type.rootIndex] [] :=
  ⟨.start _ _,by simp,by simp⟩

theorem initialTypeTables_walked (type : TypeArena) :
    initialTypeTables type = walkedTypes type [] [type.rootIndex] := by
  simp [initialTypeTables,walkedTypes,markedTypes,flags_nil,counts_nil]

theorem TypeWalk.step (walked : TypeWalk type (i :: stack) done) (admits : type.Admits done i) :
    TypeWalk type (type.childrenAt i ++ stack) (i :: done) :=
  ⟨walked.walk.step (List.Perm.refl _) admits.earlier admits.children,
    List.forall_mem_cons.mpr ⟨admits.sound,walked.sound⟩,admits.edges⟩

/-- Every node done took one of the pushes, and every push claimed an edge slot. -/
theorem TypeWalk.size (walked : TypeWalk type stack done) :
    stack.length + done.length ≤ type.childIndexes.length + 1 := by
  have waiting := walked.walk.waiting.length_eq
  have same : (done.flatMap type.childrenAt).length = (done.flatMap type.edgesAt).length := by
    rw [List.length_flatMap,List.length_flatMap]
    exact congrArg List.sum (List.map_congr_left fun i _ => length_childrenAt i)
  have inside : ∀ e ∈ done.flatMap type.edgesAt, e < type.childIndexes.length := by
    intro e member
    obtain ⟨i,isDone,edge⟩ := List.mem_flatMap.mp member
    exact typeEdges_inside (walked.sound i isDone) e edge
  have claimed := length_le_of_nodup walked.edges inside
  rw [List.length_append,List.length_cons] at waiting
  omega

/-- In a tree every node that the walk comes to is admitted. -/
theorem TypeArena.Exact.admits (exact : type.Exact) (walked : TypeWalk type (i :: stack) done) :
    type.Admits done i := by
  have root := exact.root
  have bound : ∀ j ∈ i :: done, j < type.typeNodes.length := by
    intro j member
    have within := walked.walk.le_root (i := j) (by
      rcases List.mem_cons.mp member with rfl | isDone
      · exact List.mem_append_left _ (List.mem_cons_self ..)
      · exact List.mem_append_right _ isDone)
    omega
  have distinct : (i :: done).Nodup := List.nodup_cons.mpr
    ⟨walked.walk.fresh,(List.nodup_append.mp walked.walk.nodup).2.1⟩
  have here := bound i (List.mem_cons_self ..)
  exact ⟨exact.sound i here,exact.tree.earlier i here,exact.tree.edges_nodup distinct bound,
    exact.tree.children_nodup distinct bound⟩

/-- The rounds last: the walk ends with an empty stack, or at a node that no tree has. -/
theorem walkType_ends {rounds : Nat} (root : type.rootIndex + 1 = type.typeNodes.length)
    (walked : TypeWalk type stack done) (enough : type.typeNodes.length + 1 ≤ rounds + done.length) :
    (∃ all, TypeWalk type [] all ∧ walkType type (type.childIndexes.length + 1) rounds
      (walkedTypes type done stack) = some (.ok (walkedTypes type all []))) ∨
    ¬type.Exact ∧ ∃ invariant node edge, walkType type (type.childIndexes.length + 1) rounds
      (walkedTypes type done stack) = some (.error (.invalid invariant node edge)) := by
  induction rounds generalizing stack done with
  | zero =>
    have few := length_le_of_nodup (List.nodup_append.mp walked.walk.nodup).2.1 fun j member =>
      Nat.lt_succ_of_le (walked.walk.le_root (List.mem_append_right _ member))
    omega
  | succ rounds ih =>
    cases stack with
    | nil => exact .inl ⟨done,walked,rfl⟩
    | cons i rest =>
      have within := walked.walk.le_root (List.mem_append_left _ (List.mem_cons_self ..))
      have room : type.Admits done i →
          rest.length + (type.childrenAt i).length ≤ type.childIndexes.length + 1 := by
        intro admits
        have size := (walked.step admits).size
        rw [List.length_append] at size
        omega
      have round := @validateTypeNode_done type i done rest _ (by omega) walked.walk.fresh
        walked.edges walked.walk.distinct room
      have stack : (walkedTypes type done (i :: rest)).stack = i :: rest := rfl
      have popped : { walkedTypes type done (i :: rest) with stack := rest } = walkedTypes type done rest := rfl
      rcases round with ⟨admits,stepped⟩ | ⟨refuses,invariant,node,edge,stepped⟩
      · rw [walkType,stack]
        dsimp only
        rw [popped,stepped]
        refine ih (walked.step admits) ?_
        rw [List.length_cons]
        omega
      · rw [walkType,stack]
        dsimp only
        rw [popped,stepped]
        exact .inr ⟨fun exact => refuses (exact.admits walked),invariant,node,edge,rfl⟩

theorem typeOrphans_ok_iff : typeOrphans (walkedTypes type done stack) = .ok () ↔
    (∀ i < type.typeNodes.length, i ∈ done) ∧
      ∀ e < type.childIndexes.length, e ∈ done.flatMap type.edgesAt := by
  rw [← findIdx?_flags,← findIdx?_flags]
  unfold typeOrphans walkedTypes markedTypes
  dsimp only
  split
  · rename_i found
    simp [found]
  · rename_i visited
    split
    · rename_i found
      simp [found]
    · rename_i edges
      simp [visited,edges]

theorem typeOrphans_error {tables : TypeTables} {failure : TypeFailure}
    (refused : typeOrphans tables = .error failure) :
    ∃ invariant node edge, failure = .invalid invariant node edge := by
  unfold typeOrphans at refused
  split at refused
  · exact ⟨_,_,_,(Except.error.inj refused).symm⟩
  · split at refused
    · exact ⟨_,_,_,(Except.error.inj refused).symm⟩
    · cases refused

/-- With enough rounds the walk and the orphan checks accept exactly the trees. -/
theorem walkTypeTables_exact {rounds : Nat} (inline : type.inlineLeaf.isSome → type.nodes = [])
    (root : type.rootIndex + 1 = type.typeNodes.length) (enough : type.typeNodes.length + 1 ≤ rounds) :
    type.Exact ∧ walkTypeTables type rounds = some (.ok ()) ∨
    ¬type.Exact ∧ ∃ invariant node edge,
      walkTypeTables type rounds = some (.error (.invalid invariant node edge)) := by
  have last : type.rootIndex = type.typeNodes.length - 1 := by omega
  have ends := @walkType_ends type [] [type.rootIndex] rounds root (.start type)
    (by rw [List.length_nil]; omega)
  unfold walkTypeTables
  rw [initialTypeTables_walked]
  rcases ends with ⟨all,walked,looped⟩ | ⟨other,invariant,node,edge,looped⟩
  · rw [looped]
    dsimp only
    have walk := walked.walk
    rw [last] at walk
    cases orphans : typeOrphans (walkedTypes type all []) with
    | ok _ =>
      obtain ⟨nodes,edges⟩ := typeOrphans_ok_iff.mp orphans
      refine .inl ⟨⟨inline,root,fun i less => walked.sound i (nodes i less),?_⟩,rfl⟩
      refine walk.exact (by omega) nodes walked.edges (fun e member => ?_) edges
      obtain ⟨i,isDone,edge⟩ := List.mem_flatMap.mp member
      exact typeEdges_inside (walked.sound i isDone) e edge
    | error failure =>
      obtain ⟨invariant,node,edge,rfl⟩ := typeOrphans_error orphans
      refine .inr ⟨fun exact => ?_,invariant,node,edge,rfl⟩
      have visited := exact.tree.visited (by omega) walk
      have accepted := (@typeOrphans_ok_iff type all []).mpr
        ⟨fun i less => visited.mem_iff.mpr (List.mem_range.mpr less),fun e less =>
          ((visited.flatMap_right _).trans exact.tree.edges).mem_iff.mpr (List.mem_range.mpr less)⟩
      rw [orphans] at accepted
      cases accepted
  · rw [looped]
    exact .inr ⟨other,invariant,node,edge,rfl⟩

/-- The outcome of an operation that only the host can keep from its value. -/
def answered {α : Type} (requests : HostRequests × HostResourceErrorReason) (value : α) :
    HostRequests × Option (Except TypeFailure α) :=
  match requests with
  | (next,.none) => (next,some (.ok value))
  | (next,reason) => (next,some (.error (.resource reason)))

/-- Requests made after others, unless one of those was refused. -/
def thenRequest (requests : HostRequests × HostResourceErrorReason)
    (more : HostRequests → HostRequests × HostResourceErrorReason) :
    HostRequests × HostResourceErrorReason :=
  match requests with
  | (next,.none) => more next
  | (next,reason) => (next,reason)

/-- The host's answer to what `validate_type` asks of it for a tree. -/
def typeRequests (type : TypeArena) (r : HostRequests) : HostRequests × HostResourceErrorReason :=
  if type.childIndexes.length = sizeMax then (r,.sizeOverflow) else r.allocate (typeScratch type)

theorem validateTypeRoot_cases (type : TypeArena) :
    (validateTypeRoot type = none ∧ type.childIndexes.length ≠ sizeMax ∨
      validateTypeRoot type = some (.resource .sizeOverflow) ∧ type.childIndexes.length = sizeMax) ∧
      (type.inlineLeaf.isSome → type.nodes = []) ∧ type.rootIndex + 1 = type.typeNodes.length ∨
    ¬type.Exact ∧ ∃ invariant node edge, validateTypeRoot type = some (.invalid invariant node edge) := by
  unfold validateTypeRoot
  split
  · rename_i both
    refine .inr ⟨fun exact => both.2 ?_,_,_,_,rfl⟩
    rw [exact.inline both.1]
    rfl
  · rename_i inline
    split
    · rename_i outside
      refine .inr ⟨fun exact => ?_,_,_,_,rfl⟩
      have root := exact.root
      rcases outside with empty | beyond
      · rw [empty] at root
        cases root
      · omega
    · rename_i within
      split
      · rename_i nonfinal
        refine .inr ⟨fun exact => ?_,_,_,_,rfl⟩
        have root := exact.root
        omega
      · rename_i final
        have alone : type.inlineLeaf.isSome → type.nodes = [] := by
          intro leaf
          by_contra filled
          exact inline ⟨leaf,by simpa using filled⟩
        split
        · rename_i size
          exact .inl ⟨.inr ⟨rfl,size⟩,alone,by omega⟩
        · rename_i size
          exact .inl ⟨.inl ⟨rfl,size⟩,alone,by omega⟩

/-- On a tree only the host decides. -/
theorem validateType_tree (exact : type.Exact) (r : HostRequests) :
    validateType type r = answered (typeRequests type r) () := by
  unfold validateType typeRequests answered
  rcases validateTypeRoot_cases type with ⟨⟨checked,size⟩ | ⟨checked,size⟩,inline,root⟩ | ⟨other,-⟩
  · rw [checked,if_neg size]
    dsimp only
    rcases walkTypeTables_exact inline root (Nat.le_refl _) with ⟨-,walked⟩ | ⟨other,-⟩
    · obtain ⟨next,reason⟩ := r.allocate (typeScratch type)
      cases reason with
      | none => simp only [walked]
      | sizeOverflow => rfl
      | allocationUnavailable => rfl
    · exact absurd exact other
  · rw [checked,if_pos size]
  · exact absurd exact other

/-- `validate_type` always returns; it accepts exactly the trees whose scratch tables are
granted and calls no tree invalid. -/
theorem validateType_verdict (type : TypeArena) (r : HostRequests) :
    ∃ verdict, (validateType type r).2 = some verdict ∧
      (verdict = .ok () ↔ type.Exact ∧ (typeRequests type r).2 = .none) ∧
      ∀ invariant node edge, verdict = .error (.invalid invariant node edge) → ¬type.Exact := by
  by_cases exact : type.Exact
  · rw [validateType_tree exact]
    generalize typeRequests type r = requests
    obtain ⟨next,reason⟩ := requests
    cases reason <;> simp [answered,exact]
  · unfold validateType
    rcases validateTypeRoot_cases type with ⟨⟨checked,-⟩ | ⟨checked,-⟩,inline,root⟩ |
      ⟨-,invariant,node,edge,checked⟩
    · rw [checked]
      dsimp only
      rcases walkTypeTables_exact inline root (Nat.le_refl _) with ⟨tree,-⟩ |
        ⟨-,invariant,node,edge,walked⟩
      · exact absurd tree exact
      · obtain ⟨next,reason⟩ := r.allocate (typeScratch type)
        cases reason <;> simp [walked,exact]
    · rw [checked]
      simp [exact]
    · rw [checked]
      simp [exact]

/-- From the handles of the tables. -/
theorem validateStoredType_verdict (m : TypeMetadata) (type : TypeArena) (r : HostRequests) :
    ∃ verdict, (validateStoredType type m r).2 = some verdict ∧
      (verdict = .ok () ↔ m.valid = true ∧ type.Exact ∧ (typeRequests type r).2 = .none) ∧
      ∀ invariant node edge, verdict = .error (.invalid invariant node edge) →
        ¬(m.valid = true ∧ type.Exact) := by
  unfold validateStoredType
  cases valid : m.valid with
  | true => simpa using validateType_verdict type r
  | false => simp

/-- The type of scalars or of vectors is sound. -/
theorem makeLeafType_exact {kind : TypeKind} (leaf : kind ≠ .tuple) (scalar : ScalarType) :
    (makeLeafType kind scalar).Exact := by
  have node : (makeLeafType kind scalar).node 0 = ⟨some kind,some scalar,0,0⟩ := rfl
  have size : (makeLeafType kind scalar).typeNodes.length = 1 := rfl
  have alone : (makeLeafType kind scalar).childrenAt 0 = [] := by simp [TypeArena.childrenAt,node,leaf]
  have slots : (makeLeafType kind scalar).edgesAt 0 = [] := by simp [TypeArena.edgesAt,node,leaf]
  refine ⟨fun _ => rfl,rfl,fun i inside => ?_,.of_parents Nat.one_pos (fun i inside c child => ?_) ?_ ?_⟩
  · rw [size] at inside
    rw [Nat.lt_one_iff.mp inside,TypeArena.NodeSound,node]
    cases kind with
    | scalar => exact ⟨rfl,rfl,rfl⟩
    | vector => exact ⟨rfl,rfl,rfl⟩
    | tuple => exact absurd rfl leaf
  · rw [size] at inside
    rw [Nat.lt_one_iff.mp inside,alone] at child
    cases child
  · simp [size,alone]
  · have edges : (makeLeafType kind scalar).childIndexes = [] := rfl
    simp [size,edges,slots]

end Walk
end Bennu
