import Bennu.TypeTree

/-! `make_tuple_type` and `clone_type`: moved tables denote what they denoted, and the
tables of the elements behind one another with a root over them are the tuple. -/
namespace Bennu

open MarkTable TreeTable

section Relocation

/-- An arena holds the tables of another, moved by so many nodes and edges. -/
structure CarriesType (nodeOffset edgeOffset : Nat) (type u : TypeArena) : Prop where
  node : ∀ i < type.typeNodes.length, u.node (i + nodeOffset) = rebaseTypeNode edgeOffset (type.node i)
  child : ∀ e < type.childIndexes.length, u.childAt (e + edgeOffset) = type.childAt e + nodeOffset
  edges : type.childIndexes.length + edgeOffset ≤ u.childIndexes.length

variable {nodeOffset edgeOffset i : Nat} {type u : TypeArena}

@[simp] theorem rebaseTypeNode_kind (offset : Nat) (node : TypeNode) :
    (rebaseTypeNode offset node).kind = node.kind := by
  unfold rebaseTypeNode
  split <;> rfl

@[simp] theorem rebaseTypeNode_scalar (offset : Nat) (node : TypeNode) :
    (rebaseTypeNode offset node).scalar = node.scalar := by
  unfold rebaseTypeNode
  split <;> rfl

@[simp] theorem rebaseTypeNode_childCount (offset : Nat) (node : TypeNode) :
    (rebaseTypeNode offset node).childCount = node.childCount := by
  unfold rebaseTypeNode
  split <;> rfl

theorem rebaseTypeNode_firstChild {node : TypeNode} (kind : node.kind = some .tuple) (offset : Nat) :
    (rebaseTypeNode offset node).firstChild = node.firstChild + offset := by
  rw [rebaseTypeNode,if_pos kind]

theorem rebaseTypeNode_leaf {node : TypeNode} (kind : node.kind ≠ some .tuple) (offset : Nat) :
    rebaseTypeNode offset node = node := by
  rw [rebaseTypeNode,if_neg kind]

theorem rebaseTypeNode_zero (node : TypeNode) : rebaseTypeNode 0 node = node := by
  unfold rebaseTypeNode
  split <;> rfl

theorem CarriesType.edgesAt (carries : CarriesType nodeOffset edgeOffset type u)
    (inside : i < type.typeNodes.length) :
    u.edgesAt (i + nodeOffset) = (type.edgesAt i).map (· + edgeOffset) := by
  unfold TypeArena.edgesAt
  rw [carries.node i inside,rebaseTypeNode_kind,rebaseTypeNode_childCount]
  split
  · rename_i kind
    rw [rebaseTypeNode_firstChild kind,List.map_map]
    refine List.map_congr_left fun k _ => ?_
    dsimp only [Function.comp_apply]
    omega
  · rfl

theorem CarriesType.childrenAt (carries : CarriesType nodeOffset edgeOffset type u)
    (inside : i < type.typeNodes.length) (sound : type.NodeSound i) :
    u.childrenAt (i + nodeOffset) = (type.childrenAt i).map (· + nodeOffset) := by
  unfold TypeArena.childrenAt
  rw [carries.node i inside,rebaseTypeNode_kind,rebaseTypeNode_childCount]
  split
  · rename_i kind
    unfold TypeArena.NodeSound at sound
    rw [kind] at sound
    rw [List.map_map]
    refine List.map_congr_left fun k member => ?_
    have less := List.mem_range.mp member
    have moved := carries.child ((type.node i).firstChild + k) (by omega)
    rw [TypeArena.childOf,carries.node i inside,rebaseTypeNode_firstChild kind,Nat.add_right_comm,moved]
    rfl
  · rfl

theorem CarriesType.sound (carries : CarriesType nodeOffset edgeOffset type u)
    (inside : i < type.typeNodes.length) (sound : type.NodeSound i) : u.NodeSound (i + nodeOffset) := by
  have room := carries.edges
  unfold TypeArena.NodeSound at sound ⊢
  rw [carries.node i inside,rebaseTypeNode_kind,rebaseTypeNode_childCount,rebaseTypeNode_scalar]
  cases kind : (type.node i).kind with
  | none =>
    rw [kind] at sound
    exact sound
  | some known =>
    rw [kind] at sound
    cases known with
    | scalar =>
      have leaf : (type.node i).kind ≠ some .tuple := by simp [kind]
      rwa [rebaseTypeNode_leaf leaf]
    | vector =>
      have leaf : (type.node i).kind ≠ some .tuple := by simp [kind]
      rwa [rebaseTypeNode_leaf leaf]
    | tuple =>
      refine ⟨sound.1,?_⟩
      rw [rebaseTypeNode_firstChild kind]
      have within := sound.2
      omega

/-- A moved node denotes what it denoted. -/
theorem CarriesType.treeAt (carries : CarriesType nodeOffset edgeOffset type u)
    (sound : ∀ i < type.typeNodes.length, type.NodeSound i)
    (earlier : ∀ i < type.typeNodes.length, ∀ c ∈ type.childrenAt i, c < i) (depth : Nat) :
    ∀ i < type.typeNodes.length, u.treeAt depth (i + nodeOffset) = type.treeAt depth i := by
  induction depth with
  | zero => exact fun _ _ => rfl
  | succ depth ih =>
    intro i inside
    have node := carries.node i inside
    unfold TypeArena.treeAt
    rw [node,rebaseTypeNode_kind,rebaseTypeNode_childCount,rebaseTypeNode_scalar]
    split
    · rename_i kind
      have own := sound i inside
      unfold TypeArena.NodeSound at own
      rw [kind] at own
      refine congrArg TypeTree.tuple (List.map_congr_left fun k member => ?_)
      have less := List.mem_range.mp member
      have moved := carries.child ((type.node i).firstChild + k) (by omega)
      have child : u.childOf (i + nodeOffset) k = type.childOf i k + nodeOffset := by
        rw [TypeArena.childOf,node,rebaseTypeNode_firstChild kind,Nat.add_right_comm,moved]
        rfl
      have before := earlier i inside _ (TypeArena.mem_childrenAt_of_tuple kind less)
      rw [child]
      exact ih _ (by omega)
    · rfl
    · rfl

end Relocation

namespace TypeBlocks

/-- The tables as an arena. -/
def arena (b : TypeBlocks) : TypeArena := ⟨b.nodes,b.childIndexes,0,none⟩

def empty : TypeBlocks := ⟨[],[],[]⟩

/-- One element behind the others. -/
def append (b : TypeBlocks) (element : TypeArena) : TypeBlocks where
  nodes := b.nodes ++ element.typeNodes.map (rebaseTypeNode b.childIndexes.length)
  childIndexes := b.childIndexes ++ element.childIndexes.map (· + b.nodes.length)
  roots := b.roots ++ [element.rootIndex + b.nodes.length]

/-- The root over all elements. -/
def close (b : TypeBlocks) : TypeArena where
  nodes := b.nodes ++ [⟨some .tuple,some .boolean,b.childIndexes.length,b.roots.length⟩]
  childIndexes := b.childIndexes ++ b.roots
  rootIndex := b.nodes.length
  inlineLeaf := none

/-- The tables are a forest: trees under the roots, nothing shared and nothing left over. -/
structure Forest (b : TypeBlocks) (trees : List TypeTree) : Prop where
  sound : ∀ i < b.nodes.length, b.arena.NodeSound i
  earlier : ∀ i < b.nodes.length, ∀ c ∈ b.arena.childrenAt i, c < i
  nodes : ((List.range b.nodes.length).flatMap b.arena.childrenAt ++ b.roots).Perm
    (List.range b.nodes.length)
  edges : ((List.range b.nodes.length).flatMap b.arena.edgesAt).Perm (List.range b.childIndexes.length)
  trees : b.roots.map b.arena.nodeTree = trees

variable {b : TypeBlocks} {element : TypeArena} {trees : List TypeTree}

theorem node_arena (b : TypeBlocks) (i : Nat) :
    b.arena.node i = b.nodes.getD i ⟨none,none,0,0⟩ := rfl

theorem Forest.nothing : Forest empty [] := by
  refine ⟨?_,?_,?_,?_,rfl⟩ <;> simp [empty]

/-- The tables so far stay where they are. -/
theorem append_left (b : TypeBlocks) (element : TypeArena) : CarriesType 0 0 b.arena (b.append element).arena := by
  refine ⟨fun i inside => ?_,fun e inside => ?_,?_⟩
  · rw [rebaseTypeNode_zero,Nat.add_zero,node_arena,node_arena]
    exact List.getD_append _ _ _ _ inside
  · exact List.getD_append _ _ _ _ inside
  · simp only [arena,append,List.length_append]
    omega

/-- The element stands behind them. -/
theorem append_right (b : TypeBlocks) (element : TypeArena) :
    CarriesType b.nodes.length b.childIndexes.length element (b.append element).arena := by
  refine ⟨fun i inside => ?_,fun e inside => ?_,?_⟩
  · rw [node_arena,append,List.getD_append_right _ _ _ _ (by omega),Nat.add_sub_cancel,
      List.getD_eq_getElem _ _ (by simpa using inside),List.getElem_map,TypeArena.node,
      List.getD_eq_getElem _ _ inside]
  · change (b.childIndexes ++ element.childIndexes.map (· + b.nodes.length)).getD
      (e + b.childIndexes.length) 0 = element.childIndexes.getD e 0 + b.nodes.length
    rw [List.getD_append_right _ _ _ _ (by omega),Nat.add_sub_cancel,
      List.getD_eq_getElem _ _ (by simpa using inside),List.getElem_map,
      List.getD_eq_getElem _ _ inside]
  · simp only [arena,append,List.length_append,List.length_map]
    omega

theorem Forest.root_inside (forest : b.Forest trees) {i : Nat} (root : i ∈ b.roots) :
    i < b.nodes.length :=
  List.mem_range.mp (forest.nodes.mem_iff.mp (List.mem_append_right _ root))

theorem split_index {m n i : Nat} (inside : i < m + n) : i < m ∨ ∃ j < n, i = j + m := by
  rcases Nat.lt_or_ge i m with left | right
  · exact .inl left
  · exact .inr ⟨i - m,by omega,by omega⟩

theorem Forest.append (forest : b.Forest trees) (exact : element.Exact) :
    (b.append element).Forest (trees ++ [element.tree]) := by
  have left := append_left b element
  have right := append_right b element
  have root := exact.root
  have size : (b.append element).nodes.length = b.nodes.length + element.typeNodes.length := by
    simp [TypeBlocks.append]
  have slots : (b.append element).childIndexes.length =
      b.childIndexes.length + element.childIndexes.length := by simp [TypeBlocks.append]
  have kept : ∀ i < b.nodes.length, (b.append element).arena.childrenAt i = b.arena.childrenAt i := by
    intro i inside
    simpa using left.childrenAt inside (forest.sound i inside)
  have moved : ∀ i < element.typeNodes.length, (b.append element).arena.childrenAt (i + b.nodes.length) =
      (element.childrenAt i).map (· + b.nodes.length) :=
    fun i inside => right.childrenAt inside (exact.sound i inside)
  have keptEdges : ∀ i < b.nodes.length, (b.append element).arena.edgesAt i = b.arena.edgesAt i := by
    intro i inside
    simpa using left.edgesAt inside
  refine ⟨fun i inside => ?_,fun i inside c child => ?_,?_,?_,?_⟩
  · rw [size] at inside
    rcases split_index inside with before | ⟨j,within,rfl⟩
    · exact left.sound before (forest.sound i before)
    · exact right.sound within (exact.sound j within)
  · rw [size] at inside
    rcases split_index inside with before | ⟨j,within,rfl⟩
    · exact forest.earlier i before c (kept i before ▸ child)
    · rw [moved j within] at child
      obtain ⟨d,member,rfl⟩ := List.mem_map.mp child
      exact Nat.add_lt_add_right (exact.tree.earlier j within d member) _
  · have children : (List.range (b.append element).nodes.length).flatMap
        (b.append element).arena.childrenAt =
        (List.range b.nodes.length).flatMap b.arena.childrenAt ++
          ((List.range element.typeNodes.length).flatMap element.childrenAt).map (· + b.nodes.length) := by
      rw [size,range_split,List.flatMap_append,flatMap_shift moved]
      refine congrArg (· ++ _) (List.flatMap_congr fun i member => ?_)
      exact kept i (List.mem_range.mp member)
    have own : ((List.range element.typeNodes.length).flatMap element.childrenAt ++
        [element.rootIndex]).Perm (List.range element.typeNodes.length) := by
      rw [← root,List.range_succ]
      have nodes := exact.tree.nodes
      rw [← root,Nat.add_sub_cancel,List.range_succ] at nodes
      exact nodes.append_right _
    rw [children,size]
    have both := perm_behind forest.nodes own
    rw [List.map_append] at both
    refine List.Perm.trans ?_ both
    simp only [TypeBlocks.append,List.append_assoc]
    exact List.Perm.append_left _ ((List.perm_append_comm_assoc ..).trans (by simp))
  · have edges : (List.range (b.append element).nodes.length).flatMap
        (b.append element).arena.edgesAt =
        (List.range b.nodes.length).flatMap b.arena.edgesAt ++
          ((List.range element.typeNodes.length).flatMap element.edgesAt).map
            (· + b.childIndexes.length) := by
      rw [size,range_split,List.flatMap_append,flatMap_shift fun i inside => right.edgesAt inside]
      refine congrArg (· ++ _) (List.flatMap_congr fun i member => ?_)
      exact keptEdges i (List.mem_range.mp member)
    rw [edges,slots]
    exact perm_behind forest.edges exact.tree.edges
  · rw [TypeBlocks.append,List.map_append,List.map_singleton]
    refine congrArg₂ (· ++ [·]) ?_ ?_
    · rw [← forest.trees]
      refine List.map_congr_left fun i member => ?_
      exact left.treeAt forest.sound forest.earlier (i + 1) i (forest.root_inside member)
    · have inside : element.rootIndex < element.typeNodes.length := by omega
      exact (right.treeAt exact.sound exact.tree.earlier _ _ inside).trans
        (TypeArena.treeAt_depth exact.tree.earlier inside (by omega))

theorem close_carries (b : TypeBlocks) : CarriesType 0 0 b.arena b.close := by
  refine ⟨fun i inside => ?_,fun e inside => ?_,?_⟩
  · rw [rebaseTypeNode_zero,Nat.add_zero]
    exact List.getD_append _ _ _ _ inside
  · exact List.getD_append _ _ _ _ inside
  · simp only [arena,close,List.length_append]
    omega

theorem close_root (b : TypeBlocks) : b.close.node b.nodes.length =
    ⟨some .tuple,some .boolean,b.childIndexes.length,b.roots.length⟩ := by
  simp [TypeArena.node,TypeArena.typeNodes,close,List.getD_eq_getElem?_getD]

theorem close_root_children (b : TypeBlocks) : b.close.childrenAt b.nodes.length = b.roots := by
  rw [TypeArena.childrenAt,close_root,if_pos rfl]
  refine List.ext_getElem (by simp) fun k short long => ?_
  rw [List.getElem_map,List.getElem_range,TypeArena.childOf,close_root]
  change (b.childIndexes ++ b.roots).getD (b.childIndexes.length + k) 0 = b.roots[k]
  rw [List.getD_append_right _ _ _ _ (by omega),Nat.add_sub_cancel_left,List.getD_eq_getElem _ _ long]

/-- A root over a forest is a tree: the tuple of the trees below it. -/
theorem Forest.close (forest : b.Forest trees) : b.close.Exact ∧ b.close.tree = .tuple trees := by
  have carries := close_carries b
  have size : b.close.typeNodes.length = b.nodes.length + 1 := by
    simp [TypeArena.typeNodes,TypeBlocks.close]
  have slots : b.close.childIndexes.length = b.childIndexes.length + b.roots.length := by
    simp [TypeBlocks.close]
  have kept : ∀ i < b.nodes.length, b.close.childrenAt i = b.arena.childrenAt i := by
    intro i inside
    simpa using carries.childrenAt inside (forest.sound i inside)
  have keptEdges : ∀ i < b.nodes.length, b.close.edgesAt i = b.arena.edgesAt i := by
    intro i inside
    simpa using carries.edgesAt inside
  have rootEdges : b.close.edgesAt b.nodes.length =
      (List.range b.roots.length).map (b.childIndexes.length + ·) := by
    rw [TypeArena.edgesAt,close_root,if_pos rfl]
  have earlier : ∀ i < b.close.typeNodes.length, ∀ c ∈ b.close.childrenAt i, c < i := by
    intro i inside c child
    rw [size] at inside
    rcases Nat.lt_succ_iff_lt_or_eq.mp inside with before | rfl
    · exact forest.earlier i before c (kept i before ▸ child)
    · exact forest.root_inside (close_root_children b ▸ child)
  have sound : ∀ i < b.close.typeNodes.length, b.close.NodeSound i := by
    intro i inside
    rw [size] at inside
    rcases Nat.lt_succ_iff_lt_or_eq.mp inside with before | rfl
    · exact carries.sound before (forest.sound i before)
    · rw [TypeArena.NodeSound,close_root]
      exact ⟨rfl,slots.ge⟩
  have exact : b.close.Exact := by
    refine ⟨(fun given => by cases given),size.symm,sound,TreeTable.Exact.of_parents (by omega) earlier ?_ ?_⟩
    · rw [size,List.range_succ,List.flatMap_append,List.flatMap_singleton,close_root_children]
      rw [List.flatMap_congr fun i member => kept i (List.mem_range.mp member)]
      exact forest.nodes
    · rw [size,List.range_succ,List.flatMap_append,List.flatMap_singleton,rootEdges,slots,List.range_add]
      rw [List.flatMap_congr fun i member => keptEdges i (List.mem_range.mp member)]
      exact forest.edges.append_right _
  refine ⟨exact,?_⟩
  have kind : (b.close.node b.nodes.length).kind = some .tuple := by rw [close_root]
  have top : b.nodes.length < b.close.typeNodes.length := by omega
  refine (TypeArena.nodeTree_tuple earlier top kind).trans (congrArg TypeTree.tuple ?_)
  rw [close_root_children,← forest.trees]
  refine List.map_congr_left fun i member => ?_
  exact carries.treeAt forest.sound forest.earlier (i + 1) i (forest.root_inside member)

theorem Forest.appendAll {elements : List TypeArena} (forest : b.Forest trees)
    (exact : ∀ element ∈ elements, element.Exact) :
    (elements.foldl TypeBlocks.append b).Forest (trees ++ elements.map TypeArena.tree) := by
  induction elements generalizing b trees with
  | nil => simpa using forest
  | cons element rest ih =>
    obtain ⟨here,later⟩ := List.forall_mem_cons.mp exact
    have appended := ih (forest.append here) later
    rwa [List.append_assoc] at appended

end TypeBlocks

section Operations

variable {type left right : TypeArena} {elements : List TypeArena}

def nodeTotal (elements : List TypeArena) : Nat := (elements.map (·.typeNodes.length)).sum

def edgeTotal (elements : List TypeArena) : Nat := (elements.map (·.childIndexes.length)).sum

/-- The tuple of the elements: their tables behind one another and a root over them. -/
def tupleType (elements : List TypeArena) : TypeArena :=
  (elements.foldl TypeBlocks.append .empty).close

/-- The tuple type of trees is the tree over them. -/
theorem tupleType_tree (exact : ∀ element ∈ elements, element.Exact) :
    (tupleType elements).Exact ∧ (tupleType elements).tree = .tuple (elements.map TypeArena.tree) :=
  (TypeBlocks.Forest.nothing.appendAll exact).close

theorem TypeBlocks.foldl_lengths (elements : List TypeArena) (b : TypeBlocks) :
    (elements.foldl append b).nodes.length = b.nodes.length + nodeTotal elements ∧
      (elements.foldl append b).childIndexes.length = b.childIndexes.length + edgeTotal elements ∧
      (elements.foldl append b).roots.length = b.roots.length + elements.length := by
  induction elements generalizing b with
  | nil => exact ⟨rfl,rfl,rfl⟩
  | cons element rest ih =>
    obtain ⟨nodes,edges,roots⟩ := ih (b.append element)
    rw [List.foldl_cons,nodes,edges,roots]
    simp only [append,nodeTotal,edgeTotal,List.length_append,List.length_map,List.length_cons,
      List.length_nil,List.map_cons,List.sum_cons]
    omega

/-- With room for all elements no push is refused. -/
theorem appendTypes_ok {nodeCount edgeCount rootCount : Nat} (b : TypeBlocks)
    (nodes : b.nodes.length + nodeTotal elements ≤ nodeCount)
    (edges : b.childIndexes.length + edgeTotal elements ≤ edgeCount)
    (roots : b.roots.length + elements.length ≤ rootCount) :
    appendTypes nodeCount edgeCount rootCount elements b = .ok (elements.foldl TypeBlocks.append b) := by
  induction elements generalizing b with
  | nil => rfl
  | cons element rest ih =>
    simp only [nodeTotal,edgeTotal,List.map_cons,List.sum_cons,List.length_cons] at nodes edges roots
    have more := ih (b.append element)
      (by simp only [TypeBlocks.append,nodeTotal,List.length_append,List.length_map]; omega)
      (by simp only [TypeBlocks.append,edgeTotal,List.length_append,List.length_map]; omega)
      (by simp only [TypeBlocks.append,List.length_append,List.length_singleton]; omega)
    rw [appendTypes,pushAll_ok (by rw [List.length_map]; omega),
      pushAll_ok (by rw [List.length_map]; omega),pushAll_ok (by rw [List.length_singleton]; omega)]
    exact more

theorem closeTypes_ok {nodeCount edgeCount : Nat} (b : TypeBlocks) (nodes : b.nodes.length + 1 ≤ nodeCount)
    (edges : b.childIndexes.length + b.roots.length ≤ edgeCount) :
    closeTypes nodeCount edgeCount b = .ok b.close := by
  rw [closeTypes,pushAll_ok edges,pushAll_ok (by rwa [List.length_singleton])]
  simp only [bind,Except.bind,pure,Except.pure,TypeBlocks.close,List.length_append,
    List.length_singleton,Nat.add_sub_cancel]

/-- The host's answer to the survey of elements that are trees. -/
def surveyRequests (r : HostRequests) (nodeCount edgeCount : Nat) :
    List TypeArena → HostRequests × HostResourceErrorReason
  | [] => (r,.none)
  | element :: rest => thenRequest (typeRequests element r) fun next =>
    if element.typeNodes.length > sizeMax - nodeCount ∨
        element.childIndexes.length > sizeMax - edgeCount then (next,.sizeOverflow)
    else surveyRequests next (nodeCount + element.typeNodes.length)
      (edgeCount + element.childIndexes.length) rest

theorem surveyTypes_trees (exact : ∀ element ∈ elements, element.Exact) (r : HostRequests)
    (nodeCount edgeCount : Nat) : surveyTypes r nodeCount edgeCount elements =
      answered (surveyRequests r nodeCount edgeCount elements)
        (nodeCount + nodeTotal elements,edgeCount + edgeTotal elements) := by
  induction elements generalizing r nodeCount edgeCount with
  | nil => rfl
  | cons element rest ih =>
    obtain ⟨here,later⟩ := List.forall_mem_cons.mp exact
    rw [surveyTypes,surveyRequests,validateType_tree here]
    obtain ⟨next,reason⟩ := typeRequests element r
    cases reason with
    | none =>
      simp only [answered,thenRequest]
      split
      · rfl
      · rw [ih later]
        simp only [nodeTotal,edgeTotal,List.map_cons,List.sum_cons,Nat.add_assoc,answered]
    | sizeOverflow => rfl
    | allocationUnavailable => rfl

/-- The host's answer to `make_tuple_type` of trees. -/
def tupleTypeRequests (elements : List TypeArena) (r : HostRequests) :
    HostRequests × HostResourceErrorReason :=
  thenRequest (surveyRequests r 1 elements.length elements) fun next =>
    next.allocate [1 + nodeTotal elements,elements.length + edgeTotal elements,elements.length]

theorem makeTupleType_trees (exact : ∀ element ∈ elements, element.Exact) (r : HostRequests) :
    makeTupleType elements r = answered (tupleTypeRequests elements r) (tupleType elements) := by
  obtain ⟨nodes,edges,roots⟩ := TypeBlocks.foldl_lengths elements .empty
  simp only [TypeBlocks.empty,List.length_nil,Nat.zero_add] at nodes edges roots
  have appended := @appendTypes_ok elements (1 + nodeTotal elements)
    (elements.length + edgeTotal elements) elements.length .empty
    (by simp [TypeBlocks.empty]) (by simp [TypeBlocks.empty]) (by simp [TypeBlocks.empty])
  have closed := @closeTypes_ok (1 + nodeTotal elements) (elements.length + edgeTotal elements)
    (elements.foldl TypeBlocks.append .empty) (by rw [TypeBlocks.empty,nodes]; omega)
    (by rw [TypeBlocks.empty,edges,roots]; omega)
  rw [makeTupleType,tupleTypeRequests,surveyTypes_trees exact]
  obtain ⟨next,reason⟩ := surveyRequests r 1 elements.length elements
  cases reason with
  | none =>
    simp only [answered,thenRequest]
    obtain ⟨last,reason⟩ :=
      next.allocate [1 + nodeTotal elements,elements.length + edgeTotal elements,elements.length]
    cases reason with
    | none =>
      have built : (appendTypes (1 + nodeTotal elements) (elements.length + edgeTotal elements)
          elements.length elements ⟨[],[],[]⟩).bind
            (closeTypes (1 + nodeTotal elements) (elements.length + edgeTotal elements)) =
          .ok (tupleType elements) := by
        rw [← TypeBlocks.empty,appended]
        exact closed
      simp only [built]
    | sizeOverflow => rfl
    | allocationUnavailable => rfl
  | sizeOverflow => rfl
  | allocationUnavailable => rfl

/-- An inline leaf has no edges. -/
theorem TypeArena.Exact.inline_alone (exact : type.Exact) {leaf : TypeNode}
    (inline : type.inlineLeaf = some leaf) : type = ⟨[],[],0,some leaf⟩ := by
  have nodes := exact.inline (by simp [inline])
  have size : type.typeNodes.length = 1 := by simp [TypeArena.typeNodes,inline]
  have root := exact.root
  have tree := exact.tree
  rw [size] at root tree
  have alone : type.childrenAt 0 = [] := List.eq_nil_iff_forall_not_mem.mpr fun c child =>
    Nat.not_lt_zero c (tree.earlier 0 Nat.one_pos c child)
  have slots : type.edgesAt 0 = [] := by
    rw [← List.length_eq_zero_iff,← length_childrenAt,alone]
    rfl
  have edges := tree.edges.length_eq
  simp only [List.range_one,List.flatMap_singleton,slots,List.length_nil,List.length_range] at edges
  obtain ⟨typeNodes,childIndexes,rootIndex,inlineLeaf⟩ := type
  simp only [TypeArena.mk.injEq]
  exact ⟨nodes,List.length_eq_zero_iff.mp edges.symm,Nat.succ.inj root,inline⟩

/-- The host's answer to `clone_type` of a tree. -/
def cloneRequests (type : TypeArena) (r : HostRequests) : HostRequests × HostResourceErrorReason :=
  thenRequest (typeRequests type r) fun next =>
    if type.inlineLeaf.isSome then (next,.none)
    else next.allocate [type.typeNodes.length,type.childIndexes.length]

/-- A clone is the same arena. -/
theorem cloneType_tree (exact : type.Exact) (r : HostRequests) :
    cloneType type r = answered (cloneRequests type r) type := by
  rw [cloneType,cloneRequests,validateType_tree exact]
  obtain ⟨next,reason⟩ := typeRequests type r
  cases reason with
  | none =>
    simp only [answered,thenRequest]
    cases inline : type.inlineLeaf with
    | some leaf =>
      have same := exact.inline_alone inline
      rw [same]
      rfl
    | none =>
      have same : (⟨type.typeNodes,type.childIndexes,type.rootIndex,none⟩ : TypeArena) = type := by
        obtain ⟨typeNodes,childIndexes,rootIndex,inlineLeaf⟩ := type
        cases inline
        rfl
      have nodes : pushAll type.typeNodes.length type.typeNodes [] = .ok type.typeNodes :=
        (pushAll_ok (by simp)).trans (by simp)
      have edges : pushAll type.childIndexes.length type.childIndexes [] = .ok type.childIndexes :=
        (pushAll_ok (by simp)).trans (by simp)
      generalize next.allocate [type.typeNodes.length,type.childIndexes.length] = requests
      obtain ⟨last,reason⟩ := requests
      cases reason <;> simp [nodes,edges,same]
  | sizeOverflow => rfl
  | allocationUnavailable => rfl

/-- The host's answer to `structural_type_equal` of trees. -/
def equalRequests (left right : TypeArena) (r : HostRequests) : HostRequests × HostResourceErrorReason :=
  thenRequest (typeRequests left r) fun next => thenRequest (typeRequests right next) fun last =>
    last.allocate [min left.typeNodes.length right.typeNodes.length]

theorem structuralTypeEqual_trees (leftExact : left.Exact) (rightExact : right.Exact) :
    ∃ equal, (equal = true ↔ left.tree = right.tree) ∧ ∀ r,
      structuralTypeEqual left right r = answered (equalRequests left right r) equal := by
  have leftRoot := leftExact.root
  have rightRoot := rightExact.root
  have pairs : PairsInside leftExact rightExact [(left.rootIndex,right.rootIndex)] :=
    ⟨by simp only [List.mem_singleton,forall_eq]; omega,by simp [leftExact.size_root],
      by simp [rightExact.size_root]⟩
  obtain ⟨equal,looped,answer⟩ := equalTypes_exact pairs (Nat.le_of_eq (by simp [leftExact.size_root]) :
    _ ≤ left.typeNodes.length)
  refine ⟨equal,answer.trans (by simp [TypeArena.tree]),fun r => ?_⟩
  rw [structuralTypeEqual,equalRequests,validateType_tree leftExact]
  obtain ⟨next,reason⟩ := typeRequests left r
  cases reason with
  | none =>
    simp only [answered,thenRequest,validateType_tree rightExact]
    obtain ⟨last,reason⟩ := typeRequests right next
    cases reason with
    | none =>
      dsimp only
      obtain ⟨done,reason⟩ := last.allocate [min left.typeNodes.length right.typeNodes.length]
      cases reason with
      | none =>
        have room : ([] : List (Nat × Nat)).length < min left.typeNodes.length right.typeNodes.length := by
          rw [List.length_nil]
          omega
        simp only [pushStack,WorkStack.pushWithin_fits room,looped]
        rfl
      | sizeOverflow => rfl
      | allocationUnavailable => rfl
    | sizeOverflow => rfl
    | allocationUnavailable => rfl
  | sizeOverflow => rfl
  | allocationUnavailable => rfl

/-- Type arenas: `validate_type` accepts exactly the trees whose nodes have a known kind and
element and no field set that their kind does not use; `make_tuple_type` and `clone_type` keep
to trees, the tuple and the copy; `structural_type_equal` decides whether the trees are the same.
Nothing but a refused request of the host keeps any of them from its answer. -/
theorem type_arenas_exact :
    (∀ (m : TypeMetadata) (type : TypeArena) (r : HostRequests), ∃ verdict,
      (validateStoredType type m r).2 = some verdict ∧
      (verdict = .ok () ↔ m.valid = true ∧ type.Exact ∧ (typeRequests type r).2 = .none) ∧
      ∀ invariant node edge, verdict = .error (.invalid invariant node edge) →
        ¬(m.valid = true ∧ type.Exact)) ∧
    (∀ elements : List TypeArena, (∀ element ∈ elements, element.Exact) → ∃ type : TypeArena,
      type.Exact ∧ type.tree = .tuple (elements.map TypeArena.tree) ∧
      ∀ r, makeTupleType elements r = answered (tupleTypeRequests elements r) type) ∧
    (∀ type : TypeArena, type.Exact → ∃ copy : TypeArena, copy.Exact ∧ copy.tree = type.tree ∧
      ∀ r, cloneType type r = answered (cloneRequests type r) copy) ∧
    (∀ left right : TypeArena, left.Exact → right.Exact → ∃ equal,
      (equal = true ↔ left.tree = right.tree) ∧
      ∀ r, structuralTypeEqual left right r = answered (equalRequests left right r) equal) := by
  refine ⟨fun m type r => validateStoredType_verdict m type r,fun elements exact => ?_,
    fun type exact => ⟨type,exact,rfl,cloneType_tree exact⟩,
    fun left right leftExact rightExact => structuralTypeEqual_trees leftExact rightExact⟩
  obtain ⟨whole,tree⟩ := tupleType_tree exact
  exact ⟨tupleType elements,whole,tree,makeTupleType_trees exact⟩

/-- The type of a pair, made of two leaves, copied and compared with its copy. -/
theorem type_arenas_exact_pair : ∃ pair copy equal, pair.Exact ∧ copy.Exact ∧
    pair.tree = .tuple [.scalar .integer,.vector .boolean] ∧ copy.tree = pair.tree ∧ equal = true ∧
      ∀ r, structuralTypeEqual pair copy r = answered (equalRequests pair copy r) equal := by
  obtain ⟨-,makes,copies,compares⟩ := type_arenas_exact
  obtain ⟨pair,pairExact,tree,-⟩ := makes [makeScalarType .integer,makeVectorType .boolean] fun element member => by
    rcases List.mem_cons.mp member with rfl | member
    · exact makeLeafType_exact (by decide) .integer
    · rw [List.mem_singleton.mp member]
      exact makeLeafType_exact (by decide) .boolean
  obtain ⟨copy,copyExact,same,-⟩ := copies pair pairExact
  obtain ⟨equal,iff,answers⟩ := compares pair copy pairExact copyExact
  exact ⟨pair,copy,equal,pairExact,copyExact,tree,same,iff.mpr same.symm,answers⟩

/-- A lone leaf with a field set that no leaf uses: its table is a tree, all its scratch
tables are granted, and it is refused. -/
theorem type_arenas_inactive_field :
    let leaf : TypeArena := ⟨[⟨some .scalar,some .integer,1,0⟩],[],0,none⟩
    let requests : HostRequests :=
      ⟨noHostFailure,⟨1,fun _ => none,[],1,0,fun _ _ => .none,fun _ => .none⟩⟩
    leaf.rootIndex + 1 = leaf.typeNodes.length ∧
      TreeTable.Exact leaf.typeNodes.length leaf.childIndexes.length leaf.childrenAt leaf.edgesAt ∧
      (typeRequests leaf requests).2 = .none ∧
      (validateType leaf requests).2 = some (.error (.invalid .inactiveTypeField 0 0)) := by
  intro leaf requests
  have alone : ∀ i < leaf.typeNodes.length, leaf.childrenAt i = [] ∧ leaf.edgesAt i = [] := by decide
  have tree : TreeTable.Exact leaf.typeNodes.length leaf.childIndexes.length leaf.childrenAt
      leaf.edgesAt := by
    refine .of_parents Nat.one_pos (fun i inside c child => ?_) ?_ ?_
    · rw [(alone i inside).1] at child
      cases child
    · exact List.Perm.of_eq (by decide)
    · exact List.Perm.of_eq (by decide)
  exact ⟨rfl,tree,rfl,rfl⟩

end Operations
end Bennu
