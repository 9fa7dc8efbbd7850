import Bennu.EvaluationSteps

/-! What the tables of a lowered program say at the nodes of its trees, as far as evaluation reads
them. -/
namespace Bennu
open Forest

variable {program : RewriteProgram} {lowering : RewriteLoweringProgram} {layout : Layout} {index root fanout first : Nat}
  {operand : Option Nat}

/-- The tables hold a forest, every node is used once, and the calls that spread a tuple are those
of the syntax. -/
structure Evaluable (program : RewriteProgram) (lowering : RewriteLoweringProgram) : Prop where
  forested : program.Forested
  nodes : lowering.nodes.length = program.nodes.length
  bound : ∀ index < program.nodes.length, (program.nodeAt index).kind ≠ .unresolvedName
  once : ∀ index < program.nodes.length, (loweringNodeAt lowering.nodes index).useCount = 1
  retained : ∀ index < program.nodes.length,
    (loweringNodeAt lowering.nodes index).retainedRoot = decide (index ∈ program.roots)
  spreads : ∀ index < program.nodes.length, (program.nodeAt index).kind = .primitiveCall →
    ((loweringNodeAt lowering.nodes index).spreadsTuple,(loweringNodeAt lowering.nodes index).spreadOperand) =
      ((prefixTupleOperand program (program.callAt (program.nodeAt index).callIndex)).isSome,
        (prefixTupleOperand program (program.callAt (program.nodeAt index).callIndex)).getD 0)

/-! ### Nodes -/

theorem nodeAt_shape {shape : NodeShape} (found : program.shape.nodes[index]? = some shape) :
    index < program.nodes.length ∧ (program.nodeAt index).shape = shape := by
  rw [RewriteProgram.shape,List.getElem?_map,Option.map_eq_some_iff] at found
  obtain ⟨node,found,same⟩ := found
  obtain ⟨inside,-⟩ := List.getElem?_eq_some_iff.mp found
  refine ⟨inside,?_⟩
  rw [nodes_nodeAt inside] at found
  cases found
  exact same

theorem callAt_shape {shape : CallShape} (found : program.shape.calls[index]? = some shape) :
    (program.callAt index).shape program.source = shape := by
  rw [RewriteProgram.shape,List.getElem?_map,Option.map_eq_some_iff] at found
  obtain ⟨call,found,same⟩ := found
  rw [RewriteProgram.callAt,List.getD_eq_getElem?_getD,found]
  exact same

theorem fanoutAt_shape {shape : FanoutShape} (found : program.shape.fanouts[index]? = some shape) :
    index < program.fanouts.length ∧ (program.fanoutAt index).shape = shape := by
  rw [RewriteProgram.shape,List.getElem?_map,Option.map_eq_some_iff] at found
  obtain ⟨fanout,found,same⟩ := found
  obtain ⟨inside,-⟩ := List.getElem?_eq_some_iff.mp found
  refine ⟨inside,?_⟩
  rw [RewriteProgram.fanoutAt,List.getD_eq_getElem?_getD,found]
  exact same

/-- The kind of the last node of a tree. -/
def Expr.kind : Expr → RewriteNodeKind
  | .scalar _ => .scalarLiteral
  | .vector _ _ => .vectorLiteral
  | .parameter _ => .parameterReference
  | .unresolved _ => .unresolvedName
  | .bracketCall _ _ => .primitiveCall
  | .prefixCall _ _ => .primitiveCall
  | .tuple _ => .tupleLiteral
  | .placeholder => .placeholder
  | .fanout _ _ => .fanout

theorem laid_kind (tree : Expr) (laid : LaidFrom layout program.shape operand tree first) :
    tree.rootFrom first < program.nodes.length ∧ (program.nodeAt (tree.rootFrom first)).kind = tree.kind := by
  have known {index : Nat} {shape : NodeShape} (found : program.shape.nodes[index]? = some shape)
      (place : tree.rootFrom first = index) (kind : shape.kind = tree.kind) :
      tree.rootFrom first < program.nodes.length ∧ (program.nodeAt (tree.rootFrom first)).kind = tree.kind := by
    obtain ⟨inside,same⟩ := nodeAt_shape found
    rw [place]
    exact ⟨inside,(congrArg (·.kind) same).trans kind⟩
  cases tree with
  | scalar literal => exact known laid rfl rfl
  | vector type elements =>
    obtain ⟨_,_,found⟩ := laid
    exact known found rfl rfl
  | parameter parameter => exact known laid rfl rfl
  | unresolved name => exact known laid rfl rfl
  | bracketCall name arguments =>
    obtain ⟨_,_,found,-⟩ := laid
    exact known found rfl rfl
  | prefixCall name argument =>
    obtain ⟨_,_,found,-⟩ := laid
    exact known found rfl rfl
  | tuple elements =>
    obtain ⟨_,found,-⟩ := laid
    exact known found rfl rfl
  | placeholder => exact known laid rfl rfl
  | fanout source branches =>
    obtain ⟨_,_,found,-⟩ := laid
    exact known found (by rw [Expr.rootFrom,Expr.nodeCount]; omega) rfl

/-- The node that owns a tree's value. -/
def Expr.ownerPlace (operand : Option Nat) : Expr → Nat → Nat
  | .placeholder,_ => operand.getD 0
  | _,root => root

/-- A placeholder stands for the operand of its fanout, another node for itself. -/
theorem laid_owner (tree : Expr) (laid : LaidFrom layout program.shape operand tree first) :
    ownerNode program (tree.rootFrom first) = tree.ownerPlace operand (tree.rootFrom first) := by
  obtain ⟨-,kind⟩ := laid_kind tree laid
  rw [ownerNode]
  cases tree with
  | placeholder =>
    exact (if_pos kind).trans (congrArg (·.firstElement) (nodeAt_shape laid).2)
  | _ =>
    exact if_neg (by rw [kind]; intro same; cases same)

/-! ### Nodes and fanouts -/

theorem children_fanout (inside : index < program.nodes.length) (kind : (program.nodeAt index).kind = .fanout)
    (below : (program.nodeAt index).callIndex < program.fanouts.length) :
    program.children index = (program.fanoutAt (program.nodeAt index).callIndex).operand ::
      slice (program.fanoutBranches.map (·.root)) (program.fanoutAt (program.nodeAt index).callIndex).firstBranch
        (program.fanoutAt (program.nodeAt index).callIndex).branchCount := by
  rw [children_eq,nodes_nodeAt inside,Option.map_some,Option.getD_some,nodeChildren,kind]
  dsimp only
  rw [List.getElem?_eq_getElem below,Option.map_some,Option.getD_some,RewriteProgram.fanoutAt,List.getD_eq_getElem _ _ below]

theorem fanout_node (forested : program.Forested) (below : fanout < program.fanouts.length) :
    ∃ index < program.nodes.length, (program.nodeAt index).kind = .fanout ∧
      (program.nodeAt index).callIndex = fanout := by
  have listed : fanout ∈ (program.nodes.filter (·.kind == .fanout)).map (·.callIndex) := by
    rw [forested.fanoutNodes]
    exact List.mem_range.mpr below
  obtain ⟨node,member,rfl⟩ := List.mem_map.mp listed
  obtain ⟨member,kind⟩ := List.mem_filter.mp member
  obtain ⟨index,bound,rfl⟩ := List.mem_iff_getElem.mp member
  have same : program.nodeAt index = program.nodes[index] := List.getD_eq_getElem _ _ bound
  refine ⟨index,bound,?_,by rw [same]⟩
  rw [same]
  simpa using kind

/-- The roots of a fanout's branches. -/
theorem branch_roots (forested : program.Forested) (inside : fanout < program.fanouts.length) :
    (List.range (program.fanoutAt fanout).branchCount).map (fun position =>
        (program.branchAt ((program.fanoutAt fanout).firstBranch + position)).root) =
      slice (program.fanoutBranches.map (·.root)) (program.fanoutAt fanout).firstBranch (program.fanoutAt fanout).branchCount := by
  have member : program.fanoutAt fanout ∈ program.fanouts := by
    rw [RewriteProgram.fanoutAt,List.getD_eq_getElem _ _ inside]
    exact List.getElem_mem inside
  have full : (slice (program.fanoutBranches.map (·.root)) (program.fanoutAt fanout).firstBranch
      (program.fanoutAt fanout).branchCount).length = (program.fanoutAt fanout).branchCount :=
    slice_length (by rw [List.length_map]; exact (forested.branchRanges.within (List.mem_map_of_mem member)).2)
  rw [← range_slice 0 full]
  exact List.map_congr_left fun position _ => branchAt_root ..

/-- A fanout that concerns a node has it as a child. -/
theorem concerned (forested : program.Forested) (inside : fanout < program.fanouts.length)
    (concerns : (program.fanoutAt fanout).operand = root ∨ ∃ position < (program.fanoutAt fanout).branchCount,
      (program.branchAt ((program.fanoutAt fanout).firstBranch + position)).root = root) :
    ∃ index < program.nodes.length, (program.nodeAt index).kind = .fanout ∧
      (program.nodeAt index).callIndex = fanout ∧ root ∈ program.children index := by
  obtain ⟨index,bound,kind,rfl⟩ := fanout_node forested inside
  refine ⟨index,bound,kind,rfl,?_⟩
  rw [children_fanout bound kind inside]
  rcases concerns with rfl | ⟨position,less,rfl⟩
  · exact List.mem_cons_self
  · rw [← branch_roots forested inside]
    exact List.mem_cons_of_mem _ (List.mem_map.mpr ⟨position,List.mem_range.mpr less,rfl⟩)

/-- Only one fanout concerns the operand and the branches of a fanout. -/
theorem concerns_one {other : Nat} (forested : program.Forested) (inside : index < program.nodes.length)
    (child : root ∈ program.children index)
    (below : other < program.fanouts.length)
    (concerns : (program.fanoutAt other).operand = root ∨ ∃ position < (program.fanoutAt other).branchCount,
      (program.branchAt ((program.fanoutAt other).firstBranch + position)).root = root) :
    other = (program.nodeAt index).callIndex := by
  obtain ⟨parent,bound,-,rfl,found⟩ := concerned forested below concerns
  rw [forested.forest.parent_unique inside bound child found]

theorem plain_of_not_concerned (none : ∀ fanout < program.fanouts.length,
    ¬((program.fanoutAt fanout).operand = root ∨ ∃ position < (program.fanoutAt fanout).branchCount,
      (program.branchAt ((program.fanoutAt fanout).firstBranch + position)).root = root)) : Unfanned program root :=
  fun fanout inside => ⟨fun same => none fanout inside (.inl same),
    fun position less same => none fanout inside (.inr ⟨position,less,same⟩)⟩

/-- What is below a node that is no fanout concerns no fanout. -/
theorem plain_of_child (forested : program.Forested) (inside : index < program.nodes.length)
    (kind : (program.nodeAt index).kind ≠ .fanout) (child : root ∈ program.children index) : Unfanned program root := by
  refine plain_of_not_concerned fun fanout below concerns => ?_
  obtain ⟨parent,bound,fanoutKind,-,found⟩ := concerned forested below concerns
  rw [forested.forest.parent_unique inside bound child found] at kind
  exact kind fanoutKind

theorem plain_of_root (forested : program.Forested) (member : root ∈ program.roots) : Unfanned program root := by
  refine plain_of_not_concerned fun fanout below concerns => ?_
  obtain ⟨parent,bound,-,-,found⟩ := concerned forested below concerns
  exact forested.forest.unparented member bound found

end Bennu
