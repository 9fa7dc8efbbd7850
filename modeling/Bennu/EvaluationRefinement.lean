import Bennu.EvaluationRounds

/-! Evaluation of a lowered program comes to what its trees come to: the loop over the nodes, with
its table of owners, is the evaluation of the syntax. -/
namespace Bennu
open Forest

section evaluation

variable {R V A E : Type} {operations : EvaluationOperations R V A E} {program : RewriteProgram}
  {lowering : RewriteLoweringProgram} {layout : Layout} {vocabulary : Vocabulary}
  {state after : EvaluationState R V A} {bound first last index root : Nat} {ids : List Nat} {values owners : List V}
  {value : V} {place : Place} {atRoot : Bool} {operand : Option Nat} {owner : Option V} {tree : Expr}

/-! ### Tables -/

theorem laid_call {call : Nat} {shape : CallShape} (evaluable : Evaluable program lowering)
    (node : program.shape.nodes[index]? = some (ProgramShape.callNode call))
    (entry : program.shape.calls[call]? = some shape)
    (table : slice program.arguments shape.firstArgument shape.argumentCount = ids) (full : ids.length = shape.argumentCount) :
    index < program.nodes.length ∧ (program.nodeAt index).kind = .primitiveCall ∧
      (program.callAt (program.nodeAt index).callIndex).callSyntax = shape.callSyntax ∧
      program.children index = ids ∧ argumentNodes program (program.callAt (program.nodeAt index).callIndex) = ids := by
  obtain ⟨inside,same⟩ := nodeAt_shape node
  have kind : (program.nodeAt index).kind = .primitiveCall := congrArg (·.kind) same
  have place : (program.nodeAt index).callIndex = call := congrArg (·.callIndex) same
  have shaped := callAt_shape entry
  have form : (program.callAt call).callSyntax = shape.callSyntax := congrArg (·.callSyntax) shaped
  have start : (program.callAt call).firstArgument = shape.firstArgument := congrArg (·.firstArgument) shaped
  have count : (program.callAt call).argumentCount = shape.argumentCount := congrArg (·.argumentCount) shaped
  refine ⟨inside,kind,by rw [place,form],?_,?_⟩
  · rw [(call_children evaluable.forested inside kind).1,place,start,count,table]
  · rw [argumentNodes,place,start,count,range_slice 0 (by rw [table,full]),table]

theorem laid_tuple {start : Nat} (node : program.shape.nodes[index]? = some (ProgramShape.tupleNode start ids.length))
    (table : slice program.tupleElements start ids.length = ids) :
    index < program.nodes.length ∧ (program.nodeAt index).kind = .tupleLiteral ∧ program.children index = ids ∧
      (List.range (program.nodeAt index).elementCount).map (fun position =>
        program.tupleElements.getD ((program.nodeAt index).firstElement + position) 0) = ids := by
  obtain ⟨inside,same⟩ := nodeAt_shape node
  have kind : (program.nodeAt index).kind = .tupleLiteral := congrArg (·.kind) same
  have firstElement : (program.nodeAt index).firstElement = start := congrArg (·.firstElement) same
  have count : (program.nodeAt index).elementCount = ids.length := congrArg (·.elementCount) same
  refine ⟨inside,kind,?_,?_⟩
  · rw [children_eq,nodes_nodeAt inside,Option.map_some,Option.getD_some,nodeChildren,kind]
    dsimp only
    rw [firstElement,count,table]
  · rw [firstElement,count,range_slice 0 (by rw [table]),table]

theorem laid_fanout {fanout start operand : Nat} (evaluable : Evaluable program lowering)
    (node : program.shape.nodes[index]? = some (ProgramShape.fanoutNode start ids.length fanout))
    (entry : program.shape.fanouts[fanout]? = some ⟨operand,start,ids.length⟩)
    (table : slice (program.fanoutBranches.map (·.root)) start ids.length = ids) :
    index < program.nodes.length ∧ (program.nodeAt index).kind = .fanout ∧
      (program.nodeAt index).callIndex < program.fanouts.length ∧
      (program.fanoutAt (program.nodeAt index).callIndex).operand = operand ∧
      (List.range (program.fanoutAt (program.nodeAt index).callIndex).branchCount).map (fun position =>
        (program.branchAt ((program.fanoutAt (program.nodeAt index).callIndex).firstBranch + position)).root) = ids := by
  obtain ⟨inside,same⟩ := nodeAt_shape node
  obtain ⟨below,record⟩ := fanoutAt_shape entry
  have kind : (program.nodeAt index).kind = .fanout := congrArg (·.kind) same
  have place : (program.nodeAt index).callIndex = fanout := congrArg (·.callIndex) same
  have source : (program.fanoutAt fanout).operand = operand := congrArg (·.operand) record
  have firstBranch : (program.fanoutAt fanout).firstBranch = start := congrArg (·.firstBranch) record
  have count : (program.fanoutAt fanout).branchCount = ids.length := congrArg (·.branchCount) record
  rw [place]
  refine ⟨inside,kind,below,source,?_⟩
  rw [branch_roots evaluable.forested below,firstBranch,count,table]

theorem bracket_unspread (evaluable : Evaluable program lowering) (inside : index < program.nodes.length)
    (kind : (program.nodeAt index).kind = .primitiveCall)
    (form : (program.callAt (program.nodeAt index).callIndex).callSyntax = .bracketed) :
    (loweringNodeAt lowering.nodes index).spreadsTuple = false := by
  have spreads := (Prod.mk.inj (evaluable.spreads index inside kind)).1
  rw [spreads,prefixTupleOperand,if_pos (.inl (by rw [form]; decide))]
  rfl

theorem spread_operand {id : Nat} (evaluable : Evaluable program lowering) (inside : index < program.nodes.length)
    (kind : (program.nodeAt index).kind = .primitiveCall) (children : program.children index = [id])
    (spreads : (loweringNodeAt lowering.nodes index).spreadsTuple = true) :
    (loweringNodeAt lowering.nodes index).spreadOperand = id := by
  obtain ⟨tuple,operand⟩ := Prod.mk.inj (evaluable.spreads index inside kind)
  rw [spreads] at tuple
  obtain ⟨node,found⟩ := Option.isSome_iff_exists.mp tuple.symm
  rw [operand,found]
  have only := spread_child evaluable.forested inside kind found
  rw [children] at only
  exact (List.singleton_inj.mp only).symm

/-! ### The last node of a tree -/

/-- A tree's value stays at its last node; that of a call may move into a fanout. -/
def finishTree (operations : EvaluationOperations R V A E) (program : RewriteProgram) (tree : Expr) (root : Nat)
    (value : V) (state : EvaluationState R V A) : EvaluationRun R V A E (EvaluationState R V A) :=
  if tree.isCall then placeResult operations program root value state else .ok (state.settled root value)

theorem finishTree_settled (unbranched : branchOfNode program root = none) (unused : state.remainingUses root = 1) :
    finishTree operations program tree root value state = .ok (state.settled root value) := by
  rw [finishTree]
  split
  · rw [placeResult]
    dsimp only
    rw [unbranched,settleValue_unused unused]
  · rfl

theorem finishTree_other (noCall : tree.isCall = false) :
    finishTree operations program tree root value state = .ok (state.settled root value) := by
  rw [finishTree,noCall,if_neg Bool.false_ne_true]

/-- The last node of a tree is about to get its value. -/
structure Ready (program : RewriteProgram) (tree : Expr) (first : Nat) (state after : EvaluationState R V A) : Prop where
  keeps : Keeps program first first (first + tree.nodeCount) state after
  dead : after.nodeValues (tree.rootFrom first) = none
  unused : after.remainingUses (tree.rootFrom first) = 1
  spent : Spent first (tree.rootFrom first) [] after

theorem Expr.rootFrom_within (tree : Expr) (first : Nat) :
    first ≤ tree.rootFrom first ∧ tree.rootFrom first + 1 = first + tree.nodeCount := by
  have some := tree.nodeCount_pos
  rw [Expr.rootFrom]
  omega

theorem Ready.of_keeps (inside : tree.rootFrom first < program.nodes.length) (fresh : Fresh program first state)
    (keeps : Keeps program bound first (tree.rootFrom first) state after) (bounded : first ≤ bound)
    (spent : Spent first (tree.rootFrom first) [] after) : Ready program tree first state after := by
  obtain ⟨order,next⟩ := tree.rootFrom_within first
  refine ⟨⟨fun node outside => keeps.values node (by omega),fun node outside => keeps.uses node (by omega),
    fun fanout below before => keeps.assemblies fanout below (Nat.lt_of_lt_of_le before bounded)⟩,?_,?_,spent⟩
  · exact (keeps.values _ (.inr (Nat.le_refl _))).trans (fresh.dead _ order)
  · exact (keeps.uses _ (.inr (Nat.le_refl _))).trans (fresh.unused _ order inside)

theorem Keeps.storage (keeps : Keeps program bound first last state after) (resources : R) :
    Keeps program bound first last state { after with resources } :=
  ⟨keeps.values,keeps.uses,keeps.assemblies⟩

/-- What a tree has come to when nothing moves its value. -/
abbrev Settled (program : RewriteProgram) (tree : Expr) (first : Nat) (state : EvaluationState R V A) (value : V)
    (after : EvaluationState R V A) : Prop :=
  Keeps program first first (first + tree.nodeCount) state after ∧ Holds after (tree.rootFrom first) value ∧
    Spent first (first + tree.nodeCount) [tree.rootFrom first] after

theorem Ready.settled (ready : Ready program tree first state after) :
    Settled program tree first state value (after.settled (tree.rootFrom first) value) := by
  obtain ⟨order,next⟩ := tree.rootFrom_within first
  refine ⟨ready.keeps.settled (by omega),settled_holds ready.unused,fun node lower upper apart => ?_⟩
  rw [List.mem_singleton] at apart
  obtain ⟨dead,used⟩ := ready.spent node lower (by omega) List.not_mem_nil
  exact ⟨(Function.update_of_ne apart _ _).trans dead,used⟩

theorem tree_runs {result : Evaluated E (V × R)} (unbranched : branchOfNode program (tree.rootFrom first) = none)
    (goes : Goes (treeRun operations program lowering tree first state) result
      (fun _ after => Ready program tree first state after) (finishTree operations program tree (tree.rootFrom first))) :
    Runs (treeRun operations program lowering tree first state) result (Settled program tree first state) :=
  goes.runs fun _ _ ready => ⟨_,finishTree_settled unbranched ready.unused,rfl,ready.settled⟩

theorem tree_steps {result : Evaluated E (V × R)} (plain : Unfanned program (tree.rootFrom first))
    (goes : Goes (treeRun operations program lowering tree first state) result
      (fun _ after => Ready program tree first state after) (finishTree operations program tree (tree.rootFrom first))) :
    Runs (evaluateFrom operations program lowering first tree.nodeCount state) result (Settled program tree first state) := by
  rw [evaluateFrom_tree,bind_idle plain.idle]
  exact tree_runs plain.branchOfNode goes

/-- A node that gets its value at once. -/
theorem leaf_goes {result : Evaluated E (V × R)} {resources : R} (fresh : Fresh program first state)
    (inside : tree.rootFrom first < program.nodes.length) (single : tree.rootFrom first = first)
    (noCall : tree.isCall = false)
    (evaluates : treeRun operations program lowering tree first state =
      .ok (settleValue operations first value { state with resources })) (same : result = .ok (value,resources)) :
    Goes (treeRun operations program lowering tree first state) result
      (fun _ after => Ready program tree first state after) (finishTree operations program tree (tree.rootFrom first)) := by
  have ready : Ready program tree first state { state with resources } :=
    Ready.of_keeps inside fresh ((Keeps.refl state).storage resources) (Nat.le_refl first) (by
      rw [single]
      exact Spent.empty _)
  rw [same]
  refine ⟨{ state with resources },?_,rfl,ready⟩
  rw [finishTree_other noCall,evaluates,single,settleValue_unused (single ▸ ready.unused)]

/-- A call whose arguments have been evaluated. -/
theorem call_goes (tree : Expr) (first : Nat) {arguments : Option (List (TypedPrimitiveArgument V))} {before : EvaluationState R V A}
    (evaluable : Evaluable program lowering) (inside : tree.rootFrom first < program.nodes.length)
    (kind : (program.nodeAt (tree.rootFrom first)).kind = .primitiveCall) (isCall : tree.isCall = true)
    (children : program.children (tree.rootFrom first) = ids)
    (listed : argumentNodes program (program.callAt (program.nodeAt (tree.rootFrom first)).callIndex) = ids)
    (within : ∀ id ∈ ids, first ≤ id ∧ id < tree.rootFrom first) (fresh : Fresh program first before)
    (keeps : Keeps program first first (tree.rootFrom first) before state)
    (holding : List.Forall₂ (Holds state) ids values) (spent : Spent first (tree.rootFrom first) ids state)
    (found : callArguments operations program (loweringNodeAt lowering.nodes (tree.rootFrom first))
      (program.callAt (program.nodeAt (tree.rootFrom first)).callIndex) state = arguments) :
    Goes (evaluateNode operations program lowering state (tree.rootFrom first))
      (callValue operations program lowering (tree.rootFrom first) arguments values state.resources)
      (fun _ after => Ready program tree first before after) (finishTree operations program tree (tree.rootFrom first)) := by
  have distinct : ids.Nodup := children ▸ evaluable.forested.forest.children_nodup inside
  have goes := @evaluateCall_goes R V A E operations program lowering state _ ids values evaluable inside children listed
    holding distinct
  have evaluates : evaluateNode operations program lowering state (tree.rootFrom first) =
      evaluateCall operations program lowering (tree.rootFrom first) (program.nodeAt (tree.rootFrom first)) state := by
    rw [evaluateNode,kind]
  rw [found] at goes
  rw [evaluates]
  cases result : callValue operations program lowering (tree.rootFrom first) arguments values state.resources with
  | error failure =>
    rw [result] at goes
    exact goes
  | ok value =>
    rw [result] at goes
    obtain ⟨after,ran,storage,resources,rfl⟩ := goes
    refine ⟨_,?_,storage,Ready.of_keeps inside fresh (keeps.consumed within) (Nat.le_refl first)
      (spent.consumed resources)⟩
    rw [ran,finishTree,isCall,if_pos rfl]

/-- A fanout whose branches have moved into it. -/
theorem fanout_goes {operand : Nat} {assembly : A} {before : EvaluationState R V A}
    (inside : tree.rootFrom first < program.nodes.length)
    (kind : (program.nodeAt (tree.rootFrom first)).kind = .fanout) (noCall : tree.isCall = false)
    (same : (program.fanoutAt (program.nodeAt (tree.rootFrom first)).callIndex).operand = operand)
    (within : first ≤ operand ∧ operand < tree.rootFrom first) (fresh : Fresh program first before)
    (keeps : Keeps program first first (tree.rootFrom first) before state) (holds : Holds state operand value)
    (spent : Spent first (tree.rootFrom first) [operand] state)
    (assembled : state.assemblies (program.nodeAt (tree.rootFrom first)).callIndex = assembly)
    (live : state.assemblyLive (program.nodeAt (tree.rootFrom first)).callIndex = true) :
    Goes (evaluateNode operations program lowering state (tree.rootFrom first))
      (match operations.publish assembly with
        | none => .error (.incompleteAssembly (tree.rootFrom first))
        | some result => .ok (result,operations.release state.resources value))
      (fun _ after => Ready program tree first before after) (finishTree operations program tree (tree.rootFrom first)) := by
  have evaluates : evaluateNode operations program lowering state (tree.rootFrom first) =
      evaluateFanout operations program (tree.rootFrom first) (program.nodeAt (tree.rootFrom first)) state := by
    rw [evaluateNode,kind]
  rw [evaluates,evaluateFanout,live,same,assembled]
  dsimp only
  rw [if_neg (by decide)]
  cases operations.publish assembly with
  | none => exact ⟨_,rfl⟩
  | some result =>
    dsimp only
    rw [releaseRewriteNodeValue]
    dsimp only
    rw [holds.1]
    dsimp only
    rw [holds.2]
    have ready : Ready program tree first before
        { state with
          resources := operations.release state.resources value
          nodeValues := Function.update state.nodeValues operand none
          assemblyLive := Function.update state.assemblyLive (program.nodeAt (tree.rootFrom first)).callIndex false
          remainingUses := Function.update state.remainingUses operand (1 - 1) } := by
      refine Ready.of_keeps inside fresh ⟨fun node outside => ?_,fun node outside => ?_,fun fanout bounded earlier => ?_⟩
        (Nat.le_refl first) fun node lower upper _ => ?_
      · exact (Function.update_of_ne (by omega) _ _).trans (keeps.values node outside)
      · exact (Function.update_of_ne (by omega) _ _).trans (keeps.uses node outside)
      · obtain ⟨kept,alive⟩ := keeps.assemblies fanout bounded earlier
        refine ⟨kept,(Function.update_of_ne ?_ _ _).trans alive⟩
        rintro rfl
        omega
      · by_cases here : node = operand
        · rw [here]
          exact ⟨Function.update_self _ _ _,Function.update_self _ _ _⟩
        · obtain ⟨dead,used⟩ := spent node lower upper (by simpa using here)
          exact ⟨(Function.update_of_ne here _ _).trans dead,(Function.update_of_ne here _ _).trans used⟩
    refine ⟨_,?_,rfl,ready⟩
    rw [finishTree_other noCall,settleValue_unused ready.unused]

/-! ### Trees -/

theorem allowsAll_each {trees : List Expr} (allowed : vocabulary.AllowsAll place trees) :
    ∀ tree ∈ trees, ∃ atRoot, vocabulary.Allows place atRoot tree := by
  induction trees with
  | nil =>
    intro tree member
    cases member
  | cons first rest ih =>
    intro tree member
    rcases List.mem_cons.mp member with rfl | member
    · exact ⟨false,allowed.1⟩
    · exact ih allowed.2 tree member

mutual

/-- The nodes of a tree come to the tree's value. -/
theorem tree_goes (evaluable : Evaluable program lowering) : (tree : Expr) →
    ∀ {place atRoot operand owner first} {state : EvaluationState R V A}, vocabulary.Allows place atRoot tree →
      LaidFrom layout program.shape operand tree first → OperandLive place operand owner first state →
      Fresh program first state →
        Goes (treeRun operations program lowering tree first state)
          (tree.value operations program lowering owner first state.resources)
          (fun _ after => Ready program tree first state after) (finishTree operations program tree (tree.rootFrom first))
  | .scalar literal,_,_,_,_,first,state,_,laid,_,fresh => by
    obtain ⟨inside,kind⟩ := laid_kind _ laid
    rw [Expr.value]
    refine leaf_goes fresh inside rfl rfl ?_ rfl
    show evaluateNode operations program lowering state first = _
    rw [evaluateNode,show (program.nodeAt first).kind = _ from kind]
    rfl
  | .vector type elements,_,_,_,_,first,state,_,laid,_,fresh => by
    obtain ⟨inside,kind⟩ := laid_kind _ laid
    have run : treeRun operations program lowering (.vector type elements) first state =
        evaluateVector operations first (program.nodeAt first) state := by
      show evaluateNode operations program lowering state first = _
      rw [evaluateNode,show (program.nodeAt first).kind = _ from kind]
      rfl
    rw [evaluateVector] at run
    generalize read : operations.vectorLiteral state.resources (program.nodeAt first) = outcome at run
    obtain ⟨resources,outcome⟩ := outcome
    cases outcome with
    | error error =>
      rw [run,Expr.value,read]
      exact ⟨_,rfl⟩
    | ok value => exact leaf_goes fresh inside rfl rfl run (by rw [Expr.value,read])
  | .parameter index,_,_,_,_,first,state,_,laid,_,fresh => by
    obtain ⟨inside,kind⟩ := laid_kind _ laid
    have parameter : (program.nodeAt first).firstElement = index := congrArg (·.firstElement) (nodeAt_shape laid).2
    rw [Expr.value]
    refine leaf_goes fresh inside rfl rfl ?_ rfl
    show evaluateNode operations program lowering state first = _
    rw [evaluateNode,show (program.nodeAt first).kind = _ from kind]
    dsimp only [Expr.kind]
    rw [parameter]
  | .unresolved name,_,_,_,_,first,state,_,laid,_,_ => by
    obtain ⟨inside,kind⟩ := laid_kind _ laid
    exact absurd kind (evaluable.bound _ inside)
  | .placeholder,_,_,_,_,first,state,_,laid,_,fresh => by
    obtain ⟨inside,kind⟩ := laid_kind _ laid
    have unused : state.remainingUses first = 1 := fresh.unused first (Nat.le_refl first) inside
    rw [Expr.value]
    refine leaf_goes fresh inside rfl rfl ?_ rfl
    rw [settleValue_unused unused]
    show evaluateNode operations program lowering state first = _
    rw [evaluateNode,show (program.nodeAt first).kind = _ from kind]
    rfl
  | .bracketCall name arguments,_,_,_,_,first,state,⟨_,_,allowed⟩,⟨call,start,node,entry,table,laid⟩,standing,fresh => by
    rw [← rootsFrom_length arguments first] at entry table
    obtain ⟨inside,kind,form,children,listed⟩ := laid_call evaluable node entry table rfl
    have unspread := bracket_unspread evaluable inside kind form
    have roots := rootsFrom_within arguments first
    have plain : ∀ root ∈ rootsFrom arguments first, Unfanned program root := fun root member =>
      plain_of_child evaluable.forested inside (by rw [kind]; decide) (children ▸ member)
    rw [Expr.value]
    refine Goes.bind (trees_runs evaluable arguments (allowsAll_each allowed) laid standing fresh plain) fun values after ⟨keeps,holding,spent⟩ => ?_
    have owned := trees_owned arguments allowed laid (standing.keeps keeps (Nat.le_add_right _ _)) holding
    rw [← listed] at owned
    refine call_goes (.bracketCall name arguments) first evaluable inside kind rfl children listed roots fresh keeps
      holding spent ?_
    show callArguments operations program (loweringNodeAt lowering.nodes (first + Expr.nodeCounts arguments))
      (program.callAt (program.nodeAt (first + Expr.nodeCounts arguments)).callIndex) after = _
    rw [callArguments_owned owned,unspread,if_neg (by decide),List.map_map]
    rfl
  | .prefixCall name argument,_,_,_,owner,first,state,⟨_,_,_,allowed⟩,⟨call,start,node,entry,table,laid⟩,standing,fresh => by
    obtain ⟨inside,kind,form,children,listed⟩ := laid_call evaluable node entry table rfl
    obtain ⟨order,next⟩ := argument.rootFrom_within first
    have plain : Unfanned program (argument.rootFrom first) :=
      plain_of_child evaluable.forested inside (by rw [kind]; decide) (by rw [children]; exact List.mem_singleton_self _)
    rw [Expr.value]
    refine Goes.bind (tree_steps plain (tree_goes evaluable argument allowed laid standing fresh))
      fun value after ⟨keeps,holds,spent⟩ => ?_
    have owned := tree_owned argument allowed laid (standing.keeps keeps (Nat.le_add_right _ _)) holds
    have all : List.Forall₂ (Owned program after)
        (argumentNodes program (program.callAt (program.nodeAt (first + argument.nodeCount)).callIndex)) [argument.owner owner value] := by
      rw [listed]
      exact .cons owned .nil
    refine call_goes (.prefixCall name argument) first evaluable inside kind rfl children listed ?_ fresh keeps
      (.cons holds .nil) spent ?_
    · intro id member
      rw [List.mem_singleton.mp member]
      show _ ∧ _ < first + argument.nodeCount
      omega
    show callArguments operations program (loweringNodeAt lowering.nodes (first + argument.nodeCount))
      (program.callAt (program.nodeAt (first + argument.nodeCount)).callIndex) after = _
    rw [callArguments_owned all,prefixArguments]
    split
    · rename_i spreads
      rw [spread_operand evaluable inside kind children spreads,owned.1,Option.bind_some]
    · rfl
  | .tuple elements,_,_,_,_,first,state,allowed,⟨start,node,table,laid⟩,standing,fresh => by
    rw [← rootsFrom_length elements first] at node table
    obtain ⟨inside,kind,children,listed⟩ := laid_tuple node table
    have within := rootsFrom_within elements first
    have distinct : (rootsFrom elements first).Nodup := children ▸ evaluable.forested.forest.children_nodup inside
    have plain : ∀ root ∈ rootsFrom elements first, Unfanned program root := fun root member =>
      plain_of_child evaluable.forested inside (by rw [kind]; decide) (children ▸ member)
    rw [Expr.value]
    refine Goes.bind (trees_runs evaluable elements (allowsAll_each allowed) laid standing fresh plain) fun values after ⟨keeps,holding,spent⟩ => ?_
    show Goes (evaluateNode operations program lowering after (first + Expr.nodeCounts elements)) _ _ _
    rw [evaluateNode,kind]
    rw [evaluateTuple]
    rw [listed,takeElements_holds distinct holding,List.nil_append]
    dsimp only
    have storage : (after.consumed (rootsFrom elements first)).resources = after.resources := rfl
    rw [storage]
    rcases operations.makeTuple after.resources (program.nodeAt (first + Expr.nodeCounts elements)) values with
      ⟨resources,outcome⟩
    cases outcome with
    | error error => exact ⟨_,rfl⟩
    | ok value =>
      have ready : Ready program (.tuple elements) first state { after.consumed (rootsFrom elements first) with resources } :=
        Ready.of_keeps inside fresh (keeps.consumed within) (Nat.le_refl first) (spent.consumed resources)
      refine ⟨_,?_,rfl,ready⟩
      exact (congrArg Except.ok (settleValue_unused ready.unused)).trans (finishTree_other rfl).symm
  | .fanout source branches,_,_,_,_,first,state,⟨_,sourceAllowed,_,allowed⟩,⟨fanout,start,node,entry,table,laid,branchesLaid⟩,_,fresh => by
    rw [← rootsFrom_length branches (first + source.nodeCount)] at node entry table
    obtain ⟨inside,kind,below,same,roots⟩ := laid_fanout evaluable node entry table
    have root : (Expr.fanout source branches).rootFrom first = first + source.nodeCount + Expr.nodeCounts branches := by
      show first + (source.nodeCount + Expr.nodeCounts branches) = _
      rw [Nat.add_assoc]
    obtain ⟨order,next⟩ := source.rootFrom_within first
    have run : treeRun operations program lowering (.fanout source branches) first state =
        treeRun operations program lowering source first state >>= fun state =>
          admitFanouts operations program lowering (source.rootFrom first + 1) state >>= fun state =>
            evaluateFrom operations program lowering (first + source.nodeCount) (Expr.nodeCounts branches) state >>= fun state =>
              evaluateNode operations program lowering state ((Expr.fanout source branches).rootFrom first) := by
      rw [treeRun]
      show evaluateFrom operations program lowering first (source.nodeCount + Expr.nodeCounts branches) state >>= _ = _
      rw [evaluateFrom_add,evaluateFrom_tree,bind_assoc,bind_assoc]
    have unbranched : branchOfNode program (source.rootFrom first) = none :=
      same ▸ operand_unbranched evaluable inside kind below
    rw [run,Expr.value]
    rw [← root] at inside kind below same roots ⊢
    refine Goes.bind (tree_runs unbranched (tree_goes evaluable source sourceAllowed laid
      (by intro inside; cases inside) fresh)) fun value after ⟨keeps,holds,spent⟩ => ?_
    show Goes (admitFanouts operations program lowering (source.rootFrom first + 1) after >>= _) _ _ _
    rw [← same,admitFanouts_operand evaluable inside kind below]
    dsimp only
    generalize operations.preadmit after.resources _ _ = outcome
    obtain ⟨resources,outcome⟩ := outcome
    cases outcome with
    | error error => exact ⟨_,rfl⟩
    | ok assembly =>
      have more := Nat.le_add_right first source.nodeCount
      have before : (program.fanoutAt (program.nodeAt ((Expr.fanout source branches).rootFrom first)).callIndex).operand <
          first + source.nodeCount := by
        rw [same]
        omega
      have stayed : Keeps program first first (first + source.nodeCount) state (after.admitted
          (program.nodeAt ((Expr.fanout source branches).rootFrom first)).callIndex resources assembly) := by
        refine ⟨keeps.values,keeps.uses,fun fanout bounded less => ?_⟩
        obtain ⟨kept,still⟩ := keeps.assemblies fanout bounded less
        have apart : fanout ≠ (program.nodeAt ((Expr.fanout source branches).rootFrom first)).callIndex := by
          rintro rfl
          omega
        exact ⟨(Function.update_of_ne apart _ _).trans kept,(Function.update_of_ne apart _ _).trans still⟩
      rw [← same] at branchesLaid
      have operandLive : (after.admitted (program.nodeAt ((Expr.fanout source branches).rootFrom first)).callIndex
          resources assembly).nodeValues _ = some value := same ▸ holds.1
      have operandSpent : Spent first (first + source.nodeCount) [source.rootFrom first] (after.admitted
          (program.nodeAt ((Expr.fanout source branches).rootFrom first)).callIndex resources assembly) := spent
      show Goes (evaluateFrom operations program lowering (first + source.nodeCount) (Expr.nodeCounts branches)
        (after.admitted (program.nodeAt ((Expr.fanout source branches).rootFrom first)).callIndex resources assembly) >>= _)
          (Expr.branchValues operations program lowering value _ branches 0 (first + source.nodeCount) assembly resources >>= _) _ _
      refine Goes.bind (branches_runs evaluable branches [] _ inside kind below allowed branchesLaid roots
        (stayed.fresh fresh more) before operandLive (Function.update_self _ _ _) (Function.update_self _ _ _))
        fun assembly last ⟨keeps',assembled,live,spent'⟩ => ?_
      have all : Keeps program first first ((Expr.fanout source branches).rootFrom first) state last := by
        rw [root]
        exact stayed.trans keeps' more (Nat.le_add_right _ _) (same ▸ order)
      have operandHolds := keeps'.holds ⟨operandLive,(congrArg after.remainingUses same).trans holds.2⟩ (.inl before)
      have both : Spent first ((Expr.fanout source branches).rootFrom first)
          [(program.fanoutAt (program.nodeAt ((Expr.fanout source branches).rootFrom first)).callIndex).operand] last := by
        rw [same]
        exact root ▸ (operandSpent.keeps keeps').append spent'
      exact fanout_goes inside kind rfl rfl
        ⟨same ▸ order,Nat.lt_of_lt_of_le before (Nat.le_trans (Nat.le_add_right _ _) (Nat.le_of_eq root.symm))⟩ fresh all operandHolds both assembled live

/-- The nodes of branches move their values into the fanout, in their order. -/
theorem branches_runs (evaluable : Evaluable program lowering) : (branches : List Expr) →
    ∀ (before : List Nat) (state : EvaluationState R V A) {index first value assembly}, index < program.nodes.length →
      (program.nodeAt index).kind = .fanout → (program.nodeAt index).callIndex < program.fanouts.length →
      vocabulary.AllowsBranches branches →
      LaidAllFrom layout program.shape (some (program.fanoutAt (program.nodeAt index).callIndex).operand) branches first →
      (List.range (program.fanoutAt (program.nodeAt index).callIndex).branchCount).map (fun position =>
        (program.branchAt ((program.fanoutAt (program.nodeAt index).callIndex).firstBranch + position)).root) =
          before ++ rootsFrom branches first →
      Fresh program first state → (program.fanoutAt (program.nodeAt index).callIndex).operand < first →
      state.nodeValues (program.fanoutAt (program.nodeAt index).callIndex).operand = some value →
      state.assemblies (program.nodeAt index).callIndex = assembly →
      state.assemblyLive (program.nodeAt index).callIndex = true →
        Runs (evaluateFrom operations program lowering first (Expr.nodeCounts branches) state)
          (Expr.branchValues operations program lowering value (program.nodeAt index).callIndex branches before.length first
            assembly state.resources)
          (fun assembly after => Keeps program (program.fanoutAt (program.nodeAt index).callIndex).operand first
            (first + Expr.nodeCounts branches) state after ∧
            after.assemblies (program.nodeAt index).callIndex = assembly ∧
            after.assemblyLive (program.nodeAt index).callIndex = true ∧
            Spent first (first + Expr.nodeCounts branches) [] after)
  | [],_,state,_,_,_,_,_,_,_,_,_,_,_,_,_,assembled,live => by
    rw [Expr.branchValues]
    exact ⟨state,rfl,rfl,Keeps.refl state,assembled,live,Spent.empty state⟩
  | branch :: rest,before,state,index,first,value,assembly,inside,kind,below,⟨⟨allowed,isBranch⟩,allowedRest⟩,⟨laid,laidRest⟩,
      roots,fresh,earlier,operandLive,assembled,live => by
    obtain ⟨order,next⟩ := branch.rootFrom_within first
    have isCall : branch.isCall = true := by
      rw [Expr.isBranch,Bool.and_eq_true,Bool.and_eq_true] at isBranch
      exact isBranch.1.1
    have here := congrArg (·[before.length]?) roots
    simp only [rootsFrom,List.getElem?_map,List.getElem?_append_right (Nat.le_refl before.length),Nat.sub_self,
      List.getElem?_cons_zero,Option.map_eq_some_iff] at here
    obtain ⟨position,found,place⟩ := here
    obtain ⟨listed,rfl⟩ := List.getElem?_eq_some_iff.mp found
    rw [List.length_range] at listed
    rw [List.getElem_range] at place
    have standing : OperandLive .branch (some (program.fanoutAt (program.nodeAt index).callIndex).operand) (some value) first state :=
      fun _ => ⟨_,value,rfl,rfl,earlier,operandLive⟩
    rw [Expr.branchValues,Expr.nodeCounts,evaluateFrom_add,evaluateFrom_tree,bind_assoc]
    refine Goes.bind (tree_goes evaluable branch allowed laid standing fresh) fun result after ready => ?_
    obtain ⟨same,alive⟩ := ready.keeps.assemblies _ below earlier
    rw [finishTree,isCall,if_pos rfl,
      placeResult_branch (branchOfNode_branch evaluable inside kind below listed place) ready.dead ready.unused,same,assembled]
    dsimp only
    by_cases turn : before.length ≠ operations.transferredCount assembly
    · rw [if_pos turn,if_pos turn]
      exact ⟨_,rfl⟩
    · rw [if_neg turn,if_neg turn]
      cases operations.transfer assembly result with
      | none => exact ⟨_,rfl⟩
      | some grown =>
        dsimp only
        show Goes (admitFanouts operations program lowering (branch.rootFrom first + 1) _ >>= _) _ _ _
        rw [branch_idle evaluable inside kind below listed place]
        have apart : (program.fanoutAt (program.nodeAt index).callIndex).operand ≠ branch.rootFrom first := by omega
        have more := Nat.le_add_right first branch.nodeCount
        have keeps : Keeps program (program.fanoutAt (program.nodeAt index).callIndex).operand first
            (first + branch.nodeCount) state { after with
              assemblies := Function.update after.assemblies (program.nodeAt index).callIndex grown
              remainingUses := Function.update after.remainingUses (branch.rootFrom first) 0 } := by
          refine ⟨ready.keeps.values,fun node outside => ?_,fun fanout bounded less => ?_⟩
          · exact (Function.update_of_ne (by omega) _ _).trans (ready.keeps.uses node outside)
          · obtain ⟨kept,still⟩ := ready.keeps.assemblies fanout bounded (Nat.lt_trans less earlier)
            refine ⟨(Function.update_of_ne ?_ _ _).trans kept,still⟩
            rintro rfl
            exact Nat.lt_irrefl _ less
        have later := branches_runs evaluable rest (before ++ [branch.rootFrom first]) _ inside kind below allowedRest
          laidRest (roots.trans (List.append_cons _ _ _)) (keeps.fresh fresh more) (Nat.lt_of_lt_of_le earlier more)
          ((keeps.values _ (.inl earlier)).trans operandLive) (Function.update_self _ _ _) (alive.trans live)
        rw [List.length_append,List.length_singleton] at later
        have spent : Spent first (first + branch.nodeCount) [] { after with
            assemblies := Function.update after.assemblies (program.nodeAt index).callIndex grown
            remainingUses := Function.update after.remainingUses (branch.rootFrom first) 0 } := by
          intro node lower upper absent
          by_cases here : node = branch.rootFrom first
          · rw [here]
            exact ⟨ready.dead,Function.update_self _ _ _⟩
          · obtain ⟨dead,used⟩ := ready.spent node lower (by omega) absent
            exact ⟨dead,(Function.update_of_ne here _ _).trans used⟩
        refine later.mono fun assembly last ⟨keeps',moved,still,spent'⟩ => ?_
        rw [← Nat.add_assoc]
        exact ⟨keeps.trans keeps' more (Nat.le_add_right _ _) (Nat.le_refl _),moved,still,(spent.keeps keeps').append spent'⟩

/-- The nodes of trees, one behind the other. -/
theorem trees_runs (evaluable : Evaluable program lowering) : (trees : List Expr) →
    ∀ {place operand owner first} {state : EvaluationState R V A},
      (∀ tree ∈ trees, ∃ atRoot, vocabulary.Allows place atRoot tree) →
      LaidAllFrom layout program.shape operand trees first → OperandLive place operand owner first state →
      Fresh program first state → (∀ root ∈ rootsFrom trees first, Unfanned program root) →
        Runs (evaluateFrom operations program lowering first (Expr.nodeCounts trees) state)
          (Expr.values operations program lowering owner trees first state.resources)
          (fun values after => Keeps program first first (first + Expr.nodeCounts trees) state after ∧
            List.Forall₂ (Holds after) (rootsFrom trees first) values ∧
            Spent first (first + Expr.nodeCounts trees) (rootsFrom trees first) after)
  | [],_,_,_,_,state,_,_,_,_,_ => by
    rw [Expr.values]
    exact ⟨state,rfl,rfl,Keeps.refl state,.nil,Spent.empty state⟩
  | tree :: rest,_,_,_,first,state,allowed,⟨laid,laidRest⟩,standing,fresh,plain => by
    obtain ⟨_,here⟩ := allowed tree List.mem_cons_self
    obtain ⟨order,next⟩ := tree.rootFrom_within first
    rw [Expr.values,Expr.nodeCounts,evaluateFrom_add]
    refine Goes.bind (tree_steps (plain _ List.mem_cons_self) (tree_goes evaluable tree here laid standing fresh))
      fun value after ⟨keeps,holds,spent⟩ => ?_
    have more := Nat.le_add_right first tree.nodeCount
    have later := trees_runs evaluable rest (fun other member => allowed other (List.mem_cons_of_mem _ member)) laidRest
      (standing.keeps keeps more) (keeps.fresh fresh more) fun root member => plain root (List.mem_cons_of_mem _ member)
    refine later.map fun values last ⟨keeps',holding,spent'⟩ => ?_
    rw [← Nat.add_assoc]
    exact ⟨keeps.trans keeps' more (Nat.le_add_right _ _) more,.cons (keeps'.holds holds (by omega)) holding,
      (spent.keeps keeps').append spent'⟩

end

end evaluation

end Bennu
