import Bennu.LoweringAcceptance

/-! Of what has been parsed, lowering counts one use of every node: each is the argument, the
element, the operand or the branch of one other node, or a root. -/
namespace Bennu
open Forest

variable {program resolved : RewriteProgram} {index : Nat}

/-! ### Counting -/

/-- What lowering counts as uses. -/
def usesOf (program : RewriteProgram) : List Nat :=
  program.arguments ++ program.tupleElements ++ program.fanouts.flatMap (fanoutUses program) ++ program.roots

theorem countUses_useCount (indexes : List Nat) : ∀ nodes : List RewriteLoweringNode,
    (countUses nodes indexes)[index]?.map (fun node => (node.useCount,node.retainedRoot)) =
      nodes[index]?.map fun node => (node.useCount + indexes.count index,node.retainedRoot) := by
  induction indexes with
  | nil => exact fun _ => rfl
  | cons used rest ih =>
    intro nodes
    rw [countUses,List.foldl_cons,← countUses,ih,List.getElem?_modify,List.count_cons]
    cases nodes[index]? with
    | none => rfl
    | some node =>
      by_cases here : used = index
      · simp [here,RewriteLoweringNode.use,Nat.add_comm,Nat.add_left_comm]
      · simp [here]

theorem retainRoots_useCount (roots : List Nat) : ∀ nodes : List RewriteLoweringNode,
    (retainRoots nodes roots)[index]?.map (fun node => (node.useCount,node.retainedRoot)) =
      nodes[index]?.map fun node => (node.useCount + roots.count index,node.retainedRoot || decide (index ∈ roots)) := by
  induction roots with
  | nil =>
    intro nodes
    simp [retainRoots]
  | cons root rest ih =>
    intro nodes
    rw [retainRoots,List.foldl_cons,← retainRoots,ih,List.getElem?_modify,List.count_cons]
    cases nodes[index]? with
    | none => rfl
    | some node =>
      by_cases here : root = index
      · simp [here,RewriteLoweringNode.use,Nat.add_comm,Nat.add_left_comm]
      · simp [here,Ne.symm here]

theorem countUses_flatMap {α : Type} (uses : α → List Nat) (entries : List α) : ∀ nodes,
    entries.foldl (fun nodes entry => countUses nodes (uses entry)) nodes = countUses nodes (entries.flatMap uses) := by
  induction entries with
  | nil => exact fun _ => rfl
  | cons entry rest ih =>
    intro nodes
    rw [List.foldl_cons,ih,List.flatMap_cons,countUses,countUses,countUses,List.foldl_append]

theorem firstLoweringNodes_uses (inside : index < program.nodes.length) :
    (firstLoweringNodes program)[index]?.map (fun node => (node.useCount,node.retainedRoot)) =
      some ((usesOf program).count index,decide (index ∈ program.roots)) := by
  rw [firstLoweringNodes,retainRoots_useCount,countUses_flatMap]
  have merged : countUses (countUses (countUses (program.nodes.map (firstLoweringNode program)) program.arguments)
      program.tupleElements) (program.fanouts.flatMap (fanoutUses program)) =
        countUses (program.nodes.map (firstLoweringNode program))
          (program.arguments ++ program.tupleElements ++ program.fanouts.flatMap (fanoutUses program)) := by
    rw [countUses,countUses,countUses,countUses,List.foldl_append,List.foldl_append]
  have counted := @countUses_useCount index
    (program.arguments ++ program.tupleElements ++ program.fanouts.flatMap (fanoutUses program))
    (program.nodes.map (firstLoweringNode program))
  have first : (firstLoweringNode program program.nodes[index]).useCount = 0 ∧
      (firstLoweringNode program program.nodes[index]).retainedRoot = false := by
    rw [firstLoweringNode]
    split <;> exact ⟨rfl,rfl⟩
  rw [List.getElem?_map,List.getElem?_eq_getElem inside,Option.map_some,Option.map_some,first.1,first.2,Nat.zero_add,
    ← merged] at counted
  obtain ⟨node,found,same⟩ := Option.map_eq_some_iff.mp counted
  obtain ⟨uses,retained⟩ := Prod.mk.inj same
  rw [merged] at found
  rw [merged,found,Option.map_some,uses,retained,Bool.false_or,usesOf]
  simp only [List.count_append]

/-! ### Every node once -/

theorem flatMap_range {α β : Type} (table : List α) (entries : α → List β) :
    (List.range table.length).flatMap (fun place => (table[place]?.map entries).getD []) = table.flatMap entries := by
  rw [List.flatMap_def,List.flatMap_def]
  congr 1
  apply List.ext_getElem
  · simp
  · intro place _ bound
    rw [List.length_map] at bound
    simp [List.getElem?_eq_getElem bound]

/-- The children of a node by its kind. -/
def nodeChildren (program : RewriteProgram) (node : RewriteNode) : List Nat :=
  match node.kind with
  | .primitiveCall =>
    (program.calls[node.callIndex]?.map fun call => slice program.arguments call.firstArgument call.argumentCount).getD []
  | .tupleLiteral => slice program.tupleElements node.firstElement node.elementCount
  | .fanout =>
    (program.fanouts[node.callIndex]?.map fun fanout =>
      fanout.operand :: slice (program.fanoutBranches.map (·.root)) fanout.firstBranch fanout.branchCount).getD []
  | _ => []

theorem children_eq (program : RewriteProgram) (index : Nat) :
    program.children index = (program.nodes[index]?.map (nodeChildren program)).getD [] := by
  rw [RewriteProgram.children]
  cases program.nodes[index]? with
  | none => rfl
  | some node =>
    rw [Option.map_some,Option.getD_some,nodeChildren]
    dsimp only
    cases node.kind
    case primitiveCall =>
      dsimp only
      cases program.calls[node.callIndex]? <;> rfl
    case fanout =>
      dsimp only
      cases program.fanouts[node.callIndex]? <;> rfl
    all_goals rfl

/-- The children of all nodes are those of calls, tuples and fanouts. -/
theorem nodeChildren_kinds (program : RewriteProgram) (nodes : List RewriteNode) :
    (nodes.flatMap (nodeChildren program)).Perm
      ((nodes.filter (·.kind == .primitiveCall)).flatMap (nodeChildren program) ++
        (nodes.filter (·.kind == .tupleLiteral)).flatMap (nodeChildren program) ++
        (nodes.filter (·.kind == .fanout)).flatMap (nodeChildren program)) := by
  rw [List.perm_iff_count]
  intro child
  induction nodes with
  | nil => rfl
  | cons node rest ih =>
    simp only [List.count_append] at ih ⊢
    rw [List.flatMap_cons,List.count_append,ih,List.filter_cons,List.filter_cons,List.filter_cons]
    cases kind : node.kind <;> simp [kind,nodeChildren,List.count_append] <;> omega

section forested

variable (forested : program.Forested)
include forested

theorem calls_children :
    (program.nodes.filter (·.kind == .primitiveCall)).flatMap (nodeChildren program) = program.arguments := by
  have entries : (program.nodes.filter (·.kind == .primitiveCall)).flatMap (nodeChildren program) =
      ((program.nodes.filter (·.kind == .primitiveCall)).map (·.callIndex)).flatMap fun place =>
        (program.calls[place]?.map fun call => slice program.arguments call.firstArgument call.argumentCount).getD [] := by
    rw [List.flatMap_map]
    refine List.flatMap_congr fun node member => ?_
    have kind : node.kind = .primitiveCall := by simpa using (List.mem_filter.mp member).2
    rw [nodeChildren,kind]
  rw [entries,forested.callNodes,flatMap_range]
  have covered := forested.argumentRanges.flatten (Nat.le_refl program.arguments.length)
  rw [List.flatMap_map] at covered
  simpa [slice] using covered

theorem tuples_children :
    (program.nodes.filter (·.kind == .tupleLiteral)).flatMap (nodeChildren program) = program.tupleElements := by
  have covered := forested.tupleRanges.flatten (Nat.le_refl program.tupleElements.length)
  rw [List.flatMap_map] at covered
  rw [show program.tupleElements = (program.tupleElements.drop 0).take (program.tupleElements.length - 0) by simp,← covered]
  refine List.flatMap_congr fun node member => ?_
  have kind : node.kind = .tupleLiteral := by simpa using (List.mem_filter.mp member).2
  rw [nodeChildren,kind]
  simp [slice]

theorem fanouts_children :
    (program.nodes.filter (·.kind == .fanout)).flatMap (nodeChildren program) =
      program.fanouts.flatMap (fanoutUses program) := by
  have entries : (program.nodes.filter (·.kind == .fanout)).flatMap (nodeChildren program) =
      ((program.nodes.filter (·.kind == .fanout)).map (·.callIndex)).flatMap fun place =>
        (program.fanouts[place]?.map fun fanout =>
          fanout.operand :: slice (program.fanoutBranches.map (·.root)) fanout.firstBranch fanout.branchCount).getD [] := by
    rw [List.flatMap_map]
    refine List.flatMap_congr fun node member => ?_
    have kind : node.kind = .fanout := by simpa using (List.mem_filter.mp member).2
    rw [nodeChildren,kind]
  rw [entries,forested.fanoutNodes,flatMap_range]
  refine List.flatMap_congr fun fanout member => ?_
  have full : (slice (program.fanoutBranches.map (·.root)) fanout.firstBranch fanout.branchCount).length =
      fanout.branchCount :=
    slice_length (by rw [List.length_map]; exact (forested.branchRanges.within (List.mem_map_of_mem member)).2)
  rw [fanoutUses,← range_slice 0 full]
  congr 1
  refine List.map_congr_left fun position _ => ?_
  rw [branchAt_root]
  rfl

/-- What lowering counts as uses are the nodes, each once. -/
theorem usesOf_perm : (usesOf program).Perm (List.range program.nodes.length) := by
  have once := forested.forest.once
  have children : (List.range program.nodes.length).flatMap program.children =
      program.nodes.flatMap (nodeChildren program) := by
    rw [← flatMap_range program.nodes]
    exact List.flatMap_congr fun index _ => children_eq program index
  rw [children] at once
  have kinds := nodeChildren_kinds program program.nodes
  rw [calls_children forested,tuples_children forested,fanouts_children forested] at kinds
  exact (kinds.symm.append_right program.roots).trans once

end forested

/-! ### Later phases -/

/-- What the loop of phase 5 settles keeps the uses of the node. -/
theorem typeVerdict_uses {typed : TypedNodes} {node : RewriteLoweringNode}
    (settles : typeVerdict program typed index = .settles node) :
    (node.useCount,node.retainedRoot) = ((typed.nodeAt index).useCount,(typed.nodeAt index).retainedRoot) := by
  have tuple (settles : tupleVerdict program typed index (program.nodeAt index) = .settles node) :
      (node.useCount,node.retainedRoot) = ((typed.nodeAt index).useCount,(typed.nodeAt index).retainedRoot) := by
    rw [tupleVerdict] at settles
    dsimp only at settles
    split at settles
    · cases settles
      rfl
    · cases settles
  rw [typeVerdict] at settles
  cases kind : (program.nodeAt index).kind <;> rw [kind] at settles
  case placeholder =>
    dsimp only at settles
    rw [placeholderVerdict] at settles
    split at settles
    · cases settles
    · cases settles
      rfl
  case tupleLiteral => exact tuple settles
  case fanout => exact tuple settles
  case primitiveCall =>
    obtain ⟨descriptor,-,-,-,-,signature,-,rfl⟩ := callVerdict_settles.mp settles
    rfl
  all_goals
    cases settles
    rfl

theorem known_uses (inside : index < program.nodes.length) :
    ((program.known.nodeAt index).useCount,(program.known.nodeAt index).retainedRoot) =
      ((usesOf program).count index,decide (index ∈ program.roots)) := by
  have first := firstLoweringNodes_uses inside
  obtain ⟨node,found,uses⟩ := Option.map_eq_some_iff.mp first
  have start : (firstTypes program).nodeAt index = node := by
    rw [firstTypes,TypedNodes.nodeAt,List.getD_eq_getElem?_getD,found,Option.getD_some]
  have before := (@knownTypes_earlier program index _ (Nat.le_refl index)).1
  obtain ⟨after,-⟩ := @knownTypes_later program index _ (Nat.lt_succ_self index) _ inside
  rw [RewriteProgram.known,after,knownTypes_succ,knownStep]
  cases verdict : typeVerdict program (knownTypes program index) index with
  | settles node' =>
    have kept := typeVerdict_uses verdict
    rw [before,start,uses] at kept
    have bound : index < (knownTypes program index).nodes.length := by rwa [(knownTypes_length index).1]
    simpa [TypedNodes.settle,TypedNodes.nodeAt,List.getD_eq_getElem?_getD,bound] using kept
  | _ =>
    dsimp only
    rw [before,start]
    exact uses

theorem shapedNodes_uses (forested : program.Forested) (inside : index < program.nodes.length) :
    (loweringNodeAt (shapedNodes program program.nodes.length) index).useCount = 1 ∧
      (loweringNodeAt (shapedNodes program program.nodes.length) index).retainedRoot = decide (index ∈ program.roots) := by
  have known := known_uses inside
  rw [(usesOf_perm forested).count_eq,List.nodup_range.count,if_pos (List.mem_range.mpr inside),
    ← @shapedNodes_view program index _ (fun node => (node.useCount,node.retainedRoot)) (fun _ _ _ _ => rfl) inside] at known
  exact Prod.mk.inj known

/-- In the lowering of what has been parsed and resolved every node is used once, and the nodes
that are retained are the roots. -/
theorem lower_uses {parser : RewriteDoubleParser} {source : Text} {host : TypeHost} {lowered : RewriteLoweringProgram}
    (parsed : parseRewrite parser source = some (.ok program))
    (resolution : resolveRewritePrimitives program = .ok resolved)
    (lowers : lowerRewriteProgram host resolved = .ok lowered) :
    lowered.nodes.length = program.nodes.length ∧
    ∀ index < lowered.nodes.length, (loweringNodeAt lowered.nodes index).useCount = 1 ∧
      (loweringNodeAt lowered.nodes index).retainedRoot = decide (index ∈ lowered.roots) := by
  obtain ⟨abstract,inLanguage,compiled,-⟩ := parseRewrite_sound parser source program parsed
  have forested := resolved_forested inLanguage compiled resolution
  have canonical := lower_faults host (resolved_calls forested resolution) (forested_roots forested)
  rw [lowers] at canonical
  obtain ⟨-,-,-,rfl⟩ := canonical
  have nodes : resolved.nodes.length = program.nodes.length := by
    obtain ⟨-,rfl⟩ := resolved_eq resolution
    rfl
  exact ⟨shapedNodes_length.trans nodes,fun index inside =>
    shapedNodes_uses forested (Nat.lt_of_lt_of_eq inside shapedNodes_length)⟩

theorem lower_uses_spreading : ∃ program resolved lowered,
    parseRewrite refusingParser spreadingProgram.render = some (.ok program) ∧
      resolveRewritePrimitives program = .ok resolved ∧ lowerRewriteProgram grantingHost resolved = .ok lowered ∧
      ∀ index < lowered.nodes.length, (loweringNodeAt lowered.nodes index).useCount = 1 := by
  obtain ⟨program,resolved,lowered,parsed,-,resolution,lowers⟩ := spreading_lowers
  exact ⟨program,resolved,lowered,parsed,resolution,lowers,fun index inside =>
    ((lower_uses parsed resolution lowers).2 index inside).1⟩

end Bennu
