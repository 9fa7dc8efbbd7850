import Bennu.LoweringTypes

/-! The nodes of a tree have the types of the tree: lowering finds no fault of arity or types
exactly when every root has a type. -/
namespace Bennu
open Forest

variable {program : RewriteProgram} {layout : Layout} {vocabulary : Vocabulary} {index child : Nat}
  {type : LoweredType} {types : List LoweredType} {ids : List Nat}

/-! ### Types of nodes -/

/-- A node that has a type, and what is recorded of it. -/
structure Recorded (program : RewriteProgram) (type : LoweredType) (index : Nat) : Prop where
  inside : index < program.nodes.length
  available : program.known.available index = true
  typing : (program.known.nodeAt index).typing = (type.argumentType,type.count,type.tree)
  structural : isStructural (structuralTuple program index).kind = type.isTuple
  plain : type.argumentType.cardinality = .tuple → type.isTuple = true

def structuralElements (program : RewriteProgram) (index : Nat) : List Nat :=
  elementNodes program (structuralTuple program index)

mutual

/-- A node has a type, and if it is that of a tuple, so have the elements. -/
def HasType (program : RewriteProgram) : LoweredType → Nat → Prop
  | .plain cardinality elementType elementCount container,index =>
    Recorded program (.plain cardinality elementType elementCount container) index
  | .tuple elements,index =>
    Recorded program (.tuple elements) index ∧ HaveTypes program elements (structuralElements program index)

def HaveTypes (program : RewriteProgram) : List LoweredType → List Nat → Prop
  | [],[] => True
  | type :: types,index :: indexes => HasType program type index ∧ HaveTypes program types indexes
  | _,_ => False

end

theorem HasType.recorded (has : HasType program type index) : Recorded program type index := by
  cases type with
  | plain => simpa only [HasType] using has
  | tuple =>
    simp only [HasType] at has
    exact has.1

theorem HaveTypes.recorded (have' : HaveTypes program types ids) :
    List.Forall₂ (Recorded program) types ids := by
  induction types generalizing ids with
  | nil =>
    cases ids with
    | nil => exact .nil
    | cons => simp [HaveTypes] at have'
  | cons type rest ih =>
    cases ids with
    | nil => simp [HaveTypes] at have'
    | cons index ids =>
      simp only [HaveTypes] at have'
      exact .cons have'.1.recorded (ih have'.2)

theorem HaveTypes.available (have' : HaveTypes program types ids) :
    ∀ id ∈ ids, program.known.available id = true := by
  have recorded := have'.recorded
  clear have'
  induction recorded with
  | nil =>
    intro id member
    cases member
  | cons first _ ih =>
    intro id member
    rcases List.mem_cons.mp member with rfl | member
    · exact first.available
    · exact ih id member

theorem HaveTypes.argumentTypes (have' : HaveTypes program types ids) :
    (ids.map fun id => (program.known.nodeAt id).argumentType) = types.map (·.argumentType) := by
  have recorded := have'.recorded
  clear have'
  induction recorded with
  | nil => rfl
  | cons first _ ih =>
    rw [List.map_cons,List.map_cons,ih]
    exact congrArg (· :: _) (congrArg Prod.fst first.typing)

theorem HaveTypes.trees (have' : HaveTypes program types ids) :
    (ids.map fun id => (program.known.nodeAt id).structuralType) = LoweredType.trees types := by
  have recorded := have'.recorded
  clear have'
  rw [LoweredType.trees_eq]
  induction recorded with
  | nil => rfl
  | cons first _ ih =>
    rw [List.map_cons,List.map_cons,ih]
    exact congrArg (· :: _) (congrArg (·.2.2) first.typing)

/-- Of a type that `infer` gives or does not give: the node has it, or none. -/
def Inferred (program : RewriteProgram) (result : Option LoweredType) (index : Nat) : Prop :=
  match result with
  | some type => HasType program type index
  | none => index < program.nodes.length ∧ program.known.available index = false

def InferredAll (program : RewriteProgram) (result : Option (List LoweredType)) (ids : List Nat) : Prop :=
  match result with
  | some types => HaveTypes program types ids
  | none => ∃ id ∈ ids, program.known.available id = false

theorem Inferred.inside {result : Option LoweredType} (inferred : Inferred program result index) :
    index < program.nodes.length := by
  cases result with
  | none => exact inferred.1
  | some type => exact inferred.recorded.inside

theorem Inferred.available_iff {result : Option LoweredType} (inferred : Inferred program result index) :
    program.known.available index = true ↔ result.isSome = true := by
  cases result with
  | none => simp [inferred.2]
  | some type => simp [inferred.recorded.available]

theorem InferredAll.cons {result : Option LoweredType} {results : Option (List LoweredType)}
    (first : Inferred program result index) (later : InferredAll program results ids) :
    InferredAll program (result.bind fun type => results.map fun later => type :: later) (index :: ids) := by
  cases result with
  | none => exact ⟨index,List.mem_cons_self,first.2⟩
  | some type =>
    cases results with
    | none =>
      obtain ⟨id,member,missing⟩ := later
      exact ⟨id,List.mem_cons_of_mem _ member,missing⟩
    | some types =>
      simp only [Option.bind_some,Option.map_some,InferredAll,HaveTypes]
      exact ⟨first,later⟩

/-! ### Tables of shapes -/

theorem nodeAt_of_shape {node : NodeShape} (found : program.shape.nodes[index]? = some node) :
    index < program.nodes.length ∧ (program.nodeAt index).shape = node ∧
      program.nodes[index]? = some (program.nodeAt index) := by
  rw [RewriteProgram.shape,List.getElem?_map,Option.map_eq_some_iff] at found
  obtain ⟨written,found,rfl⟩ := found
  have inside := (List.getElem?_eq_some_iff.mp found).1
  have here : program.nodeAt index = written := by
    rw [RewriteProgram.nodeAt,List.getD_eq_getElem?_getD,found,Option.getD_some]
  exact ⟨inside,by rw [here],by rw [here,found]⟩

theorem callAt_of_shape {call : CallShape} (found : program.shape.calls[index]? = some call) :
    program.callAt index ∈ program.calls ∧ (program.callAt index).shape program.source = call := by
  rw [RewriteProgram.shape,List.getElem?_map,Option.map_eq_some_iff] at found
  obtain ⟨written,found,rfl⟩ := found
  have here : program.callAt index = written := by
    rw [RewriteProgram.callAt,List.getD_eq_getElem?_getD,found,Option.getD_some]
  exact ⟨here ▸ List.mem_of_getElem? found,by rw [here]⟩

theorem fanoutAt_of_shape {fanout : FanoutShape} (found : program.shape.fanouts[index]? = some fanout) :
    (program.fanoutAt index).shape = fanout := by
  rw [RewriteProgram.shape,List.getElem?_map,Option.map_eq_some_iff] at found
  obtain ⟨written,found,rfl⟩ := found
  rw [RewriteProgram.fanoutAt,List.getD_eq_getElem?_getD,found,Option.getD_some]

theorem branchAt_root (program : RewriteProgram) (index : Nat) :
    (program.branchAt index).root = program.shape.branchRoots.getD index 0 := by
  rw [RewriteProgram.branchAt,RewriteProgram.shape,List.getD_eq_getElem?_getD,List.getD_eq_getElem?_getD,
    List.getElem?_map]
  cases program.fanoutBranches[index]? <;> rfl

theorem LaidAll.below {operand : Option Nat} {trees : List Expr} {bound : Nat} {shape : ProgramShape}
    (laid : LaidAll layout shape operand trees ids bound) : ∀ id ∈ ids, id < bound := by
  induction trees generalizing ids with
  | nil =>
    cases ids with
    | nil =>
      intro id member
      cases member
    | cons => simp [LaidAll] at laid
  | cons tree rest ih =>
    cases ids with
    | nil => simp [LaidAll] at laid
    | cons index ids =>
      simp only [LaidAll] at laid
      intro id member
      rcases List.mem_cons.mp member with rfl | member
      · exact laid.1.1
      · exact ih laid.2 id member

/-! ### Leaves and tuples -/

def isLeaf (kind : RewriteNodeKind) : Bool :=
  match kind with
  | .scalarLiteral | .vectorLiteral | .parameterReference | .unresolvedName => true
  | _ => false

/-- A leaf keeps the type it starts with. -/
theorem leaf_recorded (inside : index < program.nodes.length) (leaf : isLeaf (program.nodeAt index).kind = true)
    (typing : (baseLoweringNode (program.nodeAt index)).typing = (type.argumentType,type.count,type.tree))
    (plain : type.isTuple = false) (scalar : type.argumentType.cardinality ≠ .tuple) :
    Recorded program type index := by
  have settles : typeVerdict program (knownTypes program index) index =
      .settles ((knownTypes program index).nodeAt index) := by
    rw [typeVerdict]
    cases kind : (program.nodeAt index).kind <;> rw [kind] at leaf <;> first | rfl | cases leaf
  obtain ⟨available,here⟩ := known_of_settles inside settles
  refine ⟨inside,available,?_,?_,fun tuple => absurd tuple scalar⟩
  · rw [here,(knownTypes_earlier (Nat.le_refl _)).1,firstTypes_typing inside,typing]
  · rw [plain,structuralTuple]
    cases kind : (program.nodeAt index).kind <;> rw [kind] at leaf <;>
      first | (cases leaf; done) | simp [kind,isStructural]

/-- A literal or a fanout has the type of its elements, when these have types. -/
theorem structural_infers (inside : index < program.nodes.length)
    (kind : isStructural (program.nodeAt index).kind = true) (element : (program.nodeAt index).elementType = .boolean)
    (count : (program.nodeAt index).elementCount = ids.length) (elements : elementNodes program (program.nodeAt index) = ids)
    (below : ∀ id ∈ ids, id < index) {result : Option (List LoweredType)} (inferred : InferredAll program result ids) :
    Inferred program (result.map .tuple) index := by
  have verdict : typeVerdict program (knownTypes program index) index =
      tupleVerdict program (knownTypes program index) index (program.nodeAt index) := by
    rw [typeVerdict]
    cases same : (program.nodeAt index).kind <;> rw [same] at kind <;> first | rfl | cases kind
  have self : structuralTuple program index = program.nodeAt index := by
    rw [structuralTuple]
    rw [if_neg]
    intro same
    rw [same] at kind
    cases kind
  cases result with
  | none =>
    obtain ⟨id,member,missing⟩ := inferred
    refine ⟨inside,unknown_of_waits inside fun node settles => ?_⟩
    rw [verdict,tupleVerdict,elements] at settles
    dsimp only at settles
    split at settles
    · rename_i all
      have available := List.all_eq_true.mp all id member
      rw [(known_before (below id member) inside).1,missing] at available
      cases available
    · cases settles
  | some types =>
    have all : ids.all (knownTypes program index).available = true := by
      rw [List.all_eq_true]
      intro id member
      rw [(known_before (below id member) inside).1]
      exact HaveTypes.available inferred id member
    have trees : ids.map (fun id => ((knownTypes program index).nodeAt id).structuralType) = LoweredType.trees types := by
      rw [← HaveTypes.trees inferred]
      exact List.map_congr_left fun id member => by rw [(known_before (below id member) inside).2]
    obtain ⟨available,here⟩ := known_of_settles inside
      (verdict.trans (by rw [tupleVerdict,elements]; dsimp only; rw [if_pos all,trees]))
    have first := firstTypes_typing inside
    have length := (HaveTypes.recorded inferred).length_eq
    have base : (baseLoweringNode (program.nodeAt index)).cardinality = .tuple := by
      rw [baseLoweringNode,if_pos kind]
    have counted : (baseLoweringNode (program.nodeAt index)).elementCount = types.length := by
      rw [length,← count,baseLoweringNode]
      simp [kind]
    have typed : (baseLoweringNode (program.nodeAt index)).elementType = .boolean := element
    simp only [RewriteLoweringNode.typing,RewriteLoweringNode.argumentType,base,counted,typed,Prod.mk.injEq,
      ArgumentType.mk.injEq] at first
    simp only [Option.map_some,Inferred,HasType]
    refine ⟨⟨inside,available,?_,?_,fun _ => rfl⟩,?_⟩
    · rw [here,(knownTypes_earlier (Nat.le_refl _)).1]
      simp only [RewriteLoweringNode.typing,RewriteLoweringNode.argumentType,first.1.1,first.1.2,first.2.1,
        LoweredType.argumentType,LoweredType.count,LoweredType.tree]
    · rw [self,kind]
      rfl
    · rw [structuralElements,self,elements]
      exact inferred

/-! ### Calls -/

/-- A call has the type of its signature, when its arguments have types. -/
theorem call_infers {name : Text} (inside : index < program.nodes.length)
    (kind : (program.nodeAt index).kind = .primitiveCall)
    (described : callDescriptor (program.callAt (program.nodeAt index).callIndex) = findPrimitive name)
    (operands : ∀ operand, prefixTupleOperand program (program.callAt (program.nodeAt index).callIndex) = some operand →
      operand < index ∧ program.known.available operand = true)
    (arguments : semanticArguments program (program.callAt (program.nodeAt index).callIndex) = ids)
    (below : ∀ id ∈ ids, id < index) (have' : HaveTypes program types ids) :
    Inferred program (callType name types) index := by
  have verdict : typeVerdict program (knownTypes program index) index =
      callVerdict program (knownTypes program index) index (program.nodeAt index) := by
    rw [typeVerdict]
    rw [kind]
  have length := have'.recorded.length_eq
  have arguments' : (ids.map fun id => ((knownTypes program index).nodeAt id).argumentType) =
      types.map (·.argumentType) := by
    rw [← have'.argumentTypes]
    exact List.map_congr_left fun id member => by rw [(known_before (below id member) inside).2]
  have settles (lowered : RewriteLoweringNode) :
      typeVerdict program (knownTypes program index) index = .settles lowered ↔
        ∃ descriptor, findPrimitive name = some descriptor ∧ arityExists descriptor types.length = true ∧
          ∃ signature, loweringSignature descriptor (types.map (·.argumentType)) = some signature ∧
            lowered = loweredCall program (program.callAt (program.nodeAt index).callIndex) descriptor signature
              ((knownTypes program index).nodeAt index) := by
    rw [verdict,callVerdict_settles,described,arguments,arguments',length]
    refine exists_congr fun descriptor => and_congr_right fun _ => ?_
    constructor
    · rintro ⟨-,arity,-,chosen⟩
      exact ⟨arity,chosen⟩
    · rintro ⟨arity,chosen⟩
      refine ⟨fun operand spread => ?_,arity,fun id member => ?_,chosen⟩
      · rw [(known_before (operands operand spread).1 inside).1]
        exact (operands operand spread).2
      · rw [(known_before (below id member) inside).1]
        exact have'.available id member
  cases found : callType name types with
  | none =>
    refine ⟨inside,unknown_of_waits inside fun lowered settled => ?_⟩
    obtain ⟨descriptor,primitive,arity,signature,chosen,-⟩ := (settles lowered).mp settled
    rw [callType,primitive,Option.bind_some,if_pos arity,chosen] at found
    cases found
  | some type =>
    obtain ⟨descriptor,primitive,rest⟩ := Option.bind_eq_some_iff.mp found
    split at rest
    · rename_i arity
      obtain ⟨signature,chosen,rfl⟩ := Option.map_eq_some_iff.mp rest
      obtain ⟨available,here⟩ := known_of_settles inside
        ((settles _).mpr ⟨descriptor,primitive,arity,signature,chosen,rfl⟩)
      have first := congrArg (·.2.1) (firstTypes_typing inside)
      have one : (baseLoweringNode (program.nodeAt index)).elementCount = 1 := by
        rw [baseLoweringNode,kind]
        rfl
      simp only [RewriteLoweringNode.typing,one] at first
      simp only [Inferred,HasType]
      refine ⟨inside,available,?_,?_,?_⟩
      · rw [here,(knownTypes_earlier (Nat.le_refl _)).1]
        simp only [RewriteLoweringNode.typing,RewriteLoweringNode.argumentType,loweredCall,first,
          LoweredType.argumentType,LoweredType.count,LoweredType.tree]
      · rw [structuralTuple]
        rw [if_neg (by rw [kind]; decide),kind]
        rfl
      · intro tuple
        simp only [LoweredType.argumentType] at tuple
        split at tuple <;> cases tuple
    · cases rest

/-- A call without types of its arguments has none. -/
theorem call_waits (inside : index < program.nodes.length) (kind : (program.nodeAt index).kind = .primitiveCall)
    (missing : (∃ operand, prefixTupleOperand program (program.callAt (program.nodeAt index).callIndex) = some operand ∧
        operand < index ∧ program.known.available operand = false) ∨
      ∃ id ∈ semanticArguments program (program.callAt (program.nodeAt index).callIndex),
        id < index ∧ program.known.available id = false) :
    Inferred program none index := by
  refine ⟨inside,unknown_of_waits inside fun lowered settles => ?_⟩
  rw [typeVerdict] at settles
  rw [kind] at settles
  obtain ⟨descriptor,-,operands,-,arguments,-⟩ := callVerdict_settles.mp settles
  rcases missing with ⟨operand,spread,before,missing⟩ | ⟨id,member,before,missing⟩
  · have available := operands operand spread
    rw [(known_before before inside).1,missing] at available
    cases available
  · have available := arguments id member
    rw [(known_before before inside).1,missing] at available
    cases available

/-! ### The nodes below a node -/

theorem nodes_nodeAt (inside : index < program.nodes.length) : program.nodes[index]? = some (program.nodeAt index) := by
  rw [RewriteProgram.nodeAt,List.getD_eq_getElem _ _ inside,List.getElem?_eq_getElem inside]

theorem tuple_elements {node : RewriteNode} (kind : node.kind = .tupleLiteral)
    (full : (slice program.tupleElements node.firstElement node.elementCount).length = node.elementCount) :
    elementNodes program node = slice program.tupleElements node.firstElement node.elementCount := by
  rw [← range_slice 0 full,elementNodes]
  refine List.map_congr_left fun position _ => ?_
  rw [elementNode,if_neg (by rw [kind]; decide)]

theorem fanout_elements {node : RewriteNode} (kind : node.kind = .fanout)
    (full : (slice program.shape.branchRoots (program.fanoutAt node.callIndex).firstBranch node.elementCount).length =
      node.elementCount) :
    elementNodes program node =
      slice program.shape.branchRoots (program.fanoutAt node.callIndex).firstBranch node.elementCount := by
  rw [← range_slice 0 full,elementNodes]
  refine List.map_congr_left fun position _ => ?_
  rw [elementNode,if_pos kind,branchAt_root]

section forested

variable (forested : program.Forested)
include forested

theorem tuple_children (inside : index < program.nodes.length) (kind : (program.nodeAt index).kind = .tupleLiteral) :
    program.children index = elementNodes program (program.nodeAt index) := by
  have member := List.mem_of_getElem? (nodes_nodeAt inside)
  have listed : ((program.nodeAt index).firstElement,(program.nodeAt index).elementCount) ∈
      (program.nodes.filter (·.kind == .tupleLiteral)).map fun node => (node.firstElement,node.elementCount) :=
    List.mem_map.mpr ⟨_,List.mem_filter.mpr ⟨member,by simp [kind]⟩,rfl⟩
  rw [tuple_elements kind (slice_length (forested.tupleRanges.within listed).2),RewriteProgram.children,
    nodes_nodeAt inside]
  dsimp only
  rw [kind]

theorem fanout_children (inside : index < program.nodes.length) (kind : (program.nodeAt index).kind = .fanout) :
    program.children index = (program.fanoutAt (program.nodeAt index).callIndex).operand ::
      elementNodes program (program.nodeAt index) ∧
    program.fanoutAt (program.nodeAt index).callIndex ∈ program.fanouts ∧
    elementNodes program (program.nodeAt index) = slice (program.fanoutBranches.map (·.root))
      (program.fanoutAt (program.nodeAt index).callIndex).firstBranch
      (program.fanoutAt (program.nodeAt index).callIndex).branchCount := by
  have member := List.mem_of_getElem? (nodes_nodeAt inside)
  obtain ⟨fanout,found,-,count⟩ := forested.fanoutRanges _ member kind
  have here : program.fanoutAt (program.nodeAt index).callIndex = fanout := by
    rw [RewriteProgram.fanoutAt,List.getD_eq_getElem?_getD,found,Option.getD_some]
  have listed := List.mem_of_getElem? found
  have full : (slice (program.fanoutBranches.map (·.root)) fanout.firstBranch fanout.branchCount).length =
      fanout.branchCount :=
    slice_length (by rw [List.length_map]; exact (forested.branchRanges.within (List.mem_map_of_mem listed)).2)
  have elements : elementNodes program (program.nodeAt index) = _ :=
    fanout_elements kind (by rw [here,count]; exact full)
  rw [here,count] at elements
  refine ⟨?_,here ▸ listed,by rw [here]; exact elements⟩
  rw [elements,here,RewriteProgram.children,nodes_nodeAt inside]
  dsimp only
  rw [kind]
  dsimp only
  rw [found]
  rfl

theorem elements_below (inside : index < program.nodes.length)
    (kind : isStructural (program.nodeAt index).kind = true) :
    ∀ id ∈ elementNodes program (program.nodeAt index), id ∈ program.children index := by
  intro id member
  cases same : (program.nodeAt index).kind <;> rw [same] at kind
  case tupleLiteral => rwa [tuple_children forested inside same]
  case fanout =>
    rw [(fanout_children forested inside same).1]
    exact List.mem_cons_of_mem _ member
  all_goals cases kind

theorem structuralElements_below (inside : index < program.nodes.length)
    (kind : isStructural (structuralTuple program index).kind = true) :
    ∀ id ∈ structuralElements program index, id < index := by
  intro id member
  rw [structuralElements] at member
  rw [structuralTuple] at kind member
  split at kind
  · rename_i placeholder
    rw [if_pos placeholder] at member
    have behind := forested.behind index _ (nodes_nodeAt inside) placeholder
    have child := elements_below forested (Nat.lt_trans behind inside) kind id member
    exact Nat.lt_trans (forested.forest.descends _ _ child) behind
  · rename_i other
    rw [if_neg other] at member
    exact forested.forest.descends _ _ (elements_below forested inside kind id member)

/-- A prefix call with a tuple behind its operand spreads it. -/
theorem prefixTupleOperand_eq {call : RewriteCall} (prefixed : call.callSyntax = .prefixed)
    (count : call.argumentCount = 1) (children : slice program.arguments call.firstArgument 1 = [child])
    (inside : child < program.nodes.length) :
    prefixTupleOperand program call =
      if isStructural (structuralTuple program child).kind = true then some child else none := by
  have full : (slice program.arguments call.firstArgument 1).length = 1 := by rw [children]; rfl
  have operand := @range_slice _ program.arguments call.firstArgument 1 0 full
  rw [children] at operand
  have same : program.arguments.getD call.firstArgument 0 = child := by simpa using operand
  rw [slice,List.length_take,List.length_drop] at full
  have present : ¬program.arguments.length ≤ call.firstArgument := by omega
  rw [prefixTupleOperand,if_neg (by simp [prefixed,count,present]),same]
  dsimp only
  rw [if_neg (Nat.not_le_of_lt inside),structuralTuple]
  by_cases placeholder : (program.nodeAt child).kind = .placeholder
  · have behind := Nat.lt_trans (forested.behind child _ (nodes_nodeAt inside) placeholder) inside
    rw [if_pos placeholder]
    simp [placeholder,behind,isStructural]
  · rw [if_neg placeholder]
    simp [placeholder]

end forested

theorem direct_arguments {call : RewriteCall} (direct : prefixTupleOperand program call = none)
    (full : (slice program.arguments call.firstArgument call.argumentCount).length = call.argumentCount) :
    semanticArguments program call = slice program.arguments call.firstArgument call.argumentCount := by
  rw [← range_slice 0 full,semanticArguments,semanticArgumentCount,direct]
  refine List.map_congr_left fun position _ => ?_
  rw [semanticArgumentNode,direct]

theorem spread_arguments {call : RewriteCall} (spread : prefixTupleOperand program call = some child) :
    semanticArguments program call = structuralElements program child := by
  rw [semanticArguments,semanticArgumentCount,spread,structuralElements,elementNodes]
  refine List.map_congr_left fun position _ => ?_
  rw [semanticArgumentNode,spread]
  rfl

/-! ### Trees -/

/-- Names stand for the primitives that resolution has found. -/
def Named (program : RewriteProgram) : Prop :=
  ∀ call ∈ program.calls, callDescriptor call = findPrimitive (spanSpelling program.source call.nameSpan)

/-- Inside of a branch the operand is a node whose type is known to be `operandType`. -/
def Environment (program : RewriteProgram) (place : Place) (operand : Option Nat) (operandType : Option LoweredType) :
    Prop :=
  place = .branch → ∃ index, operand = some index ∧ (program.nodeAt index).kind ≠ .placeholder ∧
    Inferred program operandType index

theorem laid_unlike {place : Place} {atRoot : Bool} {tree : Expr} {operand : Option Nat}
    (allowed : vocabulary.Allows place atRoot tree) (outside : place ≠ .branch)
    (laid : Laid layout program.shape operand tree index) : (program.nodeAt index).kind ≠ .placeholder := by
  have unlike {node : NodeShape} (found : program.shape.nodes[index]? = some node) (kind : node.kind ≠ .placeholder) :
      (program.nodeAt index).kind ≠ .placeholder := by
    obtain ⟨-,rfl,-⟩ := nodeAt_of_shape found
    exact kind
  cases tree with
  | scalar => exact unlike laid (by intro same; cases same)
  | vector =>
    obtain ⟨_,_,laid,_⟩ := laid
    exact unlike laid (by intro same; cases same)
  | parameter => exact unlike laid (by intro same; cases same)
  | unresolved => exact unlike laid (by intro same; cases same)
  | bracketCall =>
    obtain ⟨_,_,_,laid,_⟩ := laid
    exact unlike laid (by intro same; cases same)
  | prefixCall =>
    obtain ⟨_,_,_,laid,_⟩ := laid
    exact unlike laid (by intro same; cases same)
  | tuple =>
    obtain ⟨_,_,laid,_⟩ := laid
    exact unlike laid (by intro same; cases same)
  | placeholder => exact absurd allowed outside
  | fanout =>
    obtain ⟨_,_,_,_,laid,_⟩ := laid
    exact unlike laid (by intro same; cases same)

theorem base_typing {node : RewriteNode} {shape : NodeShape} (same : node.shape = shape) :
    (baseLoweringNode node).typing =
      (⟨if isStructural shape.kind then .tuple else if shape.kind == .vectorLiteral then .staticVector else .scalar,
        shape.elementType⟩,
        if shape.kind == .vectorLiteral || isStructural shape.kind then shape.elementCount else 1,
        if shape.kind == .vectorLiteral then .vector shape.elementType else .scalar shape.elementType) := by
  subst same
  rfl

theorem leaf_infers {shape : NodeShape} (found : program.shape.nodes[index]? = some shape)
    (leaf : isLeaf shape.kind = true) {cardinality : RewriteCardinality} {elementType : ScalarType} {count : Nat}
    {container : ContainerKind} (scalar : cardinality ≠ .tuple)
    (typing : ((⟨if isStructural shape.kind then .tuple else if shape.kind == .vectorLiteral then .staticVector
          else .scalar,shape.elementType⟩ : ArgumentType),
        (if shape.kind == .vectorLiteral || isStructural shape.kind then shape.elementCount else 1),
        (if shape.kind == .vectorLiteral then TypeTree.vector shape.elementType else .scalar shape.elementType)) =
      (⟨cardinality,elementType⟩,count,typeTreeOf ⟨container,elementType⟩)) :
    Inferred program (some (.plain cardinality elementType count container)) index := by
  obtain ⟨inside,same,-⟩ := nodeAt_of_shape found
  simp only [Inferred,HasType]
  refine leaf_recorded inside ?_ ?_ rfl scalar
  · rw [← same] at leaf
    exact leaf
  · rw [base_typing same,typing]
    rfl

theorem placeholder_infers (forested : program.Forested) {operand : Nat} {operandType : Option LoweredType}
    (found : program.shape.nodes[index]? = some (ProgramShape.placeholderNode operand))
    (unlike : (program.nodeAt operand).kind ≠ .placeholder) (inferred : Inferred program operandType operand) :
    Inferred program operandType index := by
  obtain ⟨inside,same,here⟩ := nodeAt_of_shape found
  have kind : (program.nodeAt index).kind = .placeholder := congrArg NodeShape.kind same
  have first : (program.nodeAt index).firstElement = operand := congrArg NodeShape.firstElement same
  have before : operand < index := by
    have behind := forested.behind index _ here kind
    rwa [first] at behind
  have verdict : typeVerdict program (knownTypes program index) index =
      placeholderVerdict (knownTypes program index) index (program.nodeAt index) := by
    rw [typeVerdict]
    rw [kind]
  have target : structuralTuple program index = program.nodeAt operand := by
    rw [structuralTuple]
    rw [if_pos kind,first]
  have itself : structuralTuple program operand = program.nodeAt operand := by
    rw [structuralTuple]
    rw [if_neg unlike]
  obtain ⟨sameFlag,sameNode⟩ := known_before before inside
  rw [placeholderVerdict,first,sameFlag,sameNode] at verdict
  cases operandType with
  | none =>
    refine ⟨inside,unknown_of_waits inside fun node settles => ?_⟩
    rw [verdict,if_pos (.inr inferred.2)] at settles
    cases settles
  | some type =>
    have recorded := inferred.recorded
    rw [if_neg (by simp [Nat.not_le_of_lt before,recorded.available])] at verdict
    obtain ⟨available,settled⟩ := known_of_settles inside verdict
    have own : Recorded program type index := by
      refine ⟨inside,available,?_,?_,recorded.plain⟩
      · rw [settled,← recorded.typing]
        rfl
      · rw [target,← itself]
        exact recorded.structural
    cases type with
    | plain =>
      simp only [Inferred,HasType]
      exact own
    | tuple elements =>
      simp only [Inferred,HasType] at inferred ⊢
      refine ⟨own,?_⟩
      rw [structuralElements,target,← itself]
      exact inferred.2

theorem call_of_laid (named : Named program) {callIndex : Nat} {call : CallShape}
    (found : program.shape.nodes[index]? = some (ProgramShape.callNode callIndex))
    (entered : program.shape.calls[callIndex]? = some call) :
    (program.nodeAt index).kind = .primitiveCall ∧
      (program.callAt (program.nodeAt index).callIndex).shape program.source = call ∧
      callDescriptor (program.callAt (program.nodeAt index).callIndex) = findPrimitive call.name := by
  obtain ⟨-,same,-⟩ := nodeAt_of_shape found
  have kind : (program.nodeAt index).kind = .primitiveCall := congrArg NodeShape.kind same
  have place : (program.nodeAt index).callIndex = callIndex := congrArg NodeShape.callIndex same
  obtain ⟨member,shape⟩ := callAt_of_shape entered
  rw [place]
  refine ⟨kind,shape,?_⟩
  rw [named _ member,← shape]
  rfl

mutual

/-- The node of a tree has the type of the tree, or none. -/
theorem laid_infers (forested : program.Forested) (named : Named program) :
    (tree : Expr) → ∀ {place atRoot operand operandType index}, vocabulary.Allows place atRoot tree →
      Laid layout program.shape operand tree index → Environment program place operand operandType →
        Inferred program (tree.infer layout.types operandType) index
  | .scalar _,_,_,_,_,_,_,laid,_ => leaf_infers laid rfl (by decide) rfl
  | .vector _ _,_,_,_,_,_,_,⟨_,_,laid,_⟩,_ => leaf_infers laid rfl (by decide) rfl
  | .parameter _,_,_,_,_,_,_,laid,_ => leaf_infers laid rfl (by decide) rfl
  | .unresolved _,_,_,_,_,_,_,laid,_ => leaf_infers laid rfl (by decide) rfl
  | .placeholder,_,_,_,_,_,inside,laid,environment => by
    obtain ⟨operand,rfl,unlike,inferred⟩ := environment inside
    exact placeholder_infers forested laid unlike inferred
  | .tuple elements,_,_,_,_,index,allowed,⟨first,children,laid,slices,elementsLaid⟩,environment => by
    have inferred := laidAll_infers forested named elements allowed elementsLaid environment
    obtain ⟨inside,same,-⟩ := nodeAt_of_shape laid
    have kind : (program.nodeAt index).kind = .tupleLiteral := congrArg NodeShape.kind same
    have begins : (program.nodeAt index).firstElement = first := congrArg NodeShape.firstElement same
    have count : (program.nodeAt index).elementCount = elements.length := congrArg NodeShape.elementCount same
    have slices : slice program.tupleElements first elements.length = children := slices
    have full : (slice program.tupleElements first elements.length).length = elements.length := by
      rw [slices,elementsLaid.length]
    have ids : elementNodes program (program.nodeAt index) = children := by
      rw [tuple_elements kind (by rw [begins,count]; exact full),begins,count,slices]
    exact structural_infers inside (by rw [kind]; rfl) (congrArg NodeShape.elementType same)
      (count.trans elementsLaid.length.symm) ids elementsLaid.below inferred
  | .fanout source branches,_,_,_,_,index,⟨_,sourceAllowed,_,allowed⟩,
      ⟨fanout,first,operand,roots,laid,entered,_,sourceLaid,slices,branchesLaid⟩,_ => by
    have unlike := laid_unlike sourceAllowed (by decide) sourceLaid
    have outside : Environment program .operand none none := by
      intro inside
      cases inside
    have sourceInferred := laid_infers forested named source sourceAllowed sourceLaid outside
    have inferred := laidBranches_infers forested named branches allowed branchesLaid unlike sourceInferred
    obtain ⟨inside,same,-⟩ := nodeAt_of_shape laid
    have kind : (program.nodeAt index).kind = .fanout := congrArg NodeShape.kind same
    have place : (program.nodeAt index).callIndex = fanout := congrArg NodeShape.callIndex same
    have count : (program.nodeAt index).elementCount = branches.length := congrArg NodeShape.elementCount same
    have begins : (program.fanoutAt fanout).firstBranch = first :=
      congrArg FanoutShape.firstBranch (fanoutAt_of_shape entered)
    have full : (slice program.shape.branchRoots first branches.length).length = branches.length := by
      rw [slices,branchesLaid.length]
    have ids : elementNodes program (program.nodeAt index) = roots := by
      rw [fanout_elements kind (by rw [place,begins,count]; exact full),place,begins,count,slices]
    exact structural_infers inside (by rw [kind]; rfl) (congrArg NodeShape.elementType same)
      (count.trans branchesLaid.length.symm) ids branchesLaid.below inferred
  | .bracketCall name arguments,_,_,_,_,index,⟨_,_,allowed⟩,⟨call,first,children,laid,entered,slices,argumentsLaid⟩,
      environment => by
    have inferred := laidAll_infers forested named arguments allowed argumentsLaid environment
    obtain ⟨inside,-⟩ := nodeAt_of_shape laid
    obtain ⟨kind,shape,described⟩ := call_of_laid named laid entered
    have direct : prefixTupleOperand program (program.callAt (program.nodeAt index).callIndex) = none := by
      have bracketed : (program.callAt (program.nodeAt index).callIndex).callSyntax = .bracketed :=
        congrArg CallShape.callSyntax shape
      rw [prefixTupleOperand,if_pos (.inl (by rw [bracketed]; decide))]
    have begins : (program.callAt (program.nodeAt index).callIndex).firstArgument = first :=
      congrArg CallShape.firstArgument shape
    have count : (program.callAt (program.nodeAt index).callIndex).argumentCount = arguments.length :=
      congrArg CallShape.argumentCount shape
    have slices : slice program.arguments first arguments.length = children := slices
    have ids : semanticArguments program (program.callAt (program.nodeAt index).callIndex) = children := by
      rw [direct_arguments direct (by rw [begins,count,slices,argumentsLaid.length]),begins,count,slices]
    cases found : Expr.inferAll layout.types _ arguments with
    | none =>
      rw [found] at inferred
      obtain ⟨id,member,missing⟩ := inferred
      rw [Expr.infer,found]
      exact call_waits inside kind (.inr ⟨id,ids ▸ member,argumentsLaid.below id member,missing⟩)
    | some types =>
      rw [found] at inferred
      rw [Expr.infer,found]
      exact call_infers inside kind described (by rw [direct]; intro _ same; cases same) ids argumentsLaid.below inferred
  | .prefixCall name argument,_,_,_,_,index,⟨_,_,_,allowed⟩,⟨call,first,child,laid,entered,slices,before,argumentLaid⟩,
      environment => by
    have inferred := laid_infers forested named argument allowed argumentLaid environment
    obtain ⟨inside,-⟩ := nodeAt_of_shape laid
    obtain ⟨kind,shape,described⟩ := call_of_laid named laid entered
    have begins : (program.callAt (program.nodeAt index).callIndex).firstArgument = first :=
      congrArg CallShape.firstArgument shape
    have count : (program.callAt (program.nodeAt index).callIndex).argumentCount = 1 :=
      congrArg CallShape.argumentCount shape
    have slices : slice program.arguments first 1 = [child] := slices
    have operand := prefixTupleOperand_eq forested (congrArg CallShape.callSyntax shape) count
      (by rw [begins]; exact slices) inferred.inside
    have direct (none : prefixTupleOperand program (program.callAt (program.nodeAt index).callIndex) = none) :
        semanticArguments program (program.callAt (program.nodeAt index).callIndex) = [child] := by
      rw [direct_arguments none (by rw [begins,count,slices]; rfl),begins,count,slices]
    cases found : argument.infer layout.types _ with
    | none =>
      rw [found] at inferred
      rw [Expr.infer,found]
      refine call_waits inside kind ?_
      by_cases structural : isStructural (structuralTuple program child).kind = true
      · rw [if_pos structural] at operand
        exact .inl ⟨child,operand,before,inferred.2⟩
      · rw [if_neg structural] at operand
        exact .inr ⟨child,by rw [direct operand]; simp,before,inferred.2⟩
    | some type =>
      rw [found] at inferred
      have recorded := inferred.recorded
      rw [Expr.infer,found]
      cases type with
      | plain =>
        rw [if_neg (by rw [recorded.structural]; exact Bool.false_ne_true)] at operand
        refine call_infers inside kind described (by rw [operand]; intro _ same; cases same) (direct operand)
          (fun id member => List.mem_singleton.mp member ▸ before) ?_
        simp only [LoweredType.spread,HaveTypes]
        exact ⟨inferred,trivial⟩
      | tuple elements =>
        have structural : isStructural (structuralTuple program child).kind = true := recorded.structural
        rw [if_pos structural] at operand
        simp only [Inferred,HasType] at inferred
        refine call_infers inside kind described ?_ (spread_arguments operand) (fun id member => ?_) inferred.2
        · rw [operand]
          rintro _ ⟨⟩
          exact ⟨before,recorded.available⟩
        · exact Nat.lt_trans (structuralElements_below forested recorded.inside structural id member) before

theorem laidAll_infers (forested : program.Forested) (named : Named program) :
    (trees : List Expr) → ∀ {place operand operandType indexes bound}, vocabulary.AllowsAll place trees →
      LaidAll layout program.shape operand trees indexes bound → Environment program place operand operandType →
        InferredAll program (Expr.inferAll layout.types operandType trees) indexes
  | [],_,_,_,[],_,_,_,_ => by simp [Expr.inferAll,InferredAll,HaveTypes]
  | [],_,_,_,_ :: _,_,_,laid,_ => absurd laid (by simp [LaidAll])
  | _ :: _,_,_,_,[],_,_,laid,_ => absurd laid (by simp [LaidAll])
  | tree :: rest,_,_,_,_ :: _,_,⟨first,later⟩,laid,environment => by
    simp only [LaidAll] at laid
    rw [Expr.inferAll]
    exact InferredAll.cons (laid_infers forested named tree first laid.1.2 environment)
      (laidAll_infers forested named rest later laid.2 environment)

theorem laidBranches_infers (forested : program.Forested) (named : Named program) :
    (branches : List Expr) → ∀ {operand operandType indexes bound}, vocabulary.AllowsBranches branches →
      LaidAll layout program.shape (some operand) branches indexes bound →
        (program.nodeAt operand).kind ≠ .placeholder → Inferred program operandType operand →
          InferredAll program (Expr.inferAll layout.types operandType branches) indexes
  | [],_,_,[],_,_,_,_,_ => by simp [Expr.inferAll,InferredAll,HaveTypes]
  | [],_,_,_ :: _,_,_,laid,_,_ => absurd laid (by simp [LaidAll])
  | _ :: _,_,_,[],_,_,laid,_,_ => absurd laid (by simp [LaidAll])
  | branch :: rest,operand,_,_ :: _,_,⟨⟨first,_⟩,later⟩,laid,unlike,inferred => by
    simp only [LaidAll] at laid
    rw [Expr.inferAll]
    have environment : Environment program .branch (some operand) _ := fun _ => ⟨operand,rfl,unlike,inferred⟩
    exact InferredAll.cons (laid_infers forested named branch first laid.1.2 environment)
      (laidBranches_infers forested named rest later laid.2 unlike inferred)

end

end Bennu
