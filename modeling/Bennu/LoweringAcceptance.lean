import Bennu.LoweringTrees

/-! Lowering of what has been parsed and resolved: it reports its faults in one order, and finds
none of arity or types exactly when every root has a type. -/
namespace Bennu
open Forest

variable {parser : RewriteDoubleParser} {leaves : Bool} {abstract : AbstractProgram} {source : Text}
  {program resolved : RewriteProgram} {layout : Layout} {vocabulary : Vocabulary} {index child operand : Nat}

/-! ### What resolution leaves -/

theorem findPrimitiveById_of_name {name : Text} {descriptor : PrimitiveDescriptor}
    (found : findPrimitive name = some descriptor) : findPrimitiveById descriptor.id = some descriptor := by
  have identified : ∀ descriptor ∈ productionDescriptors, findPrimitiveById descriptor.id = some descriptor := by
    decide
  exact identified descriptor (List.mem_of_find?_eq_some found)

theorem callDescriptor_resolvedCall (source : Text) (call : RewriteCall) :
    callDescriptor (resolvedCall source call) = findPrimitive (spanSpelling source call.nameSpan) := by
  rw [callDescriptor,resolvedCall]
  cases found : findPrimitive (spanSpelling source call.nameSpan) with
  | none => rfl
  | some descriptor => exact findPrimitiveById_of_name found

theorem resolved_shape (resolution : resolveRewritePrimitives program = .ok resolved) :
    resolved.shape = program.shape := by
  obtain ⟨-,rfl⟩ := resolved_eq resolution
  simp only [RewriteProgram.shape,List.map_map]
  rfl

theorem resolved_named (resolution : resolveRewritePrimitives program = .ok resolved) : Named resolved := by
  obtain ⟨-,rfl⟩ := resolved_eq resolution
  intro call member
  obtain ⟨written,_,rfl⟩ := List.mem_map.mp member
  exact callDescriptor_resolvedCall program.source written

theorem call_entry (forested : program.Forested) (inside : index < program.nodes.length)
    (kind : (program.nodeAt index).kind = .primitiveCall) :
    program.calls[(program.nodeAt index).callIndex]? = some (program.callAt (program.nodeAt index).callIndex) := by
  have member := List.mem_of_getElem? (nodes_nodeAt inside)
  have listed : (program.nodeAt index).callIndex ∈
      (program.nodes.filter (·.kind == .primitiveCall)).map (·.callIndex) :=
    List.mem_map.mpr ⟨_,List.mem_filter.mpr ⟨member,by simp [kind]⟩,rfl⟩
  rw [forested.callNodes,List.mem_range] at listed
  rw [RewriteProgram.callAt,List.getD_eq_getElem _ _ listed,List.getElem?_eq_getElem listed]

/-- Resolution leaves no call without a primitive. -/
theorem resolved_calls (forested : resolved.Forested) (resolution : resolveRewritePrimitives program = .ok resolved) :
    Resolved resolved := by
  intro index inside kind
  have member := List.mem_of_getElem? (call_entry forested inside kind)
  generalize resolved.callAt (resolved.nodeAt index).callIndex = call at member
  obtain ⟨known,rfl⟩ := resolved_eq resolution
  obtain ⟨written,listed,rfl⟩ := List.mem_map.mp member
  rw [callDescriptor_resolvedCall]
  have calls := List.filter_eq_nil_iff.mp (List.map_eq_nil_iff.mp (List.append_eq_nil_iff.mp known).1) written listed
  simpa [isUnknownCall,Option.isSome_iff_ne_none] using calls

theorem checkRoots_none (roots : List Nat) : ∀ earlier, (∀ root ∈ roots, root < program.nodes.length) →
    (earlier ++ roots).Nodup → checkRoots program earlier roots = none := by
  induction roots with
  | nil => exact fun _ _ _ => rfl
  | cons root rest ih =>
    intro earlier inside distinct
    have fresh : root ∉ earlier := fun member =>
      (List.nodup_append.mp distinct).2.2 root member root List.mem_cons_self rfl
    rw [checkRoots,if_neg]
    · refine ih _ (fun other member => inside other (List.mem_cons_of_mem _ member)) ?_
      rwa [List.append_assoc]
    · have bound := inside root List.mem_cons_self
      simp [fresh,bound]

theorem forested_roots (forested : program.Forested) : checkRoots program [] program.roots = none :=
  checkRoots_none _ [] (fun _ member => forested.forest.root_lt member)
    (forested.ordered.imp Nat.ne_of_lt)

theorem resolved_forested (inLanguage : abstract.InLanguage parser leaves) (compiled : program.shape = abstract.compile parser)
    (resolution : resolveRewritePrimitives program = .ok resolved) : resolved.Forested :=
  forested_of_compile inLanguage ((resolved_shape resolution).trans compiled)

/-! ### Nodes below calls -/

theorem prefixTupleOperand_some {call : RewriteCall} (spread : prefixTupleOperand program call = some operand) :
    call.argumentCount = 1 ∧ call.firstArgument < program.arguments.length ∧
      program.arguments.getD call.firstArgument 0 = operand ∧ operand < program.nodes.length ∧
      isStructural (structuralTuple program operand).kind = true := by
  rw [prefixTupleOperand] at spread
  split at spread
  · cases spread
  rename_i applies
  obtain ⟨-,single,present⟩ : call.callSyntax = .prefixed ∧ call.argumentCount = 1 ∧
      call.firstArgument < program.arguments.length := by simpa [not_or] using applies
  dsimp only at spread
  split at spread
  · cases spread
  rename_i inside
  split at spread
  · rename_i tuple
    obtain rfl := Option.some.inj spread
    refine ⟨single,present,rfl,Nat.lt_of_not_le inside,?_⟩
    rw [structuralTuple]
    by_cases placeholder : (program.nodeAt (program.arguments.getD call.firstArgument 0)).kind = .placeholder
    · rw [if_pos placeholder]
      rw [placeholder] at tuple
      rcases Bool.or_eq_true_iff.mp tuple with here | target
      · cases here
      · exact (Bool.and_eq_true_iff.mp target).2
    · rw [if_neg placeholder]
      rcases Bool.or_eq_true_iff.mp tuple with here | target
      · exact here
      · have same := (Bool.and_eq_true_iff.mp (Bool.and_eq_true_iff.mp target).1).1
        exact absurd (eq_of_beq same) placeholder
  · cases spread

section forested

variable (forested : program.Forested)
include forested

theorem call_children (inside : index < program.nodes.length) (kind : (program.nodeAt index).kind = .primitiveCall) :
    program.children index = slice program.arguments (program.callAt (program.nodeAt index).callIndex).firstArgument
      (program.callAt (program.nodeAt index).callIndex).argumentCount ∧
    (program.children index).length = (program.callAt (program.nodeAt index).callIndex).argumentCount := by
  have entry := call_entry forested inside kind
  have children : program.children index = slice program.arguments
      (program.callAt (program.nodeAt index).callIndex).firstArgument
      (program.callAt (program.nodeAt index).callIndex).argumentCount := by
    rw [RewriteProgram.children,nodes_nodeAt inside]
    dsimp only
    rw [kind]
    dsimp only
    rw [entry]
  refine ⟨children,?_⟩
  rw [children]
  exact slice_length (forested.argumentRanges.within (List.mem_map_of_mem (List.mem_of_getElem? entry))).2

theorem spread_child (inside : index < program.nodes.length) (kind : (program.nodeAt index).kind = .primitiveCall)
    (spread : prefixTupleOperand program (program.callAt (program.nodeAt index).callIndex) = some operand) :
    program.children index = [operand] := by
  obtain ⟨children,full⟩ := call_children forested inside kind
  obtain ⟨single,-,same,-⟩ := prefixTupleOperand_some spread
  rw [single] at children full
  rw [children] at full
  rw [children,← range_slice 0 full]
  simpa using same

/-- A call reads nodes that come before it. -/
theorem semanticArguments_below (inside : index < program.nodes.length)
    (kind : (program.nodeAt index).kind = .primitiveCall) :
    ∀ argument ∈ semanticArguments program (program.callAt (program.nodeAt index).callIndex), argument < index := by
  obtain ⟨children,full⟩ := call_children forested inside kind
  cases spread : prefixTupleOperand program (program.callAt (program.nodeAt index).callIndex) with
  | none =>
    rw [children] at full
    rw [direct_arguments spread full,← children]
    exact fun argument member => forested.forest.descends _ _ member
  | some operand =>
    have before : operand < index := forested.forest.descends _ _ (by
      rw [spread_child forested inside kind spread]
      exact List.mem_singleton_self operand)
    obtain ⟨-,-,-,known,structural⟩ := prefixTupleOperand_some spread
    rw [spread_arguments spread]
    exact fun argument member => Nat.lt_trans (structuralElements_below forested known structural argument member) before

end forested

/-! ### Programs without faults of arity or types -/

/-- No call has a fault of arity or of types. -/
def WellTyped (program : RewriteProgram) : Prop :=
  Faultless (arityFault program) program.nodes.length ∧ Faultless (typeFault program) program.nodes.length

/-- Behind nodes that have types a call waits for none. -/
theorem callVerdict_decides (resolved : Resolved program) (forested : program.Forested)
    (inside : index < program.nodes.length) (kind : (program.nodeAt index).kind = .primitiveCall)
    (earlier : ∀ other < index, program.known.available other = true) :
    callVerdict program (knownTypes program index) index (program.nodeAt index) ≠ .waits := by
  have available (other : Nat) (before : other < index) : (knownTypes program index).available other = true := by
    rw [(known_before before inside).1]
    exact earlier other before
  obtain ⟨descriptor,described⟩ := Option.isSome_iff_exists.mp (resolved index inside kind)
  have arguments : (semanticArguments program (program.callAt (program.nodeAt index).callIndex)).all
      (knownTypes program index).available = true :=
    List.all_eq_true.mpr fun argument member => available _ (semanticArguments_below forested inside kind _ member)
  have operands : (prefixTupleOperand program (program.callAt (program.nodeAt index).callIndex)).any
      (fun operand => !(knownTypes program index).available operand) = false := by
    cases spread : prefixTupleOperand program (program.callAt (program.nodeAt index).callIndex) with
    | none => rfl
    | some operand =>
      have before : operand < index := forested.forest.descends _ _ (by
        rw [spread_child forested inside kind spread]
        exact List.mem_singleton_self operand)
      simp [available _ before]
  rw [callVerdict]
  dsimp only
  rw [described]
  dsimp only
  rw [operands,arguments]
  simp only [Bool.false_eq_true,if_false,Bool.not_true]
  split
  · intro same
    cases same
  · split <;> intro same <;> cases same

theorem typeVerdict_decides (resolved : Resolved program) (forested : program.Forested)
    (inside : index < program.nodes.length) (earlier : ∀ other < index, program.known.available other = true) :
    typeVerdict program (knownTypes program index) index ≠ .waits := by
  have available (other : Nat) (before : other < index) : (knownTypes program index).available other = true := by
    rw [(known_before before inside).1]
    exact earlier other before
  have structural (kind : isStructural (program.nodeAt index).kind = true) :
      tupleVerdict program (knownTypes program index) index (program.nodeAt index) ≠ .waits := by
    have elements : (elementNodes program (program.nodeAt index)).all (knownTypes program index).available = true :=
      List.all_eq_true.mpr fun element member =>
        available _ (forested.forest.descends _ _ (elements_below forested inside kind _ member))
    rw [tupleVerdict]
    dsimp only
    rw [if_pos elements]
    intro same
    cases same
  rw [typeVerdict]
  cases kind : (program.nodeAt index).kind with
  | primitiveCall => exact callVerdict_decides resolved forested inside kind earlier
  | tupleLiteral => exact structural (by rw [kind]; rfl)
  | fanout => exact structural (by rw [kind]; rfl)
  | placeholder =>
    have behind := forested.behind index _ (nodes_nodeAt inside) kind
    dsimp only
    rw [placeholderVerdict,if_neg (by simp [Nat.not_le_of_lt behind,available _ behind])]
    intro same
    cases same
  | _ =>
    intro same
    cases same

theorem wellTyped_iff (resolved : Resolved program) (forested : program.Forested) :
    WellTyped program ↔ ∀ index < program.nodes.length, program.known.available index = true := by
  constructor
  · rintro ⟨arities,types⟩ index
    induction index using Nat.strong_induction_on with
    | h index ih =>
      intro inside
      have waits := typeVerdict_decides resolved forested inside
        fun other before => ih other before (Nat.lt_trans before inside)
      have arity := arities index inside
      have type := types index inside
      rw [arityFault] at arity
      rw [typeFault] at type
      cases verdict : typeVerdict program (knownTypes program index) index with
      | settles node => exact (known_of_settles inside verdict).1
      | waits => exact absurd verdict waits
      | arity spread found =>
        rw [verdict] at arity
        cases arity
      | mismatch found =>
        rw [verdict] at type
        cases type
  · intro available
    constructor <;> intro index inside <;> obtain ⟨node,settles⟩ := settles_of_known inside (available index inside)
    · rw [arityFault,settles]
      rfl
    · rw [typeFault,settles]
      rfl

/-! ### From the roots down -/

theorem placeholder_operand_available (forested : program.Forested) (inside : index < program.nodes.length)
    (kind : (program.nodeAt index).kind = .placeholder) (available : program.known.available index = true) :
    program.known.available (program.nodeAt index).firstElement = true := by
  have behind := forested.behind index _ (nodes_nodeAt inside) kind
  obtain ⟨node,settles⟩ := settles_of_known inside available
  rw [typeVerdict,kind] at settles
  dsimp only at settles
  rw [placeholderVerdict] at settles
  split at settles
  · cases settles
  · rename_i known
    rw [← (known_before behind inside).1]
    simpa using (not_or.mp known).2

theorem elements_available (forested : program.Forested) (inside : index < program.nodes.length)
    (kind : isStructural (program.nodeAt index).kind = true) (available : program.known.available index = true) :
    ∀ element ∈ elementNodes program (program.nodeAt index), program.known.available element = true := by
  intro element member
  obtain ⟨node,settles⟩ := settles_of_known inside available
  have verdict : typeVerdict program (knownTypes program index) index =
      tupleVerdict program (knownTypes program index) index (program.nodeAt index) := by
    rw [typeVerdict]
    cases same : (program.nodeAt index).kind <;> rw [same] at kind <;> first | rfl | cases kind
  rw [verdict,tupleVerdict] at settles
  dsimp only at settles
  split at settles
  · rename_i all
    have below := forested.forest.descends _ _ (elements_below forested inside kind element member)
    rw [← (known_before below inside).1]
    exact List.all_eq_true.mp all element member
  · cases settles

theorem arguments_available (forested : program.Forested) (inside : index < program.nodes.length)
    (kind : (program.nodeAt index).kind = .primitiveCall) (available : program.known.available index = true) :
    ∀ argument ∈ program.children index, program.known.available argument = true := by
  intro argument member
  obtain ⟨node,settles⟩ := settles_of_known inside available
  have below := forested.forest.descends _ _ member
  rw [typeVerdict,kind] at settles
  obtain ⟨descriptor,-,operands,-,arguments,-⟩ := callVerdict_settles.mp settles
  rw [← (known_before below inside).1]
  cases spread : prefixTupleOperand program (program.callAt (program.nodeAt index).callIndex) with
  | some operand =>
    rw [spread_child forested inside kind spread,List.mem_singleton] at member
    rw [member]
    exact operands operand spread
  | none =>
    obtain ⟨children,full⟩ := call_children forested inside kind
    rw [children] at full
    rw [direct_arguments spread full,← children] at arguments
    exact arguments argument member

/-- Every node of the tree below a node that has a type has one: the operand of a fanout by the
placeholders of its branches. -/
theorem available_below (forested : program.Forested) (index : Nat) (inside : index < program.nodes.length)
    (available : program.known.available index = true) :
    ∀ node, Reaches program.children index node → program.known.available node = true := by
  induction index using Nat.strong_induction_on with
  | h index ih =>
    have step (child : Nat) (member : child ∈ program.children index) (known : program.known.available child = true) :
        ∀ node, Reaches program.children child node → program.known.available node = true :=
      have below := forested.forest.descends _ _ member
      ih child below (Nat.lt_trans below inside) known
    have children : ∀ child ∈ program.children index, program.known.available child = true := by
      cases kind : (program.nodeAt index).kind with
      | primitiveCall => exact arguments_available forested inside kind available
      | tupleLiteral =>
        rw [tuple_children forested inside kind]
        exact elements_available forested inside (by rw [kind]; rfl) available
      | fanout =>
        obtain ⟨listed,member,branches⟩ := fanout_children forested inside kind
        have elements := elements_available forested inside (by rw [kind]; rfl) available
        obtain ⟨nonempty,placeholders⟩ := forested.branches _ member
        have full : (slice (program.fanoutBranches.map (·.root))
            (program.fanoutAt (program.nodeAt index).callIndex).firstBranch
            (program.fanoutAt (program.nodeAt index).callIndex).branchCount).length =
              (program.fanoutAt (program.nodeAt index).callIndex).branchCount :=
          slice_length (by rw [List.length_map]; exact (forested.branchRanges.within (List.mem_map_of_mem member)).2)
        rw [branches] at elements
        obtain ⟨root,first⟩ := List.exists_mem_of_length_pos (full.symm ▸ nonempty)
        obtain ⟨place,only,target⟩ := placeholders root first
        obtain ⟨reached,same⟩ := (only place).mpr rfl
        have inBranch : root ∈ program.children index := by
          rw [listed,branches]
          exact List.mem_cons_of_mem _ first
        have known := step root inBranch (elements root first) place reached
        have bound : place < program.nodes.length := by
          by_contra outside
          rw [List.getElem?_eq_none (Nat.le_of_not_lt outside)] at same
          cases same
        rw [nodes_nodeAt bound] at same target
        have operand := placeholder_operand_available forested bound (Option.some.inj same) known
        rw [show (program.nodeAt place).firstElement = _ from Option.some.inj target] at operand
        rw [listed,branches]
        intro child given
        rcases List.mem_cons.mp given with rfl | given
        · exact operand
        · exact elements child given
      | _ =>
        rw [RewriteProgram.children,nodes_nodeAt inside]
        dsimp only
        rw [kind]
        intro child given
        cases given
    intro node reached
    rcases Relation.ReflTransGen.cases_head reached with rfl | ⟨child,member,rest⟩
    · exact available
    · exact step child member (children child member) node rest

theorem wellTyped_iff_roots (resolved : Resolved program) (forested : program.Forested) :
    WellTyped program ↔ ∀ root ∈ program.roots, program.known.available root = true := by
  rw [wellTyped_iff resolved forested]
  constructor
  · exact fun available root member => available root (forested.forest.root_lt member)
  · intro available index inside
    obtain ⟨root,⟨member,reached⟩,-⟩ := forested.forest.existsUnique_root inside
    exact available_below forested root (forested.forest.root_lt member) (available root member) index reached

/-! ### Roots of trees -/

mutual

theorem emit_roots (layout : Layout) : (tree : Expr) → ∀ operand shape,
    (layout.emit operand tree shape).roots = shape.roots
  | .scalar _,_,_ => rfl
  | .vector type elements,_,shape => by
    have kept : (elements.foldl (ProgramShape.addElement layout.parser type) shape).roots = shape.roots := by
      induction elements generalizing shape with
      | nil => rfl
      | cons literal rest ih =>
        rw [List.foldl_cons,ih]
        cases type <;> rfl
    exact kept
  | .parameter _,_,_ => rfl
  | .unresolved _,_,_ => rfl
  | .bracketCall _ arguments,operand,shape => emitAll_roots layout arguments operand shape
  | .prefixCall _ argument,operand,shape => emit_roots layout argument operand shape
  | .tuple elements,operand,shape => emitAll_roots layout elements operand shape
  | .placeholder,_,_ => rfl
  | .fanout source branches,_,shape =>
    (emitBranches_roots layout branches _ _).trans (emit_roots layout source none shape)

theorem emitAll_roots (layout : Layout) : (trees : List Expr) → ∀ operand shape,
    (layout.emitAll operand trees shape).1.roots = shape.roots
  | [],_,_ => rfl
  | tree :: rest,operand,shape =>
    (emitAll_roots layout rest operand _).trans (emit_roots layout tree operand shape)

theorem emitBranches_roots (layout : Layout) : (branches : List Expr) → ∀ operand shape,
    (layout.emitBranches operand branches shape).1.roots = shape.roots
  | [],_,_ => rfl
  | branch :: rest,operand,shape =>
    (emitBranches_roots layout rest operand _).trans (emit_roots layout branch (some operand) shape)

end

/-- The roots of the tables are those of the trees. -/
theorem emitRoots_laid (layout : Layout) (roots : List Expr) : ∀ shape, vocabulary.AllowsRoots roots →
    ∃ ids, (layout.emitRoots roots shape).roots = shape.roots ++ ids ∧
      LaidAll layout (layout.emitRoots roots shape) none roots ids (layout.emitRoots roots shape).nodes.length := by
  induction roots with
  | nil =>
    intro shape _
    refine ⟨[],by rw [List.append_nil]; rfl,?_⟩
    simp [LaidAll]
  | cons root rest ih =>
    intro shape allowed
    obtain ⟨ids,roots,laid⟩ := ih ((layout.emit none root shape).addRoot (layout.emit none root shape).last)
      fun other member => allowed other (List.mem_cons_of_mem _ member)
    have grown := emitRoots_extends layout rest ((layout.emit none root shape).addRoot (layout.emit none root shape).last)
    have here := emit_laid layout root none shape (allowed root List.mem_cons_self)
    have last := (emit_last layout none root shape).1
    refine ⟨(layout.emit none root shape).last :: ids,?_,?_⟩
    · rw [Layout.emitRoots]
      rw [roots]
      simp [ProgramShape.addRoot,emit_roots]
    · simp only [LaidAll,Layout.emitRoots]
      refine ⟨⟨?_,?_⟩,laid⟩
      · exact Nat.lt_of_lt_of_le last grown.nodes.length_le
      · exact Laid.extend ((ProgramShape.extends_addRoot _ _).trans grown) root here

/-- The roots of a program that has been compiled and resolved have the types of its trees. -/
theorem roots_inferred (inLanguage : abstract.InLanguage parser leaves)
    (compiled : program.shape = abstract.compile parser) (forested : program.Forested) (named : Named program) :
    List.Forall₂ (fun root index => Inferred program (root.infer (abstract.parameters.map (·.2)) none) index)
      abstract.roots program.roots := by
  obtain ⟨ids,roots,laid⟩ := emitRoots_laid (abstract.layout parser) abstract.roots emptyShape inLanguage.2
  rw [← AbstractProgram.compile,← compiled] at roots laid
  obtain rfl : program.roots = ids := by simpa [emptyShape,RewriteProgram.shape] using roots
  have allowed := inLanguage.2
  generalize program.roots = ids at laid
  generalize abstract.roots = trees at laid allowed
  clear roots
  induction trees generalizing ids with
  | nil =>
    cases ids with
    | nil => exact .nil
    | cons => simp [LaidAll] at laid
  | cons tree rest ih =>
    cases ids with
    | nil => simp [LaidAll] at laid
    | cons index ids =>
      simp only [LaidAll] at laid
      refine .cons ?_ (ih _ laid.2 fun other member => allowed other (List.mem_cons_of_mem _ member))
      exact laid_infers forested named tree (allowed tree List.mem_cons_self) laid.1.2 (by intro inside; cases inside)

/-! ### What lowering accepts -/

theorem inferAll_some_iff {types : List ScalarType} {operandType : Option LoweredType} (trees : List Expr) :
    (∃ result, Expr.inferAll types operandType trees = some result) ↔
      ∀ tree ∈ trees, (tree.infer types operandType).isSome = true := by
  induction trees with
  | nil => simp [Expr.inferAll]
  | cons tree rest ih =>
    rw [Expr.inferAll,List.forall_mem_cons,← ih]
    cases tree.infer types operandType with
    | none => simp
    | some type => cases Expr.inferAll types operandType rest <;> simp

theorem inferAll_forall₂ {types : List ScalarType} {operandType : Option LoweredType} {trees : List Expr}
    {result : List LoweredType} (inferred : Expr.inferAll types operandType trees = some result) :
    List.Forall₂ (fun tree type => tree.infer types operandType = some type) trees result := by
  induction trees generalizing result with
  | nil =>
    cases inferred
    exact .nil
  | cons tree rest ih =>
    rw [Expr.inferAll] at inferred
    obtain ⟨type,first,later⟩ := Option.bind_eq_some_iff.mp inferred
    obtain ⟨more,found,rfl⟩ := Option.map_eq_some_iff.mp later
    exact .cons first (ih found)

theorem forall₂_available {trees : List Expr} {ids : List Nat} {results : Expr → Option LoweredType}
    (inferred : List.Forall₂ (fun tree index => Inferred program (results tree) index) trees ids) :
    (∀ index ∈ ids, program.known.available index = true) ↔ ∀ tree ∈ trees, (results tree).isSome = true := by
  induction inferred with
  | nil => simp
  | cons first _ ih => rw [List.forall_mem_cons,List.forall_mem_cons,first.available_iff,ih]

/-- Lowering finds no fault of arity or of types exactly when every root has a type. -/
theorem wellTyped_iff_inferred (inLanguage : abstract.InLanguage parser leaves)
    (compiled : program.shape = abstract.compile parser) (forested : program.Forested) (named : Named program)
    (resolved : Resolved program) :
    WellTyped program ↔
      ∃ types, Expr.inferAll (abstract.parameters.map (·.2)) none abstract.roots = some types := by
  rw [wellTyped_iff_roots resolved forested,inferAll_some_iff,
    forall₂_available (roots_inferred inLanguage compiled forested named)]

/-- Phase 6 keeps what neither the cardinality nor the check of lengths is. -/
theorem shapedNodes_map {β : Type} {view : RewriteLoweringNode → β}
    (same : ∀ node cardinality elementCount runtimeShapeCheck,
      view { node with cardinality, elementCount, runtimeShapeCheck } = view node) (count : Nat) :
    (shapedNodes program count).map view = program.known.nodes.map view := by
  induction count with
  | zero => rfl
  | succ count ih =>
    have set (nodes : List RewriteLoweringNode) (node : RewriteLoweringNode)
        (kept : view node = view (loweringNodeAt nodes count)) : (nodes.set count node).map view = nodes.map view := by
      apply List.ext_getElem?
      intro place
      rw [List.getElem?_map,List.getElem?_map,List.getElem?_set]
      split
      · rename_i here
        subst here
        split
        · rename_i inside
          rw [List.getElem?_eq_getElem inside,Option.map_some,Option.map_some,kept,loweringNodeAt,
            List.getD_eq_getElem _ _ inside]
        · rename_i outside
          rw [List.getElem?_eq_none (Nat.le_of_not_lt outside)]
      · rfl
    rw [shapedNodes_succ,← ih,shapedStep]
    cases step : shapeStep program (shapedNodes program count) count with
    | error found => rfl
    | ok nodes =>
      rw [shapeStep] at step
      dsimp only at step
      split at step
      · cases step
        rfl
      · split at step
        · cases step
          exact set _ _ (same (loweringNodeAt (shapedNodes program count) count) _ _ _)
        · split at step
          · cases step
          · cases step
            refine set _ _ ?_
            rw [shapedCall]
            split
            · exact same (loweringNodeAt (shapedNodes program count) count) _ _ _
            · split <;> exact same (loweringNodeAt (shapedNodes program count) count) _ _ _

theorem shapedNodes_length : (shapedNodes program program.nodes.length).length = program.nodes.length := by
  have same := congrArg List.length
    (@shapedNodes_map program _ (fun _ => ()) (fun _ _ _ _ => rfl) program.nodes.length)
  rwa [List.length_map,List.length_map,RewriteProgram.known,(knownTypes_length _).1] at same

theorem shapedNodes_view {β : Type} {view : RewriteLoweringNode → β}
    (same : ∀ node cardinality elementCount runtimeShapeCheck,
      view { node with cardinality, elementCount, runtimeShapeCheck } = view node) (inside : index < program.nodes.length) :
    view (loweringNodeAt (shapedNodes program program.nodes.length) index) = view (program.known.nodeAt index) := by
  have known : index < program.known.nodes.length := by
    rw [RewriteProgram.known,(knownTypes_length _).1]
    exact inside
  have shaped : index < (shapedNodes program program.nodes.length).length := shapedNodes_length.symm ▸ inside
  have here := congrArg (·[index]?) (@shapedNodes_map program _ view same program.nodes.length)
  simp only [List.getElem?_map,List.getElem?_eq_getElem known,List.getElem?_eq_getElem shaped,Option.map_some,
    Option.some.injEq] at here
  rwa [loweringNodeAt,TypedNodes.nodeAt,List.getD_eq_getElem _ _ shaped,List.getD_eq_getElem _ _ known]

/-- A tuple of a vector and a call that spreads a tuple, then a call that spreads a fanout. -/
def spreadingProgram : AbstractProgram :=
  ⟨[],
    [.tuple [.vector .integer [.integer 1,.integer 2],
      .prefixCall "add".toList (.tuple [.vector .integer [.integer 3,.integer 4],.scalar (.integer 1)])],
      .prefixCall "add".toList (.fanout (.scalar (.integer 3))
        [.bracketCall "inc".toList [.placeholder],.bracketCall "iota".toList [.placeholder]])]⟩

theorem spreadingProgram_inLanguage : spreadingProgram.InLanguage refusingParser false := by
  refine ⟨⟨by decide,by decide⟩,fun root member => ?_⟩
  rcases List.mem_cons.mp member with rfl | member
  · simp [Vocabulary.Allows,Vocabulary.AllowsAll,Literal.Readable,Literal.type,AbstractProgram.vocabulary,spreadingProgram]
    decide
  · cases List.mem_singleton.mp member
    simp [Vocabulary.Allows,Vocabulary.AllowsAll,Vocabulary.AllowsBranches,Literal.Readable,AbstractProgram.vocabulary,
      spreadingProgram,Expr.isBranch]
    decide

theorem spreading_lowers : ∃ program resolved lowered,
    parseRewrite refusingParser spreadingProgram.render = some (.ok program) ∧
      program.shape = spreadingProgram.compile refusingParser ∧ resolveRewritePrimitives program = .ok resolved ∧
      lowerRewriteProgram grantingHost resolved = .ok lowered := by
  have lowers : ((parseRewrite refusingParser spreadingProgram.render).map fun result =>
      (result.toOption.bind fun program => (resolveRewritePrimitives program).toOption.bind fun resolved =>
        (lowerRewriteProgram grantingHost resolved).toOption).isSome) = some true := by decide +kernel
  obtain ⟨program,parsed,shape,-⟩ := parseRewrite_render refusingParser spreadingProgram spreadingProgram_inLanguage
  rw [parsed] at lowers
  simp only [Option.map_some,Except.toOption,Option.bind_some,Option.some.injEq] at lowers
  cases resolution : resolveRewritePrimitives program with
  | error found => simp [resolution] at lowers
  | ok resolved =>
    cases lowering : lowerRewriteProgram grantingHost resolved with
    | error found => simp [resolution,lowering] at lowers
    | ok lowered => exact ⟨program,resolved,lowered,parsed,shape,resolution,lowering⟩

/-- Of what has been parsed and resolved, lowering reports the first node whose type the host refuses
or that is a call of a wrong arity, without one the first fault of types, without either the first
of lengths; it never finds an invalid root or call. -/
theorem lower_canonical (parsed : parseRewrite parser source = some (.ok program))
    (resolution : resolveRewritePrimitives program = .ok resolved) (host : TypeHost) :
    match lowerRewriteProgram host resolved with
    | .error found =>
      LeastFault (endingFault host resolved) resolved.nodes.length found ∨
      Faultless (endingFault host resolved) resolved.nodes.length ∧
        (LeastFault (reportedFault host resolved) resolved.nodes.length found ∨
        Faultless (reportedFault host resolved) resolved.nodes.length ∧
          LeastFault (shapeFault resolved) resolved.nodes.length found)
    | .ok lowered =>
      Faultless (endingFault host resolved) resolved.nodes.length ∧
        Faultless (reportedFault host resolved) resolved.nodes.length ∧
        Faultless (shapeFault resolved) resolved.nodes.length ∧ lowered = loweredProgram resolved := by
  obtain ⟨abstract,inLanguage,compiled,-⟩ := parseRewrite_sound parser source program parsed
  have forested := resolved_forested inLanguage compiled resolution
  exact lower_faults host (resolved_calls forested resolution) (forested_roots forested)

theorem lower_canonical_spreading : ∃ program resolved lowered,
    parseRewrite refusingParser spreadingProgram.render = some (.ok program) ∧
      resolveRewritePrimitives program = .ok resolved ∧ lowerRewriteProgram grantingHost resolved = .ok lowered ∧
      lowered = loweredProgram resolved := by
  obtain ⟨program,resolved,lowered,parsed,-,resolution,lowering⟩ := spreading_lowers
  have canonical := lower_canonical parsed resolution grantingHost
  rw [lowering] at canonical
  exact ⟨program,resolved,lowered,parsed,resolution,lowering,canonical.2.2.2⟩

/-- Where the host refuses no type, lowering of what has been parsed and resolved fails by arity or
types exactly when a root of the syntax has no type; else the roots get the types of the syntax, or
a call has arguments of two lengths. -/
theorem lower_inferred (inLanguage : abstract.InLanguage parser leaves) (compiled : program.shape = abstract.compile parser)
    (resolution : resolveRewritePrimitives program = .ok resolved) (host : TypeHost) :
    match lowerRewriteProgram host resolved,Expr.inferAll (abstract.parameters.map (·.2)) none abstract.roots with
    | .error found,none =>
      LeastFault (endingFault host resolved) resolved.nodes.length found ∨
        Faultless (endingFault host resolved) resolved.nodes.length ∧
          LeastFault (reportedFault host resolved) resolved.nodes.length found
    | .error found,some _ =>
      LeastFault (hostFault host resolved) resolved.nodes.length found ∨
        Faultless (hostFault host resolved) resolved.nodes.length ∧
          LeastFault (shapeFault resolved) resolved.nodes.length found
    | .ok _,none => False
    | .ok lowered,some types =>
      Faultless (hostFault host resolved) resolved.nodes.length ∧
        Faultless (shapeFault resolved) resolved.nodes.length ∧
        lowered.roots.map (fun root => (loweringNodeAt lowered.nodes root).structuralType) = LoweredType.trees types := by
  have forested := resolved_forested inLanguage compiled resolution
  have calls := resolved_calls forested resolution
  have tables := (resolved_shape resolution).trans compiled
  have faults := lower_faults host calls (forested_roots forested)
  have accepts := wellTyped_iff_inferred inLanguage tables forested (resolved_named resolution) calls
  have roots := roots_inferred inLanguage tables forested (resolved_named resolution)
  cases lowering : lowerRewriteProgram host resolved with
  | error found =>
    rw [lowering] at faults
    cases inferred : Expr.inferAll (abstract.parameters.map (·.2)) none abstract.roots with
    | none =>
      rcases faults with ending | ⟨free,type | ⟨types,-⟩⟩
      · exact .inl ending
      · exact .inr ⟨free,type⟩
      · obtain ⟨types,some⟩ := accepts.mp ⟨free.ending.2,faultless_reported.mp types⟩
        rw [inferred] at some
        cases some
    | some types =>
      obtain ⟨arities,fits⟩ := accepts.mpr ⟨types,inferred⟩
      rcases faults with ending | ⟨free,type | ⟨-,shape⟩⟩
      · exact .inl (ending.refused arities)
      · exact absurd (faultless_reported.mpr fits) type.not_faultless
      · exact .inr ⟨free.ending.1,shape⟩
  | ok lowered =>
    rw [lowering] at faults
    obtain ⟨free,fits,shapes,rfl⟩ := faults
    obtain ⟨types,inferred⟩ := accepts.mp ⟨free.ending.2,faultless_reported.mp fits⟩
    rw [inferred]
    refine ⟨free.ending.1,shapes,?_⟩
    have found := inferAll_forall₂ inferred
    show (resolved.roots.map fun root =>
      (loweringNodeAt (shapedNodes resolved resolved.nodes.length) root).structuralType) = _
    clear inferred accepts
    generalize abstract.roots = trees at roots found
    generalize resolved.roots = ids at roots
    rw [LoweredType.trees_eq]
    induction found generalizing ids with
    | nil =>
      cases roots
      rfl
    | cons first _ ih =>
      cases roots with
      | cons typed later =>
        rw [first] at typed
        have recorded := typed.recorded
        rw [List.map_cons,List.map_cons,ih _ later,@shapedNodes_view resolved _ _ (·.structuralType) (fun _ _ _ _ => rfl) recorded.inside]
        exact congrArg (· :: _) (congrArg (·.2.2) recorded.typing)

theorem lower_inferred_spreading : ∃ program resolved lowered,
    program.shape = spreadingProgram.compile refusingParser ∧ resolveRewritePrimitives program = .ok resolved ∧
      lowerRewriteProgram grantingHost resolved = .ok lowered ∧
      lowered.roots.map (fun root => (loweringNodeAt lowered.nodes root).structuralType) =
        [.tuple [.vector .integer,.scalar .integer],.scalar .integer] := by
  obtain ⟨program,resolved,lowered,-,shape,resolution,lowering⟩ := spreading_lowers
  have inferred := lower_inferred spreadingProgram_inLanguage shape resolution grantingHost
  rw [lowering] at inferred
  exact ⟨program,resolved,lowered,shape,resolution,lowering,inferred.2.2⟩

end Bennu
