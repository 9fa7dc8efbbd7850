import Bennu.LoweringFaults
import Bennu.ParsedForest
import Bennu.Resolution

/-! The types of lowering as types of syntax trees: what a tree's type is, and that the tables get
the types of the trees they hold. -/
namespace Bennu
open Forest

/-- The type of a tree as phase 5 knows it: of a call of a vector's elements, still a scalar. -/
inductive LoweredType where
  | plain (cardinality : RewriteCardinality) (elementType : ScalarType) (elementCount : Nat)
      (container : ContainerKind)
  | tuple (elements : List LoweredType)

namespace LoweredType

def argumentType : LoweredType → ArgumentType
  | plain cardinality elementType _ _ => ⟨cardinality,elementType⟩
  | tuple _ => ⟨.tuple,.boolean⟩

def count : LoweredType → Nat
  | plain _ _ elementCount _ => elementCount
  | tuple elements => elements.length

mutual

def tree : LoweredType → TypeTree
  | plain _ elementType _ container => typeTreeOf ⟨container,elementType⟩
  | tuple elements => .tuple (trees elements)

def trees : List LoweredType → List TypeTree
  | [] => []
  | type :: rest => type.tree :: trees rest

end

/-- The arguments of a prefix call: a tuple passes its elements. -/
def spread : LoweredType → List LoweredType
  | tuple elements => elements
  | type => [type]

def isTuple : LoweredType → Bool
  | tuple _ => true
  | _ => false

theorem trees_eq (types : List LoweredType) : trees types = types.map tree := by
  induction types with
  | nil => rfl
  | cons type rest ih => rw [trees,ih,List.map_cons]

end LoweredType

/-- The type of a call: that of the chosen signature. -/
def callType (name : Text) (arguments : List LoweredType) : Option LoweredType :=
  (findPrimitive name).bind fun descriptor =>
    if arityExists descriptor arguments.length then
      (loweringSignature descriptor (arguments.map (·.argumentType))).map fun signature =>
        .plain (if descriptor.lifting = .none then .dynamicVector else .scalar) signature.result.element 1
          signature.result.container
    else none

mutual

/-- The type of a tree; `operand` is that of the operand a placeholder stands for. -/
def Expr.infer (types : List ScalarType) (operand : Option LoweredType) : Expr → Option LoweredType
  | .scalar literal => some (.plain .scalar literal.type 1 .scalar)
  | .vector type elements => some (.plain .staticVector type elements.length .vector)
  | .parameter index => some (.plain .scalar (types.getD index .boolean) 1 .scalar)
  | .unresolved _ => some (.plain .scalar .boolean 1 .scalar)
  | .bracketCall name arguments => (Expr.inferAll types operand arguments).bind (callType name)
  | .prefixCall name argument => (argument.infer types operand).bind fun type => callType name type.spread
  | .tuple elements => (Expr.inferAll types operand elements).map .tuple
  | .placeholder => operand
  | .fanout source branches => (Expr.inferAll types (source.infer types none) branches).map .tuple

def Expr.inferAll (types : List ScalarType) (operand : Option LoweredType) :
    List Expr → Option (List LoweredType)
  | [] => some []
  | tree :: rest =>
    (tree.infer types operand).bind fun type =>
      (Expr.inferAll types operand rest).map fun later => type :: later

end

/-! ### Tables -/

theorem range_slice {α : Type} {table : List α} {first count : Nat} (default : α)
    (full : (slice table first count).length = count) :
    (List.range count).map (fun position => table.getD (first + position) default) = slice table first count := by
  apply List.ext_getElem
  · rw [List.length_map,List.length_range,full]
  · intro position bound _
    rw [List.length_map,List.length_range] at bound
    rw [slice,List.length_take,List.length_drop] at full
    simp only [List.getElem_map,List.getElem_range,slice,List.getElem_take,List.getElem_drop]
    rw [List.getD_eq_getElem _ _ (by omega)]

variable {program : RewriteProgram} {typed : TypedNodes} {index other count : Nat}

def RewriteProgram.known (program : RewriteProgram) : TypedNodes := knownTypes program program.nodes.length

/-- What `infer` says of a node. -/
def RewriteLoweringNode.typing (node : RewriteLoweringNode) : ArgumentType × Nat × TypeTree :=
  (node.argumentType,node.elementCount,node.structuralType)

theorem knownStep_nodeAt (apart : other ≠ index) :
    (knownStep program typed index).nodeAt other = typed.nodeAt other := by
  rw [knownStep]
  split
  · simp only [TypedNodes.nodeAt,TypedNodes.settle,List.getD_eq_getElem?_getD]
    rw [List.getElem?_set_ne (Ne.symm apart)]
  · rfl

theorem knownStep_available (apart : other ≠ index) :
    (knownStep program typed index).available other = typed.available other := by
  rw [knownStep]
  split
  · simp only [TypedNodes.available,TypedNodes.settle,List.getD_eq_getElem?_getD]
    rw [List.getElem?_set_ne (Ne.symm apart)]
  · rfl

/-- A node keeps its type while later ones get theirs. -/
theorem knownTypes_later (before : index < count) {later : Nat} (grows : count ≤ later) :
    (knownTypes program later).nodeAt index = (knownTypes program count).nodeAt index ∧
      (knownTypes program later).available index = (knownTypes program count).available index := by
  induction later, grows using Nat.le_induction with
  | base => exact ⟨rfl,rfl⟩
  | succ later bound ih =>
    have apart : index ≠ later := Nat.ne_of_lt (Nat.lt_of_lt_of_le before bound)
    rw [knownTypes_succ,knownStep_nodeAt apart,knownStep_available apart]
    exact ih

/-- Before its turn a node has no type. -/
theorem knownTypes_earlier (ahead : count ≤ index) :
    (knownTypes program count).nodeAt index = (firstTypes program).nodeAt index ∧
      (knownTypes program count).available index = false := by
  induction count with
  | zero =>
    refine ⟨rfl,?_⟩
    show (List.replicate program.nodes.length false).getD index false = false
    rw [List.getD_eq_getElem?_getD,List.getElem?_replicate]
    split <;> rfl
  | succ count ih =>
    have apart : index ≠ count := Nat.ne_of_gt ahead
    rw [knownTypes_succ,knownStep_nodeAt apart,knownStep_available apart]
    exact ih (Nat.le_of_succ_le ahead)

theorem map_modify_same {α β : Type} {view : α → β} {change : α → α} (same : ∀ entry, view (change entry) = view entry)
    (table : List α) (index : Nat) : (table.modify index change).map view = table.map view := by
  apply List.ext_getElem?
  intro place
  rw [List.getElem?_map,List.getElem?_map,List.getElem?_modify]
  cases table[place]? with
  | none => rfl
  | some entry =>
    by_cases here : index = place
    · simp [here,same]
    · simp [here]

theorem countUses_map {β : Type} {view : RewriteLoweringNode → β} (same : ∀ node, view node.use = view node)
    (indexes : List Nat) : ∀ nodes, (countUses nodes indexes).map view = nodes.map view := by
  induction indexes with
  | nil => exact fun _ => rfl
  | cons index rest ih => exact fun nodes => (ih _).trans (map_modify_same same nodes index)

theorem retainRoots_map {β : Type} {view : RewriteLoweringNode → β}
    (same : ∀ node, view { node.use with retainedRoot := true } = view node) (roots : List Nat) :
    ∀ nodes, (retainRoots nodes roots).map view = nodes.map view := by
  induction roots with
  | nil => exact fun _ => rfl
  | cons root rest ih => exact fun nodes => (ih _).trans (map_modify_same same nodes root)

theorem fanoutUses_map {β : Type} {view : RewriteLoweringNode → β} (same : ∀ node, view node.use = view node)
    (fanouts : List RewriteFanout) : ∀ nodes,
      (fanouts.foldl (fun nodes fanout => countUses nodes (fanoutUses program fanout)) nodes).map view =
        nodes.map view := by
  induction fanouts with
  | nil => exact fun _ => rfl
  | cons fanout rest ih => exact fun nodes => (ih _).trans (countUses_map same _ nodes)

/-- Counting uses leaves everything else of the nodes. -/
theorem firstLoweringNodes_map {β : Type} {view : RewriteLoweringNode → β}
    (used : ∀ node, view node.use = view node)
    (retained : ∀ node, view { node.use with retainedRoot := true } = view node) :
    (firstLoweringNodes program).map view = program.nodes.map fun node => view (firstLoweringNode program node) := by
  rw [firstLoweringNodes,retainRoots_map retained,fanoutUses_map used,countUses_map used,countUses_map used,
    List.map_map]
  rfl

theorem firstLoweringNodes_length : (firstLoweringNodes program).length = program.nodes.length := by
  have same := congrArg List.length (@firstLoweringNodes_map program _ (fun _ => ()) (fun _ => rfl) fun _ => rfl)
  simpa using same

theorem firstTypes_typing (inside : index < program.nodes.length) :
    ((firstTypes program).nodeAt index).typing = (baseLoweringNode (program.nodeAt index)).typing := by
  have same := congrArg (·[index]?) (@firstLoweringNodes_map program _ RewriteLoweringNode.typing
    (fun _ => rfl) fun _ => rfl)
  have bound : index < (firstLoweringNodes program).length := by rwa [firstLoweringNodes_length]
  simp only [List.getElem?_map,List.getElem?_eq_getElem bound,List.getElem?_eq_getElem inside,Option.map_some,
    Option.some.injEq] at same
  rw [TypedNodes.nodeAt,firstTypes,List.getD_eq_getElem _ _ bound,same,RewriteProgram.nodeAt,
    List.getD_eq_getElem _ _ inside,firstLoweringNode]
  split <;> rfl

theorem knownTypes_length (count : Nat) :
    (knownTypes program count).nodes.length = program.nodes.length ∧
      (knownTypes program count).typeAvailable.length = program.nodes.length := by
  induction count with
  | zero => exact ⟨firstLoweringNodes_length,List.length_replicate⟩
  | succ count ih =>
    rw [knownTypes_succ,knownStep]
    split
    · simpa [TypedNodes.settle] using ih
    · exact ih

/-- A node gets its type at its turn. -/
theorem known_of_settles {node : RewriteLoweringNode} (inside : index < program.nodes.length)
    (settles : typeVerdict program (knownTypes program index) index = .settles node) :
    program.known.available index = true ∧ program.known.nodeAt index = node := by
  obtain ⟨sameNode,sameFlag⟩ := @knownTypes_later program index _ (Nat.lt_succ_self index) _ inside
  obtain ⟨nodes,flags⟩ := @knownTypes_length program index
  rw [RewriteProgram.known,sameNode,sameFlag,knownTypes_succ,knownStep,settles]
  simp [TypedNodes.available,TypedNodes.nodeAt,TypedNodes.settle,List.getD_eq_getElem?_getD,flags,nodes,inside]

theorem settles_of_known (inside : index < program.nodes.length) (available : program.known.available index = true) :
    ∃ node, typeVerdict program (knownTypes program index) index = .settles node := by
  obtain ⟨-,sameFlag⟩ := @knownTypes_later program index _ (Nat.lt_succ_self index) _ inside
  rw [RewriteProgram.known,sameFlag,knownTypes_succ,knownStep] at available
  cases verdict : typeVerdict program (knownTypes program index) index with
  | settles node => exact ⟨node,rfl⟩
  | _ =>
    rw [verdict] at available
    rw [(knownTypes_earlier (Nat.le_refl _)).2] at available
    cases available

theorem unknown_of_waits (inside : index < program.nodes.length)
    (never : ∀ node, typeVerdict program (knownTypes program index) index ≠ .settles node) :
    program.known.available index = false := by
  by_contra available
  obtain ⟨node,settles⟩ := settles_of_known inside (by simpa using available)
  exact never node settles

/-- What a node reads of earlier ones is there at the end. -/
theorem known_before (before : other < index) (inside : index < program.nodes.length) :
    (knownTypes program index).available other = program.known.available other ∧
      (knownTypes program index).nodeAt other = program.known.nodeAt other := by
  obtain ⟨sameNode,sameFlag⟩ := @knownTypes_later program other _ before _ (Nat.le_of_lt inside)
  exact ⟨sameFlag.symm,sameNode.symm⟩

/-! ### Verdicts -/

theorem callVerdict_settles {node : RewriteNode} {lowered : RewriteLoweringNode} :
    callVerdict program typed index node = .settles lowered ↔
      ∃ descriptor, callDescriptor (program.callAt node.callIndex) = some descriptor ∧
        (∀ operand, prefixTupleOperand program (program.callAt node.callIndex) = some operand →
          typed.available operand = true) ∧
        arityExists descriptor (semanticArguments program (program.callAt node.callIndex)).length = true ∧
        (∀ argument ∈ semanticArguments program (program.callAt node.callIndex), typed.available argument = true) ∧
        ∃ signature, loweringSignature descriptor ((semanticArguments program (program.callAt node.callIndex)).map
            fun argument => (typed.nodeAt argument).argumentType) = some signature ∧
          lowered = loweredCall program (program.callAt node.callIndex) descriptor signature (typed.nodeAt index) := by
  rw [callVerdict]
  generalize program.callAt node.callIndex = call
  cases callDescriptor call with
  | none => simp
  | some descriptor =>
    simp only [Option.some.injEq,exists_eq_left']
    generalize prefixTupleOperand program call = operand
    generalize semanticArguments program call = arguments
    by_cases unknown : operand.any (fun operand => !typed.available operand) = true
    · rw [if_pos unknown]
      constructor
      · intro waits
        cases waits
      · rintro ⟨available,-⟩
        cases operand with
        | none => cases unknown
        | some tuple => simp [available tuple rfl] at unknown
    · rw [if_neg unknown]
      have operands : ∀ tuple, operand = some tuple → typed.available tuple = true := by
        rintro tuple rfl
        simpa using unknown
      by_cases arity : arityExists descriptor arguments.length = true
      · simp only [arity,Bool.not_true,Bool.false_eq_true,if_false]
        by_cases all : arguments.all typed.available = true
        · simp only [all,Bool.not_true,Bool.false_eq_true,if_false]
          have available := List.all_eq_true.mp all
          cases loweringSignature descriptor (arguments.map fun argument => (typed.nodeAt argument).argumentType) with
          | none => simp
          | some signature =>
            simp only [TypeVerdict.settles.injEq,Option.some.injEq,exists_eq_left']
            exact ⟨fun same => ⟨operands,trivial,available,same.symm⟩,fun given => given.2.2.2.symm⟩
        · simp only [all,Bool.not_false,if_true]
          constructor
          · intro waits
            cases waits
          · rintro ⟨-,-,available,-⟩
            exact absurd (List.all_eq_true.mpr available) all
      · simp [arity]

end Bennu
