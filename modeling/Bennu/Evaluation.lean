import Bennu.Lowering

/-! Evaluation of a lowered program: the loop over the nodes, which owns their values. Storage,
values and what is done with one of them are parameters; where a value goes is modelled. A node's
value and whether it is live are one entry. -/
namespace Bennu

/-- Why an evaluation ends without values. Of the guards in the loop each has its own. -/
inductive EvaluationFailure (E : Type) where
  | admission (fanout : Nat) (error : E)
  | literal (node : Nat) (error : E)
  | shape (node position expected actual : Nat)
  | application (node : Nat) (error : E)
  | formatting (position : Nat) (error : E)
  | missingFanout (fanout : Nat)
  | invalidForwardUse (node : Nat)
  | unknownPrimitive (node : Nat)
  | incompleteAssembly (node : Nat)
  | branchOrder (fanout position : Nat)
  | branchSlot (fanout position : Nat)
  | deadRoot (node : Nat)

/-- A value, or the node of a tuple's arena. -/
structure TypedPrimitiveArgument (V : Type) where
  owner : V
  node : Option Nat

/-- What a fanout is admitted for. -/
structure FanoutAdmission where
  elementCount : Nat
  nodeCount : Nat
  edgeCount : Nat
  vectorPayloadCount : Nat
  nestedReservationCount : Nat
  deriving DecidableEq, Repr

/-- What the loop calls, over storage `R`, values `V`, assemblies `A` of tuples and errors `E`. -/
structure EvaluationOperations (R V A E : Type) where
  scalarLiteral : RewriteNode → V
  parameter : Nat → V
  zero : V
  vectorLiteral : R → RewriteNode → R × Except E V
  makeTuple : R → RewriteNode → List V → R × Except E V
  tupleElements : V → Option (List Nat)
  valueLength : V → Option Nat
  emptyAssembly : A
  preadmit : R → RewriteFanout → FanoutAdmission → R × Except E A
  transferredCount : A → Nat
  transfer : A → V → Option A
  publish : A → Option V
  applyPrimitive : R → RewriteLoweringNode → PrimitiveDescriptor → List (TypedPrimitiveArgument V) → R × Except E V
  /-- The error of a primitive whose only argument is the element of a spread tuple. -/
  spreadError : E → E
  release : R → V → R
  releaseAssembly : R → A → R
  refresh : R → R
  formatValue : V → Except E Text

structure EvaluationState (R V A : Type) where
  resources : R
  nodeValues : Nat → Option V
  remainingUses : Nat → Nat
  assemblies : Nat → A
  assemblyLive : Nat → Bool

section evaluation

variable {R V A E : Type} (operations : EvaluationOperations R V A E) (program : RewriteProgram)
  (lowering : RewriteLoweringProgram)

/-- A part of the loop ends the evaluation, or comes to a result. -/
abbrev EvaluationRun (R V A E α : Type) := Except (EvaluationFailure E × EvaluationState R V A) α

/-! ### Release -/

/-- `release_rewrite_values`. -/
def releaseRewriteValues (resources : R) (values : List V) : R :=
  operations.refresh (values.foldr (fun value resources => operations.release resources value) resources)

/-- `release_rewrite_node_value`. -/
def releaseRewriteNodeValue (node : Nat) (state : EvaluationState R V A) : EvaluationState R V A :=
  match state.nodeValues node with
  | none => state
  | some value =>
    { state with
      resources := operations.release state.resources value
      nodeValues := Function.update state.nodeValues node none }

/-- Assemblies and then values are released, the last first. -/
def releaseExecutionState (state : EvaluationState R V A) : R :=
  let resources := (List.range program.fanouts.length).reverse.foldl (fun resources fanout =>
    if state.assemblyLive fanout then operations.releaseAssembly resources (state.assemblies fanout) else resources)
    state.resources
  operations.refresh ((List.range program.nodes.length).reverse.foldl (fun resources node =>
    match state.nodeValues node with
    | none => resources
    | some value => operations.release resources value) resources)

/-! ### Fanouts are admitted -/

namespace TypeTree

mutual

/-- How many nodes, vectors and tuples the arena of a type has. -/
def sizes : TypeTree → Nat × Nat × Nat
  | .scalar _ => (1,0,0)
  | .vector _ => (1,1,0)
  | .tuple elements =>
    let below := sizesAll elements
    (below.1 + 1,below.2.1,below.2.2 + 1)

def sizesAll : List TypeTree → Nat × Nat × Nat
  | [] => (0,0,0)
  | type :: rest =>
    let first := type.sizes
    let later := sizesAll rest
    (first.1 + later.1,first.2.1 + later.2.1,first.2.2 + later.2.2)

end

end TypeTree

def branchAdmission (admission : FanoutAdmission) (branch : RewriteLoweringNode) : FanoutAdmission :=
  match branch.cardinality with
  | .tuple =>
    let sizes := branch.structuralType.sizes
    { admission with
      nodeCount := admission.nodeCount + sizes.1
      edgeCount := admission.edgeCount + (sizes.1 - 1)
      vectorPayloadCount := admission.vectorPayloadCount + sizes.2.1
      nestedReservationCount := admission.nestedReservationCount + sizes.2.2 }
  | .scalar => { admission with nodeCount := admission.nodeCount + 1 }
  | _ =>
    { admission with
      nodeCount := admission.nodeCount + 1
      vectorPayloadCount := admission.vectorPayloadCount + 1 }

def fanoutAdmission (fanout : RewriteFanout) : FanoutAdmission :=
  (List.range fanout.branchCount).foldl (fun admission position =>
    branchAdmission admission (loweringNodeAt lowering.nodes (program.branchAt (fanout.firstBranch + position)).root))
    ⟨fanout.branchCount,0,fanout.branchCount,0,0⟩

/-- The first node from `index` on that is the fanout's. -/
def fanoutNodeFrom (index fanout : Nat) : Option Nat :=
  ((List.range program.nodes.length).drop index).find? fun candidate =>
    (program.nodeAt candidate).kind == .fanout && (program.nodeAt candidate).callIndex == fanout

/-- A fanout is admitted once its operand has been evaluated. -/
def admitFanout (index : Nat) (state : EvaluationState R V A) (fanout : Nat) : EvaluationRun R V A E (EvaluationState R V A) :=
  let record := program.fanoutAt fanout
  if record.operand + 1 ≠ index then .ok state
  else
    match fanoutNodeFrom program index fanout with
    | none => .error (.missingFanout fanout,state)
    | some _ =>
      match operations.preadmit state.resources record (fanoutAdmission program lowering record) with
      | (resources,.error error) => .error (.admission fanout error,{ state with resources })
      | (resources,.ok assembly) =>
        .ok { state with
          resources
          assemblies := Function.update state.assemblies fanout assembly
          assemblyLive := Function.update state.assemblyLive fanout true }

def admitFanouts (index : Nat) (state : EvaluationState R V A) : EvaluationRun R V A E (EvaluationState R V A) :=
  (List.range program.fanouts.length).foldlM (admitFanout operations program lowering index) state

/-! ### Literals, tuples and fanouts -/

/-- A node gets its value, which is released at once if nothing uses it. -/
def settleValue (node : Nat) (value : V) (state : EvaluationState R V A) : EvaluationState R V A :=
  let state := { state with nodeValues := Function.update state.nodeValues node (some value) }
  if state.remainingUses node = 0 then releaseRewriteNodeValue operations node state else state

/-- The elements of a tuple move out of their nodes; what has moved, should one be missing. -/
def takeElements : List Nat → EvaluationState R V A → List V →
    Except (List V × EvaluationState R V A) (List V × EvaluationState R V A)
  | [],state,taken => .ok (taken,state)
  | element :: rest,state,taken =>
    match state.nodeValues element with
    | none => .error (taken,state)
    | some value =>
      if state.remainingUses element ≠ 1 then .error (taken,state)
      else
        takeElements rest
          { state with
            nodeValues := Function.update state.nodeValues element none
            remainingUses := Function.update state.remainingUses element (state.remainingUses element - 1) }
          (taken ++ [value])

def evaluateVector (index : Nat) (node : RewriteNode) (state : EvaluationState R V A) : EvaluationRun R V A E (EvaluationState R V A) :=
  match operations.vectorLiteral state.resources node with
  | (resources,.error error) => .error (.literal index error,{ state with resources })
  | (resources,.ok value) => .ok (settleValue operations index value { state with resources })

def evaluateTuple (index : Nat) (node : RewriteNode) (state : EvaluationState R V A) : EvaluationRun R V A E (EvaluationState R V A) :=
  let elements := (List.range node.elementCount).map fun position =>
    program.tupleElements.getD (node.firstElement + position) 0
  match takeElements elements state [] with
  | .error (taken,state) =>
    .error (.invalidForwardUse index,{ state with resources := releaseRewriteValues operations state.resources taken })
  | .ok (values,state) =>
    match operations.makeTuple state.resources node values with
    | (resources,.error error) =>
      .error (.literal index error,{ state with resources := releaseRewriteValues operations resources values })
    | (resources,.ok value) => .ok (settleValue operations index value { state with resources })

def evaluateFanout (index : Nat) (node : RewriteNode) (state : EvaluationState R V A) : EvaluationRun R V A E (EvaluationState R V A) :=
  let operand := (program.fanoutAt node.callIndex).operand
  if state.assemblyLive node.callIndex = false then
    .error (.invalidForwardUse index,{ state with resources := releaseRewriteValues operations state.resources [] })
  else
    match operations.publish (state.assemblies node.callIndex) with
    | none =>
      .error (.incompleteAssembly index,{ state with resources := releaseRewriteValues operations state.resources [] })
    | some value =>
      let state := releaseRewriteNodeValue operations operand
        { state with assemblyLive := Function.update state.assemblyLive node.callIndex false }
      .ok (settleValue operations index value
        { state with
          remainingUses := Function.update state.remainingUses operand (state.remainingUses operand - 1) })

/-! ### Calls -/

/-- The node that owns what an argument refers to. -/
def ownerNode (argument : Nat) : Nat :=
  let node := program.nodeAt argument
  if node.kind = .placeholder then node.firstElement else argument

def argumentNodes (call : RewriteCall) : List Nat :=
  (List.range call.argumentCount).map fun position => program.arguments.getD (call.firstArgument + position) 0

/-- The arguments of a call, unless one is dead or a spread tuple has another arity. -/
def callArguments (lowered : RewriteLoweringNode) (call : RewriteCall) (state : EvaluationState R V A) :
    Option (List (TypedPrimitiveArgument V)) :=
  let nodes := argumentNodes program call
  if nodes.any fun argument => (state.nodeValues (ownerNode program argument)).isNone || state.remainingUses argument == 0
  then none
  else if lowered.spreadsTuple then
    (state.nodeValues (ownerNode program lowered.spreadOperand)).bind fun operand =>
      (operations.tupleElements operand).bind fun elements =>
        if elements.length = lowered.argumentCount then some (elements.map fun element => ⟨operand,some element⟩)
        else none
  else nodes.mapM fun argument => (state.nodeValues (ownerNode program argument)).map fun owner => ⟨owner,none⟩

/-- The loop of `rewrite_runtime_shape_error`: the first argument of another length. -/
def scanLengths : Option Nat → Nat → List (RewriteCardinality × Option Nat) → Option (Nat × Nat × Nat)
  | _,_,[] => none
  | expected,position,(cardinality,length) :: rest =>
    if cardinality ≠ .dynamicVector then scanLengths expected (position + 1) rest
    else
      match length,expected with
      | none,_ => scanLengths expected (position + 1) rest
      | some actual,none => scanLengths (some actual) (position + 1) rest
      | some actual,some known =>
        if actual = known then scanLengths expected (position + 1) rest else some (position + 1,known,actual)

def runtimeShapeError (call : RewriteLoweringNode) (arguments : List (TypedPrimitiveArgument V)) :
    Option (Nat × Nat × Nat) :=
  if call.runtimeShapeCheck = false ∨ call.spreadsTuple = true then none
  else
    let cardinalities := (List.range call.argumentCount).map fun position =>
      (loweringNodeAt lowering.nodes (lowering.arguments.getD (call.firstArgument + position) 0)).cardinality
    scanLengths (if cardinalities.contains .staticVector then some call.elementCount else none) 0
      (cardinalities.zip (arguments.map fun argument => operations.valueLength argument.owner))

/-- Whether every argument is live and has a use for each time it occurs. -/
def argumentsUsable (state : EvaluationState R V A) : List Nat → List Nat → Bool
  | _,[] => true
  | prior,argument :: rest =>
    decide (argument < lowering.nodes.length) && decide (prior.count argument < state.remainingUses argument) &&
      (state.nodeValues argument).isSome && argumentsUsable state (prior ++ [argument]) rest

/-- The arguments that no longer have a use are released, the last first. -/
def releaseConsumed : List Nat → EvaluationState R V A → EvaluationState R V A
  | [],state => state
  | argument :: later,state =>
    let state := releaseConsumed later state
    if later.contains argument = false ∧ state.remainingUses argument = 0 ∧
        (loweringNodeAt lowering.nodes argument).retainedRoot = false then
      releaseRewriteNodeValue operations argument state
    else state

/-- `complete_rewrite_consumer_attempt`. -/
def completeConsumerAttempt (arguments : List Nat) (state : EvaluationState R V A) : Option (EvaluationState R V A) :=
  if argumentsUsable lowering state [] arguments = false then none
  else
    some (releaseConsumed operations lowering arguments { state with
      remainingUses := arguments.foldl (fun uses argument => Function.update uses argument (uses argument - 1))
        state.remainingUses })

/-- The first branch of a fanout whose root is the node, with its position. -/
def branchOfNode (index : Nat) : Option (Nat × Nat) :=
  (List.range program.fanouts.length).findSome? fun fanout =>
    let record := program.fanoutAt fanout
    ((List.range record.branchCount).find? fun position =>
      (program.branchAt (record.firstBranch + position)).root == index).map fun position => (fanout,position)

/-- The result of a call stays at its node, or moves into the fanout it is a branch of. -/
def placeResult (index : Nat) (value : V) (state : EvaluationState R V A) : EvaluationRun R V A E (EvaluationState R V A) :=
  let refuse (failure : EvaluationFailure E) : EvaluationRun R V A E (EvaluationState R V A) :=
    .error (failure,{ state with resources := releaseRewriteValues operations state.resources [value] })
  match branchOfNode program index with
  | none =>
    .ok (settleValue operations index value state)
  | some (fanout,position) =>
    if position ≠ operations.transferredCount (state.assemblies fanout) ∨ state.remainingUses index ≠ 1 then
      refuse (.branchOrder fanout position)
    else
      match operations.transfer (state.assemblies fanout) value with
      | none => refuse (.branchSlot fanout position)
      | some assembly =>
        let state := { state with
          assemblies := Function.update state.assemblies fanout assembly
          remainingUses := Function.update state.remainingUses index (state.remainingUses index - 1) }
        .ok (if state.remainingUses index = 0 then releaseRewriteNodeValue operations index state else state)

def evaluateCall (index : Nat) (node : RewriteNode) (state : EvaluationState R V A) : EvaluationRun R V A E (EvaluationState R V A) :=
  let call := program.callAt node.callIndex
  let lowered := loweringNodeAt lowering.nodes index
  match callDescriptor call with
  | none => .error (.unknownPrimitive index,state)
  | some descriptor =>
    match callArguments operations program lowered call state with
    | none => .error (.invalidForwardUse index,state)
    | some arguments =>
      let complete := completeConsumerAttempt operations lowering (argumentNodes program call)
      match runtimeShapeError operations lowering lowered arguments with
      | some (position,expected,actual) =>
        .error (.shape index position expected actual,(complete state).getD state)
      | none =>
        let (resources,applied) := operations.applyPrimitive state.resources lowered descriptor arguments
        match complete { state with resources },applied with
        | none,.ok value =>
          .error (.invalidForwardUse index,
            { state with resources := releaseRewriteValues operations resources [value] })
        | none,.error _ => .error (.invalidForwardUse index,{ state with resources })
        | some state,.error error =>
          let completed := if lowered.spreadsTuple ∧ lowered.argumentCount = 1 then operations.spreadError error else error
          .error (.application index completed,state)
        | some state,.ok value => placeResult operations program index value state

/-! ### The program -/

def evaluateNode (state : EvaluationState R V A) (index : Nat) : EvaluationRun R V A E (EvaluationState R V A) :=
  let node := program.nodeAt index
  match node.kind with
  | .scalarLiteral => .ok (settleValue operations index (operations.scalarLiteral node) state)
  | .parameterReference => .ok (settleValue operations index (operations.parameter node.firstElement) state)
  | .placeholder => .ok { state with nodeValues := Function.update state.nodeValues index (some operations.zero) }
  | .vectorLiteral => evaluateVector operations index node state
  | .tupleLiteral => evaluateTuple operations program index node state
  | .fanout => evaluateFanout operations program index node state
  | _ => evaluateCall operations program lowering index node state

def evaluateRound (state : EvaluationState R V A) (index : Nat) : EvaluationRun R V A E (EvaluationState R V A) := do
  let state ← admitFanouts operations program lowering index state
  evaluateNode operations program lowering state index

def initialState (resources : R) : EvaluationState R V A where
  resources
  nodeValues := fun _ => none
  remainingUses := fun node => (loweringNodeAt lowering.nodes node).useCount
  assemblies := fun _ => operations.emptyAssembly
  assemblyLive := fun _ => false

/-- The values of the roots move into the result. -/
def takeRoots : List Nat → EvaluationState R V A → List V →
    EvaluationRun R V A E (List V × EvaluationState R V A)
  | [],state,taken => .ok (taken,state)
  | root :: rest,state,taken =>
    match state.nodeValues root with
    | none => .error (.deadRoot root,{ state with resources := releaseRewriteValues operations state.resources taken })
    | some value =>
      if state.remainingUses root ≠ 1 then
        .error (.deadRoot root,{ state with resources := releaseRewriteValues operations state.resources taken })
      else
        takeRoots rest
          { state with
            nodeValues := Function.update state.nodeValues root none
            remainingUses := Function.update state.remainingUses root (state.remainingUses root - 1) }
          (taken ++ [value])

/-- The texts of the roots, or the first that has none, counted from one. -/
def formatRoots : Nat → List V → Except (EvaluationFailure E) (List Text)
  | _,[] => .ok []
  | position,value :: rest =>
    match operations.formatValue value with
    | .error error => .error (.formatting (position + 1) error)
    | .ok text => (formatRoots (position + 1) rest).map fun texts => text :: texts

/-- The loop of `evaluate_rewrite_source_impl` and what follows it. -/
def evaluateProgram (resources : R) : R × Except (EvaluationFailure E) (List V × List Text) :=
  let run := (List.range program.nodes.length).foldlM (evaluateRound operations program lowering)
    (initialState operations lowering resources)
  match run.bind fun state => takeRoots operations program.roots state [] with
  | .error (failure,state) => (releaseExecutionState operations program state,.error failure)
  | .ok (values,state) =>
    match formatRoots operations 0 values with
    | .error failure =>
      let released := releaseRewriteValues operations state.resources values
      (releaseExecutionState operations program { state with resources := released },.error failure)
    | .ok texts => (state.resources,.ok (values,texts))

end evaluation

end Bennu
