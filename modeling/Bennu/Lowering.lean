import Bennu.Parser
import Bennu.PrimitiveTable
import Bennu.TypeTree

/-! Lowering of a resolved program: every node gets its implementation, type and cardinality,
or the program a diagnostic. Tables are read with defaults where an index is out of range,
and types are trees: what their arenas hold, when the host grants them. -/
namespace Bennu

inductive RewriteCardinality where
  | scalar | staticVector | dynamicVector | tuple
  deriving DecidableEq, Repr

inductive RewriteEvaluationStage where
  | none | parse | resolution | primitiveTable | resourceAdmission | literal | application
  | formatting
  deriving DecidableEq, Repr

/-- The kinds of `Error` that lowering makes. -/
inductive LoweringErrorKind where
  | none | typeMismatch | arityError | shapeMismatch | resourceError | invalidPrimitiveTable
  deriving DecidableEq, Repr

structure ShapeErrorContext where
  expected : List Nat
  actual : List Nat
  deriving DecidableEq, Repr

structure ArityErrorContext where
  supplied : Nat
  accepted : List Nat
  deriving DecidableEq, Repr

structure TypeErrorSignatureContext where
  parameters : List TypeTree
  result : TypeTree

structure TypeErrorContext where
  actualArguments : List TypeTree
  acceptedSignatures : List TypeErrorSignatureContext

/-- The fields of `Error` that lowering sets. -/
structure LoweringError where
  kind : LoweringErrorKind
  location : RewritePosition
  message : Text
  primitive : Option PrimitiveErrorContext
  arity : Option ArityErrorContext
  type : Option TypeErrorContext
  argumentPosition : Option Nat
  shape : Option ShapeErrorContext
  resource : Option ResourceErrorContext

structure RewriteEvaluationDiagnostic where
  stage : RewriteEvaluationStage
  error : LoweringError
  primary : RewriteSpan
  context : RewriteSpan
  related : RewriteSpan
  primitiveName : RewriteSpan
  call : RewriteSpan
  arguments : List RewriteSpan
  hasOperand : Bool
  operand : RewriteSpan

structure RewriteLoweringNode where
  kind : RewriteNodeKind
  cardinality : RewriteCardinality
  elementType : ScalarType
  elementCount : Nat
  primitiveId : Option PrimitiveId
  implementation : PrimitiveImplementation
  runtimeShapeCheck : Bool
  firstArgument : Nat
  argumentCount : Nat
  spreadsTuple : Bool
  spreadOperand : Nat
  useCount : Nat
  retainedRoot : Bool
  firstElement : Nat
  parameterIndex : Nat
  boolean : Bool
  integer : Int64
  doublePrecision : Binary64
  primarySpan : RewriteSpan
  sourceSpan : RewriteSpan
  sourceLocation : RewritePosition
  admissionPoint : Text
  declarationNameSpan : RewriteSpan
  structuralType : TypeTree

structure RewriteLoweringProgram where
  nodes : List RewriteLoweringNode
  arguments : List Nat
  roots : List Nat
  booleanElements : List UInt8
  integerElements : List Int64
  doubleElements : List Binary64
  tupleElements : List Nat
  tupleElementSpans : List RewriteSpan
  fanoutOperands : List Nat
  fanoutBranchRoots : List Nat
  fanoutBranchSpans : List RewriteSpan

/-- A `RewriteLoweringResult` that is `ok` holds the program, one that is not a diagnostic. -/
abbrev RewriteLoweringResult := Except RewriteEvaluationDiagnostic RewriteLoweringProgram

/-- `make_error`. -/
def makeError (kind : LoweringErrorKind) (location : RewritePosition) (message : Text) : LoweringError :=
  ⟨kind,location,message,none,none,none,none,none,none⟩

def emptyRewriteEvaluationDiagnostic : RewriteEvaluationDiagnostic :=
  let empty := insertionSpan ⟨1,1,1⟩
  ⟨.none,makeError .none ⟨1,1,1⟩ [],empty,empty,empty,empty,empty,[],false,empty⟩

/-- `find_primitive` by identifier. -/
def findPrimitiveById (id : PrimitiveId) : Option PrimitiveDescriptor :=
  productionDescriptors.find? fun descriptor => descriptor.id == id

/-! ### The tables of a program -/

namespace RewriteProgram

variable (program : RewriteProgram)

def nodeAt (index : Nat) : RewriteNode := program.nodes.getD index (blankNode .scalarLiteral emptySpan)

def callAt (index : Nat) : RewriteCall :=
  program.calls.getD index ⟨.bracketed,emptySpan,emptySpan,emptySpan,emptySpan,emptySpan,0,0,none⟩

def fanoutAt (index : Nat) : RewriteFanout :=
  program.fanouts.getD index ⟨emptySpan,emptySpan,emptySpan,emptySpan,emptySpan,0,0,0⟩

def branchAt (index : Nat) : RewriteFanoutBranch :=
  program.fanoutBranches.getD index ⟨emptySpan,emptySpan,emptySpan,emptySpan,emptySpan,0⟩

end RewriteProgram

def isStructural (kind : RewriteNodeKind) : Bool := kind == .tupleLiteral || kind == .fanout

/-- The operand of a prefix call that passes a tuple's elements as its arguments: a literal, a
fanout, or a placeholder for one of them. -/
def prefixTupleOperand (program : RewriteProgram) (call : RewriteCall) : Option Nat :=
  if call.callSyntax ≠ .prefixed ∨ call.argumentCount ≠ 1 ∨ program.arguments.length ≤ call.firstArgument then
    none
  else
    let operand := program.arguments.getD call.firstArgument 0
    let node := program.nodeAt operand
    if program.nodes.length ≤ operand then none
    else if isStructural node.kind || (node.kind == .placeholder &&
        node.firstElement < program.nodes.length && isStructural (program.nodeAt node.firstElement).kind) then
      some operand
    else none

/-- The literal or fanout a placeholder stands for. The recursion of `structural_tuple_count` and
its like takes one step: `prefix_tuple_operand` has looked at the kind of that node. -/
def structuralTuple (program : RewriteProgram) (tupleNode : Nat) : RewriteNode :=
  let node := program.nodeAt tupleNode
  if node.kind = .placeholder then program.nodeAt node.firstElement else node

def structuralTupleCount (program : RewriteProgram) (tupleNode : Nat) : Nat :=
  (structuralTuple program tupleNode).elementCount

/-- The element of a literal, or the root of a fanout's branch. -/
def elementNode (program : RewriteProgram) (node : RewriteNode) (position : Nat) : Nat :=
  if node.kind = .fanout then (program.branchAt ((program.fanoutAt node.callIndex).firstBranch + position)).root
  else program.tupleElements.getD (node.firstElement + position) 0

def structuralTupleElement (program : RewriteProgram) (tupleNode position : Nat) : Nat :=
  elementNode program (structuralTuple program tupleNode) position

def structuralTupleElementSpan (program : RewriteProgram) (tupleNode position : Nat) : RewriteSpan :=
  let node := structuralTuple program tupleNode
  if node.kind = .fanout then (program.branchAt ((program.fanoutAt node.callIndex).firstBranch + position)).span
  else program.tupleElementSpans.getD (node.firstElementSpan + position) emptySpan

def semanticArgumentCount (program : RewriteProgram) (call : RewriteCall) : Nat :=
  match prefixTupleOperand program call with
  | some operand => structuralTupleCount program operand
  | none => call.argumentCount

def semanticArgumentNode (program : RewriteProgram) (call : RewriteCall) (position : Nat) : Nat :=
  match prefixTupleOperand program call with
  | some operand => structuralTupleElement program operand position
  | none => program.arguments.getD (call.firstArgument + position) 0

def semanticArgumentSpan (program : RewriteProgram) (call : RewriteCall) (position : Nat) : RewriteSpan :=
  match prefixTupleOperand program call with
  | some operand => structuralTupleElementSpan program operand position
  | none => program.argumentSpans.getD (call.firstArgument + position) emptySpan

def semanticArguments (program : RewriteProgram) (call : RewriteCall) : List Nat :=
  (List.range (semanticArgumentCount program call)).map (semanticArgumentNode program call)

/-! ### Errors -/

/-- What the choice of a signature reads of an argument. -/
structure ArgumentType where
  cardinality : RewriteCardinality
  elementType : ScalarType
  deriving DecidableEq, Repr

def RewriteLoweringNode.argumentType (node : RewriteLoweringNode) : ArgumentType :=
  ⟨node.cardinality,node.elementType⟩

def loweringContainer (argument : ArgumentType) : ContainerKind :=
  match argument.cardinality with
  | .scalar => .scalar
  | .tuple => .tuple
  | _ => .vector

/-- The name of the primitive is taken to find storage. -/
def loweringPrimitiveError (kind : LoweringErrorKind) (descriptor : PrimitiveDescriptor)
    (location : RewritePosition) : LoweringError :=
  { makeError kind location [] with primitive := some ⟨descriptor.name,some descriptor.id⟩ }

def loweringArityError (descriptor : PrimitiveDescriptor) (supplied : Nat) (location : RewritePosition) :
    LoweringError :=
  let accepted := descriptor.signatures.foldl (fun accepted signature =>
    if accepted.contains signature.parameters.length then accepted
    else accepted ++ [signature.parameters.length]) []
  { loweringPrimitiveError .arityError descriptor location with arity := some ⟨supplied,accepted⟩ }

def loweringTypeAccepts (descriptor : PrimitiveDescriptor) (parameter : ValueType)
    (argument : ArgumentType) : Bool :=
  if argument.cardinality = .tuple then false
  else if descriptor.lifting = .none then
    parameter.container == loweringContainer argument && parameter.element == argument.elementType
  else argument.elementType == parameter.element ||
    (argument.elementType == .integer && parameter.element == .doublePrecision)

def typeTreeOf (type : ValueType) : TypeTree :=
  if type.container = .scalar then .scalar type.element else .vector type.element

/-- The loop over the arguments that drops the candidates which do not accept them, up to the
first argument that none accepts: its position, counted from one. -/
def rejectedPosition (descriptor : PrimitiveDescriptor) :
    Nat → List PrimitiveSignature → List RewriteLoweringNode → Option Nat
  | _,_,[] => none
  | index,candidates,argument :: rest =>
    if candidates.isEmpty then none
    else
      let remaining := candidates.filter fun candidate =>
        loweringTypeAccepts descriptor (candidate.parameters.getD index scalarBool) argument.argumentType
      if remaining.isEmpty then some (index + 1) else rejectedPosition descriptor (index + 1) remaining rest

def loweringTypeError (descriptor : PrimitiveDescriptor) (arguments : List RewriteLoweringNode)
    (location : RewritePosition) : LoweringError :=
  let candidates := descriptor.signatures.filter fun signature =>
    signature.parameters.length == arguments.length
  { loweringPrimitiveError .typeMismatch descriptor location with
    argumentPosition := rejectedPosition descriptor 0 candidates arguments
    type := some ⟨arguments.map (·.structuralType),candidates.map fun signature =>
      ⟨signature.parameters.map typeTreeOf,typeTreeOf signature.result⟩⟩ }

def loweringDiagnostic (program : RewriteProgram) (call : RewriteCall) (error : LoweringError) :
    RewriteEvaluationDiagnostic :=
  let arguments := (List.range (semanticArgumentCount program call)).map (semanticArgumentSpan program call)
  let spread := (prefixTupleOperand program call).isSome
  let operand :=
    if spread then program.argumentSpans.getD call.firstArgument emptySpan
    else emptyRewriteEvaluationDiagnostic.operand
  let primary :=
    if error.kind = .typeMismatch ∨ error.kind = .shapeMismatch then
      match error.argumentPosition with
      | some (position + 1) => arguments.getD position call.nameSpan
      | _ => call.nameSpan
    else call.nameSpan
  { emptyRewriteEvaluationDiagnostic with
    stage := .application
    error := { error with location := primary.begin }
    primary
    context := call.span
    related := if spread then operand else call.nameSpan
    primitiveName := call.nameSpan
    call := call.span
    arguments
    hasOperand := spread
    operand }

/-! ### Roots, nodes and uses -/

def invalidRoot (duplicate : Bool) : RewriteEvaluationDiagnostic :=
  { emptyRewriteEvaluationDiagnostic with
    stage := .primitiveTable
    error := makeError .invalidPrimitiveTable ⟨1,1,1⟩
      (if duplicate then "typed rewrite lowering contains a repeated root".toList
      else "typed rewrite lowering contains an invalid root".toList) }

/-- The first root that is no node, or that an earlier one repeats. -/
def checkRoots (program : RewriteProgram) : List Nat → List Nat → Option RewriteEvaluationDiagnostic
  | _,[] => none
  | earlier,root :: rest =>
    let duplicate := earlier.contains root
    if program.nodes.length ≤ root ∨ duplicate = true then some (invalidRoot duplicate)
    else checkRoots program (earlier ++ [root]) rest

def baseLoweringNode (node : RewriteNode) : RewriteLoweringNode :=
  let vector := node.kind == .vectorLiteral
  let tuple := isStructural node.kind
  { kind := node.kind
    cardinality := if tuple then .tuple else if vector then .staticVector else .scalar
    elementType := node.elementType
    elementCount := if vector || tuple then node.elementCount else 1
    primitiveId := none
    implementation := .none
    runtimeShapeCheck := false
    firstArgument := 0
    argumentCount := 0
    spreadsTuple := false
    spreadOperand := 0
    useCount := 0
    retainedRoot := false
    firstElement := node.firstElement
    parameterIndex :=
      if node.kind = .parameterReference then node.firstElement
      else if node.kind = .fanout then node.callIndex else 0
    boolean := node.boolean
    integer := node.integer
    doublePrecision := node.doublePrecision
    primarySpan := node.span
    sourceSpan := node.span
    sourceLocation := node.span.begin
    admissionPoint := if vector then "vector-literal".toList else []
    declarationNameSpan := node.declarationNameSpan
    structuralType := if vector then .vector node.elementType else .scalar node.elementType }

/-- A base node; that of a fanout points at its keyword. -/
def firstLoweringNode (program : RewriteProgram) (node : RewriteNode) : RewriteLoweringNode :=
  if node.kind = .fanout then
    { baseLoweringNode node with
      primarySpan := (program.fanoutAt node.callIndex).keywordSpan
      admissionPoint := "fanout".toList }
  else baseLoweringNode node

def RewriteLoweringNode.use (node : RewriteLoweringNode) : RewriteLoweringNode :=
  { node with useCount := node.useCount + 1 }

def countUses (nodes : List RewriteLoweringNode) (indexes : List Nat) : List RewriteLoweringNode :=
  indexes.foldl (fun nodes index => nodes.modify index .use) nodes

def fanoutUses (program : RewriteProgram) (fanout : RewriteFanout) : List Nat :=
  fanout.operand :: (List.range fanout.branchCount).map fun position =>
    (program.branchAt (fanout.firstBranch + position)).root

def retainRoots (nodes : List RewriteLoweringNode) (roots : List Nat) : List RewriteLoweringNode :=
  roots.foldl (fun nodes root => nodes.modify root fun node => { node.use with retainedRoot := true }) nodes

/-- The nodes with their uses, before any has a type. -/
def firstLoweringNodes (program : RewriteProgram) : List RewriteLoweringNode :=
  let nodes := program.nodes.map (firstLoweringNode program)
  let nodes := countUses (countUses nodes program.arguments) program.tupleElements
  retainRoots (program.fanouts.foldl (fun nodes fanout => countUses nodes (fanoutUses program fanout)) nodes)
    program.roots

/-! ### Phase 4: arities that depend on no type -/

def arityExists (descriptor : PrimitiveDescriptor) (argumentCount : Nat) : Bool :=
  descriptor.signatures.any fun signature => signature.parameters.length == argumentCount

abbrev ArityFailure := Option (Nat × RewriteEvaluationDiagnostic)

def arityDiagnostic (program : RewriteProgram) (call : RewriteCall) (descriptor : PrimitiveDescriptor) :
    RewriteEvaluationDiagnostic :=
  loweringDiagnostic program call
    (loweringArityError descriptor (semanticArgumentCount program call) call.nameSpan.begin)

def callDescriptor (call : RewriteCall) : Option PrimitiveDescriptor := call.primitive.bind findPrimitiveById

def arityStep (program : RewriteProgram) (failure : ArityFailure) (index : Nat) :
    Except RewriteEvaluationDiagnostic ArityFailure :=
  let node := program.nodeAt index
  if node.kind ≠ .primitiveCall then .ok failure
  else
    let call := program.callAt node.callIndex
    match callDescriptor call with
    | none => .error (loweringDiagnostic program call (makeError .invalidPrimitiveTable call.nameSpan.begin []))
    | some descriptor =>
      if (prefixTupleOperand program call).isSome then .ok failure
      else if arityExists descriptor (semanticArgumentCount program call) then .ok failure
      else .ok (failure.or (some (index,arityDiagnostic program call descriptor)))

def arityPhase (program : RewriteProgram) : Except RewriteEvaluationDiagnostic ArityFailure :=
  (List.range program.nodes.length).foldlM (arityStep program) none

/-! ### Phase 5: types and implementations -/

/-- The nodes, and which of them have their type. -/
structure TypedNodes where
  nodes : List RewriteLoweringNode
  typeAvailable : List Bool

namespace TypedNodes

variable (typed : TypedNodes)

def available (index : Nat) : Bool := typed.typeAvailable.getD index false

def nodeAt (index : Nat) : RewriteLoweringNode :=
  typed.nodes.getD index (baseLoweringNode (blankNode .scalarLiteral emptySpan))

/-- A node gets its type. -/
def settle (index : Nat) (node : RewriteLoweringNode) : TypedNodes :=
  ⟨typed.nodes.set index node,typed.typeAvailable.set index true⟩

end TypedNodes

structure LoweringTyping where
  typed : TypedNodes
  arityFailure : ArityFailure
  typeFailure : Option RewriteEvaluationDiagnostic

/-- The first signature that takes the arguments as they are, or the selected one. -/
def loweringSignature (descriptor : PrimitiveDescriptor) (arguments : List ArgumentType) :
    Option PrimitiveSignature :=
  if descriptor.lifting = .none then
    descriptor.signatures.find? fun candidate =>
      candidate.parameters.length == arguments.length &&
        (candidate.parameters.zip arguments).all fun (parameter,argument) =>
          loweringTypeAccepts descriptor parameter argument
  else if arguments.length ≤ 2 ∧ arguments.all (fun argument => argument.cardinality != .tuple) = true then
    let selected := selectPrimitiveSignature descriptor (arguments.map (·.elementType))
    if selected.status = .success then selected.signature else none
  else none

def loweredPlaceholder (placeholder operand : RewriteLoweringNode) : RewriteLoweringNode :=
  { placeholder with
    cardinality := operand.cardinality
    elementType := operand.elementType
    elementCount := operand.elementCount
    structuralType := operand.structuralType }

def loweredCall (program : RewriteProgram) (call : RewriteCall) (descriptor : PrimitiveDescriptor)
    (signature : PrimitiveSignature) (node : RewriteLoweringNode) : RewriteLoweringNode :=
  let spread := prefixTupleOperand program call
  { node with
    primitiveId := some descriptor.id
    implementation := signature.implementation
    elementType := signature.result.element
    firstArgument := call.firstArgument
    argumentCount := semanticArgumentCount program call
    spreadsTuple := spread.isSome
    spreadOperand := spread.getD 0
    primarySpan := call.nameSpan
    sourceLocation := call.nameSpan.begin
    admissionPoint := descriptor.name
    cardinality := if descriptor.lifting = .none then .dynamicVector else .scalar
    structuralType := typeTreeOf signature.result }

/-- How the host answers what lowering asks for: all that `clone_type` takes for the element or
argument at a position of a node, and all that `make_tuple_type` takes for a node. -/
structure TypeHost where
  clone : Nat → Nat → HostResourceErrorReason
  tuple : Nat → HostResourceErrorReason

/-- A host that grants everything. -/
def grantingHost : TypeHost := ⟨fun _ _ => .none,fun _ => .none⟩

/-- The error of a type that is not constructed. -/
def typeResourceDiagnostic (node : RewriteNode) (message : Text) (resource : Option ResourceErrorContext) :
    RewriteEvaluationDiagnostic :=
  { emptyRewriteEvaluationDiagnostic with
    stage := .resourceAdmission
    primary := node.span
    context := node.span
    error := { makeError .resourceError node.span.begin message with resource } }

def typedLoweringContext (reason : HostResourceErrorReason) (elementCount : Nat) : ResourceErrorContext :=
  ⟨if reason = .sizeOverflow then .sizeOverflow else .allocationUnavailable,some elementCount,none,"typed-lowering",
    none,none,none,none,none⟩

/-- The error at a node whose type the host refuses: a placeholder copies one, a literal or fanout
copies one for each element and constructs their tuple. -/
def typeRefusal (host : TypeHost) (node : RewriteNode) (index : Nat) : Option RewriteEvaluationDiagnostic :=
  let constructed := ((List.range node.elementCount).map (host.clone index) ++ [host.tuple index]).find? fun answer =>
    answer != .none
  match node.kind with
  | .placeholder =>
    if host.clone index 0 = .none then none
    else some (typeResourceDiagnostic node "fanout placeholder type clone failed".toList none)
  | .tupleLiteral => constructed.map fun reason =>
      typeResourceDiagnostic node [] (some (typedLoweringContext reason node.elementCount))
  | .fanout => constructed.map fun reason =>
      typeResourceDiagnostic node [] (some (typedLoweringContext reason node.elementCount))
  | _ => none

/-- An error of types shows the arguments whose types the host lets it copy. -/
def grantedArguments (host : TypeHost) (index : Nat) (diagnostic : RewriteEvaluationDiagnostic) :
    RewriteEvaluationDiagnostic :=
  { diagnostic with error := { diagnostic.error with type := diagnostic.error.type.map fun context =>
      { context with actualArguments := (context.actualArguments.zipIdx.filter fun argument =>
          host.clone index argument.2 == .none).map (·.1) } } }

/-- What the body of the loop does with a node: `continue`, the type, or a failure; that of an
arity is one of a spread call or a direct one. -/
inductive TypeVerdict where
  | waits
  | settles (node : RewriteLoweringNode)
  | arity (spread : Bool) (diagnostic : RewriteEvaluationDiagnostic)
  | mismatch (diagnostic : RewriteEvaluationDiagnostic)

def placeholderVerdict (typed : TypedNodes) (index : Nat) (node : RewriteNode) : TypeVerdict :=
  if index ≤ node.firstElement ∨ typed.available node.firstElement = false then .waits
  else .settles (loweredPlaceholder (typed.nodeAt index) (typed.nodeAt node.firstElement))

def elementNodes (program : RewriteProgram) (node : RewriteNode) : List Nat :=
  (List.range node.elementCount).map (elementNode program node)

def tupleVerdict (program : RewriteProgram) (typed : TypedNodes) (index : Nat) (node : RewriteNode) : TypeVerdict :=
  let elements := elementNodes program node
  if elements.all typed.available then
    .settles { typed.nodeAt index with
      structuralType := .tuple (elements.map fun element => (typed.nodeAt element).structuralType) }
  else .waits

def callVerdict (program : RewriteProgram) (typed : TypedNodes) (index : Nat) (node : RewriteNode) : TypeVerdict :=
  let call := program.callAt node.callIndex
  match callDescriptor call with
  | none => .waits
  | some descriptor =>
    let arguments := semanticArguments program call
    let spread := prefixTupleOperand program call
    if spread.any (fun operand => !typed.available operand) then .waits
    else if !arityExists descriptor arguments.length then
      .arity spread.isSome (arityDiagnostic program call descriptor)
    else if !arguments.all typed.available then .waits
    else
      match loweringSignature descriptor (arguments.map fun argument => (typed.nodeAt argument).argumentType) with
      | none => .mismatch (loweringDiagnostic program call
          (loweringTypeError descriptor (arguments.map typed.nodeAt) call.nameSpan.begin))
      | some signature => .settles (loweredCall program call descriptor signature (typed.nodeAt index))

def typeVerdict (program : RewriteProgram) (typed : TypedNodes) (index : Nat) : TypeVerdict :=
  let node := program.nodeAt index
  match node.kind with
  | .placeholder => placeholderVerdict typed index node
  | .tupleLiteral => tupleVerdict program typed index node
  | .fanout => tupleVerdict program typed index node
  | .primitiveCall => callVerdict program typed index node
  | _ => .settles (typed.nodeAt index)

/-- A fault of arity counts at a spread only, and before the one found so far; of the other
faults the first is kept. -/
def LoweringTyping.record (state : LoweringTyping) (index : Nat) : TypeVerdict → LoweringTyping
  | .waits => state
  | .settles node => { state with typed := state.typed.settle index node }
  | .arity spread diagnostic =>
    if spread && state.arityFailure.all (fun failure => index < failure.1) then
      { state with arityFailure := some (index,diagnostic) }
    else state
  | .mismatch diagnostic => { state with typeFailure := state.typeFailure.or (some diagnostic) }

/-- The error that ends the loop, where a node would get its type. -/
def TypeVerdict.refusal (host : TypeHost) (program : RewriteProgram) (index : Nat) :
    TypeVerdict → Option RewriteEvaluationDiagnostic
  | .settles _ => typeRefusal host (program.nodeAt index) index
  | _ => none

def TypeVerdict.granted (host : TypeHost) (index : Nat) : TypeVerdict → TypeVerdict
  | .mismatch diagnostic => .mismatch (grantedArguments host index diagnostic)
  | verdict => verdict

/-- The loop breaks behind a fault of arity: no later node is looked at. -/
def typeStep (host : TypeHost) (program : RewriteProgram) (state : LoweringTyping) (index : Nat) :
    Except RewriteEvaluationDiagnostic LoweringTyping :=
  if state.arityFailure.any (fun failure => failure.1 < index) then .ok state
  else
    let verdict := typeVerdict program state.typed index
    match verdict.refusal host program index with
    | some diagnostic => .error diagnostic
    | none => .ok (state.record index (verdict.granted host index))

def firstTypes (program : RewriteProgram) : TypedNodes :=
  ⟨firstLoweringNodes program,List.replicate program.nodes.length false⟩

def typePhase (host : TypeHost) (program : RewriteProgram) (failure : ArityFailure) :
    Except RewriteEvaluationDiagnostic LoweringTyping :=
  (List.range program.nodes.length).foldlM (typeStep host program) ⟨firstTypes program,failure,none⟩

/-! ### Phase 6: lengths that are known -/

structure ArgumentShapes where
  knownLength : Option Nat
  hasDynamic : Bool
  vectorCount : Nat
  deriving DecidableEq, Repr

/-- The loop over the arguments; a length that differs from the first known one ends it. -/
def scanShapes : Nat → ArgumentShapes → List RewriteLoweringNode → Except (Nat × ShapeErrorContext) ArgumentShapes
  | _,shapes,[] => .ok shapes
  | index,shapes,argument :: rest =>
    match argument.cardinality with
    | .scalar => scanShapes (index + 1) shapes rest
    | .dynamicVector =>
      scanShapes (index + 1) ⟨shapes.knownLength,true,shapes.vectorCount + 1⟩ rest
    | _ =>
      match shapes.knownLength with
      | none =>
        scanShapes (index + 1) ⟨some argument.elementCount,shapes.hasDynamic,shapes.vectorCount + 1⟩ rest
      | some known =>
        if known = argument.elementCount then
          scanShapes (index + 1) ⟨some known,shapes.hasDynamic,shapes.vectorCount + 1⟩ rest
        else .error (index + 1,⟨[known],[argument.elementCount]⟩)

def loweringNodeAt (nodes : List RewriteLoweringNode) (index : Nat) : RewriteLoweringNode :=
  nodes.getD index (baseLoweringNode (blankNode .scalarLiteral emptySpan))

def loweredArguments (program : RewriteProgram) (call : RewriteCall) (lowered : RewriteLoweringNode) : List Nat :=
  (List.range lowered.argumentCount).map fun position =>
    if lowered.spreadsTuple then structuralTupleElement program lowered.spreadOperand position
    else program.arguments.getD (call.firstArgument + position) 0

def shapedCall (lowered : RewriteLoweringNode) (shapes : ArgumentShapes) : RewriteLoweringNode :=
  let checked := { lowered with runtimeShapeCheck := decide (1 < shapes.vectorCount) && shapes.hasDynamic }
  if shapes.vectorCount = 0 then { checked with cardinality := .scalar, elementCount := 1 }
  else if shapes.hasDynamic then
    { checked with cardinality := .dynamicVector, elementCount := shapes.knownLength.getD 0 }
  else { checked with cardinality := .staticVector, elementCount := shapes.knownLength.getD 0 }

def shapeDiagnostic (program : RewriteProgram) (call : RewriteCall) (failure : Nat × ShapeErrorContext) :
    RewriteEvaluationDiagnostic :=
  let error := match callDescriptor call with
    | none => makeError .shapeMismatch call.nameSpan.begin []
    | some descriptor => loweringPrimitiveError .shapeMismatch descriptor call.nameSpan.begin
  loweringDiagnostic program call
    { error with argumentPosition := some failure.1, shape := some failure.2 }

def shapeStep (program : RewriteProgram) (nodes : List RewriteLoweringNode) (index : Nat) :
    Except RewriteEvaluationDiagnostic (List RewriteLoweringNode) :=
  let node := program.nodeAt index
  if node.kind ≠ .primitiveCall then .ok nodes
  else
    let call := program.callAt node.callIndex
    let lowered := loweringNodeAt nodes index
    if lowered.implementation = .iotaInteger then
      .ok (nodes.set index { lowered with cardinality := .dynamicVector, elementCount := 0 })
    else
      match scanShapes 0 ⟨none,false,0⟩ ((loweredArguments program call lowered).map (loweringNodeAt nodes)) with
      | .error failure => .error (shapeDiagnostic program call failure)
      | .ok shapes => .ok (nodes.set index (shapedCall lowered shapes))

def shapePhase (program : RewriteProgram) (nodes : List RewriteLoweringNode) :
    Except RewriteEvaluationDiagnostic (List RewriteLoweringNode) :=
  (List.range program.nodes.length).foldlM (shapeStep program) nodes

def lowerRewriteProgram (host : TypeHost) (program : RewriteProgram) : RewriteLoweringResult :=
  match checkRoots program [] program.roots with
  | some diagnostic => .error diagnostic
  | none => do
    let failure ← arityPhase program
    let typing ← typePhase host program failure
    match typing.arityFailure,typing.typeFailure with
    | some (_,diagnostic),_ => .error diagnostic
    | none,some diagnostic => .error diagnostic
    | none,none =>
      let nodes ← shapePhase program typing.typed.nodes
      return {
        nodes
        arguments := program.arguments
        roots := program.roots
        booleanElements := program.booleanElements
        integerElements := program.integerElements
        doubleElements := program.doubleElements
        tupleElements := program.tupleElements
        tupleElementSpans := program.tupleElementSpans
        fanoutOperands := program.fanouts.map (·.operand)
        fanoutBranchRoots := program.fanoutBranches.map (·.root)
        fanoutBranchSpans := program.fanoutBranches.map (·.span) }

end Bennu
