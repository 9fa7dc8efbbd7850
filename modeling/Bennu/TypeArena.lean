import Bennu.ArenaAcceptance
import Bennu.WorkStack

/-! Type arenas: `validate_type`, `clone_type`, `make_tuple_type` and
`structural_type_equal`, with the host arrays that each of them asks for. -/
namespace Bennu

inductive TypeKind where
  | scalar | vector | tuple
  deriving DecidableEq, Repr

/-- `TypeNode`; `none` is a code that is no enumerator. -/
structure TypeNode where
  kind : Option TypeKind
  scalar : Option ScalarType
  firstChild : Nat
  childCount : Nat
  deriving DecidableEq, Repr

structure TypeArena where
  nodes : List TypeNode
  childIndexes : List Nat
  rootIndex : Nat
  inlineLeaf : Option TypeNode
  deriving DecidableEq, Repr

def makeLeafType (kind : TypeKind) (scalar : ScalarType) : TypeArena :=
  ⟨[],[],0,some ⟨some kind,some scalar,0,0⟩⟩

def makeScalarType (type : ScalarType) : TypeArena := makeLeafType .scalar type

def makeVectorType (elementType : ScalarType) : TypeArena := makeLeafType .vector elementType

inductive TypeInvariant where
  | invalidTypeRoot | nonfinalTypeRoot | unknownTypeKind | unknownScalarType | inactiveTypeField
  | invalidTupleRange | overlappingTupleRange | invalidTupleChildIndex | nonPostorderTupleChild
  | aliasedTupleChild | orphanTypeNode | orphanTupleEdge
  deriving DecidableEq, Repr

inductive TypeFailure where
  | invalid (invariant : TypeInvariant) (nodeIndex edgeIndex : Nat)
  | resource (reason : HostResourceErrorReason)
  deriving DecidableEq, Repr

/-- What the host has answered so far, with the failures injected into its answers. -/
structure HostRequests where
  failure : HostFailureInjection
  host : Host

/-- `allocate_host_array` with an injected failure: an empty array is no request. -/
def HostRequests.allocateHostArray (r : HostRequests) (capacity : Nat) :
    HostRequests × HostResourceErrorReason :=
  if capacity = 0 then (r,.none)
  else if r.failure.maxContainerElements.any fun maximum => decide (capacity > maximum) then
    (r,.sizeOverflow)
  else match beginHostAllocation r.failure with
    | (begun,.none) =>
      let (next,reason) := r.host.allocateHostArrays 1
      (⟨begun,next⟩,reason)
    | (begun,reason) => (⟨begun,r.host⟩,reason)

/-- Allocate arrays in turn, stopping at the first refusal. -/
def HostRequests.allocate (r : HostRequests) : List Nat → HostRequests × HostResourceErrorReason
  | [] => (r,.none)
  | capacity :: rest => match r.allocateHostArray capacity with
    | (next,.none) => next.allocate rest
    | (next,reason) => (next,reason)

/-- `host_array_push` onto an array used as a stack, whose top comes first. -/
def pushStack {α : Type} (capacity : Nat) (item : α) (stack : List α) :
    Except HostResourceErrorReason (List α) :=
  WorkStack.pushWithin capacity .sizeOverflow item stack

/-- `host_array_push` onto a stack of each item in turn. -/
def pushStackAll {α : Type} (capacity : Nat) : List α → List α → Except HostResourceErrorReason (List α)
  | [],stack => .ok stack
  | item :: rest,stack => match pushStack capacity item stack with
    | .ok pushed => pushStackAll capacity rest pushed
    | .error reason => .error reason

/-- `host_array_push` of each item in turn onto the end of an array. -/
def pushAll {α : Type} (capacity : Nat) (items array : List α) : Except HostResourceErrorReason (List α) :=
  WorkStack.appendWithin capacity .sizeOverflow items array

namespace TypeArena

variable (type : TypeArena)

/-- `type_nodes`: the inline leaf, or the table. -/
def typeNodes : List TypeNode :=
  match type.inlineLeaf with
  | some leaf => [leaf]
  | none => type.nodes

/-- A node slot; reading past the table has no meaning in the source. -/
def node (index : Nat) : TypeNode := type.typeNodes.getD index ⟨none,none,0,0⟩

def childAt (edge : Nat) : Nat := type.childIndexes.getD edge 0

end TypeArena

section validation

/-- The scratch tables of one validation. -/
structure TypeTables where
  visited : List Bool
  edgeOwners : List Bool
  parentCounts : List Nat
  stack : List Nat
  deriving DecidableEq, Repr

variable (type : TypeArena)

/-- Claim the edges of one tuple node in order of offset. -/
def claimTypeEdges (nodeIndex first : Nat) : List Nat → TypeTables → Except TypeFailure TypeTables
  | [],tables => .ok tables
  | offset :: rest,tables =>
    let edge := first + offset
    let child := type.childAt edge
    if tables.edgeOwners.getD edge false then .error (.invalid .overlappingTupleRange nodeIndex edge)
    else if child ≥ type.typeNodes.length then .error (.invalid .invalidTupleChildIndex nodeIndex edge)
    else if child ≥ nodeIndex then .error (.invalid .nonPostorderTupleChild nodeIndex edge)
    else
      let count := tables.parentCounts.getD child 0 + 1
      if count ≠ 1 then .error (.invalid .aliasedTupleChild child edge)
      else claimTypeEdges nodeIndex first rest { tables with
        edgeOwners := tables.edgeOwners.set edge true
        parentCounts := tables.parentCounts.set child count }

/-- The children of a node, from the last to the first. -/
def childrenBackward (first count : Nat) : List Nat :=
  (List.range count).reverse.map fun offset => type.childAt (first + offset)

def validateTypeLeaf (index : Nat) (tables : TypeTables) : Except TypeFailure TypeTables :=
  let node := type.node index
  if node.scalar.isNone then .error (.invalid .unknownScalarType index 0)
  else if node.firstChild ≠ 0 ∨ node.childCount ≠ 0 then .error (.invalid .inactiveTypeField index 0)
  else .ok tables

def validateTypeTuple (capacity index : Nat) (tables : TypeTables) : Except TypeFailure TypeTables :=
  let node := type.node index
  if node.scalar ≠ some .boolean then .error (.invalid .inactiveTypeField index 0)
  else if node.firstChild > type.childIndexes.length ∨
      node.childCount > type.childIndexes.length - node.firstChild then
    .error (.invalid .invalidTupleRange index node.firstChild)
  else match claimTypeEdges type index node.firstChild (List.range node.childCount) tables with
    | .error failure => .error failure
    | .ok claimed =>
      match pushStackAll capacity (childrenBackward type node.firstChild node.childCount) claimed.stack with
      | .error reason => .error (.resource reason)
      | .ok stack => .ok { claimed with stack := stack }

/-- One round of the work loop, its node already popped. -/
def validateTypeNode (capacity index : Nat) (tables : TypeTables) : Except TypeFailure TypeTables :=
  if tables.visited.getD index false then .error (.invalid .aliasedTupleChild index 0)
  else
    let visited := { tables with visited := tables.visited.set index true }
    match (type.node index).kind with
    | some .scalar => validateTypeLeaf type index visited
    | some .vector => validateTypeLeaf type index visited
    | some .tuple => validateTypeTuple type capacity index visited
    | none => .error (.invalid .unknownTypeKind index 0)

/-- The work loop; `none` when the rounds run out before its stack is empty. -/
def walkType (capacity : Nat) : Nat → TypeTables → Option (Except TypeFailure TypeTables)
  | rounds,tables => match tables.stack with
    | [] => some (.ok tables)
    | index :: rest => match rounds with
      | 0 => none
      | rounds + 1 => match validateTypeNode type capacity index { tables with stack := rest } with
        | .error failure => some (.error failure)
        | .ok next => walkType capacity rounds next

/-- What the walk has left unclaimed. -/
def typeOrphans (tables : TypeTables) : Except TypeFailure Unit :=
  match tables.visited.findIdx? (!·) with
  | some index => .error (.invalid .orphanTypeNode index 0)
  | none => match tables.edgeOwners.findIdx? (!·) with
    | some edge => .error (.invalid .orphanTupleEdge 0 edge)
    | none => .ok ()

def initialTypeTables : TypeTables :=
  ⟨List.replicate type.typeNodes.length false,List.replicate type.childIndexes.length false,
    List.replicate type.typeNodes.length 0,[type.rootIndex]⟩

/-- The walk and the orphan checks, in scratch tables already allocated. -/
def walkTypeTables (rounds : Nat) : Option (Except TypeFailure Unit) :=
  match walkType type (type.childIndexes.length + 1) rounds (initialTypeTables type) with
  | none => none
  | some (.error failure) => some (.error failure)
  | some (.ok tables) => some (typeOrphans tables)

/-- The checks made before any scratch table is allocated. -/
def validateTypeRoot : Option TypeFailure :=
  if type.inlineLeaf.isSome ∧ type.nodes.length ≠ 0 then
    some (.invalid .invalidTypeRoot type.rootIndex 0)
  else if type.typeNodes = [] ∨ type.rootIndex ≥ type.typeNodes.length then
    some (.invalid .invalidTypeRoot type.rootIndex 0)
  else if type.rootIndex ≠ type.typeNodes.length - 1 then
    some (.invalid .nonfinalTypeRoot type.rootIndex 0)
  else if type.childIndexes.length = sizeMax then some (.resource .sizeOverflow)
  else none

/-- The scratch tables: the nodes visited, the edge owners, the parent counts and the stack. -/
def typeScratch : List Nat :=
  [type.typeNodes.length,type.childIndexes.length,type.typeNodes.length,type.childIndexes.length + 1]

/-- `validate_type`. Every round that succeeds visits one more node. -/
def validateType (r : HostRequests) : HostRequests × Option (Except TypeFailure Unit) :=
  match validateTypeRoot type with
  | some failure => (r,some (.error failure))
  | none => match r.allocate (typeScratch type) with
    | (next,.none) => (next,walkTypeTables type (type.typeNodes.length + 1))
    | (next,reason) => (next,some (.error (.resource reason)))

/-- The handles of an arena's two tables. -/
structure TypeMetadata where
  nodes : ArrayMetadata
  childIndexes : ArrayMetadata
  deriving DecidableEq, Repr

def TypeMetadata.valid (m : TypeMetadata) : Bool :=
  hostArrayMetadataValid m.nodes && hostArrayMetadataValid m.childIndexes

/-- `validate_type` from the handles of the tables. -/
def validateStoredType (m : TypeMetadata) (r : HostRequests) :
    HostRequests × Option (Except TypeFailure Unit) :=
  if !m.valid then (r,some (.error (.invalid .invalidTypeRoot type.rootIndex 0)))
  else validateType type r

end validation

section construction

def cloneType (type : TypeArena) (r : HostRequests) : HostRequests × Option (Except TypeFailure TypeArena) :=
  match validateType type r with
  | (next,none) => (next,none)
  | (next,some (.error failure)) => (next,some (.error failure))
  | (next,some (.ok _)) => match type.inlineLeaf with
    | some leaf => (next,some (.ok ⟨[],[],0,some leaf⟩))
    | none => match next.allocate [type.typeNodes.length,type.childIndexes.length] with
      | (last,.none) => match pushAll type.typeNodes.length type.typeNodes [],
          pushAll type.childIndexes.length type.childIndexes [] with
        | .ok nodes,.ok childIndexes => (last,some (.ok ⟨nodes,childIndexes,type.rootIndex,none⟩))
        | .error reason,_ => (last,some (.error (.resource reason)))
        | .ok _,.error reason => (last,some (.error (.resource reason)))
      | (last,reason) => (last,some (.error (.resource reason)))

/-- Validate the elements in order and count their nodes and edges. -/
def surveyTypes (r : HostRequests) (nodeCount edgeCount : Nat) :
    List TypeArena → HostRequests × Option (Except TypeFailure (Nat × Nat))
  | [] => (r,some (.ok (nodeCount,edgeCount)))
  | element :: rest => match validateType element r with
    | (next,none) => (next,none)
    | (next,some (.error failure)) => (next,some (.error failure))
    | (next,some (.ok _)) =>
      if element.typeNodes.length > sizeMax - nodeCount ∨
          element.childIndexes.length > sizeMax - edgeCount then
        (next,some (.error (.resource .sizeOverflow)))
      else surveyTypes next (nodeCount + element.typeNodes.length)
        (edgeCount + element.childIndexes.length) rest

/-- The tables of a tuple type under construction, with the roots of the elements so far. -/
structure TypeBlocks where
  nodes : List TypeNode
  childIndexes : List Nat
  roots : List Nat
  deriving DecidableEq, Repr

def rebaseTypeNode (edgeOffset : Nat) (node : TypeNode) : TypeNode :=
  if node.kind = some .tuple then { node with firstChild := node.firstChild + edgeOffset } else node

/-- Copy the elements behind one another, every index moved by what stands before it. -/
def appendTypes (nodeCount edgeCount rootCount : Nat) :
    List TypeArena → TypeBlocks → Except HostResourceErrorReason TypeBlocks
  | [],blocks => .ok blocks
  | element :: rest,blocks => do
    let nodes ← pushAll nodeCount
      (element.typeNodes.map (rebaseTypeNode blocks.childIndexes.length)) blocks.nodes
    let childIndexes ← pushAll edgeCount
      (element.childIndexes.map (· + blocks.nodes.length)) blocks.childIndexes
    let roots ← pushAll rootCount [element.rootIndex + blocks.nodes.length] blocks.roots
    appendTypes nodeCount edgeCount rootCount rest ⟨nodes,childIndexes,roots⟩

/-- The root of a tuple type and the edges to its elements, behind the elements. -/
def closeTypes (nodeCount edgeCount : Nat) (blocks : TypeBlocks) :
    Except HostResourceErrorReason TypeArena := do
  let childIndexes ← pushAll edgeCount blocks.roots blocks.childIndexes
  let nodes ← pushAll nodeCount
    [⟨some .tuple,some .boolean,blocks.childIndexes.length,blocks.roots.length⟩] blocks.nodes
  return ⟨nodes,childIndexes,nodes.length - 1,none⟩

def makeTupleType (elements : List TypeArena) (r : HostRequests) :
    HostRequests × Option (Except TypeFailure TypeArena) :=
  match surveyTypes r 1 elements.length elements with
  | (next,none) => (next,none)
  | (next,some (.error failure)) => (next,some (.error failure))
  | (next,some (.ok (nodeCount,edgeCount))) =>
    match next.allocate [nodeCount,edgeCount,elements.length] with
    | (last,.none) =>
      match (appendTypes nodeCount edgeCount elements.length elements ⟨[],[],[]⟩).bind
          (closeTypes nodeCount edgeCount) with
      | .ok type => (last,some (.ok type))
      | .error reason => (last,some (.error (.resource reason)))
    | (last,reason) => (last,some (.error (.resource reason)))

end construction

section equality

/-- The loop over pairs of nodes; `none` when the rounds run out. -/
def equalTypes (capacity : Nat) (left right : TypeArena) :
    Nat → List (Nat × Nat) → Option (Except HostResourceErrorReason Bool)
  | _,[] => some (.ok true)
  | 0,_ :: _ => none
  | rounds + 1,(i,j) :: rest =>
    let leftNode := left.node i
    let rightNode := right.node j
    if leftNode.kind ≠ rightNode.kind then some (.ok false)
    else if (leftNode.kind = some .scalar ∨ leftNode.kind = some .vector) ∧
        leftNode.scalar ≠ rightNode.scalar then some (.ok false)
    else if leftNode.kind ≠ some .tuple then equalTypes capacity left right rounds rest
    else if leftNode.childCount ≠ rightNode.childCount then some (.ok false)
    else match pushStackAll capacity ((List.range leftNode.childCount).map fun offset =>
        (left.childAt (leftNode.firstChild + offset),right.childAt (rightNode.firstChild + offset))) rest with
      | .error reason => some (.error reason)
      | .ok stack => equalTypes capacity left right rounds stack

/-- `structural_type_equal`. Every round pops another node of the left arena. -/
def structuralTypeEqual (left right : TypeArena) (r : HostRequests) :
    HostRequests × Option (Except TypeFailure Bool) :=
  match validateType left r with
  | (next,none) => (next,none)
  | (next,some (.error failure)) => (next,some (.error failure))
  | (next,some (.ok _)) => match validateType right next with
    | (last,none) => (last,none)
    | (last,some (.error failure)) => (last,some (.error failure))
    | (last,some (.ok _)) =>
      let capacity := min left.typeNodes.length right.typeNodes.length
      match last.allocate [capacity] with
      | (done,.none) => match pushStack capacity (left.rootIndex,right.rootIndex) [] with
        | .error reason => (done,some (.error (.resource reason)))
        | .ok stack =>
          (done,(equalTypes capacity left right left.typeNodes.length stack).map
            fun answer => answer.mapError TypeFailure.resource)
      | (done,reason) => (done,some (.error (.resource reason)))

end equality

end Bennu
