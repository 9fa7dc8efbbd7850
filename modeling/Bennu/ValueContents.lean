import Bennu.ArenaAcceptance

/-! `validate_value` on the records as they are stored, whose codes may be no enumerator and
whose observers may be set. A code that no check knows is never accepted, so what is accepted
are the values of the typed model. -/
namespace Bennu

/-- A `ResourceLifetimeObserver`: the object it notifies and the function it calls. -/
structure LifetimeObserver where
  context : Option Nat
  record : Option Nat
  deriving DecidableEq, Repr

def noLifetimeObserver : LifetimeObserver := ⟨none,none⟩

/-- A stored `ScalarValue`; `none` is a code that is no enumerator. -/
structure ScalarContents where
  type : Option ScalarType
  boolean : Bool
  integer : Int64
  doublePrecision : Binary64
  deriving DecidableEq, Repr

/-- A stored `VectorValue`; `none` is a code that is no enumerator. -/
structure VectorContents where
  elementType : Option ScalarType
  booleans : Option (HostBuffer UInt8)
  booleanCount : Nat
  integers : Option (HostBuffer Int64)
  integerCount : Nat
  doubles : Option (HostBuffer Binary64)
  doubleCount : Nat
  canonicalBytes : Nat
  accountingActive : Bool
  accountingOwner : Nat
  allocationOrdinal : Option Nat
  lifetimeObserver : LifetimeObserver
  deriving DecidableEq, Repr

structure ReservationContents extends TupleTableReservation where
  lifetimeObserver : LifetimeObserver
  deriving DecidableEq, Repr

/-- A stored `ValueNode`; `none` is a code that is no enumerator. -/
structure NodeContents where
  container : Option ContainerKind
  scalar : ScalarContents
  firstChild : Nat
  childCount : Nat
  tupleReservationIndex : Nat
  vectorPayloadIndex : Nat
  deriving DecidableEq, Repr

structure TupleContents where
  nodes : List NodeContents
  childIndexes : List Nat
  rootIndex : Nat
  vectorPayloads : List VectorContents
  reservations : List ReservationContents
  rootReservation : ReservationContents
  firstChild : Nat
  childCount : Nat
  deriving DecidableEq, Repr

structure ValueContents where
  container : Option ContainerKind
  scalar : ScalarContents
  vector : VectorContents
  tuple : TupleContents
  claimed : Bool
  deriving DecidableEq, Repr

/-- The scalar stored, when its type is an enumerator. -/
def ScalarContents.known (s : ScalarContents) : Option ScalarValue :=
  s.type.map fun type => ⟨type,s.boolean,s.integer,s.doublePrecision⟩

/-- The payload stored, when its element type is an enumerator. -/
def VectorContents.known (v : VectorContents) : Option VectorValue :=
  v.elementType.map fun type => ⟨type,v.booleans,v.booleanCount,v.integers,v.integerCount,
    v.doubles,v.doubleCount,v.canonicalBytes,v.accountingActive,v.accountingOwner,
    v.allocationOrdinal⟩

/-- `validate_scalar`. -/
def ScalarContents.validate (s : ScalarContents) : Option ValueInvariant :=
  match s.known with
  | some scalar => validateScalar scalar
  | none => some .unknownScalarType

/-- `is_empty_scalar`. -/
def ScalarContents.isEmpty (s : ScalarContents) : Bool := s.known.any isEmptyScalar

/-- `vector_storage_address`, null under an element type that it does not know. -/
def VectorContents.storage (v : VectorContents) : Option Nat := v.known.bind (·.storage)

/-- The `vector_validation` of `validate_value`. -/
def VectorContents.validate (h : Host) (v : VectorContents) : Option ValueInvariant :=
  match v.known with
  | some vector => vectorValidation h vector
  | none => some .unknownScalarType

def VectorContents.fieldsEmpty (v : VectorContents) : Bool :=
  v.known.any vectorFieldsEmpty && v.lifetimeObserver == noLifetimeObserver

/-- `tuple_fields_empty`. -/
def TupleContents.fieldsEmpty (t : TupleContents) : Bool :=
  t.nodes.length == 0 && t.childIndexes.length == 0 && t.rootIndex == 0 &&
    t.vectorPayloads.length == 0 && t.reservations.length == 0 &&
    t.rootReservation.toTupleTableReservation == emptyReservation &&
    t.rootReservation.lifetimeObserver == noLifetimeObserver &&
    t.firstChild == 0 && t.childCount == 0

/-- A scalar in the typed model; one of an unknown type has a field that is not its own. -/
def ScalarContents.shown (s : ScalarContents) : ScalarValue := s.known.getD ⟨.boolean,false,1,0⟩

/-- A payload in the typed model; one of an unknown type has no storage under a count. -/
def VectorContents.shown (v : VectorContents) : VectorValue :=
  v.known.getD { emptyVector with integerCount := 1 }

/-- A node in the typed model; one of an unknown container is a scalar with a payload. -/
def NodeContents.shown (n : NodeContents) : ValueNode :=
  match n.container with
  | some container => ⟨container,n.scalar.shown,n.firstChild,n.childCount,n.tupleReservationIndex,
      n.vectorPayloadIndex⟩
  | none => ⟨.scalar,n.scalar.shown,n.firstChild,n.childCount,n.tupleReservationIndex,1⟩

/-- The arena as its sizes, edges and storages show it. What reads no code reads it here. -/
def TupleContents.outline (t : TupleContents) : TupleValue :=
  ⟨t.nodes.map (·.shown),t.childIndexes,t.rootIndex,t.vectorPayloads.map (·.shown),
    t.reservations.map (·.toTupleTableReservation),t.rootReservation.toTupleTableReservation,
    t.firstChild,t.childCount⟩

def emptyNodeContents : NodeContents := ⟨some .scalar,⟨some .boolean,false,0,0⟩,0,0,0,0⟩

/-- A node slot; reading past the table has no meaning in the source. -/
def TupleContents.node (t : TupleContents) (index : Nat) : NodeContents :=
  t.nodes.getD index emptyNodeContents

def TupleContents.containerAt (t : TupleContents) (index : Nat) : Option ContainerKind :=
  if index = t.rootIndex then some .tuple else (t.node index).container

/-- The handles of an arena's four tables. -/
structure TableMetadata where
  nodes : ArrayMetadata
  childIndexes : ArrayMetadata
  vectorPayloads : ArrayMetadata
  reservations : ArrayMetadata
  deriving DecidableEq, Repr

def TableMetadata.valid (m : TableMetadata) : Bool :=
  hostArrayMetadataValid m.nodes && hostArrayMetadataValid m.childIndexes &&
    hostArrayMetadataValid m.vectorPayloads && hostArrayMetadataValid m.reservations

namespace TupleContents

def validateScalarNode (t : TupleContents) (index : Nat) (tables : ValidationTables) :
    Except WalkFault ValidationTables :=
  let node := t.node index
  if node.firstChild ≠ 0 ∨ node.childCount ≠ 0 ∨ node.tupleReservationIndex ≠ 0 ∨
      node.vectorPayloadIndex ≠ 0 then .error ⟨.inactiveTupleField,index,none,tables⟩
  else match node.scalar.validate with
    | some invariant => .error ⟨invariant,index,none,tables⟩
    | none => .ok tables

def validateVectorNode (h : Host) (t : TupleContents) (index : Nat) (tables : ValidationTables) :
    Except WalkFault ValidationTables :=
  let node := t.node index
  if !node.scalar.isEmpty then .error ⟨.inactiveScalarField,index,none,tables⟩
  else if node.firstChild ≠ 0 ∨ node.childCount ≠ 0 ∨ node.tupleReservationIndex ≠ 0 then
    .error ⟨.inactiveTupleField,index,none,tables⟩
  else match t.vectorPayloads[node.vectorPayloadIndex]? with
    | none => .error ⟨.invalidVectorPayloadHandle,index,none,tables⟩
    | some payload =>
      if tables.payloadOwners.getD node.vectorPayloadIndex false then
        .error ⟨.aliasedVectorPayload,index,none,tables⟩
      else
        let claimed := { tables with
          payloadOwners := tables.payloadOwners.set node.vectorPayloadIndex true }
        if payload.storage.any (ownedStorage t.outline claimed (some node.vectorPayloadIndex) none) then
          .error ⟨.aliasedVectorPayload,index,none,claimed⟩
        else match payload.validate h with
          | some invariant => .error ⟨invariant,index,none,claimed⟩
          | none => .ok claimed

/-- A tuple node reads one code, the type of its scalar, and an unknown one is not empty. -/
def validateTupleNode (h : Host) (t : TupleContents) (scalar : ScalarContents) (index : Nat)
    (tables : ValidationTables) : Except WalkFault ValidationTables :=
  if !(if index = t.rootIndex then scalar else (t.node index).scalar).isEmpty then
    .error ⟨.inactiveScalarField,index,none,tables⟩
  else Bennu.validateTupleNode h t.outline scalar.shown index tables

/-- Pop one work item and validate its node. -/
def validationStep (h : Host) (t : TupleContents) (scalar : ScalarContents) (work : ValidationWork)
    (tables : ValidationTables) : Except WalkFault ValidationTables :=
  let index := work.nodeIndex
  let placed := { tables with
    pathParents := tables.pathParents.set index work.parentIndex
    pathOffsets := tables.pathOffsets.set index work.childOffset }
  if placed.visited.getD index false then .error ⟨.aliasedTupleChild,index,none,placed⟩
  else
    let visited := { placed with visited := placed.visited.set index true }
    match t.containerAt index with
    | some .scalar => validateScalarNode t index visited
    | some .vector => validateVectorNode h t index visited
    | some .tuple => validateTupleNode h t scalar index visited
    | none => .error ⟨.unknownContainer,index,none,visited⟩

/-- The work loop. Each edge is pushed at most once, so its count bounds the steps. -/
def validationLoop (h : Host) (t : TupleContents) (scalar : ScalarContents) :
    Nat → ValidationTables → Except WalkFault ValidationTables
  | 0,tables => .ok tables
  | fuel + 1,tables => match tables.stack with
    | [] => .ok tables
    | work :: rest => match validationStep h t scalar work { tables with stack := rest } with
      | .error fault => .error fault
      | .ok next => validationLoop h t scalar fuel next

def validateArena (h : Host) (t : TupleContents) (scalar : ScalarContents) : Except WalkFault Unit :=
  match validationLoop h t scalar (t.childIndexes.length + 2) (initialTables t.outline) with
  | .error fault => .error fault
  | .ok tables => orphanCheck t.outline tables

end TupleContents

namespace ValueContents

/-- The checks made before any scratch table is allocated. -/
def validateRoot (v : ValueContents) : Option (ValueInvariant × Nat) :=
  if !v.claimed then some (.emptyOwner,0)
  else match v.container with
    | some .scalar =>
      if !v.vector.fieldsEmpty then some (.inactiveVectorPayload,0)
      else if !v.tuple.fieldsEmpty then some (.inactiveTupleField,0)
      else v.scalar.validate.map (·,0)
    | some .vector =>
      if !v.scalar.isEmpty then some (.inactiveScalarField,0)
      else if !v.tuple.fieldsEmpty then some (.inactiveTupleField,0)
      else none
    | some .tuple =>
      if v.tuple.rootIndex ≥ v.tuple.nodes.length + 1 then some (.invalidValueRoot,v.tuple.rootIndex)
      else if v.tuple.rootIndex ≠ v.tuple.nodes.length then
        some (.nonfinalValueRoot,v.tuple.rootIndex)
      else if !v.scalar.isEmpty then some (.inactiveScalarField,v.tuple.rootIndex)
      else if !v.vector.fieldsEmpty then some (.inactiveVectorPayload,v.tuple.rootIndex)
      else none
    | none => some (.unknownContainer,0)

/-- The verdict of `validate_value` when every metadata request is granted. -/
def invalidity (h : Host) (v : ValueContents) : Option InvalidValue :=
  match v.validateRoot with
  | some (invariant,index) => some ⟨invariant,index,none,[]⟩
  | none => match v.container with
    | some .vector => (v.vector.validate h).map (⟨·,0,none,[]⟩)
    | some .tuple => match v.tuple.validateArena h v.scalar with
      | .error fault => some fault.report
      | .ok _ => none
    | _ => none

/-- `validate_value`: no table is read before the handles of all four agree with the registry,
and a reported path is itself a metadata array. -/
def validateValue (m : TableMetadata) (f : HostFailureInjection) (h : Host) (v : ValueContents) :
    HostFailureInjection × Host × Option ValidationFailure :=
  if v.claimed && !m.valid then
    (f,h,some (.invalid ⟨if v.container = some .tuple then .invalidValueRoot else .inactiveTupleField,
      v.tuple.rootIndex,none,[]⟩))
  else
    let verdict := v.invalidity h
    if v.container = some .tuple ∧ v.validateRoot.isNone then
      match validationScratch f h v.tuple.outline with
      | (begun,next,.none) => match verdict with
        | none => (begun,next,none)
        | some invalid =>
          if begun.maxContainerElements.any fun maximum => decide (invalid.path.length > maximum) then
            (begun,next,some (.resource .sizeOverflow))
          else match next.allocateHostArrays (if invalid.path = [] then 0 else 1) with
            | (last,.none) => (begun,last,some (.invalid invalid))
            | (last,reason) => (begun,last,some (.resource reason))
      | (begun,next,reason) => (begun,next,some (.resource reason))
    else (f,h,verdict.map .invalid)

end ValueContents

end Bennu
