import Bennu.Account

/-! Runtime values: scalars, vectors over host buffers, and tuples as postorder
arenas. A buffer is held by exactly one pointer in the source, so a pointer is
modelled together with the elements it points to. A value here has codes that are
enumerators; the records that `validate_value` reads may hold any code. -/
namespace Bennu

/-- The element types a host buffer is registered under. -/
inductive HostElement where
  | uint8 | int64 | binary64 | byte
  deriving DecidableEq, Repr

def HostElement.width : HostElement → Nat
  | .uint8 => 1
  | .int64 => 8
  | .binary64 => 8
  | .byte => 1

/-- A non-null `HostBufferStorage`: its registered address and its contents. -/
structure HostBuffer (α : Type) where
  payload : Nat
  elements : List α
  deriving DecidableEq, Repr

/-- A double, as its 64 bits. -/
abbrev Binary64 := UInt64

def binary64ExponentMask : UInt64 := 0x7ff0000000000000
def binary64FractionMask : UInt64 := 0x000fffffffffffff
def canonicalNanBits : UInt64 := 0x7ff8000000000000

def isNanBits (bits : Binary64) : Bool :=
  bits &&& binary64ExponentMask == binary64ExponentMask && bits &&& binary64FractionMask != 0

def normalizeDouble (bits : Binary64) : Binary64 :=
  if isNanBits bits then canonicalNanBits else bits

def isCanonicalDouble (bits : Binary64) : Bool :=
  !isNanBits bits || bits == canonicalNanBits

inductive ContainerKind where
  | scalar | vector | tuple
  deriving DecidableEq, Repr

structure ScalarValue where
  type : ScalarType
  boolean : Bool
  integer : Int64
  doublePrecision : Binary64
  deriving DecidableEq, Repr

structure VectorValue where
  elementType : ScalarType
  booleans : Option (HostBuffer UInt8)
  booleanCount : Nat
  integers : Option (HostBuffer Int64)
  integerCount : Nat
  doubles : Option (HostBuffer Binary64)
  doubleCount : Nat
  canonicalBytes : Nat
  accountingActive : Bool
  accountingOwner : Nat
  allocationOrdinal : Option Nat
  deriving DecidableEq, Repr

structure TupleTableReservation where
  storage : Option (HostBuffer UInt8)
  elementCount : Nat
  canonicalBytes : Nat
  accountingActive : Bool
  accountingOwner : Nat
  allocationOrdinal : Option Nat
  deriving DecidableEq, Repr

structure ValueNode where
  container : ContainerKind
  scalar : ScalarValue
  firstChild : Nat
  childCount : Nat
  tupleReservationIndex : Nat
  vectorPayloadIndex : Nat
  deriving DecidableEq, Repr

structure TupleValue where
  nodes : List ValueNode
  childIndexes : List Nat
  rootIndex : Nat
  vectorPayloads : List VectorValue
  reservations : List TupleTableReservation
  rootReservation : TupleTableReservation
  firstChild : Nat
  childCount : Nat
  deriving DecidableEq, Repr

structure Value where
  container : ContainerKind
  scalar : ScalarValue
  vector : VectorValue
  tuple : TupleValue
  claimed : Bool
  deriving DecidableEq, Repr

def emptyScalar : ScalarValue := ⟨.boolean,false,0,0⟩

/-- `VectorValue` of an element type with no storage and no accounting. -/
def emptyVectorOf (type : ScalarType) : VectorValue :=
  ⟨type,none,0,none,0,none,0,0,false,0,none⟩

def emptyVector : VectorValue := emptyVectorOf .boolean

def emptyReservation : TupleTableReservation := ⟨none,0,0,false,0,none⟩

def emptyTuple : TupleValue := ⟨[],[],0,[],[],emptyReservation,0,0⟩

def makeBoolValue (value : Bool) : Value :=
  ⟨.scalar,⟨.boolean,value,0,0⟩,emptyVector,emptyTuple,true⟩

def makeIntValue (value : Int64) : Value :=
  ⟨.scalar,⟨.integer,false,value,0⟩,emptyVector,emptyTuple,true⟩

def makeDoubleValue (value : Binary64) : Value :=
  ⟨.scalar,⟨.doublePrecision,false,0,normalizeDouble value⟩,emptyVector,emptyTuple,true⟩

/-- What a moved-from value holds. -/
def invalidConstructionValue : Value :=
  ⟨.scalar,emptyScalar,emptyVector,emptyTuple,false⟩

def VectorValue.activeLength (v : VectorValue) : Nat :=
  match v.elementType with
  | .boolean => v.booleanCount
  | .integer => v.integerCount
  | .doublePrecision => v.doubleCount

/-- `vector_storage`: the address of the payload of the active element type. -/
def VectorValue.storage (v : VectorValue) : Option Nat :=
  match v.elementType with
  | .boolean => v.booleans.map (·.payload)
  | .integer => v.integers.map (·.payload)
  | .doublePrecision => v.doubles.map (·.payload)

/-- The fields left by `reset_vector_storage`; the freed buffer is dropped separately. -/
def VectorValue.resetStorage (v : VectorValue) : VectorValue :=
  match v.elementType with
  | .boolean => { v with booleans := none, booleanCount := 0 }
  | .integer => { v with integers := none, integerCount := 0 }
  | .doublePrecision => { v with doubles := none, doubleCount := 0 }

def TupleTableReservation.payload (r : TupleTableReservation) : Option Nat :=
  r.storage.map (·.payload)

/-- The reservation of node `index`, the root's own included. -/
def TupleValue.reservationAt (t : TupleValue) (index : Nat) : Option TupleTableReservation :=
  if index = t.reservations.length then some t.rootReservation else t.reservations[index]?

end Bennu
