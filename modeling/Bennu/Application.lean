import Bennu.Evaluation
import Bennu.Resources
import Bennu.ScalarKernel

/-! Application of a primitive: the checks of its arguments, the choice of a signature, and the loop
that lifts a kernel over vectors. What storage does is the host's; errors keep their positions. -/
namespace Bennu

/-- The errors of an application, with what they say of the arguments, counted from one. -/
inductive ApplicationFailure where
  | arity (supplied : Nat)
  | invalidTable
  | invalidArgument (position : Nat) (failure : ValidationFailure)
  | invalidNode (position node : Nat)
  | type (position : Option Nat)
  | shape (position expected actual : Nat)
  | resource (fault : ResourceFault)
  | conversion
  | kernel (element : Option Nat) (error : KernelError)
  deriving DecidableEq, Repr

abbrev Application := Host × Except ApplicationFailure Value

/-! ### Arguments -/

def typedArgumentContainer (argument : TypedPrimitiveArgument Value) : ContainerKind :=
  match argument.node with
  | none => argument.owner.container
  | some node => (argument.owner.tuple.node node).container

def typedArgumentVector (argument : TypedPrimitiveArgument Value) : VectorValue :=
  match argument.node with
  | none => argument.owner.vector
  | some node => argument.owner.tuple.vectorPayloads.getD (argument.owner.tuple.node node).vectorPayloadIndex emptyVector

def typedArgumentScalar (argument : TypedPrimitiveArgument Value) : ScalarValue :=
  match argument.node with
  | none => argument.owner.scalar
  | some node => (argument.owner.tuple.node node).scalar

/-- An element of a vector; of a scalar, itself. -/
def projectValidatedScalar (argument : TypedPrimitiveArgument Value) (index : Nat) : ScalarValue :=
  if typedArgumentContainer argument = .scalar then typedArgumentScalar argument
  else
    let vector := typedArgumentVector argument
    match vector.elementType with
    | .boolean => ⟨.boolean,(vector.booleans.elim [] (·.elements)).getD index 0 != 0,0,0⟩
    | .integer => ⟨.integer,false,(vector.integers.elim [] (·.elements)).getD index 0,0⟩
    | .doublePrecision => ⟨.doublePrecision,false,0,(vector.doubles.elim [] (·.elements)).getD index 0⟩

def validatedVectorLength (argument : TypedPrimitiveArgument Value) : Nat := (typedArgumentVector argument).activeLength

def valueFromScalar (scalar : ScalarValue) : Value :=
  match scalar.type with
  | .boolean => makeBoolValue scalar.boolean
  | .integer => makeIntValue scalar.integer
  | .doublePrecision => makeDoubleValue scalar.doublePrecision

def HostBuffer.write {α : Type} (buffer : HostBuffer α) (index : Nat) (element : α) : HostBuffer α :=
  { buffer with elements := buffer.elements.set index element }

def storeScalar (result : Value) (index : Nat) (scalar : ScalarValue) : Option Value :=
  if result.container ≠ .vector ∨ result.vector.elementType ≠ scalar.type then none
  else
    some { result with vector :=
      match scalar.type with
      | .boolean =>
        { result.vector with booleans := result.vector.booleans.map (·.write index (if scalar.boolean then 1 else 0)) }
      | .integer => { result.vector with integers := result.vector.integers.map (·.write index scalar.integer) }
      | .doublePrecision =>
        { result.vector with doubles := result.vector.doubles.map (·.write index scalar.doublePrecision) } }

/-! ### Checks -/

def typeAccepts (descriptor : PrimitiveDescriptor) (parameter : ValueType) (container : ContainerKind)
    (actual : ScalarType) : Bool :=
  if container = .tuple then false
  else if descriptor.lifting = .none then parameter.container == container && parameter.element == actual
  else actual == parameter.element || (actual == .integer && parameter.element == .doublePrecision)

/-- The loop of `type_error` over the arguments, up to the first that no candidate accepts. -/
def rejectedArgument (descriptor : PrimitiveDescriptor) :
    Nat → List PrimitiveSignature → List (ContainerKind × ScalarType) → Option Nat
  | _,_,[] => none
  | index,candidates,(container,actual) :: rest =>
    if candidates.isEmpty then none
    else
      let remaining := candidates.filter fun candidate =>
        typeAccepts descriptor (candidate.parameters.getD index scalarBool) container actual
      if remaining.isEmpty then some (index + 1) else rejectedArgument descriptor (index + 1) remaining rest

/-- The position of a type error; arguments not yet looked at count as booleans. -/
def typeError (descriptor : PrimitiveDescriptor) (arguments : List (TypedPrimitiveArgument Value))
    (actualTypes : List ScalarType) : ApplicationFailure :=
  .type (rejectedArgument descriptor 0
    (descriptor.signatures.filter fun signature => signature.parameters.length == arguments.length)
    ((arguments.map typedArgumentContainer).zip
      ((List.range arguments.length).map fun index => actualTypes.getD index .boolean)))

/-- The first loop over the arguments: each is valid, and none a tuple. -/
def checkArguments (descriptor : PrimitiveDescriptor) (arguments : List (TypedPrimitiveArgument Value)) :
    Host → List ScalarType → List (TypedPrimitiveArgument Value) → Host × Except ApplicationFailure (List ScalarType)
  | h,actualTypes,[] => (h,.ok actualTypes)
  | h,actualTypes,argument :: rest =>
    match validateValue noHostFailure h argument.owner with
    | (_,h,some failure) => (h,.error (.invalidArgument (actualTypes.length + 1) failure))
    | (_,h,none) =>
      if argument.node.any fun node =>
          argument.owner.container != .tuple || decide (argument.owner.tuple.nodes.length ≤ node) then
        (h,.error (.invalidNode (actualTypes.length + 1) (argument.node.getD 0)))
      else
        match typedArgumentContainer argument with
        | .tuple => (h,.error (typeError descriptor arguments actualTypes))
        | .scalar => checkArguments descriptor arguments h (actualTypes ++ [(typedArgumentScalar argument).type]) rest
        | .vector => checkArguments descriptor arguments h (actualTypes ++ [(typedArgumentVector argument).elementType]) rest

/-! ### Structural primitives -/

/-- The lambda `matches_arguments`. -/
def matchesArguments (arguments : List (TypedPrimitiveArgument Value)) (actualTypes : List ScalarType)
    (signature : PrimitiveSignature) : Bool :=
  signature.parameters == (arguments.zip actualTypes).map fun argument =>
    ⟨typedArgumentContainer argument.1,argument.2⟩

/-- The signature a call was lowered to, or the first, that takes the arguments as they are. -/
def structuralSignature (descriptor : PrimitiveDescriptor) (typedSignature : Option Nat)
    (arguments : List (TypedPrimitiveArgument Value)) (actualTypes : List ScalarType) : Option PrimitiveSignature :=
  match typedSignature with
  | some index => (descriptor.signatures[index]?).filter (matchesArguments arguments actualTypes)
  | none => descriptor.signatures.find? (matchesArguments arguments actualTypes)

/-- The loop that fills the result of `iota`. -/
def fillIota (vector : VectorValue) (count : Nat) : VectorValue :=
  (List.range count).foldl (fun vector index =>
    { vector with integers := vector.integers.map (·.write index (Int64.ofNat index + 1)) }) vector

def applyStructural (h : Host) (resources : EvaluationResources) (descriptor : PrimitiveDescriptor)
    (typedSignature : Option Nat) (arguments : List (TypedPrimitiveArgument Value)) (actualTypes : List ScalarType) :
    Application :=
  match structuralSignature descriptor typedSignature arguments actualTypes with
  | none => (h,.error (typeError descriptor arguments actualTypes))
  | some signature =>
    match arguments with
    | [argument] =>
      if signature.implementation ≠ .iotaInteger ∨ descriptor.id ≠ .iota then (h,.error .invalidTable)
      else
        let count := (typedArgumentScalar argument).integer.toInt.toNat
        match h.allocateVector resources .integer count count with
        | (h,.error fault) => (h,.error (.resource fault))
        | (h,.ok value) => (h,.ok { value with vector := fillIota value.vector count })
    | _ => (h,.error .invalidTable)

/-! ### Lifting -/

/-- The signature a call was lowered to, or the one that its arguments choose, with its place. -/
def liftedSignature (descriptor : PrimitiveDescriptor) (typedSignature : Option Nat)
    (arguments : List (TypedPrimitiveArgument Value)) (actualTypes : List ScalarType) :
    Except ApplicationFailure (Nat × PrimitiveSignature) :=
  match typedSignature with
  | none =>
    let selected := selectPrimitiveSignature descriptor actualTypes
    match selected.status,selected.signature with
    | .arityMismatch,_ => .error (.arity arguments.length)
    | .success,some signature => .ok (selected.signatureIndex,signature)
    | _,_ => .error (typeError descriptor arguments actualTypes)
  | some index =>
    match descriptor.signatures[index]? with
    | none => .error (typeError descriptor arguments actualTypes)
    | some signature =>
      if signature.parameters.length == arguments.length &&
          (signature.parameters.zip actualTypes).all fun (parameter,actual) =>
            actual == parameter.element || (actual == .integer && parameter.element == .doublePrecision) then
        .ok (index,signature)
      else .error (typeError descriptor arguments actualTypes)

/-- The length that all vectors among the arguments have, if there is one. -/
def resultLength : Nat → Option Nat → List (TypedPrimitiveArgument Value) → Except ApplicationFailure (Option Nat)
  | _,length,[] => .ok length
  | index,length,argument :: rest =>
    if typedArgumentContainer argument ≠ .vector then resultLength (index + 1) length rest
    else
      match length with
      | none => resultLength (index + 1) (some (validatedVectorLength argument)) rest
      | some expected =>
        if validatedVectorLength argument ≠ expected then
          .error (.shape (index + 1) expected (validatedVectorLength argument))
        else resultLength (index + 1) (some expected) rest

section lifting

variable (platform : KernelPlatform) (descriptor : PrimitiveDescriptor) (selected : Nat) (signature : PrimitiveSignature)
  (arguments : List (TypedPrimitiveArgument Value)) (location : RewritePosition)

/-- The operands of one element, each converted to its parameter. -/
def elementOperands (index : Nat) : Option (List ScalarValue) :=
  (arguments.zip signature.parameters).mapM fun (argument,parameter) =>
    let converted := convertScalar (projectValidatedScalar argument index) parameter.element
    if converted.status = .success then some converted.value else none

/-- The body of the loop for one element; `lifted` when the result is a vector. -/
def applyElement (lifted : Bool) (index : Nat) : Option (Except ApplicationFailure ScalarValue) :=
  match elementOperands signature arguments index with
  | none => some (.error .conversion)
  | some operands =>
    (invokeScalarKernel platform descriptor (.member selected) operands location).map fun kernel =>
      if kernel.status = .success then .ok kernel.value
      else .error (.kernel (if kernel.status = .domainError ∧ lifted = true then some index else none) kernel.error)

/-- The loop over the elements of a vector; a failure leaves the part that has been stored. -/
def applyElements : Nat → Nat → Value → Option (Except (ApplicationFailure × Value) Value)
  | 0,_,value => some (.ok value)
  | remaining + 1,index,value =>
    (applyElement platform descriptor selected signature arguments location true index).bind fun
      | .error failure => some (.error (failure,value))
      | .ok scalar =>
        match storeScalar value index scalar with
        | none => some (.error (.invalidTable,value))
        | some value => applyElements remaining (index + 1) value

end lifting

/-- A vector that is not returned is released and dropped. -/
def abandonVector (h : Host) (resources : EvaluationResources) (value : Value) : Host :=
  let (_,h,rest,_) := h.releaseVectorReservation noHostFailure resources value
  h.dropValue rest

def applyLifted (platform : KernelPlatform) (h : Host) (resources : EvaluationResources) (descriptor : PrimitiveDescriptor)
    (typedSignature : Option Nat) (arguments : List (TypedPrimitiveArgument Value)) (actualTypes : List ScalarType)
    (location : RewritePosition) : Option Application :=
  match liftedSignature descriptor typedSignature arguments actualTypes with
  | .error failure => some (h,.error failure)
  | .ok (selected,signature) =>
    match resultLength 0 none arguments with
    | .error failure => some (h,.error failure)
    | .ok none =>
      match h.chargeWork resources 1 with
      | (h,.error fault) => some (h,.error (.resource fault))
      | (h,.ok _) =>
        (applyElement platform descriptor selected signature arguments location false 0).map fun outcome =>
          (h,outcome.map valueFromScalar)
    | .ok (some length) =>
      match h.allocateVector resources signature.result.element length length with
      | (h,.error fault) => some (h,.error (.resource fault))
      | (h,.ok value) =>
        (applyElements platform descriptor selected signature arguments location length 0 value).map fun
          | .ok value => (h,.ok value)
          | .error (failure,partly) => (abandonVector h resources partly,.error failure)

/-! ### Application -/

/-- `apply_primitive_impl`. -/
def applyPrimitiveImpl (platform : KernelPlatform) (h : Host) (resources : EvaluationResources)
    (descriptor : PrimitiveDescriptor) (typedSignature : Option Nat) (arguments : List (TypedPrimitiveArgument Value))
    (location : RewritePosition) : Option Application :=
  if arityExists descriptor arguments.length = false then some (h,.error (.arity arguments.length))
  else if 2 < arguments.length then some (h,.error .invalidTable)
  else
    match checkArguments descriptor arguments h [] arguments with
    | (h,.error failure) => some (h,.error failure)
    | (h,.ok actualTypes) =>
      if descriptor.lifting = .none then
        some (applyStructural h resources descriptor typedSignature arguments actualTypes)
      else applyLifted platform h resources descriptor typedSignature arguments actualTypes location

/-- `apply_typed_primitive`: the implementation names one signature. -/
def applyTypedPrimitive (platform : KernelPlatform) (h : Host) (resources : EvaluationResources)
    (descriptor : PrimitiveDescriptor) (implementation : PrimitiveImplementation)
    (arguments : List (TypedPrimitiveArgument Value)) (location : RewritePosition) : Option Application :=
  match (List.range descriptor.signatures.length).filter fun index =>
      (descriptor.signatures[index]?).any (·.implementation = implementation) with
  | [selected] =>
    if implementation = .none then some (h,.error .invalidTable)
    else applyPrimitiveImpl platform h resources descriptor (some selected) arguments location
  | _ => some (h,.error .invalidTable)

/-- `apply_primitive`: values are borrowed whole. -/
def applyPrimitive (platform : KernelPlatform) (h : Host) (resources : EvaluationResources)
    (descriptor : PrimitiveDescriptor) (arguments : List Value) (location : RewritePosition) : Option Application :=
  applyPrimitiveImpl platform h resources descriptor none (arguments.map fun owner => ⟨owner,none⟩) location

end Bennu
