import Bennu.CheckedInteger
import Bennu.IntegerPromotion
import Bennu.Primitive

/-! Scalar conversions and kernels of the primitives. A kernel gives nothing where its
arithmetic on integers would be undefined; the arithmetic unit for doubles, in its strict
environment, and the allocation of an error's copy of a name are parameters. -/
namespace Bennu

open CheckedInteger

def validScalar (value : ScalarValue) : Bool :=
  match value.type with
  | .boolean => value.integer == 0 && value.doublePrecision == 0
  | .integer => !value.boolean && value.doublePrecision == 0
  | .doublePrecision =>
    if value.boolean || value.integer != 0 then false
    else if value.doublePrecision &&& binary64ExponentMask != binary64ExponentMask ||
        value.doublePrecision &&& binary64FractionMask == 0 then true
    else value.doublePrecision == canonicalNanBits

inductive ScalarConversionStatus where
  | success | invalidScalar | unsupportedConversion
  deriving DecidableEq, Repr

structure ScalarConversionResult where
  status : ScalarConversionStatus
  value : ScalarValue
  deriving DecidableEq, Repr

def convertScalar (value : ScalarValue) (parameterType : ScalarType) : ScalarConversionResult :=
  if !validScalar value then ⟨.invalidScalar,emptyScalar⟩
  else if value.type = parameterType then ⟨.success,value⟩
  else if value.type = .integer ∧ parameterType = .doublePrecision then
    ⟨.success,.doublePrecision,false,0,intToBinary64 value.integer⟩
  else ⟨.unsupportedConversion,emptyScalar⟩

inductive StrictBinary64Operation where
  | add | subtract | multiply
  deriving DecidableEq, Repr

structure KernelPlatform where
  arithmetic : StrictBinary64Operation → Binary64 → Binary64 → Binary64
  storesName : Text → Bool

/-- `strict_binary64_arithmetic`: NaNs and invalid infinities do not reach the unit. -/
def strictBinary64Arithmetic (platform : KernelPlatform) (left right : Binary64)
    (operation : StrictBinary64Operation) : Binary64 :=
  if isNanBits left || isNanBits right then canonicalNanBits
  else
    let signsDiffer := (left ^^^ right) &&& signBit != 0
    let invalidInfinityArithmetic := binary64IsInfinity left && binary64IsInfinity right &&
      (operation == .add && signsDiffer || operation == .subtract && !signsDiffer)
    let invalidInfinityProduct := operation == .multiply &&
      (binary64IsInfinity left && binary64IsZero right ||
        binary64IsZero left && binary64IsInfinity right)
    if invalidInfinityArithmetic || invalidInfinityProduct then canonicalNanBits
    else normalizeDouble (platform.arithmetic operation left right)

/-- The lambda `scalar_parameters_match`. -/
def scalarParametersMatch (signature : PrimitiveSignature) (parameters : List ScalarType)
    (result : ScalarType) : Bool :=
  signature.parameters == parameters.map (ValueType.mk .scalar) &&
    signature.result == ⟨.scalar,result⟩

def implementationMatches (id : PrimitiveId) (signature : PrimitiveSignature) : Bool :=
  match signature.implementation with
  | .none => false
  | .incInteger => id == .inc && scalarParametersMatch signature [.integer] .integer
  | .incDouble => id == .inc && scalarParametersMatch signature [.doublePrecision] .doublePrecision
  | .addInteger => id == .add && scalarParametersMatch signature [.integer,.integer] .integer
  | .addDouble => id == .add &&
      scalarParametersMatch signature [.doublePrecision,.doublePrecision] .doublePrecision
  | .equalsBoolean => id == .equals && scalarParametersMatch signature [.boolean,.boolean] .boolean
  | .equalsInteger => id == .equals && scalarParametersMatch signature [.integer,.integer] .boolean
  | .equalsDouble => id == .equals &&
      scalarParametersMatch signature [.doublePrecision,.doublePrecision] .boolean
  | .logicalNotBoolean => id == .logicalNot && scalarParametersMatch signature [.boolean] .boolean
  | .iotaInteger => id == .iota && signature.parameters == [⟨.scalar,.integer⟩] &&
      signature.result == ⟨.vector,.integer⟩
  | .logicalAndBoolean => id == .logicalAnd &&
      scalarParametersMatch signature [.boolean,.boolean] .boolean
  | .logicalOrBoolean => id == .logicalOr &&
      scalarParametersMatch signature [.boolean,.boolean] .boolean
  | .notEqualsBoolean => id == .notEquals &&
      scalarParametersMatch signature [.boolean,.boolean] .boolean
  | .notEqualsInteger => id == .notEquals &&
      scalarParametersMatch signature [.integer,.integer] .boolean
  | .notEqualsDouble => id == .notEquals &&
      scalarParametersMatch signature [.doublePrecision,.doublePrecision] .boolean
  | .oddInteger => id == .odd && scalarParametersMatch signature [.integer] .boolean
  | .evenInteger => id == .even && scalarParametersMatch signature [.integer] .boolean
  | .isPositiveInteger => id == .isPositive && scalarParametersMatch signature [.integer] .boolean
  | .isPositiveDouble => id == .isPositive &&
      scalarParametersMatch signature [.doublePrecision] .boolean
  | .isNegativeInteger => id == .isNegative && scalarParametersMatch signature [.integer] .boolean
  | .isNegativeDouble => id == .isNegative &&
      scalarParametersMatch signature [.doublePrecision] .boolean
  | .lessThanInteger => id == .lessThan &&
      scalarParametersMatch signature [.integer,.integer] .boolean
  | .lessThanDouble => id == .lessThan &&
      scalarParametersMatch signature [.doublePrecision,.doublePrecision] .boolean
  | .greaterThanInteger => id == .greaterThan &&
      scalarParametersMatch signature [.integer,.integer] .boolean
  | .greaterThanDouble => id == .greaterThan &&
      scalarParametersMatch signature [.doublePrecision,.doublePrecision] .boolean
  | .decInteger => id == .dec && scalarParametersMatch signature [.integer] .integer
  | .decDouble => id == .dec && scalarParametersMatch signature [.doublePrecision] .doublePrecision
  | .negInteger => id == .neg && scalarParametersMatch signature [.integer] .integer
  | .negDouble => id == .neg && scalarParametersMatch signature [.doublePrecision] .doublePrecision
  | .absInteger => id == .abs && scalarParametersMatch signature [.integer] .integer
  | .absDouble => id == .abs && scalarParametersMatch signature [.doublePrecision] .doublePrecision
  | .subInteger => id == .sub && scalarParametersMatch signature [.integer,.integer] .integer
  | .subDouble => id == .sub &&
      scalarParametersMatch signature [.doublePrecision,.doublePrecision] .doublePrecision
  | .mulInteger => id == .mul && scalarParametersMatch signature [.integer,.integer] .integer
  | .mulDouble => id == .mul &&
      scalarParametersMatch signature [.doublePrecision,.doublePrecision] .doublePrecision

/-- A reference to a signature: one of the descriptor's own, or another object. -/
inductive SignatureReference where
  | member (index : Nat)
  | detached (signature : PrimitiveSignature)
  deriving DecidableEq, Repr

/-- The signature referred to; a member past the end is a dangling reference. -/
def SignatureReference.signature (descriptor : PrimitiveDescriptor) :
    SignatureReference → Option PrimitiveSignature
  | .member index => descriptor.signatures[index]?
  | .detached signature => some signature

/-- Addresses are compared, so an equal signature elsewhere does not belong. -/
def signatureBelongsToDescriptor (descriptor : PrimitiveDescriptor) : SignatureReference → Bool
  | .member index => index < descriptor.signatures.length
  | .detached _ => false

inductive ScalarKernelStatus where
  | success | domainError | invalidInvocation
  deriving DecidableEq, Repr

inductive DomainErrorReason where
  | integerOverflow
  deriving DecidableEq, Repr

structure ScalarSignatureContext where
  parameterTypes : List ScalarType
  resultType : ScalarType
  deriving DecidableEq, Repr

structure DomainErrorContext where
  reason : DomainErrorReason
  signature : ScalarSignatureContext
  operands : List ScalarValue
  deriving DecidableEq, Repr

structure PrimitiveErrorContext where
  name : Text
  id : Option PrimitiveId
  deriving DecidableEq, Repr

inductive KernelErrorKind where
  | none | domainError
  deriving DecidableEq, Repr

/-- The fields of `Error` that kernels set. -/
structure KernelError where
  kind : KernelErrorKind
  location : RewritePosition
  primitive : Option PrimitiveErrorContext
  domain : Option DomainErrorContext
  deriving DecidableEq, Repr

structure ScalarKernelResult where
  status : ScalarKernelStatus
  value : ScalarValue
  error : KernelError
  deriving DecidableEq, Repr

def noKernelError : KernelError := ⟨.none,⟨0,1,1⟩,none,none⟩

def invalidKernelInvocation : ScalarKernelResult := ⟨.invalidInvocation,emptyScalar,noKernelError⟩

def successfulKernel (value : ScalarValue) : ScalarKernelResult := ⟨.success,value,noKernelError⟩

/-- The copy of the name may fail to be allocated, and then nothing is recorded. -/
def makePrimitiveErrorContext (platform : KernelPlatform) (name : Text) (id : Option PrimitiveId) :
    Option PrimitiveErrorContext :=
  if platform.storesName name then some ⟨name,id⟩ else none

def integerOverflow (platform : KernelPlatform) (descriptor : PrimitiveDescriptor)
    (signature : PrimitiveSignature) (operands : List ScalarValue) (location : RewritePosition) :
    ScalarKernelResult :=
  ⟨.domainError,emptyScalar,.domainError,location,
    makePrimitiveErrorContext platform descriptor.name (some descriptor.id),
    some ⟨.integerOverflow,⟨signature.parameters.map ValueType.element,signature.result.element⟩,operands⟩⟩

/-- What the case of an implementation comes to. -/
inductive KernelOutcome where
  | value (scalar : ScalarValue)
  | overflow
  | invalid
  deriving DecidableEq, Repr

/-- The result of a case that guards an operation on integers. -/
def guarded (overflows : Option Bool) (result : Option Int64) : Option KernelOutcome := do
  if ← overflows then return .overflow
  return .value (makeIntValue (← result)).scalar

def truth (value : Bool) : Option KernelOutcome := some (.value (makeBoolValue value).scalar)

def double (value : Binary64) : Option KernelOutcome := some (.value (makeDoubleValue value).scalar)

/-- The condition of the case `add_integer`. -/
def addOverflows (left right : Int64) : Option Bool :=
  orElse (andAlso (0 < right) do return (← minus .maxValue right) < left)
    (andAlso (right < 0) do return left < (← minus .minValue right))

/-- The condition of the case `sub_integer`. -/
def subOverflows (left right : Int64) : Option Bool :=
  orElse (andAlso (0 < right) do return left < (← plus .minValue right))
    (andAlso (right < 0) do return (← plus .maxValue right) < left)

/-- The condition of the case `mul_integer`. -/
def mulOverflows (left right : Int64) : Option Bool :=
  if 0 < left then
    if 0 < right then do return (← quotient .maxValue right) < left
    else do return right < (← quotient .minValue left)
  else if left < 0 then
    if 0 < right then do return left < (← quotient .minValue right)
    else andAlso (right < 0) do return right < (← quotient .maxValue left)
  else some false

def absInteger (operand : Int64) : Option Int64 := if operand < 0 then negated operand else some operand

/-- The `switch` of `invoke_scalar_kernel`: a case reads as many operands as its signature
has parameters. -/
def kernelOutcome (platform : KernelPlatform) (implementation : PrimitiveImplementation)
    (first second : ScalarValue) : Option KernelOutcome :=
  match implementation with
  | .incInteger => guarded (some (first.integer == .maxValue)) (plus first.integer 1)
  | .incDouble => double (strictBinary64Arithmetic platform first.doublePrecision 0x3ff0000000000000 .add)
  | .addInteger => guarded (addOverflows first.integer second.integer) (plus first.integer second.integer)
  | .addDouble =>
    double (strictBinary64Arithmetic platform first.doublePrecision second.doublePrecision .add)
  | .equalsBoolean => truth (first.boolean == second.boolean)
  | .equalsInteger => truth (first.integer == second.integer)
  | .equalsDouble => truth (binary64Equal first.doublePrecision second.doublePrecision)
  | .logicalNotBoolean => truth (!first.boolean)
  | .logicalAndBoolean => truth (first.boolean && second.boolean)
  | .logicalOrBoolean => truth (first.boolean || second.boolean)
  | .notEqualsBoolean => truth (first.boolean != second.boolean)
  | .notEqualsInteger => truth (first.integer != second.integer)
  | .notEqualsDouble => truth (!binary64Equal first.doublePrecision second.doublePrecision)
  | .oddInteger => do truth ((← remainder first.integer 2) != 0)
  | .evenInteger => do truth ((← remainder first.integer 2) == 0)
  | .isPositiveInteger => truth (0 < first.integer)
  | .isPositiveDouble => truth (binary64IsPositive first.doublePrecision)
  | .isNegativeInteger => truth (first.integer < 0)
  | .isNegativeDouble => truth (binary64IsNegative first.doublePrecision)
  | .lessThanInteger => truth (first.integer < second.integer)
  | .lessThanDouble => truth (binary64LessThan first.doublePrecision second.doublePrecision)
  | .greaterThanInteger => truth (second.integer < first.integer)
  | .greaterThanDouble => truth (binary64LessThan second.doublePrecision first.doublePrecision)
  | .decInteger => guarded (some (first.integer == .minValue)) (minus first.integer 1)
  | .negInteger => guarded (some (first.integer == .minValue)) (negated first.integer)
  | .absInteger => guarded (some (first.integer == .minValue)) (absInteger first.integer)
  | .subInteger => guarded (subOverflows first.integer second.integer) (minus first.integer second.integer)
  | .mulInteger => guarded (mulOverflows first.integer second.integer) (times first.integer second.integer)
  | .decDouble =>
    double (strictBinary64Arithmetic platform first.doublePrecision 0x3ff0000000000000 .subtract)
  | .negDouble => double (first.doublePrecision ^^^ signBit)
  | .absDouble => double (first.doublePrecision &&& ~~~signBit)
  | .subDouble =>
    double (strictBinary64Arithmetic platform first.doublePrecision second.doublePrecision .subtract)
  | .mulDouble =>
    double (strictBinary64Arithmetic platform first.doublePrecision second.doublePrecision .multiply)
  | .none => some .invalid
  | .iotaInteger => some .invalid

/-- The checks of `invoke_scalar_kernel` before its `switch`. -/
def invocationAccepted (descriptor : PrimitiveDescriptor) (reference : SignatureReference)
    (signature : PrimitiveSignature) (operands : List ScalarValue) : Bool :=
  descriptor.lifting == .elementwise && signatureBelongsToDescriptor descriptor reference &&
    implementationMatches descriptor.id signature &&
    signature.parameters.length == operands.length && signature.result.container == .scalar &&
    (operands.zip signature.parameters).all fun (operand,parameter) =>
      validScalar operand && operand.type == parameter.element

def invokeScalarKernel (platform : KernelPlatform) (descriptor : PrimitiveDescriptor)
    (reference : SignatureReference) (operands : List ScalarValue) (location : RewritePosition) :
    Option ScalarKernelResult := do
  let signature ← reference.signature descriptor
  if !invocationAccepted descriptor reference signature operands then return invalidKernelInvocation
  match ← kernelOutcome platform signature.implementation (operands.getD 0 emptyScalar)
      (operands.getD 1 emptyScalar) with
  | .value scalar => return successfulKernel scalar
  | .overflow => return integerOverflow platform descriptor signature operands location
  | .invalid => return invalidKernelInvocation

end Bennu
