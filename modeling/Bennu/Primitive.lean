import Bennu.Tokenizer

/-! The production primitives and their signatures. -/
namespace Bennu

inductive PrimitiveId where
  | inc | add | equals | logicalNot | iota | logicalAnd | logicalOr | notEquals | odd | even
  | isPositive | isNegative | lessThan | greaterThan | dec | neg | abs | sub | mul
  deriving DecidableEq, Repr

inductive LiftingMode where
  | none | elementwise
  deriving DecidableEq, Repr

inductive PrimitiveImplementation where
  | none | incInteger | incDouble | addInteger | addDouble | equalsBoolean | equalsInteger
  | equalsDouble | logicalNotBoolean | iotaInteger | logicalAndBoolean | logicalOrBoolean
  | notEqualsBoolean | notEqualsInteger | notEqualsDouble | oddInteger | evenInteger
  | isPositiveInteger | isPositiveDouble | isNegativeInteger | isNegativeDouble
  | lessThanInteger | lessThanDouble | greaterThanInteger | greaterThanDouble | decInteger
  | decDouble | negInteger | negDouble | absInteger | absDouble | subInteger | subDouble
  | mulInteger | mulDouble
  deriving DecidableEq, Repr

structure ValueType where
  container : ContainerKind
  element : ScalarType
  deriving DecidableEq, Repr

structure PrimitiveSignature where
  parameters : List ValueType
  result : ValueType
  implementation : PrimitiveImplementation
  deriving DecidableEq, Repr

structure PrimitiveDescriptor where
  id : PrimitiveId
  name : Text
  lifting : LiftingMode
  signatures : List PrimitiveSignature
  deriving DecidableEq, Repr

def scalarBool : ValueType := ⟨.scalar,.boolean⟩
def scalarInt : ValueType := ⟨.scalar,.integer⟩
def scalarDouble : ValueType := ⟨.scalar,.doublePrecision⟩
def vectorInt : ValueType := ⟨.vector,.integer⟩

def incSignatures : List PrimitiveSignature :=
  [⟨[scalarInt],scalarInt,.incInteger⟩,⟨[scalarDouble],scalarDouble,.incDouble⟩]
def addSignatures : List PrimitiveSignature :=
  [⟨[scalarInt,scalarInt],scalarInt,.addInteger⟩,
    ⟨[scalarDouble,scalarDouble],scalarDouble,.addDouble⟩]
def decSignatures : List PrimitiveSignature :=
  [⟨[scalarInt],scalarInt,.decInteger⟩,⟨[scalarDouble],scalarDouble,.decDouble⟩]
def negSignatures : List PrimitiveSignature :=
  [⟨[scalarInt],scalarInt,.negInteger⟩,⟨[scalarDouble],scalarDouble,.negDouble⟩]
def absSignatures : List PrimitiveSignature :=
  [⟨[scalarInt],scalarInt,.absInteger⟩,⟨[scalarDouble],scalarDouble,.absDouble⟩]
def subSignatures : List PrimitiveSignature :=
  [⟨[scalarInt,scalarInt],scalarInt,.subInteger⟩,
    ⟨[scalarDouble,scalarDouble],scalarDouble,.subDouble⟩]
def mulSignatures : List PrimitiveSignature :=
  [⟨[scalarInt,scalarInt],scalarInt,.mulInteger⟩,
    ⟨[scalarDouble,scalarDouble],scalarDouble,.mulDouble⟩]
def equalsSignatures : List PrimitiveSignature :=
  [⟨[scalarBool,scalarBool],scalarBool,.equalsBoolean⟩,
    ⟨[scalarInt,scalarInt],scalarBool,.equalsInteger⟩,
    ⟨[scalarDouble,scalarDouble],scalarBool,.equalsDouble⟩]
def notSignatures : List PrimitiveSignature := [⟨[scalarBool],scalarBool,.logicalNotBoolean⟩]
def iotaSignatures : List PrimitiveSignature := [⟨[scalarInt],vectorInt,.iotaInteger⟩]
def andSignatures : List PrimitiveSignature :=
  [⟨[scalarBool,scalarBool],scalarBool,.logicalAndBoolean⟩]
def orSignatures : List PrimitiveSignature :=
  [⟨[scalarBool,scalarBool],scalarBool,.logicalOrBoolean⟩]
def notEqualsSignatures : List PrimitiveSignature :=
  [⟨[scalarBool,scalarBool],scalarBool,.notEqualsBoolean⟩,
    ⟨[scalarInt,scalarInt],scalarBool,.notEqualsInteger⟩,
    ⟨[scalarDouble,scalarDouble],scalarBool,.notEqualsDouble⟩]
def oddSignatures : List PrimitiveSignature := [⟨[scalarInt],scalarBool,.oddInteger⟩]
def evenSignatures : List PrimitiveSignature := [⟨[scalarInt],scalarBool,.evenInteger⟩]
def isPositiveSignatures : List PrimitiveSignature :=
  [⟨[scalarInt],scalarBool,.isPositiveInteger⟩,⟨[scalarDouble],scalarBool,.isPositiveDouble⟩]
def isNegativeSignatures : List PrimitiveSignature :=
  [⟨[scalarInt],scalarBool,.isNegativeInteger⟩,⟨[scalarDouble],scalarBool,.isNegativeDouble⟩]
def lessThanSignatures : List PrimitiveSignature :=
  [⟨[scalarInt,scalarInt],scalarBool,.lessThanInteger⟩,
    ⟨[scalarDouble,scalarDouble],scalarBool,.lessThanDouble⟩]
def greaterThanSignatures : List PrimitiveSignature :=
  [⟨[scalarInt,scalarInt],scalarBool,.greaterThanInteger⟩,
    ⟨[scalarDouble,scalarDouble],scalarBool,.greaterThanDouble⟩]

def productionDescriptors : List PrimitiveDescriptor :=
  [⟨.inc,"inc".toList,.elementwise,incSignatures⟩,
    ⟨.add,"add".toList,.elementwise,addSignatures⟩,
    ⟨.equals,"equals".toList,.elementwise,equalsSignatures⟩,
    ⟨.logicalNot,"not".toList,.elementwise,notSignatures⟩,
    ⟨.iota,"iota".toList,.none,iotaSignatures⟩,
    ⟨.logicalAnd,"and".toList,.elementwise,andSignatures⟩,
    ⟨.logicalOr,"or".toList,.elementwise,orSignatures⟩,
    ⟨.notEquals,"not_equals".toList,.elementwise,notEqualsSignatures⟩,
    ⟨.odd,"odd".toList,.elementwise,oddSignatures⟩,
    ⟨.even,"even".toList,.elementwise,evenSignatures⟩,
    ⟨.isPositive,"is_positive".toList,.elementwise,isPositiveSignatures⟩,
    ⟨.isNegative,"is_negative".toList,.elementwise,isNegativeSignatures⟩,
    ⟨.lessThan,"less_than".toList,.elementwise,lessThanSignatures⟩,
    ⟨.greaterThan,"greater_than".toList,.elementwise,greaterThanSignatures⟩,
    ⟨.dec,"dec".toList,.elementwise,decSignatures⟩,
    ⟨.neg,"neg".toList,.elementwise,negSignatures⟩,
    ⟨.abs,"abs".toList,.elementwise,absSignatures⟩,
    ⟨.sub,"sub".toList,.elementwise,subSignatures⟩,
    ⟨.mul,"mul".toList,.elementwise,mulSignatures⟩]

/-- `find_primitive` by name. -/
def findPrimitive (name : Text) : Option PrimitiveDescriptor :=
  productionDescriptors.find? fun descriptor => descriptor.name == name

end Bennu
