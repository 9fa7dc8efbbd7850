import Bennu.ScalarKernel

/-! The scalar kernels of the C runtime. Its enumerations have the evaluator's codes, so
an implementation and an element type are the evaluator's; a C boolean is a byte. The
kernels compute what the evaluator's do. -/
namespace Bennu

open CheckedInteger

inductive BennuFailure where
  | none | size | profile | allocation | domain | shape | internal
  deriving DecidableEq, Repr

structure BennuScalar where
  type : ScalarType
  boolean : UInt8
  integer : Int64
  doublePrecision : Binary64
  deriving DecidableEq, Repr

/-- The field of the runtime's resources that a kernel writes. -/
structure BennuResources where
  failure : BennuFailure
  deriving DecidableEq, Repr

/-- `bennu_set_failure`: the first failure stays. -/
def BennuResources.setFailure (resources : BennuResources) (failure : BennuFailure) : BennuResources :=
  if resources.failure = .none then { resources with failure := failure } else resources

def bennuConvert (value : BennuScalar) (type : ScalarType) : BennuScalar :=
  if value.type = .integer ∧ type = .doublePrecision then
    { value with type := .doublePrecision, doublePrecision := bennuIntToDouble value.integer, integer := 0 }
  else value

/-- The sum, when its guards let it be computed. -/
def bennuAddInt (left right : Int64) : Option (Option Int64) := do
  if ← orElse (andAlso (0 < right) do return (← minus .maxValue right) < left)
      (andAlso (right < 0) do return left < (← minus .minValue right)) then return none
  return some (← plus left right)

def bennuSubInt (left right : Int64) : Option (Option Int64) := do
  if ← orElse (andAlso (0 < right) do return left < (← plus .minValue right))
      (andAlso (right < 0) do return (← plus .maxValue right) < left) then return none
  return some (← minus left right)

def bennuMulInt (left right : Int64) : Option (Option Int64) := do
  let overflow : Option Bool :=
    if 0 < left then
      if 0 < right then do return (← quotient .maxValue right) < left
      else do return right < (← quotient .minValue left)
    else if left < 0 then
      if 0 < right then do return left < (← quotient .minValue right)
      else andAlso (right < 0) do return right < (← quotient .maxValue left)
    else some false
  if ← overflow then return none
  return some (← times left right)

def bennuDoubleArithmetic (platform : KernelPlatform) (left right : Binary64)
    (operation : StrictBinary64Operation) : Binary64 :=
  let signsDiffer := (left ^^^ right) &&& 0x8000000000000000 != 0
  if bennuDoubleIsNan left || bennuDoubleIsNan right ||
      bennuDoubleIsInfinity left && bennuDoubleIsInfinity right &&
        (operation == .add && signsDiffer || operation == .subtract && !signsDiffer) ||
      operation == .multiply &&
        (bennuDoubleIsInfinity left && bennuDoubleIsZero right ||
          bennuDoubleIsZero left && bennuDoubleIsInfinity right) then 0x7ff8000000000000
  else normalizeDouble (platform.arithmetic operation left right)

def bennuAddDouble (platform : KernelPlatform) (left right : Binary64) : Binary64 :=
  bennuDoubleArithmetic platform left right .add

def bennuResultType : PrimitiveImplementation → ScalarType
  | .equalsBoolean | .equalsInteger | .equalsDouble | .logicalNotBoolean | .logicalAndBoolean
  | .logicalOrBoolean | .notEqualsBoolean | .notEqualsInteger | .notEqualsDouble | .oddInteger
  | .evenInteger | .isPositiveInteger | .isPositiveDouble | .isNegativeInteger | .isNegativeDouble
  | .lessThanInteger | .lessThanDouble | .greaterThanInteger | .greaterThanDouble => .boolean
  | .incDouble | .addDouble | .decDouble | .negDouble | .absDouble | .subDouble | .mulDouble =>
    .doublePrecision
  | _ => .integer

/-- A C truth value. -/
def byteOf (value : Bool) : UInt8 := if value then 1 else 0

section Kernel

variable (resources : BennuResources) (result : BennuScalar)

def kernelFails (failure : BennuFailure) : Option (BennuResources × BennuScalar × Bool) :=
  some (resources.setFailure failure,result,false)

def kernelBoolean (value : UInt8) : Option (BennuResources × BennuScalar × Bool) :=
  some (resources,{ result with boolean := value },true)

def kernelDouble (value : Binary64) : Option (BennuResources × BennuScalar × Bool) :=
  some (resources,{ result with doublePrecision := value },true)

/-- A guarded operation on integers: without a result the failure is one of the domain. -/
def kernelInteger (guarded : Option (Option Int64)) : Option (BennuResources × BennuScalar × Bool) := do
  match ← guarded with
  | none => kernelFails resources result .domain
  | some value => some (resources,{ result with integer := value },true)

end Kernel

/-- `bennu_kernel`: the resources and the scalar written, and whether it succeeded. -/
def bennuKernel (platform : KernelPlatform) (resources : BennuResources)
    (implementation : PrimitiveImplementation) (left right : BennuScalar) :
    Option (BennuResources × BennuScalar × Bool) :=
  let result : BennuScalar := ⟨bennuResultType implementation,0,0,0⟩
  let unlessLeast (value : Option Int64) : Option (Option Int64) := do
    if left.integer == .minValue then return none
    return some (← value)
  match implementation with
  | .incInteger => kernelInteger resources result (bennuAddInt left.integer 1)
  | .incDouble =>
    kernelDouble resources result (bennuAddDouble platform left.doublePrecision 0x3ff0000000000000)
  | .addInteger => kernelInteger resources result (bennuAddInt left.integer right.integer)
  | .addDouble =>
    kernelDouble resources result (bennuAddDouble platform left.doublePrecision right.doublePrecision)
  | .equalsBoolean => kernelBoolean resources result (byteOf (left.boolean == right.boolean))
  | .equalsInteger => kernelBoolean resources result (byteOf (left.integer == right.integer))
  | .equalsDouble => kernelBoolean resources result
      (byteOf (bennuDoubleEqual left.doublePrecision right.doublePrecision))
  | .logicalNotBoolean => kernelBoolean resources result (byteOf (left.boolean == 0))
  | .logicalAndBoolean => kernelBoolean resources result (left.boolean &&& right.boolean)
  | .logicalOrBoolean => kernelBoolean resources result (left.boolean ||| right.boolean)
  | .notEqualsBoolean => kernelBoolean resources result (byteOf (left.boolean != right.boolean))
  | .notEqualsInteger => kernelBoolean resources result (byteOf (left.integer != right.integer))
  | .notEqualsDouble => kernelBoolean resources result
      (byteOf (!bennuDoubleEqual left.doublePrecision right.doublePrecision))
  | .oddInteger => do kernelBoolean resources result (byteOf ((← remainder left.integer 2) != 0))
  | .evenInteger => do kernelBoolean resources result (byteOf ((← remainder left.integer 2) == 0))
  | .isPositiveInteger => kernelBoolean resources result (byteOf (0 < left.integer))
  | .isPositiveDouble =>
    kernelBoolean resources result (byteOf (bennuDoubleIsPositive left.doublePrecision))
  | .isNegativeInteger => kernelBoolean resources result (byteOf (left.integer < 0))
  | .isNegativeDouble =>
    kernelBoolean resources result (byteOf (bennuDoubleIsNegative left.doublePrecision))
  | .lessThanInteger => kernelBoolean resources result (byteOf (left.integer < right.integer))
  | .lessThanDouble => kernelBoolean resources result
      (byteOf (bennuDoubleLessThan left.doublePrecision right.doublePrecision))
  | .greaterThanInteger => kernelBoolean resources result (byteOf (right.integer < left.integer))
  | .greaterThanDouble => kernelBoolean resources result
      (byteOf (bennuDoubleLessThan right.doublePrecision left.doublePrecision))
  | .decInteger => kernelInteger resources result (unlessLeast (minus left.integer 1))
  | .decDouble => kernelDouble resources result
      (bennuDoubleArithmetic platform left.doublePrecision 0x3ff0000000000000 .subtract)
  | .negInteger => kernelInteger resources result (unlessLeast (negated left.integer))
  | .negDouble => kernelDouble resources result
      (normalizeDouble (left.doublePrecision ^^^ 0x8000000000000000))
  | .absInteger => kernelInteger resources result
      (unlessLeast (if left.integer < 0 then negated left.integer else some left.integer))
  | .absDouble => kernelDouble resources result
      (normalizeDouble (left.doublePrecision &&& 0x7fffffffffffffff))
  | .subInteger => kernelInteger resources result (bennuSubInt left.integer right.integer)
  | .subDouble => kernelDouble resources result
      (bennuDoubleArithmetic platform left.doublePrecision right.doublePrecision .subtract)
  | .mulInteger => kernelInteger resources result (bennuMulInt left.integer right.integer)
  | .mulDouble => kernelDouble resources result
      (bennuDoubleArithmetic platform left.doublePrecision right.doublePrecision .multiply)
  | .none => kernelFails resources result .internal
  | .iotaInteger => kernelFails resources result .internal

/-- An operand as the C runtime holds it. -/
def runtimeScalar (value : ScalarValue) : BennuScalar :=
  ⟨value.type,byteOf value.boolean,value.integer,value.doublePrecision⟩

/-- An outcome as the C runtime reports it. -/
def runtimeOutcome (resources : BennuResources) (implementation : PrimitiveImplementation) :
    KernelOutcome → BennuResources × BennuScalar × Bool
  | .value scalar => (resources,runtimeScalar scalar,true)
  | .overflow => (resources.setFailure .domain,⟨bennuResultType implementation,0,0,0⟩,false)
  | .invalid => (resources.setFailure .internal,⟨bennuResultType implementation,0,0,0⟩,false)

/-- The implementations of one operand do not read a second one. -/
def PrimitiveImplementation.binary : PrimitiveImplementation → Bool
  | .addInteger | .addDouble | .equalsBoolean | .equalsInteger | .equalsDouble | .logicalAndBoolean
  | .logicalOrBoolean | .notEqualsBoolean | .notEqualsInteger | .notEqualsDouble | .lessThanInteger
  | .lessThanDouble | .greaterThanInteger | .greaterThanDouble | .subInteger | .subDouble
  | .mulInteger | .mulDouble => true
  | _ => false

theorem normalizeDouble_idem (bits : Binary64) : normalizeDouble (normalizeDouble bits) = normalizeDouble bits := by
  by_cases nan : isNanBits bits = true
  · rw [normalizeDouble,normalizeDouble,if_pos nan]
    rfl
  · rw [normalizeDouble,normalizeDouble,if_neg nan,if_neg nan]

theorem bennuDoubleArithmetic_eq (platform : KernelPlatform) (left right : Binary64)
    (operation : StrictBinary64Operation) :
    bennuDoubleArithmetic platform left right operation =
      strictBinary64Arithmetic platform left right operation := by
  unfold bennuDoubleArithmetic strictBinary64Arithmetic
  by_cases nan : (isNanBits left || isNanBits right) = true
  · have nan' : (bennuDoubleIsNan left || bennuDoubleIsNan right) = true := nan
    simp only [nan,nan',Bool.true_or,if_true]
    rfl
  · have nan' : (bennuDoubleIsNan left || bennuDoubleIsNan right) = false := Bool.eq_false_iff.mpr nan
    simp only [nan,nan',Bool.false_or,Bool.false_eq_true,if_false]
    rfl

theorem strictBinary64Arithmetic_normalized (platform : KernelPlatform) (left right : Binary64)
    (operation : StrictBinary64Operation) :
    normalizeDouble (strictBinary64Arithmetic platform left right operation) =
      strictBinary64Arithmetic platform left right operation := by
  unfold strictBinary64Arithmetic
  split
  · rfl
  · dsimp only
    split
    · rfl
    · exact normalizeDouble_idem _

/-- Adding one overflows at the greatest integer only. -/
theorem bennuAddInt_one (operand : Int64) : bennuAddInt operand 1 = do
    if ← some (operand == .maxValue) then return none
    return some (← plus operand 1) := by
  have bound : minus .maxValue 1 = some (.maxValue - 1) := by decide
  have past : decide (Int64.maxValue - 1 < operand) = (operand == .maxValue) := by
    rw [Bool.eq_iff_iff,decide_eq_true_iff,beq_iff_eq,Int64.lt_iff_toInt_lt,← Int64.toInt_inj]
    have least : (Int64.maxValue - 1).toInt = 2 ^ 63 - 2 := rfl
    have greatest : Int64.maxValue.toInt = 2 ^ 63 - 1 := rfl
    have range := operand.toInt_lt
    omega
  rw [bennuAddInt,andAlso_true (by decide),andAlso_false (by decide),bound]
  change (do if ← orElse (some (decide (Int64.maxValue - 1 < operand))) (some false) then _ else _) = _
  rw [past]
  cases operand == .maxValue <;> rfl

section Agreement

variable {resources : BennuResources} {implementation : PrimitiveImplementation}

theorem kernelInteger_agrees (type : bennuResultType implementation = .integer)
    {overflows : Option Bool} {result : Option Int64} {guarded' : Option (Option Int64)}
    (same : guarded' = do if ← overflows then return none else return some (← result)) :
    kernelInteger resources ⟨bennuResultType implementation,0,0,0⟩ guarded' =
      (guarded overflows result).map (runtimeOutcome resources implementation) := by
  subst same
  cases overflows with
  | none => rfl
  | some overflow =>
    cases overflow
    · cases result with
      | none => rfl
      | some value =>
        change some _ = some _
        simp [type,runtimeOutcome,runtimeScalar,makeIntValue,byteOf]
    · rfl

theorem kernelBoolean_agrees (type : bennuResultType implementation = .boolean) {byte : UInt8}
    {value : Bool} (same : byte = byteOf value) :
    kernelBoolean resources ⟨bennuResultType implementation,0,0,0⟩ byte =
      (truth value).map (runtimeOutcome resources implementation) := by
  simp [type,same,kernelBoolean,truth,runtimeOutcome,runtimeScalar,makeBoolValue]

theorem kernelDouble_agrees (type : bennuResultType implementation = .doublePrecision)
    {value result : Binary64} (same : value = normalizeDouble result) :
    kernelDouble resources ⟨bennuResultType implementation,0,0,0⟩ value =
      (double result).map (runtimeOutcome resources implementation) := by
  simp [type,same,kernelDouble,double,runtimeOutcome,runtimeScalar,makeDoubleValue,byteOf]

/-- Every kernel of the C runtime does what the evaluator's does. -/
theorem bennuKernel_agrees (platform : KernelPlatform) (resources : BennuResources)
    (implementation : PrimitiveImplementation) (first second : ScalarValue) (right : BennuScalar)
    (reads : implementation.binary = true → right = runtimeScalar second) :
    bennuKernel platform resources implementation (runtimeScalar first) right =
      (kernelOutcome platform implementation first second).map (runtimeOutcome resources implementation) := by
  have arithmetic (left right : Binary64) (operation : StrictBinary64Operation) :
      bennuDoubleArithmetic platform left right operation =
        normalizeDouble (strictBinary64Arithmetic platform left right operation) := by
    rw [strictBinary64Arithmetic_normalized,bennuDoubleArithmetic_eq]
  have bytes (left right : Bool) : (byteOf left == byteOf right) = (left == right) := by
    cases left <;> cases right <;> rfl
  cases implementation
  case none => rfl
  case iotaInteger => rfl
  case incInteger => exact kernelInteger_agrees rfl (bennuAddInt_one _)
  case decInteger => exact kernelInteger_agrees rfl rfl
  case negInteger => exact kernelInteger_agrees rfl rfl
  case absInteger => exact kernelInteger_agrees rfl rfl
  case oddInteger =>
    change (do kernelBoolean _ _ (byteOf ((← remainder first.integer 2) != 0))) =
      Option.map _ (do truth ((← remainder first.integer 2) != 0))
    cases remainder first.integer 2 with
    | none => rfl
    | some rest => exact @kernelBoolean_agrees resources .oddInteger rfl _ _ rfl
  case evenInteger =>
    change (do kernelBoolean _ _ (byteOf ((← remainder first.integer 2) == 0))) =
      Option.map _ (do truth ((← remainder first.integer 2) == 0))
    cases remainder first.integer 2 with
    | none => rfl
    | some rest => exact @kernelBoolean_agrees resources .evenInteger rfl _ _ rfl
  case incDouble => exact kernelDouble_agrees rfl (arithmetic ..)
  case decDouble => exact kernelDouble_agrees rfl (arithmetic ..)
  case negDouble => exact kernelDouble_agrees rfl rfl
  case absDouble => exact kernelDouble_agrees rfl rfl
  case logicalNotBoolean =>
    have same : (byteOf first.boolean == 0) = !first.boolean := by cases first.boolean <;> rfl
    exact kernelBoolean_agrees rfl (congrArg byteOf same)
  case isPositiveInteger => exact kernelBoolean_agrees rfl rfl
  case isPositiveDouble => exact kernelBoolean_agrees rfl rfl
  case isNegativeInteger => exact kernelBoolean_agrees rfl rfl
  case isNegativeDouble => exact kernelBoolean_agrees rfl rfl
  all_goals rw [reads rfl]
  case addInteger => exact kernelInteger_agrees rfl rfl
  case subInteger => exact kernelInteger_agrees rfl rfl
  case mulInteger => exact kernelInteger_agrees rfl rfl
  case addDouble => exact kernelDouble_agrees rfl (arithmetic ..)
  case subDouble => exact kernelDouble_agrees rfl (arithmetic ..)
  case mulDouble => exact kernelDouble_agrees rfl (arithmetic ..)
  case equalsBoolean => exact kernelBoolean_agrees rfl (congrArg byteOf (bytes _ _))
  case notEqualsBoolean =>
    have same : (byteOf first.boolean != byteOf second.boolean) = (first.boolean != second.boolean) :=
      congrArg not (bytes _ _)
    exact kernelBoolean_agrees rfl (congrArg byteOf same)
  case logicalAndBoolean =>
    have same : byteOf first.boolean &&& byteOf second.boolean = byteOf (first.boolean && second.boolean) := by
      cases first.boolean <;> cases second.boolean <;> rfl
    exact kernelBoolean_agrees rfl same
  case logicalOrBoolean =>
    have same : byteOf first.boolean ||| byteOf second.boolean = byteOf (first.boolean || second.boolean) := by
      cases first.boolean <;> cases second.boolean <;> rfl
    exact kernelBoolean_agrees rfl same
  all_goals exact kernelBoolean_agrees rfl rfl

end Agreement

end Bennu
