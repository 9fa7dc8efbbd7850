import Bennu.RuntimeKernel
import Mathlib.Algebra.Group.Int.Even

/-! Integer kernels compute the mathematical result or report that it does not fit. The
guards of the source are exact and everything they evaluate is defined. -/
namespace Bennu

open CheckedInteger

theorem toInt_maxValue : Int64.maxValue.toInt = 2 ^ 63 - 1 := rfl

theorem toInt_minValue : Int64.minValue.toInt = -2 ^ 63 := rfl

section Guards

variable (left right : Int64)

theorem addOverflows_eq : addOverflows left right = some (decide ¬Fits (left.toInt + right.toInt)) := by
  have range := fits_toInt left
  have range' := fits_toInt right
  have positive : 0 < right ↔ 0 < right.toInt := Int64.lt_iff_toInt_lt
  have negative : right < 0 ↔ right.toInt < 0 := Int64.lt_iff_toInt_lt
  have above : andAlso (0 < right) (do return (← minus .maxValue right) < left) =
      some (decide (0 < right) && decide (Int64.maxValue.toInt - right.toInt < left.toInt)) := by
    refine andAlso_eq fun more => result_lt (word_of_fits ?_) left
    have more := positive.mp (of_decide_eq_true more)
    simp only [Fits,toInt_maxValue] at *
    omega
  have under : andAlso (right < 0) (do return left < (← minus .minValue right)) =
      some (decide (right < 0) && decide (left.toInt < Int64.minValue.toInt - right.toInt)) := by
    refine andAlso_eq fun less => lt_result (word_of_fits ?_) left
    have less := negative.mp (of_decide_eq_true less)
    simp only [Fits,toInt_minValue] at *
    omega
  rw [addOverflows,above,under,orElse_some,Option.some.injEq,Bool.eq_iff_iff]
  simp only [Bool.or_eq_true,Bool.and_eq_true,decide_eq_true_iff,positive,negative]
  simp only [Fits,toInt_maxValue,toInt_minValue] at *
  omega

theorem subOverflows_eq : subOverflows left right = some (decide ¬Fits (left.toInt - right.toInt)) := by
  have range := fits_toInt left
  have range' := fits_toInt right
  have positive : 0 < right ↔ 0 < right.toInt := Int64.lt_iff_toInt_lt
  have negative : right < 0 ↔ right.toInt < 0 := Int64.lt_iff_toInt_lt
  have under : andAlso (0 < right) (do return left < (← plus .minValue right)) =
      some (decide (0 < right) && decide (left.toInt < Int64.minValue.toInt + right.toInt)) := by
    refine andAlso_eq fun more => lt_result (word_of_fits ?_) left
    have more := positive.mp (of_decide_eq_true more)
    simp only [Fits,toInt_minValue] at *
    omega
  have above : andAlso (right < 0) (do return (← plus .maxValue right) < left) =
      some (decide (right < 0) && decide (Int64.maxValue.toInt + right.toInt < left.toInt)) := by
    refine andAlso_eq fun less => result_lt (word_of_fits ?_) left
    have less := negative.mp (of_decide_eq_true less)
    simp only [Fits,toInt_maxValue] at *
    omega
  rw [subOverflows,under,above,orElse_some,Option.some.injEq,Bool.eq_iff_iff]
  simp only [Bool.or_eq_true,Bool.and_eq_true,decide_eq_true_iff,positive,negative]
  simp only [Fits,toInt_maxValue,toInt_minValue] at *
  omega

/-- Each combination of signs compares a factor with the quotient of the bound that the
product could cross. -/
theorem mulOverflows_eq : mulOverflows left right = some (decide ¬Fits (left.toInt * right.toInt)) := by
  have positive (w : Int64) : 0 < w ↔ 0 < w.toInt := Int64.lt_iff_toInt_lt
  have negative (w : Int64) : w < 0 ↔ w.toInt < 0 := Int64.lt_iff_toInt_lt
  have greatest {w : Int64} (nonzero : w.toInt ≠ 0) :
      ∃ bound, quotient .maxValue w = some bound ∧ bound.toInt = (2 ^ 63 - 1 : Int).tdiv w.toInt :=
    quotient_defined nonzero fun least => absurd least (by decide)
  have least {w : Int64} (more : 0 < w.toInt) :
      ∃ bound, quotient .minValue w = some bound ∧ bound.toInt = (-2 ^ 63 : Int).tdiv w.toInt :=
    quotient_defined more.ne' fun _ => by omega
  have range := fits_toInt left
  have range' := fits_toInt right
  unfold mulOverflows
  by_cases above : 0 < left
  · have above' := (positive left).mp above
    rw [if_pos above]
    by_cases beyond : 0 < right
    · have beyond' := (positive right).mp beyond
      rw [if_pos beyond,result_lt (greatest beyond'.ne') left]
      rw [Option.some.injEq,decide_eq_decide,tdiv_lt_iff (by norm_num) beyond',Fits]
      have product : 0 < left.toInt * right.toInt := mul_pos above' beyond'
      omega
    · have beyond' := mt (positive right).mpr beyond
      rw [if_neg beyond,lt_result (least above') right]
      rw [Option.some.injEq,decide_eq_decide,lt_neg_tdiv_iff (by norm_num) above',mul_comm,Fits]
      have product : left.toInt * right.toInt ≤ 0 := mul_nonpos_of_nonneg_of_nonpos above'.le (not_lt.mp beyond')
      omega
  · have above' := mt (positive left).mpr above
    rw [if_neg above]
    by_cases below : left < 0
    · have below' := (negative left).mp below
      rw [if_pos below]
      by_cases beyond : 0 < right
      · have beyond' := (positive right).mp beyond
        rw [if_pos beyond,lt_result (least beyond') left]
        rw [Option.some.injEq,decide_eq_decide,lt_neg_tdiv_iff (by norm_num) beyond',Fits]
        have product : left.toInt * right.toInt < 0 := mul_neg_of_neg_of_pos below' beyond'
        omega
      · have beyond' := mt (positive right).mpr beyond
        rw [if_neg beyond]
        have guard : andAlso (right < 0) (do return right < (← quotient .maxValue left)) =
            some (decide (right < 0) && decide (right.toInt < (2 ^ 63 - 1 : Int).tdiv left.toInt)) :=
          andAlso_eq fun _ => lt_result (greatest below'.ne) right
        rw [guard,Option.some.injEq,Bool.eq_iff_iff]
        simp only [Bool.and_eq_true,decide_eq_true_iff,negative]
        rw [lt_tdiv_neg_iff (by norm_num) below',mul_comm,Fits]
        have product : 0 ≤ left.toInt * right.toInt := mul_nonneg_of_nonpos_of_nonpos below'.le (not_lt.mp beyond')
        have nonzero : 2 ^ 63 - 1 < left.toInt * right.toInt → right.toInt ≠ 0 := by
          intro large zero
          rw [zero,mul_zero] at large
          omega
        omega
    · have below' := mt (negative left).mpr below
      have zero : left.toInt = 0 := by omega
      rw [if_neg below,zero,zero_mul]
      rfl

/-- Adding one overflows at the greatest integer only. -/
theorem greatest_iff : (left == .maxValue) = decide ¬Fits (left.toInt + 1) := by
  have range := fits_toInt left
  rw [Bool.eq_iff_iff,beq_iff_eq,decide_eq_true_iff,← Int64.toInt_inj]
  simp only [Fits,toInt_maxValue] at *
  omega

/-- Decrementing, negating and taking the absolute value overflow at the least integer only. -/
theorem least_iff : (left == .minValue) = decide (left.toInt = -2 ^ 63) := by
  rw [Bool.eq_iff_iff,beq_iff_eq,decide_eq_true_iff,← Int64.toInt_inj,toInt_minValue]

end Guards

/-- What an integer kernel is to compute, over the integers. -/
inductive IntegerMeaning where
  | number (n : Int)
  | truth (b : Bool)
  deriving DecidableEq, Repr

/-- The mathematical function of an integer implementation; one operand is read where
the implementation has one. -/
def integerMeaning (left right : Int) : PrimitiveImplementation → Option IntegerMeaning
  | .incInteger => some (.number (left + 1))
  | .decInteger => some (.number (left - 1))
  | .addInteger => some (.number (left + right))
  | .subInteger => some (.number (left - right))
  | .mulInteger => some (.number (left * right))
  | .negInteger => some (.number (-left))
  | .absInteger => some (.number |left|)
  | .oddInteger => some (.truth (decide (Odd left)))
  | .evenInteger => some (.truth (decide (Even left)))
  | _ => none

namespace IntegerMeaning

/-- A number is representable in the range of the integers, a truth value always. -/
def Representable : IntegerMeaning → Prop
  | number n => Fits n
  | truth _ => True

/-- The scalar is exactly what was meant. -/
def IsValue (scalar : ScalarValue) : IntegerMeaning → Prop
  | number n => scalar.type = .integer ∧ scalar.integer.toInt = n
  | truth b => scalar.type = .boolean ∧ scalar.boolean = b

instance : (meaning : IntegerMeaning) → Decidable meaning.Representable
  | number n => inferInstanceAs (Decidable (Fits n))
  | truth _ => inferInstanceAs (Decidable True)

end IntegerMeaning

/-- An outcome is exact: the value when there is one, else the overflow. -/
def KernelOutcome.Exact (meaning : IntegerMeaning) (outcome : KernelOutcome) : Prop :=
  (meaning.Representable ∧ ∃ scalar, outcome = .value scalar ∧ meaning.IsValue scalar) ∨
    (¬meaning.Representable ∧ outcome = .overflow)

theorem guarded_exact {overflows : Option Bool} {result : Option Int64} {n : Int}
    (guards : overflows = some (decide ¬Fits n)) (computed : Fits n → result = word n) :
    ∃ outcome, guarded overflows result = some outcome ∧ outcome.Exact (.number n) := by
  subst guards
  by_cases fits : Fits n
  · obtain ⟨w,given,value⟩ := word_of_fits fits
    refine ⟨.value (makeIntValue w).scalar,?_,.inl ⟨fits,_,rfl,rfl,value⟩⟩
    rw [computed fits,given]
    simp [guarded,fits]
  · refine ⟨.overflow,?_,.inr ⟨fits,rfl⟩⟩
    simp [guarded,fits]

/-- The remainder by two is defined and zero exactly for the even integers. -/
theorem remainder_two (operand : Int64) :
    ∃ rest, remainder operand 2 = some rest ∧ (rest == 0) = decide (Even operand.toInt) := by
  have two : (2 : Int64).toInt = 2 := rfl
  obtain ⟨whole,divided,-⟩ := @quotient_defined operand 2 (by rw [two]; norm_num)
    (fun _ => by rw [two]; norm_num)
  have size : (operand.toInt.tmod 2).natAbs = operand.toInt.natAbs % 2 := Int.natAbs_tmod ..
  have small : Fits (operand.toInt.tmod 2) := by
    constructor <;> omega
  obtain ⟨rest,given,value⟩ := word_of_fits small
  refine ⟨rest,?_,?_⟩
  · rw [remainder,divided,two]
    exact given
  · have zero : (0 : Int64).toInt = 0 := rfl
    rw [Bool.eq_iff_iff,beq_iff_eq,decide_eq_true_iff,← Int64.toInt_inj,value,zero,Int.even_iff]
    omega

/-- Each integer implementation is defined on all operands and exact. -/
theorem kernelOutcome_exact (platform : KernelPlatform) {implementation : PrimitiveImplementation}
    {first second : ScalarValue} {meaning : IntegerMeaning}
    (means : integerMeaning first.integer.toInt second.integer.toInt implementation = some meaning) :
    ∃ outcome, kernelOutcome platform implementation first second = some outcome ∧
      outcome.Exact meaning := by
  cases implementation <;> simp only [integerMeaning,Option.some.injEq,reduceCtorEq] at means <;>
    subst means
  case incInteger => exact guarded_exact (congrArg some (greatest_iff _)) fun _ => rfl
  case addInteger => exact guarded_exact (addOverflows_eq ..) fun _ => rfl
  case subInteger => exact guarded_exact (subOverflows_eq ..) fun _ => rfl
  case mulInteger => exact guarded_exact (mulOverflows_eq ..) fun _ => rfl
  case decInteger =>
    obtain ⟨low,high⟩ := fits_toInt first.integer
    refine guarded_exact (congrArg some ((least_iff _).trans (decide_eq_decide.mpr ?_))) fun _ => rfl
    simp only [Fits]
    omega
  case negInteger =>
    obtain ⟨low,high⟩ := fits_toInt first.integer
    refine guarded_exact (congrArg some ((least_iff _).trans (decide_eq_decide.mpr ?_))) fun _ => rfl
    simp only [Fits]
    omega
  case absInteger =>
    obtain ⟨low,high⟩ := fits_toInt first.integer
    refine guarded_exact (congrArg some ((least_iff _).trans (decide_eq_decide.mpr ?_))) fun _ => ?_
    · simp only [Fits,abs_eq_max_neg]
      omega
    · have negative : first.integer < 0 ↔ first.integer.toInt < 0 := Int64.lt_iff_toInt_lt
      rw [absInteger]
      by_cases less : first.integer < 0
      · rw [if_pos less,abs_of_neg (negative.mp less)]
        rfl
      · rw [if_neg less,abs_of_nonneg (not_lt.mp (mt negative.mpr less))]
        exact (word_eq_some_iff.mpr rfl).symm
  case oddInteger =>
    obtain ⟨rest,given,even⟩ := remainder_two first.integer
    refine ⟨.value (makeBoolValue (rest != 0)).scalar,?_,.inl ⟨trivial,_,rfl,rfl,?_⟩⟩
    · simp only [kernelOutcome,given]
      rfl
    · change (!(rest == 0)) = _
      rw [even,← decide_not,decide_eq_decide]
      exact Int.not_even_iff_odd
  case evenInteger =>
    obtain ⟨rest,given,even⟩ := remainder_two first.integer
    refine ⟨.value (makeBoolValue (rest == 0)).scalar,?_,.inl ⟨trivial,_,rfl,rfl,even⟩⟩
    simp only [kernelOutcome,given]
    rfl

/-- A signature that its implementation fits has the implementation's arity. -/
theorem implementationMatches_arity {id : PrimitiveId} {signature : PrimitiveSignature}
    (fits : implementationMatches id signature = true) :
    signature.parameters.length = if signature.implementation.binary then 2 else 1 := by
  obtain ⟨parameters,result,implementation⟩ := signature
  have counted {expected : List ScalarType} {type : ScalarType}
      (same : scalarParametersMatch ⟨parameters,result,implementation⟩ expected type = true) :
      parameters.length = expected.length := by
    simp only [scalarParametersMatch,Bool.and_eq_true,beq_iff_eq] at same
    rw [same.1,List.length_map]
  cases implementation <;> simp only [implementationMatches,Bool.and_eq_true] at fits <;>
    first
      | exact counted fits.2
      | (simp only [beq_iff_eq] at fits; rw [fits.1.2]; rfl)
      | cases fits

/-- The result of an accepted invocation. -/
def kernelResult (platform : KernelPlatform) (descriptor : PrimitiveDescriptor)
    (signature : PrimitiveSignature) (operands : List ScalarValue) (location : RewritePosition) :
    KernelOutcome → ScalarKernelResult
  | .value scalar => successfulKernel scalar
  | .overflow => integerOverflow platform descriptor signature operands location
  | .invalid => invalidKernelInvocation

theorem invokeScalarKernel_accepted {platform : KernelPlatform} {descriptor : PrimitiveDescriptor}
    {reference : SignatureReference} {signature : PrimitiveSignature} {operands : List ScalarValue}
    {location : RewritePosition} (refers : reference.signature descriptor = some signature)
    (accepted : invocationAccepted descriptor reference signature operands = true) :
    invokeScalarKernel platform descriptor reference operands location =
      (kernelOutcome platform signature.implementation (operands.getD 0 emptyScalar)
        (operands.getD 1 emptyScalar)).map
          (kernelResult platform descriptor signature operands location) := by
  simp only [invokeScalarKernel,refers,Option.bind_eq_bind,Option.bind_some,accepted,Bool.not_true,
    Bool.false_eq_true,if_false]
  cases kernelOutcome platform signature.implementation (operands.getD 0 emptyScalar)
      (operands.getD 1 emptyScalar) with
  | none => rfl
  | some outcome => cases outcome <;> rfl

/-- An accepted invocation of an integer implementation is defined and succeeds exactly
when the mathematical result is representable, with that result; the C kernel gives the same
scalar or reports a failure of the domain. -/
theorem integerKernel_exact (platform : KernelPlatform) (descriptor : PrimitiveDescriptor)
    (reference : SignatureReference) (operands : List ScalarValue) (location : RewritePosition)
    (resources : BennuResources) (right : BennuScalar) {signature : PrimitiveSignature}
    (refers : reference.signature descriptor = some signature)
    (accepted : invocationAccepted descriptor reference signature operands = true)
    {meaning : IntegerMeaning}
    (means : integerMeaning (operands.getD 0 emptyScalar).integer.toInt
      (operands.getD 1 emptyScalar).integer.toInt signature.implementation = some meaning)
    (passes : ∀ second, operands[1]? = some second → right = runtimeScalar second) :
    ∃ result, invokeScalarKernel platform descriptor reference operands location = some result ∧
      (result.status = .success ↔ meaning.Representable) ∧
      (meaning.Representable → meaning.IsValue result.value) ∧
      (¬meaning.Representable →
        result = integerOverflow platform descriptor signature operands location) ∧
      bennuKernel platform resources signature.implementation
          (runtimeScalar (operands.getD 0 emptyScalar)) right =
        some (if meaning.Representable then (resources,runtimeScalar result.value,true)
          else (resources.setFailure .domain,⟨bennuResultType signature.implementation,0,0,0⟩,false)) := by
  obtain ⟨outcome,computed,exactly⟩ := kernelOutcome_exact platform means
  have runtime := bennuKernel_agrees platform resources signature.implementation
    (operands.getD 0 emptyScalar) (operands.getD 1 emptyScalar) right (by
      intro binary
      simp only [invocationAccepted,Bool.and_eq_true,beq_iff_eq] at accepted
      have arity := implementationMatches_arity accepted.1.1.1.2
      rw [if_pos binary] at arity
      have inside : 1 < operands.length := by omega
      apply passes
      rw [List.getD_eq_getElem?_getD,List.getElem?_eq_getElem inside]
      rfl)
  rw [computed] at runtime
  refine ⟨_,(invokeScalarKernel_accepted refers accepted).trans (by rw [computed]; rfl),?_⟩
  rcases exactly with ⟨fits,scalar,rfl,value⟩ | ⟨beyond,rfl⟩
  · exact ⟨iff_of_true rfl fits,fun _ => value,absurd fits,by rw [if_pos fits]; exact runtime⟩
  · exact ⟨iff_of_false (fun success => by cases success) beyond,fun fits => absurd fits beyond,fun _ => rfl,
      by rw [if_neg beyond]; exact runtime⟩

/-- The product of the least integer and minus one is refused on both sides. -/
theorem integerKernel_exact_extremes :
    ∃ result, invokeScalarKernel ⟨fun _ left _ => left,fun _ => true⟩
        ⟨.mul,"mul".toList,.elementwise,mulSignatures⟩ (.member 0)
        [(makeIntValue .minValue).scalar,(makeIntValue (-1)).scalar] ⟨4,1,5⟩ = some result ∧
      result.status = .domainError := by
  obtain ⟨result,invoked,-,-,refused,-⟩ := integerKernel_exact ⟨fun _ left _ => left,fun _ => true⟩
    ⟨.mul,"mul".toList,.elementwise,mulSignatures⟩ (.member 0)
    [(makeIntValue .minValue).scalar,(makeIntValue (-1)).scalar] ⟨4,1,5⟩ ⟨.none⟩
    (runtimeScalar (makeIntValue (-1)).scalar) rfl (by decide) rfl (by
      rintro second given
      cases given
      rfl)
  exact ⟨result,invoked,congrArg ScalarKernelResult.status (refused (by decide))⟩

end Bennu
