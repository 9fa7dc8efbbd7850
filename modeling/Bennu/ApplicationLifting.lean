import Bennu.Application
import Bennu.ArenaValidity
import Bennu.KernelExactness
import Bennu.ResourceLimits
import Bennu.ResourceSession

/-! What lifting computes: element by element what the kernel makes of the arguments' elements, up to
the first element that it refuses. -/
namespace Bennu

/-! ### Scalars and stores -/

/-- The fields that a scalar's type does not use are zero. -/
def Singular (scalar : ScalarValue) : Prop :=
  match scalar.type with
  | .boolean => scalar.integer = 0 ∧ scalar.doublePrecision = 0
  | .integer => scalar.boolean = false ∧ scalar.doublePrecision = 0
  | .doublePrecision => scalar.boolean = false ∧ scalar.integer = 0

/-- A value that is a vector of a type, with as many elements as it counts. -/
structure Sized (type : ScalarType) (length : Nat) (value : Value) : Prop where
  container : value.container = .vector
  elementType : value.vector.elementType = type
  active : value.vector.activeLength = length
  elements : (match type with
    | .boolean => (value.vector.booleans.elim [] (·.elements)).length
    | .integer => (value.vector.integers.elim [] (·.elements)).length
    | .doublePrecision => (value.vector.doubles.elim [] (·.elements)).length) = length

theorem write_elements {α : Type} (buffer : Option (HostBuffer α)) (index : Nat) (element : α) :
    (buffer.map (·.write index element)).elim [] (·.elements) = (buffer.elim [] (·.elements)).set index element := by
  cases buffer <;> rfl

/-- A scalar that is stored is read back; the other elements stay. -/
theorem storeScalar_reads {scalar : ScalarValue} {length index : Nat} {value : Value}
    (sized : Sized scalar.type length value) (settled : Singular scalar) (inside : index < length) :
    ∃ stored, storeScalar value index scalar = some stored ∧ Sized scalar.type length stored ∧
      ∀ position, projectValidatedScalar ⟨stored,none⟩ position =
        if position = index then scalar else projectValidatedScalar ⟨value,none⟩ position := by
  obtain ⟨container,elementType,active,elements⟩ := sized
  obtain ⟨type,boolean,integer,double⟩ := scalar
  rw [storeScalar,if_neg (by simp [container,elementType])]
  refine ⟨_,rfl,?_,?_⟩
  · cases type
    all_goals
      simp only at elementType elements ⊢
      refine ⟨container,elementType,?_,?_⟩
      · simpa only [VectorValue.activeLength,elementType] using active
      · simpa only [write_elements,List.length_set] using elements
  · intro position
    cases type
    case boolean =>
      obtain ⟨rfl,rfl⟩ := settled
      simp only at elementType elements
      simp only [projectValidatedScalar,typedArgumentContainer,typedArgumentVector,container,elementType,write_elements]
      rw [getD_set]
      by_cases same : position = index
      · subst same
        cases boolean <;> simp [elements,inside]
      · simp [same,Ne.symm same]
    case integer =>
      obtain ⟨rfl,rfl⟩ := settled
      simp only at elementType elements
      simp only [projectValidatedScalar,typedArgumentContainer,typedArgumentVector,container,elementType,write_elements]
      rw [getD_set]
      by_cases same : position = index
      · subst same
        simp [elements,inside]
      · simp [same,Ne.symm same]
    case doublePrecision =>
      obtain ⟨rfl,rfl⟩ := settled
      simp only at elementType elements
      simp only [projectValidatedScalar,typedArgumentContainer,typedArgumentVector,container,elementType,write_elements]
      rw [getD_set]
      by_cases same : position = index
      · subst same
        simp [elements,inside]
      · simp [same,Ne.symm same]

/-! ### Kernels -/

theorem truth_singular {value : Bool} {scalar : ScalarValue} (ends : truth value = some (.value scalar)) :
    Singular scalar ∧ scalar.type = .boolean := by
  cases ends
  exact ⟨⟨rfl,rfl⟩,rfl⟩

theorem double_singular {value : Binary64} {scalar : ScalarValue} (ends : double value = some (.value scalar)) :
    Singular scalar ∧ scalar.type = .doublePrecision := by
  cases ends
  exact ⟨⟨rfl,rfl⟩,rfl⟩

theorem guarded_singular {overflows : Option Bool} {result : Option Int64} {scalar : ScalarValue}
    (ends : guarded overflows result = some (.value scalar)) : Singular scalar ∧ scalar.type = .integer := by
  rw [guarded] at ends
  obtain ⟨refused,-,ends⟩ := Option.bind_eq_some_iff.mp ends
  cases refused with
  | true => cases ends
  | false =>
    obtain ⟨value,-,ends⟩ := Option.bind_eq_some_iff.mp ends
    cases ends
    exact ⟨⟨rfl,rfl⟩,rfl⟩

theorem singular_result {signature : PrimitiveSignature} {parameters : List ScalarType} {result : ScalarType}
    {scalar : ScalarValue} (settled : Singular scalar ∧ scalar.type = result)
    (matches' : scalarParametersMatch signature parameters result = true) :
    Singular scalar ∧ scalar.type = signature.result.element := by
  rw [scalarParametersMatch,Bool.and_eq_true,beq_iff_eq,beq_iff_eq] at matches'
  rw [matches'.2]
  exact settled

/-- A kernel's value has the type of its signature's result. -/
theorem kernelOutcome_singular {platform : KernelPlatform} {id : PrimitiveId} {signature : PrimitiveSignature}
    {first second scalar : ScalarValue} (matches' : implementationMatches id signature = true)
    (ends : kernelOutcome platform signature.implementation first second = some (.value scalar)) :
    Singular scalar ∧ scalar.type = signature.result.element := by
  rw [implementationMatches] at matches'
  cases same : signature.implementation <;> rw [same] at ends <;> simp only [same,Bool.and_eq_true] at matches' <;>
    simp only [kernelOutcome] at ends
  all_goals first
    | exact singular_result (truth_singular ends) matches'.2
    | exact singular_result (double_singular ends) matches'.2
    | exact singular_result (guarded_singular ends) matches'.2
    | (obtain ⟨_,-,ends⟩ := Option.bind_eq_some_iff.mp ends
       exact singular_result (truth_singular ends) matches'.2)
    | cases ends

/-- Kernels are defined on all operands. -/
theorem kernelOutcome_defined (platform : KernelPlatform) (implementation : PrimitiveImplementation)
    (first second : ScalarValue) : ∃ outcome, kernelOutcome platform implementation first second = some outcome := by
  cases means : integerMeaning first.integer.toInt second.integer.toInt implementation with
  | some meaning =>
    obtain ⟨outcome,ran,-⟩ := kernelOutcome_exact platform means
    exact ⟨outcome,ran⟩
  | none =>
    cases implementation
    all_goals first
      | exact ⟨_,rfl⟩
      | cases means

section lifting

variable {platform : KernelPlatform} {descriptor : PrimitiveDescriptor} {selected : Nat} {signature : PrimitiveSignature}
  {arguments : List (TypedPrimitiveArgument Value)} {location : RewritePosition} {lifted : Bool} {index length : Nat}
  {value : Value} {scalar : ScalarValue}

theorem invokeScalarKernel_member (here : descriptor.signatures[selected]? = some signature) (operands : List ScalarValue) :
    ∃ kernel, invokeScalarKernel platform descriptor (.member selected) operands location = some kernel ∧
      (kernel.status = .success → Singular kernel.value ∧ kernel.value.type = signature.result.element) := by
  have refers : SignatureReference.signature descriptor (.member selected) = some signature := here
  cases accepted : invocationAccepted descriptor (.member selected) signature operands with
  | false =>
    refine ⟨invalidKernelInvocation,?_,by intro success; cases success⟩
    simp [invokeScalarKernel,refers,accepted]
  | true =>
    obtain ⟨outcome,ran⟩ := kernelOutcome_defined platform signature.implementation (operands.getD 0 emptyScalar)
      (operands.getD 1 emptyScalar)
    refine ⟨_,(invokeScalarKernel_accepted refers accepted).trans (congrArg (Option.map _) ran),?_⟩
    have matches' : implementationMatches descriptor.id signature = true := by
      simp only [invocationAccepted,Bool.and_eq_true] at accepted
      exact accepted.1.1.1.2
    intro success
    cases outcome with
    | value scalar => exact kernelOutcome_singular matches' ran
    | overflow => cases success
    | invalid => cases success

/-- An element comes to a scalar of the signature's result, or to a failure. -/
theorem applyElement_defined (here : descriptor.signatures[selected]? = some signature) (lifted : Bool) (index : Nat) :
    ∃ outcome, applyElement platform descriptor selected signature arguments location lifted index = some outcome ∧
      ∀ scalar, outcome = .ok scalar → Singular scalar ∧ scalar.type = signature.result.element := by
  rw [applyElement]
  cases elementOperands signature arguments index with
  | none => exact ⟨_,rfl,by intro scalar same; cases same⟩
  | some operands =>
    obtain ⟨kernel,ran,settled⟩ := @invokeScalarKernel_member platform _ _ _ location here operands
    dsimp only
    rw [ran]
    refine ⟨_,rfl,?_⟩
    intro scalar same
    dsimp only at same
    split at same
    · rename_i success
      cases same
      exact settled success
    · cases same

/-! ### The loop -/

/-- What the loop over the elements from `index` on ends with: every element, or the failure of the
first that fails. -/
def Pointwise (element : Nat → Option (Except ApplicationFailure ScalarValue)) (type : ScalarType) (length index : Nat)
    (value : Value) : Option (Except (ApplicationFailure × Value) Value) → Prop
  | none => False
  | some (.ok result) => Sized type length result ∧
    (∀ position < index, projectValidatedScalar ⟨result,none⟩ position = projectValidatedScalar ⟨value,none⟩ position) ∧
    ∀ position, index ≤ position → position < length →
      element position = some (.ok (projectValidatedScalar ⟨result,none⟩ position))
  | some (.error (failure,partly)) => Sized type length partly ∧
    ∃ position, index ≤ position ∧ position < length ∧ element position = some (.error failure) ∧
      ∀ earlier, index ≤ earlier → earlier < position → ∃ scalar, element earlier = some (.ok scalar)

theorem applyElements_pointwise (here : descriptor.signatures[selected]? = some signature) (remaining : Nat) :
    ∀ {index value}, index + remaining = length → Sized signature.result.element length value →
      Pointwise (applyElement platform descriptor selected signature arguments location true) signature.result.element
        length index value (applyElements platform descriptor selected signature arguments location remaining index value) := by
  induction remaining with
  | zero =>
    rintro index value rfl sized
    rw [applyElements]
    exact ⟨sized,fun _ _ => rfl,fun position lower upper => absurd upper (Nat.not_lt_of_le lower)⟩
  | succ remaining ih =>
    intro index value whole sized
    obtain ⟨outcome,ran,settled⟩ := @applyElement_defined platform descriptor selected signature arguments location here
      true index
    rw [applyElements,ran,Option.bind_some]
    cases outcome with
    | error failure =>
      exact ⟨sized,index,Nat.le_refl _,by omega,ran,fun earlier lower upper => absurd upper (Nat.not_lt_of_le lower)⟩
    | ok scalar =>
      obtain ⟨clean,type⟩ := settled scalar rfl
      rw [← type] at sized
      have inside : index < length := by omega
      obtain ⟨stored,stores,sized,reads⟩ := storeScalar_reads sized clean inside
      rw [type] at sized
      dsimp only
      rw [stores]
      have later := @ih (index + 1) stored (by omega) sized
      dsimp only
      generalize applyElements platform descriptor selected signature arguments location remaining (index + 1) stored =
        result at later
      match result,later with
      | some (.ok result),⟨sized,before,elements⟩ =>
        refine ⟨sized,fun position lower => ?_,fun position lower upper => ?_⟩
        · rw [before position (by omega),reads,if_neg (by omega)]
        · rcases Nat.eq_or_lt_of_le lower with rfl | lower
          · rw [ran,before index (Nat.lt_succ_self _),reads,if_pos rfl]
          · exact elements position lower upper
      | some (.error (failure,partly)),⟨sized,position,lower,upper,fails,earlier⟩ =>
        refine ⟨sized,position,by omega,upper,fails,fun other least most => ?_⟩
        rcases Nat.eq_or_lt_of_le least with rfl | least
        · exact ⟨scalar,ran⟩
        · exact earlier other least most

/-! ### Arguments of vectors -/

/-- The length of the first vector among the arguments. -/
def vectorLength : List (TypedPrimitiveArgument Value) → Option Nat
  | [] => none
  | argument :: rest =>
    if typedArgumentContainer argument = .vector then some (validatedVectorLength argument) else vectorLength rest

theorem resultLength_known {expected : Nat} : ∀ {arguments : List (TypedPrimitiveArgument Value)} {index : Nat} {found},
    resultLength index (some expected) arguments = .ok found → found = some expected ∧
      ∀ argument ∈ arguments, typedArgumentContainer argument = .vector → validatedVectorLength argument = expected
  | [],_,_,ends => by
    cases ends
    exact ⟨rfl,by intro argument member; cases member⟩
  | argument :: rest,index,found,ends => by
    rw [resultLength] at ends
    split at ends
    · rename_i plain
      obtain ⟨same,each⟩ := resultLength_known ends
      refine ⟨same,fun other member vector => ?_⟩
      rcases List.mem_cons.mp member with rfl | member
      · exact absurd vector plain
      · exact each other member vector
    · split at ends
      · cases ends
      · rename_i equal
        obtain ⟨same,each⟩ := resultLength_known ends
        refine ⟨same,fun other member vector => ?_⟩
        rcases List.mem_cons.mp member with rfl | member
        · exact not_not.mp equal
        · exact each other member vector

/-- The loop over the lengths ends with that of the first vector, which the others have. -/
theorem resultLength_first : ∀ {arguments : List (TypedPrimitiveArgument Value)} {index : Nat} {found},
    resultLength index none arguments = .ok found → found = vectorLength arguments ∧
      ∀ argument ∈ arguments, typedArgumentContainer argument = .vector → some (validatedVectorLength argument) = found
  | [],_,_,ends => by
    cases ends
    exact ⟨rfl,by intro argument member; cases member⟩
  | argument :: rest,index,found,ends => by
    rw [resultLength] at ends
    rw [vectorLength]
    split at ends
    · rename_i plain
      obtain ⟨same,each⟩ := resultLength_first ends
      rw [if_neg plain]
      refine ⟨same,fun other member vector => ?_⟩
      rcases List.mem_cons.mp member with rfl | member
      · exact absurd vector plain
      · exact each other member vector
    · rename_i vector
      obtain ⟨rfl,each⟩ := resultLength_known ends
      rw [if_pos (not_not.mp vector)]
      refine ⟨rfl,fun other member vector => ?_⟩
      rcases List.mem_cons.mp member with rfl | member
      · rfl
      · exact congrArg some (each other member vector)

/-! ### Storage of the result -/

theorem vectorOver_sized (type : ScalarType) (payload count owner ordinal : Nat) :
    Sized type count (vectorValue (vectorOver type payload count owner ordinal)) := by
  cases type <;> exact ⟨rfl,rfl,rfl,List.length_replicate⟩

theorem emptyVectorOf_sized (type : ScalarType) : Sized type 0 (vectorValue (emptyVectorOf type)) := by
  cases type <;> exact ⟨rfl,rfl,rfl,rfl⟩

/-- Only a vector without elements is left without storage. -/
theorem allocateVector_none {host : Nat → HostResourceErrorReason} {type : ScalarType} {count work : Nat}
    {account after : Account} (ends : account.allocateVector host type count work = (after,.ok none)) : count = 0 := by
  unfold Account.allocateVector at ends
  split at ends
  · cases ends
  · split at ends
    · cases ends
    · rename_i request ok
      obtain ⟨-,rfl⟩ := Account.vectorRequest_ok ok
      unfold Account.reserve at ends
      split at ends
      · cases ends
      · split at ends
        · rename_i free
          cases type <;> simpa [elementWidth] using free
        · split at ends
          · cases ends
          · split at ends <;> cases ends

theorem allocateVector_sized {h after : Host} {resources : EvaluationResources} {type : ScalarType} {count work : Nat}
    (allocated : h.allocateVector resources type count work = (after,.ok value)) : Sized type count value := by
  unfold Host.allocateVector at allocated
  split at allocated
  · cases allocated
  · split at allocated
    · cases allocated
    · rename_i none
      cases allocated
      rw [allocateVector_none none]
      exact emptyVectorOf_sized type
    · cases allocated
      exact vectorOver_sized ..

/-! ### Applications -/

theorem liftedSignature_here {typedSignature : Option Nat} {actualTypes : List ScalarType}
    (chosen : liftedSignature descriptor typedSignature arguments actualTypes = .ok (selected,signature)) :
    descriptor.signatures[selected]? = some signature := by
  cases typedSignature with
  | some index =>
    rw [liftedSignature] at chosen
    split at chosen
    · cases chosen
    · rename_i here
      split at chosen
      · cases chosen
        exact here
      · cases chosen
  | none =>
    rw [liftedSignature] at chosen
    cases found : TiedMinimum.scan (actualCost actualTypes) none 0 descriptor.signatures with
    | none =>
      rw [(selectPrimitiveSignature_none actualTypes found).2] at chosen
      split at chosen
      · cases chosen
      · rename_i none
        split at none <;> cases none
      · cases chosen
    | some best =>
      obtain ⟨leads,same⟩ := selectPrimitiveSignature_leads actualTypes found
      rw [same] at chosen
      by_cases tied : best.tied = true
      · rw [if_pos tied] at chosen
        cases chosen
      · rw [if_neg tied] at chosen
        cases chosen
        exact leads.here

/-- The result of a lifted application: a vector of what the kernel makes of the elements of the
arguments, whose vectors all have its length; of scalars, the kernel's scalar. -/
def Lifts (platform : KernelPlatform) (descriptor : PrimitiveDescriptor) (selected : Nat) (signature : PrimitiveSignature)
    (arguments : List (TypedPrimitiveArgument Value)) (location : RewritePosition) (value : Value) : Prop :=
  match vectorLength arguments with
  | none => ∃ scalar, applyElement platform descriptor selected signature arguments location false 0 = some (.ok scalar) ∧
    value = valueFromScalar scalar
  | some length => Sized signature.result.element length value ∧
    (∀ argument ∈ arguments, typedArgumentContainer argument = .vector → validatedVectorLength argument = length) ∧
    ∀ position < length, applyElement platform descriptor selected signature arguments location true position =
      some (.ok (projectValidatedScalar ⟨value,none⟩ position))

/-- An element is reported that the kernel refuses, and the first that it refuses. -/
def FirstRefused (platform : KernelPlatform) (descriptor : PrimitiveDescriptor) (selected : Nat) (signature : PrimitiveSignature)
    (arguments : List (TypedPrimitiveArgument Value)) (location : RewritePosition) (element : Nat) (error : KernelError) :
    Prop :=
  (∃ length, vectorLength arguments = some length ∧ element < length) ∧
  applyElement platform descriptor selected signature arguments location true element =
    some (.error (.kernel (some element) error)) ∧
  ∀ earlier < element, ∃ scalar,
    applyElement platform descriptor selected signature arguments location true earlier = some (.ok scalar)

theorem applyElement_place {element : Option Nat} {error : KernelError}
    (fails : applyElement platform descriptor selected signature arguments location lifted index =
      some (.error (.kernel element error))) : ∀ place, element = some place → place = index ∧ lifted = true := by
  rw [applyElement] at fails
  split at fails
  · cases fails
  · obtain ⟨kernel,-,same⟩ := Option.map_eq_some_iff.mp fails
    split at same
    · cases same
    · cases same
      intro place here
      split at here
      · rename_i domain
        cases here
        exact ⟨rfl,domain.2⟩
      · cases here

/-- The types of arguments: those of scalars, and of the elements of vectors. -/
def argumentTypes (arguments : List (TypedPrimitiveArgument Value)) : List ScalarType :=
  arguments.map fun argument =>
    if typedArgumentContainer argument = .scalar then (typedArgumentScalar argument).type
    else (typedArgumentVector argument).elementType

/-- What an application of a lifted primitive may end with, by the signature that it was lowered to or
that the types of its arguments select. -/
def LiftedOutcome (platform : KernelPlatform) (descriptor : PrimitiveDescriptor) (typedSignature : Option Nat)
    (arguments : List (TypedPrimitiveArgument Value)) (location : RewritePosition) :
    Except ApplicationFailure Value → Prop
  | .ok value => ∃ selected signature,
    liftedSignature descriptor typedSignature arguments (argumentTypes arguments) = .ok (selected,signature) ∧
      Lifts platform descriptor selected signature arguments location value
  | .error (.kernel (some element) error) => ∃ selected signature,
    liftedSignature descriptor typedSignature arguments (argumentTypes arguments) = .ok (selected,signature) ∧
      FirstRefused platform descriptor selected signature arguments location element error
  | .error _ => True

theorem LiftedOutcome.refused {failure : ApplicationFailure}
    (other : ∀ element error, failure ≠ .kernel element error) {typedSignature : Option Nat} :
    LiftedOutcome platform descriptor typedSignature arguments location (.error failure) := by
  cases failure with
  | kernel element error => exact absurd rfl (other element error)
  | _ => trivial

theorem checkArguments_refused {all : List (TypedPrimitiveArgument Value)} {failure : ApplicationFailure} :
    ∀ {arguments : List (TypedPrimitiveArgument Value)} {h after : Host} {actualTypes : List ScalarType},
      checkArguments descriptor all h actualTypes arguments = (after,.error failure) →
        ∀ element error, failure ≠ .kernel element error
  | [],_,_,_,refused => by
    cases refused
  | argument :: rest,h,_,actualTypes,refused => by
    rw [checkArguments] at refused
    split at refused
    · cases refused
      intro element error same
      cases same
    · split at refused
      · cases refused
        intro element error same
        cases same
      · split at refused
        · cases refused
          intro element error same
          cases same
        · exact checkArguments_refused refused
        · exact checkArguments_refused refused

/-- Checked arguments have their types. -/
theorem checkArguments_types {all : List (TypedPrimitiveArgument Value)} :
    ∀ {arguments : List (TypedPrimitiveArgument Value)} {h after : Host} {before actualTypes : List ScalarType},
      checkArguments descriptor all h before arguments = (after,.ok actualTypes) →
        actualTypes = before ++ argumentTypes arguments
  | [],_,_,before,_,checked => by
    cases checked
    exact (List.append_nil before).symm
  | argument :: rest,h,_,before,_,checked => by
    rw [checkArguments] at checked
    split at checked
    · cases checked
    · split at checked
      · cases checked
      · split at checked
        · cases checked
        · rename_i scalar
          rw [checkArguments_types checked,argumentTypes,argumentTypes,List.map_cons,if_pos scalar,List.append_assoc]
          rfl
        · rename_i vector
          rw [checkArguments_types checked,argumentTypes,argumentTypes,List.map_cons,if_neg (by rw [vector]; decide),
            List.append_assoc]
          rfl

theorem liftedSignature_refused {typedSignature : Option Nat} {actualTypes : List ScalarType} {failure : ApplicationFailure}
    (refused : liftedSignature descriptor typedSignature arguments actualTypes = .error failure) :
    ∀ element error, failure ≠ .kernel element error := by
  unfold liftedSignature at refused
  split at refused
  · dsimp only at refused
    split at refused <;> cases refused <;> intro element error same <;> cases same
  · split at refused
    · cases refused
      intro element error same
      cases same
    · split at refused <;> cases refused
      intro element error same
      cases same

theorem resultLength_refused {failure : ApplicationFailure} :
    ∀ {arguments : List (TypedPrimitiveArgument Value)} {index : Nat} {known : Option Nat},
      resultLength index known arguments = .error failure → ∀ element error, failure ≠ .kernel element error
  | [],_,_,refused => by
    cases refused
  | argument :: rest,index,known,refused => by
    unfold resultLength at refused
    split at refused
    · exact resultLength_refused refused
    · split at refused
      · exact resultLength_refused refused
      · split at refused
        · cases refused
          intro element error same
          cases same
        · exact resultLength_refused refused

theorem applyLifted_outcome (platform : KernelPlatform) (h : Host) (resources : EvaluationResources)
    (descriptor : PrimitiveDescriptor) (typedSignature : Option Nat) (arguments : List (TypedPrimitiveArgument Value))
    (location : RewritePosition) :
    ∃ after outcome, applyLifted platform h resources descriptor typedSignature arguments (argumentTypes arguments) location =
      some (after,outcome) ∧ LiftedOutcome platform descriptor typedSignature arguments location outcome := by
  rw [applyLifted]
  split
  · rename_i failure refused
    exact ⟨_,_,rfl,.refused (liftedSignature_refused refused)⟩
  · rename_i selected signature chosen
    have here := liftedSignature_here chosen
    split
    · rename_i failure refused
      exact ⟨_,_,rfl,.refused (resultLength_refused refused)⟩
    · rename_i scalars
      obtain ⟨first,-⟩ := resultLength_first scalars
      split
      · exact ⟨_,_,rfl,trivial⟩
      · obtain ⟨outcome,ran,-⟩ := @applyElement_defined platform descriptor selected signature arguments location here false 0
        rw [ran]
        refine ⟨_,_,rfl,?_⟩
        cases outcome with
        | ok scalar =>
          refine ⟨selected,signature,chosen,?_⟩
          rw [Lifts,← first]
          exact ⟨scalar,ran,rfl⟩
        | error failure =>
          cases failure with
          | kernel element error =>
            cases element with
            | none => trivial
            | some element => cases (applyElement_place ran element rfl).2
          | _ => trivial
    · rename_i length vectors
      obtain ⟨first,each⟩ := resultLength_first vectors
      split
      · exact ⟨_,_,rfl,trivial⟩
      · rename_i after value allocated
        have loop := @applyElements_pointwise platform descriptor selected signature arguments location length here length 0
          value (Nat.zero_add _) (allocateVector_sized allocated)
        generalize applyElements platform descriptor selected signature arguments location length 0 value = result at loop
        match result,loop with
        | some (.ok result),⟨sized,_,elements⟩ =>
          refine ⟨_,_,rfl,selected,signature,chosen,?_⟩
          rw [Lifts,← first]
          exact ⟨sized,fun argument member vector => Option.some.inj (each argument member vector),
            fun position upper => elements position (Nat.zero_le _) upper⟩
        | some (.error (failure,partly)),⟨_,position,_,upper,fails,earlier⟩ =>
          refine ⟨_,_,rfl,?_⟩
          cases failure with
          | kernel element error =>
            cases element with
            | none => trivial
            | some element =>
              obtain ⟨rfl,-⟩ := applyElement_place fails element rfl
              exact ⟨selected,signature,chosen,⟨length,first.symm,upper⟩,fails,
                fun other before => earlier other (Nat.zero_le _) before⟩
          | _ => trivial

/-- An application of a lifted primitive ends, and none of its kernels is undefined: it computes every
element from the elements of its arguments, or reports the first that its kernel refuses. -/
theorem apply_pointwise (platform : KernelPlatform) (h : Host) (resources : EvaluationResources)
    (descriptor : PrimitiveDescriptor) (typedSignature : Option Nat) (arguments : List (TypedPrimitiveArgument Value))
    (location : RewritePosition) (lifting : descriptor.lifting ≠ .none) :
    ∃ after outcome, applyPrimitiveImpl platform h resources descriptor typedSignature arguments location =
      some (after,outcome) ∧ LiftedOutcome platform descriptor typedSignature arguments location outcome := by
  rw [applyPrimitiveImpl]
  split
  · exact ⟨_,_,rfl,trivial⟩
  · split
    · exact ⟨_,_,rfl,trivial⟩
    · split
      · rename_i refused
        exact ⟨_,_,rfl,.refused (checkArguments_refused refused)⟩
      · rename_i h actualTypes checked
        rw [show actualTypes = argumentTypes arguments from checkArguments_types checked]
        exact applyLifted_outcome platform h resources descriptor typedSignature arguments location

/-- A process with one context, whose allocator grants every request. -/
def openedHost : Host × EvaluationResources :=
  (emptyHost (fun _ _ => .none) fun _ => .none).makeResourceRecord trustedLocalV2Account

/-- A platform whose kernels run on integers only. -/
def integerPlatform : KernelPlatform := ⟨fun _ left _ => left,fun _ => true⟩

/-- A vector of the integers from one on. -/
def countedVector (h : Host) (resources : EvaluationResources) (count : Nat) : Host × Value :=
  match h.allocateVector resources .integer count count with
  | (h,.ok value) => (h,{ value with vector := fillIota value.vector count })
  | (h,.error _) => (h,makeIntValue 0)

/-- The vector `[1 2 3]`, and the one that ends in the largest integer. -/
def countedVectors : Host × Value × Value :=
  let (h,value) := countedVector openedHost.1 openedHost.2 3
  let (h,other) := countedVector h openedHost.2 3
  (h,value,(storeScalar other 2 ⟨.integer,false,Int64.maxValue,0⟩).getD other)

def integersOf (value : Value) : List Int64 := value.vector.integers.elim [] (·.elements)

def refusedElement : Except ApplicationFailure Value → Option Nat
  | .error (.kernel element _) => element
  | _ => none

/-- The sum of two vectors, and the increments of one whose last element has none. -/
theorem apply_pointwise_vectors : ∃ add inc, findPrimitive "add".toList = some add ∧ findPrimitive "inc".toList = some inc ∧
    (∃ after value, applyPrimitiveImpl integerPlatform countedVectors.1 openedHost.2 add none
      [⟨countedVectors.2.1,none⟩,⟨countedVectors.2.1,none⟩] ⟨1,1,1⟩ = some (after,.ok value) ∧ integersOf value = [2,4,6] ∧
      LiftedOutcome integerPlatform add none [⟨countedVectors.2.1,none⟩,⟨countedVectors.2.1,none⟩] ⟨1,1,1⟩ (.ok value)) ∧
    ∃ after outcome, applyPrimitiveImpl integerPlatform countedVectors.1 openedHost.2 inc none
      [⟨countedVectors.2.2,none⟩] ⟨1,1,1⟩ = some (after,outcome) ∧ refusedElement outcome = some 2 ∧
      LiftedOutcome integerPlatform inc none [⟨countedVectors.2.2,none⟩] ⟨1,1,1⟩ outcome := by
  have adds : (findPrimitive "add".toList).map (fun add => ((applyPrimitiveImpl integerPlatform countedVectors.1 openedHost.2
      add none [⟨countedVectors.2.1,none⟩,⟨countedVectors.2.1,none⟩] ⟨1,1,1⟩).map (·.2.toOption.map integersOf),
        decide (add.lifting = .none))) = some (some (some [2,4,6]),false) := by decide +kernel
  have refuses : (findPrimitive "inc".toList).map (fun inc => ((applyPrimitiveImpl integerPlatform countedVectors.1 openedHost.2
      inc none [⟨countedVectors.2.2,none⟩] ⟨1,1,1⟩).map (refusedElement ·.2),decide (inc.lifting = .none))) =
        some (some (some 2),false) := by decide +kernel
  obtain ⟨add,found,sums⟩ := Option.map_eq_some_iff.mp adds
  obtain ⟨inc,known,fails⟩ := Option.map_eq_some_iff.mp refuses
  obtain ⟨sums,addLifts⟩ := Prod.mk.inj sums
  obtain ⟨fails,incLifts⟩ := Prod.mk.inj fails
  obtain ⟨after,outcome,ran,lifted⟩ := apply_pointwise integerPlatform countedVectors.1 openedHost.2 add none
    [⟨countedVectors.2.1,none⟩,⟨countedVectors.2.1,none⟩] ⟨1,1,1⟩ (of_decide_eq_false addLifts)
  obtain ⟨later,refused,failed,first⟩ := apply_pointwise integerPlatform countedVectors.1 openedHost.2 inc none
    [⟨countedVectors.2.2,none⟩] ⟨1,1,1⟩ (of_decide_eq_false incLifts)
  rw [ran,Option.map_some,Option.some.injEq] at sums
  rw [failed,Option.map_some,Option.some.injEq] at fails
  refine ⟨add,inc,found,known,?_,later,refused,failed,fails,first⟩
  cases outcome with
  | error failure => cases sums
  | ok value => exact ⟨after,value,ran,Option.some.inj sums,lifted⟩

end lifting

end Bennu
