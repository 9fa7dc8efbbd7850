import Bennu.ScalarKernel
import Bennu.TiedMinimum

/-! Overloads of a primitive. Validation of a table asks of every arity whether some
assignment of argument types leaves two signatures of least promotion cost; selection
scans the signatures for the one of least cost. -/
namespace Bennu

open TiedMinimum

inductive PrimitiveTableError where
  | none | emptyTable | duplicateId | duplicateName | reservedName | missingSignature
  | duplicateSignature | zeroArity | missingImplementation | elementwiseNonScalarSignature
  | equalCostAmbiguity
  deriving DecidableEq, Repr

structure PrimitiveTableValidationResult where
  ok : Bool
  error : PrimitiveTableError
  descriptorIndex : Nat
  signatureIndex : Nat
  conflictingDescriptorIndex : Nat
  conflictingSignatureIndex : Nat
  deriving DecidableEq, Repr

def validTable : PrimitiveTableValidationResult := ⟨true,.none,0,0,0,0⟩

def invalidTable (error : PrimitiveTableError)
    (descriptorIndex signatureIndex conflictingDescriptorIndex conflictingSignatureIndex : Nat) :
    PrimitiveTableValidationResult :=
  ⟨false,error,descriptorIndex,signatureIndex,conflictingDescriptorIndex,conflictingSignatureIndex⟩

def sameSignature (left right : PrimitiveSignature) : Bool :=
  left.parameters.length == right.parameters.length && left.result == right.result &&
    left.parameters == right.parameters

/-- A type chosen for an argument; the chain holds the latest choice first. -/
structure TypeAssignment where
  type : ScalarType
  index : Nat
  deriving DecidableEq, Repr

def assignedType : List TypeAssignment → Nat → ScalarType
  | [],_ => .boolean
  | node :: previous,index => if node.index = index then node.type else assignedType previous index

/-- The cost of passing an argument, when it can be passed at all. -/
def conversionCost (actual parameter : ScalarType) : Option Nat :=
  if actual = parameter then some 0
  else if actual = .integer ∧ parameter = .doublePrecision then some 1
  else none

/-- The loop over the parameters from an index on: the total cost, until one does not accept. -/
def promotionCost (actual : Nat → ScalarType) : Nat → List ValueType → Option Nat
  | _,[] => some 0
  | index,parameter :: rest => do
    let cost ← conversionCost (actual index) parameter.element
    let total ← promotionCost actual (index + 1) rest
    return cost + total

/-- What a signature costs: those of another arity are passed over. -/
def signatureCost (arity : Nat) (actual : Nat → ScalarType) (signature : PrimitiveSignature) :
    Option Nat :=
  if signature.parameters.length ≠ arity then none else promotionCost actual 0 signature.parameters

/-- The least cost starts above every cost and is counted along. -/
def assignmentIsAmbiguous (descriptor : PrimitiveDescriptor) (arity : Nat)
    (assignment : List TypeAssignment) : Bool :=
  match tally (signatureCost arity (assignedType assignment)) none descriptor.signatures with
  | none => false
  | some (_,minimumCount) => minimumCount > 1

def scalarTypes : List ScalarType := [.boolean,.integer,.doublePrecision]

/-- The recursion over the arguments that have no type yet, the next one at the index
`arity - remaining`. -/
def hasAmbiguousAssignmentFrom (descriptor : PrimitiveDescriptor) (arity : Nat) :
    Nat → List TypeAssignment → Bool
  | 0,assignment => assignmentIsAmbiguous descriptor arity assignment
  | remaining + 1,assignment => scalarTypes.any fun type =>
    hasAmbiguousAssignmentFrom descriptor arity remaining
      (⟨type,arity - (remaining + 1)⟩ :: assignment)

def hasAmbiguousAssignment (descriptor : PrimitiveDescriptor) (arity : Nat) : Bool :=
  hasAmbiguousAssignmentFrom descriptor arity arity []

/-- The checks of one signature against the earlier ones and on its own. -/
def validateSignature (descriptor : PrimitiveDescriptor) (descriptorIndex signatureIndex : Nat)
    (signature : PrimitiveSignature) : Option PrimitiveTableValidationResult :=
  match (descriptor.signatures.take signatureIndex).findIdx? (sameSignature · signature) with
  | some previousIndex => some
      (invalidTable .duplicateSignature descriptorIndex signatureIndex descriptorIndex previousIndex)
  | none =>
    if signature.parameters.isEmpty then
      some (invalidTable .zeroArity descriptorIndex signatureIndex descriptorIndex signatureIndex)
    else if descriptor.lifting = .elementwise ∧ (signature.result.container ≠ .scalar ∨
        signature.parameters.any fun parameter => parameter.container != .scalar) then
      some (invalidTable .elementwiseNonScalarSignature descriptorIndex signatureIndex
        descriptorIndex signatureIndex)
    else none

/-- The check of the arity of a signature, once for each arity. -/
def validateArity (descriptor : PrimitiveDescriptor) (descriptorIndex signatureIndex : Nat)
    (signature : PrimitiveSignature) : Option PrimitiveTableValidationResult :=
  let arity := signature.parameters.length
  let alreadyChecked :=
    (descriptor.signatures.take signatureIndex).any fun previous => previous.parameters.length == arity
  if !alreadyChecked && hasAmbiguousAssignment descriptor arity then
    some (invalidTable .equalCostAmbiguity descriptorIndex signatureIndex descriptorIndex signatureIndex)
  else none

def validateImplementation (descriptor : PrimitiveDescriptor) (descriptorIndex signatureIndex : Nat)
    (signature : PrimitiveSignature) : Option PrimitiveTableValidationResult :=
  if !implementationMatches descriptor.id signature then
    some (invalidTable .missingImplementation descriptorIndex signatureIndex descriptorIndex
      signatureIndex)
  else none

/-- The earlier descriptors, each for its identifier and then for its name. -/
def duplicateDescriptor (descriptors : List PrimitiveDescriptor) (descriptorIndex : Nat)
    (descriptor : PrimitiveDescriptor) : Option PrimitiveTableValidationResult :=
  (descriptors.take descriptorIndex).zipIdx.findSome? fun (previous,previousIndex) =>
    if previous.id = descriptor.id then
      some (invalidTable .duplicateId descriptorIndex 0 previousIndex 0)
    else if previous.name = descriptor.name then
      some (invalidTable .duplicateName descriptorIndex 0 previousIndex 0)
    else none

def firstSignatureFault
    (check : Nat → PrimitiveSignature → Option PrimitiveTableValidationResult)
    (descriptor : PrimitiveDescriptor) : Option PrimitiveTableValidationResult :=
  descriptor.signatures.zipIdx.findSome? fun (signature,signatureIndex) => check signatureIndex signature

/-- The first fault of a descriptor. -/
def validateDescriptor (descriptors : List PrimitiveDescriptor) (descriptorIndex : Nat)
    (descriptor : PrimitiveDescriptor) : Option PrimitiveTableValidationResult :=
  if descriptor.name = "parameters".toList then
    some (invalidTable .reservedName descriptorIndex 0 descriptorIndex 0)
  else
    (duplicateDescriptor descriptors descriptorIndex descriptor).or <|
    (if descriptor.signatures.isEmpty then
      some (invalidTable .missingSignature descriptorIndex 0 descriptorIndex 0) else none).or <|
    (firstSignatureFault (validateSignature descriptor descriptorIndex) descriptor).or <|
    (if descriptor.lifting = .elementwise then
      firstSignatureFault (validateArity descriptor descriptorIndex) descriptor else none).or <|
    firstSignatureFault (validateImplementation descriptor descriptorIndex) descriptor

def validatePrimitiveTable (descriptors : List PrimitiveDescriptor) : PrimitiveTableValidationResult :=
  if descriptors.isEmpty then invalidTable .emptyTable 0 0 0 0
  else (descriptors.zipIdx.findSome? fun (descriptor,descriptorIndex) =>
    validateDescriptor descriptors descriptorIndex descriptor).getD validTable

inductive SignatureSelectionStatus where
  | success | arityMismatch | typeMismatch | ambiguous
  deriving DecidableEq, Repr

structure SignatureSelectionResult where
  status : SignatureSelectionStatus
  signature : Option PrimitiveSignature
  signatureIndex : Nat
  promotionCost : Nat
  deriving DecidableEq, Repr

/-- The state of the scan over the signatures. The selected signature, its index, its cost and
the flag of a tie are the leader; without one the cost is above every cost. -/
structure SelectionScan where
  arityExists : Bool
  selected : Option (Leader PrimitiveSignature Nat)

def selectStep (actualTypes : List ScalarType) (state : SelectionScan)
    (numbered : PrimitiveSignature × Nat) : SelectionScan :=
  if numbered.1.parameters.length ≠ actualTypes.length then state
  else ⟨true,advance (fun signature => promotionCost (actualTypes.getD · .boolean) 0 signature.parameters)
    state.selected numbered.2 numbered.1⟩

def selectPrimitiveSignature (descriptor : PrimitiveDescriptor) (actualTypes : List ScalarType) :
    SignatureSelectionResult :=
  let scanned := descriptor.signatures.zipIdx.foldl (selectStep actualTypes) ⟨false,none⟩
  if !scanned.arityExists then ⟨.arityMismatch,none,0,0⟩
  else
    match scanned.selected with
    | none => ⟨.typeMismatch,none,0,0⟩
    | some best =>
      if best.tied then ⟨.ambiguous,none,0,0⟩ else ⟨.success,some best.element,best.place,best.cost⟩

/-- The arguments fit the parameters, each as it is or promoted. -/
def Applicable (types : List ScalarType) (signature : PrimitiveSignature) : Prop :=
  List.Forall₂ (fun actual (parameter : ValueType) =>
    actual = parameter.element ∨ actual = .integer ∧ parameter.element = .doublePrecision)
    types signature.parameters

/-- How many arguments are promoted. -/
def promotions (types : List ScalarType) (signature : PrimitiveSignature) : Nat :=
  (types.zip signature.parameters).countP fun (actual,parameter) => actual != parameter.element

section Costs

variable {types : List ScalarType}

theorem promotionCost_shift (actual : Nat → ScalarType) (index : Nat) (parameters : List ValueType) :
    promotionCost actual (index + 1) parameters = promotionCost (fun i => actual (i + 1)) index parameters := by
  induction parameters generalizing index with
  | nil => rfl
  | cons parameter rest ih => simp only [promotionCost,ih]

theorem conversionCost_eq_some_iff {actual parameter : ScalarType} {cost : Nat} :
    conversionCost actual parameter = some cost ↔
      (actual = parameter ∨ actual = .integer ∧ parameter = .doublePrecision) ∧
        cost = if actual = parameter then 0 else 1 := by
  cases actual <;> cases parameter <;> simp [conversionCost,eq_comm]

/-- The loop over the parameters accepts exactly the applicable signatures and counts the promotions. -/
theorem promotionCost_eq_some_iff {parameters : List ValueType} {cost : Nat}
    (fits : parameters.length = types.length) :
    promotionCost (types.getD · .boolean) 0 parameters = some cost ↔
      List.Forall₂ (fun actual (parameter : ValueType) =>
        actual = parameter.element ∨ actual = .integer ∧ parameter.element = .doublePrecision)
        types parameters ∧
      cost = (types.zip parameters).countP fun (actual,parameter) => actual != parameter.element := by
  induction types generalizing parameters cost with
  | nil =>
    obtain rfl : parameters = [] := List.length_eq_zero_iff.mp fits
    simp [promotionCost,eq_comm]
  | cons actual rest ih =>
    cases parameters with
    | nil => cases fits
    | cons parameter parameters =>
      have shifted : promotionCost ((actual :: rest).getD · .boolean) (0 + 1) parameters =
          promotionCost (rest.getD · .boolean) 0 parameters := by
        rw [promotionCost_shift]
        rfl
      have later (total : Nat) := @ih parameters total (Nat.succ.inj fits)
      have head : (actual != parameter.element) = true ↔ ¬actual = parameter.element := by simp
      simp only [promotionCost,shifted,List.getD_cons_zero,List.forall₂_cons,List.zip_cons_cons,
        List.countP_cons,Option.bind_eq_bind,Option.bind_eq_some_iff,Option.some.injEq,
        conversionCost_eq_some_iff,later,head,pure]
      constructor
      · rintro ⟨first,⟨passes,rfl⟩,total,⟨rest,rfl⟩,rfl⟩
        refine ⟨⟨passes,rest⟩,?_⟩
        by_cases same : actual = parameter.element
        · simp [same]
        · simp [same,Nat.add_comm]
      · rintro ⟨⟨passes,rest⟩,rfl⟩
        refine ⟨_,⟨passes,rfl⟩,_,⟨rest,rfl⟩,?_⟩
        by_cases same : actual = parameter.element
        · simp [same]
        · simp [same,Nat.add_comm]

theorem signatureCost_eq_some_iff {signature : PrimitiveSignature} {cost : Nat} :
    signatureCost types.length (types.getD · .boolean) signature = some cost ↔
      Applicable types signature ∧ cost = promotions types signature := by
  rw [signatureCost]
  by_cases fits : signature.parameters.length = types.length
  · rw [if_neg (by simpa using fits)]
    exact promotionCost_eq_some_iff fits
  · rw [if_pos fits]
    constructor
    · intro given
      cases given
    · rintro ⟨applicable,-⟩
      exact absurd applicable.length_eq.symm fits

theorem signatureCost_eq_none_iff {signature : PrimitiveSignature} :
    signatureCost types.length (types.getD · .boolean) signature = none ↔ ¬Applicable types signature := by
  rw [Option.eq_none_iff_forall_ne_some]
  constructor
  · intro free applicable
    exact free _ (signatureCost_eq_some_iff.mpr ⟨applicable,rfl⟩)
  · intro inapplicable cost given
    exact inapplicable (signatureCost_eq_some_iff.mp given).1

end Costs

section Selection

variable (types : List ScalarType)

/-- The costs that selection compares. -/
def actualCost : PrimitiveSignature → Option Nat := signatureCost types.length (types.getD · .boolean)

theorem selectStep_advance (state : SelectionScan) (signature : PrimitiveSignature) (index : Nat) :
    selectStep types state (signature,index) =
      ⟨state.arityExists || signature.parameters.length == types.length,
        advance (actualCost types) state.selected index signature⟩ := by
  by_cases fits : signature.parameters.length = types.length
  · have same : actualCost types signature = promotionCost (types.getD · .boolean) 0 signature.parameters :=
      if_neg (by simpa using fits)
    have advanced : advance (fun signature => promotionCost (types.getD · .boolean) 0 signature.parameters)
        state.selected index signature = advance (actualCost types) state.selected index signature := by
      simp only [advance,same]
    rw [selectStep,if_neg (by simpa using fits),advanced]
    simp [fits]
  · have same : actualCost types signature = none := if_pos fits
    have passed : advance (actualCost types) state.selected index signature = state.selected := by
      simp only [advance,same]
    have other : (signature.parameters.length == types.length) = false := beq_eq_false_iff_ne.mpr fits
    rw [selectStep,if_pos fits,passed,other,Bool.or_false]

/-- The loop scans the costs and notes whether the arity occurs. -/
theorem selectStep_scan (signatures : List PrimitiveSignature) (index : Nat) (state : SelectionScan) :
    (signatures.zipIdx index).foldl (selectStep types) state =
      ⟨state.arityExists || signatures.any (·.parameters.length == types.length),
        scan (actualCost types) state.selected index signatures⟩ := by
  induction signatures generalizing index state with
  | nil => simp [scan]
  | cons signature rest ih =>
    rw [List.zipIdx_cons,List.foldl_cons,ih,selectStep_advance]
    simp [scan,Bool.or_assoc]

/-- A leader makes the arity exist. -/
theorem leads_arity {signatures : List PrimitiveSignature} {best : Leader PrimitiveSignature Nat}
    (leads : Leads (actualCost types) signatures best) :
    signatures.any (·.parameters.length == types.length) = true := by
  obtain ⟨applicable,-⟩ := signatureCost_eq_some_iff.mp leads.costs
  exact List.any_eq_true.mpr ⟨_,List.mem_of_getElem? leads.here,beq_iff_eq.mpr applicable.length_eq.symm⟩

theorem selectPrimitiveSignature_leads {descriptor : PrimitiveDescriptor}
    {best : Leader PrimitiveSignature Nat}
    (found : scan (actualCost types) none 0 descriptor.signatures = some best) :
    Leads (actualCost types) descriptor.signatures best ∧
      selectPrimitiveSignature descriptor types =
        if best.tied then ⟨.ambiguous,none,0,0⟩ else ⟨.success,some best.element,best.place,best.cost⟩ := by
  have leads := scan_leads (actualCost types) descriptor.signatures
  rw [found] at leads
  refine ⟨leads,?_⟩
  rw [selectPrimitiveSignature,selectStep_scan,found,leads_arity types leads]
  rfl

theorem selectPrimitiveSignature_none {descriptor : PrimitiveDescriptor}
    (free : scan (actualCost types) none 0 descriptor.signatures = none) :
    (∀ signature ∈ descriptor.signatures, ¬Applicable types signature) ∧
      selectPrimitiveSignature descriptor types =
        if descriptor.signatures.any (·.parameters.length == types.length) then ⟨.typeMismatch,none,0,0⟩
        else ⟨.arityMismatch,none,0,0⟩ := by
  have costless := scan_leads (actualCost types) descriptor.signatures
  rw [free] at costless
  refine ⟨fun signature member => signatureCost_eq_none_iff.mp (costless signature member),?_⟩
  rw [selectPrimitiveSignature,selectStep_scan,free]
  cases descriptor.signatures.any (·.parameters.length == types.length) <;> rfl

theorem status_ambiguous_iff (descriptor : PrimitiveDescriptor) :
    (selectPrimitiveSignature descriptor types).status = .ambiguous ↔
      ∃ best, scan (actualCost types) none 0 descriptor.signatures = some best ∧ best.tied = true := by
  cases found : scan (actualCost types) none 0 descriptor.signatures with
  | none =>
    rw [(selectPrimitiveSignature_none types found).2]
    split <;> simp
  | some best =>
    rw [(selectPrimitiveSignature_leads types found).2]
    cases tied : best.tied <;> simp [tied]

end Selection

section Assignments

/-- The chain that assigns a list of types. -/
def chainOf (types : List ScalarType) : List TypeAssignment :=
  (types.zipIdx.map fun (type,index) => ⟨type,index⟩).reverse

theorem chainOf_append (types : List ScalarType) (type : ScalarType) :
    chainOf (types ++ [type]) = ⟨type,types.length⟩ :: chainOf types := by
  simp [chainOf,List.zipIdx_append]

/-- The chain is read as the list it assigns. -/
theorem assignedType_chainOf (types : List ScalarType) :
    assignedType (chainOf types) = (types.getD · .boolean) := by
  induction types using List.reverseRecOn with
  | nil => rfl
  | append_singleton types type ih =>
    funext index
    rw [chainOf_append,assignedType]
    by_cases here : types.length = index
    · subst here
      simp
    · rw [if_neg here,ih]
      rcases Nat.lt_or_gt_of_ne here with more | less
      · dsimp only
        rw [List.getD_eq_default _ _ (by omega),List.getD_eq_default _ _ (by simp; omega)]
      · simp only [List.getD_eq_getElem?_getD]
        rw [List.getElem?_append_left less]

/-- An assignment is ambiguous exactly when selection on its types is. -/
theorem assignmentIsAmbiguous_chainOf (descriptor : PrimitiveDescriptor) (types : List ScalarType) :
    assignmentIsAmbiguous descriptor types.length (chainOf types) = true ↔
      (selectPrimitiveSignature descriptor types).status = .ambiguous := by
  rw [status_ambiguous_iff,tied_iff,assignmentIsAmbiguous,assignedType_chainOf]
  change (match tally (actualCost types) none descriptor.signatures with
    | none => false
    | some (_,minimumCount) => decide (minimumCount > 1)) = true ↔ _
  rcases tally (actualCost types) none descriptor.signatures with _ | ⟨minimum,number⟩
  · simp
  · simp

/-- The recursion tries every completion of the types chosen so far. -/
theorem hasAmbiguousAssignmentFrom_iff (descriptor : PrimitiveDescriptor) (arity remaining : Nat)
    (types : List ScalarType) (chosen : types.length + remaining = arity) :
    hasAmbiguousAssignmentFrom descriptor arity remaining (chainOf types) = true ↔
      ∃ rest : List ScalarType, rest.length = remaining ∧
        assignmentIsAmbiguous descriptor arity (chainOf (types ++ rest)) = true := by
  induction remaining generalizing types with
  | zero =>
    constructor
    · intro ambiguous
      exact ⟨[],rfl,by rwa [List.append_nil]⟩
    · rintro ⟨rest,empty,ambiguous⟩
      rwa [List.length_eq_zero_iff.mp empty,List.append_nil] at ambiguous
  | succ remaining ih =>
    have complete (type : ScalarType) : type ∈ scalarTypes := by cases type <;> decide
    have next (type : ScalarType) : (⟨type,arity - (remaining + 1)⟩ :: chainOf types : List TypeAssignment) =
        chainOf (types ++ [type]) := by
      rw [chainOf_append]
      congr 2
      omega
    rw [hasAmbiguousAssignmentFrom,List.any_eq_true]
    constructor
    · rintro ⟨type,-,ambiguous⟩
      rw [next,ih _ (by simp; omega)] at ambiguous
      obtain ⟨rest,count,ambiguous⟩ := ambiguous
      exact ⟨type :: rest,by simp [count],by simpa using ambiguous⟩
    · rintro ⟨rest,count,ambiguous⟩
      cases rest with
      | nil => cases count
      | cons type rest =>
        refine ⟨type,complete type,?_⟩
        rw [next,ih _ (by simp; omega)]
        exact ⟨rest,Nat.succ.inj count,by simpa using ambiguous⟩

theorem hasAmbiguousAssignment_iff (descriptor : PrimitiveDescriptor) (arity : Nat) :
    hasAmbiguousAssignment descriptor arity = true ↔ ∃ types : List ScalarType,
      types.length = arity ∧ (selectPrimitiveSignature descriptor types).status = .ambiguous := by
  have start := hasAmbiguousAssignmentFrom_iff descriptor arity arity [] (Nat.zero_add arity)
  rw [hasAmbiguousAssignment]
  refine start.trans (exists_congr fun types => and_congr_right fun count => ?_)
  rw [List.nil_append,← count]
  exact assignmentIsAmbiguous_chainOf descriptor types

end Assignments

section Validation

/-- A check reports faults only. -/
def Reports (fault : Option PrimitiveTableValidationResult) : Prop := ∀ r, fault = some r → r.ok = false

theorem Reports.or {first second : Option PrimitiveTableValidationResult} (reports : Reports first)
    (reports' : Reports second) : Reports (first.or second) := by
  cases first with
  | none => exact reports'
  | some r => exact reports

theorem reports_none : Reports none := fun r given => by cases given

theorem reports_fault {error : PrimitiveTableError} {a b c d : Nat} :
    Reports (some (invalidTable error a b c d)) := by
  rintro r ⟨⟩
  rfl

theorem reports_findSome {α : Type} {check : α → Option PrimitiveTableValidationResult} {as : List α}
    (reports : ∀ a, Reports (check a)) : Reports (as.findSome? check) := by
  intro r found
  obtain ⟨a,-,given⟩ := List.exists_of_findSome?_eq_some found
  exact reports a r given

theorem validateDescriptor_reports (descriptors : List PrimitiveDescriptor) (descriptorIndex : Nat)
    (descriptor : PrimitiveDescriptor) :
    Reports (validateDescriptor descriptors descriptorIndex descriptor) := by
  have signature (index : Nat) (signature : PrimitiveSignature) :
      Reports (validateSignature descriptor descriptorIndex index signature) := by
    unfold validateSignature
    split
    · exact reports_fault
    · split
      · exact reports_fault
      · split
        · exact reports_fault
        · exact reports_none
  have arity (index : Nat) (signature : PrimitiveSignature) :
      Reports (validateArity descriptor descriptorIndex index signature) := by
    unfold validateArity
    dsimp only
    split
    · exact reports_fault
    · exact reports_none
  have implementation (index : Nat) (signature : PrimitiveSignature) :
      Reports (validateImplementation descriptor descriptorIndex index signature) := by
    unfold validateImplementation
    split
    · exact reports_fault
    · exact reports_none
  have duplicate : Reports (duplicateDescriptor descriptors descriptorIndex descriptor) := by
    refine reports_findSome fun numbered => ?_
    obtain ⟨previous,index⟩ := numbered
    dsimp only
    split
    · exact reports_fault
    · split
      · exact reports_fault
      · exact reports_none
  unfold validateDescriptor
  split
  · exact reports_fault
  · refine duplicate.or (.or ?_ (.or (reports_findSome fun numbered => signature numbered.2 numbered.1)
      (.or ?_ (reports_findSome fun numbered => implementation numbered.2 numbered.1))))
    · split
      · exact reports_fault
      · exact reports_none
    · split
      · exact reports_findSome fun numbered => arity numbered.2 numbered.1
      · exact reports_none

/-- An accepted table has no descriptor with a fault. -/
theorem validatePrimitiveTable_ok {descriptors : List PrimitiveDescriptor}
    (valid : (validatePrimitiveTable descriptors).ok = true) {descriptor : PrimitiveDescriptor}
    (member : descriptor ∈ descriptors) :
    ∃ index, validateDescriptor descriptors index descriptor = none := by
  obtain ⟨index,inside,rfl⟩ := List.mem_iff_getElem.mp member
  have listed : (descriptors[index],index) ∈ descriptors.zipIdx :=
    List.mem_zipIdx_iff_getElem?.mpr (List.getElem?_eq_getElem inside)
  refine ⟨index,?_⟩
  rw [validatePrimitiveTable] at valid
  split at valid
  · cases valid
  · cases found : descriptors.zipIdx.findSome? fun (descriptor,descriptorIndex) =>
        validateDescriptor descriptors descriptorIndex descriptor with
    | none => exact List.findSome?_eq_none_iff.mp found _ listed
    | some r =>
      rw [found] at valid
      have fault := reports_findSome (fun (d,index) => validateDescriptor_reports descriptors index d) r found
      rw [Option.getD_some,fault] at valid
      cases valid

/-- Every arity of an elementwise descriptor without faults has been found unambiguous, at its
first signature. -/
theorem validateDescriptor_arities {descriptors : List PrimitiveDescriptor} {descriptorIndex : Nat}
    {descriptor : PrimitiveDescriptor} (valid : validateDescriptor descriptors descriptorIndex descriptor = none)
    (elementwise : descriptor.lifting = .elementwise) {signature : PrimitiveSignature}
    (member : signature ∈ descriptor.signatures) :
    hasAmbiguousAssignment descriptor signature.parameters.length = false := by
  have checked : firstSignatureFault (validateArity descriptor descriptorIndex) descriptor = none := by
    unfold validateDescriptor at valid
    split at valid
    · cases valid
    · simp only [Option.or_eq_none_iff] at valid
      exact valid.2.2.2.1
  let sameArity (other : PrimitiveSignature) : Bool := other.parameters.length == signature.parameters.length
  have occurs : descriptor.signatures.findIdx sameArity < descriptor.signatures.length :=
    List.findIdx_lt_length_of_exists ⟨signature,member,beq_self_eq_true _⟩
  have first : sameArity descriptor.signatures[descriptor.signatures.findIdx sameArity] = true :=
    List.findIdx_getElem
  have listed : (descriptor.signatures[descriptor.signatures.findIdx sameArity],
      descriptor.signatures.findIdx sameArity) ∈ descriptor.signatures.zipIdx :=
    List.mem_zipIdx_iff_getElem?.mpr (List.getElem?_eq_getElem occurs)
  have passed := List.findSome?_eq_none_iff.mp checked _ listed
  have fresh : ((descriptor.signatures.take (descriptor.signatures.findIdx sameArity)).any sameArity) = false := by
    rw [List.any_eq_false]
    intro other before
    obtain ⟨place,inside,rfl⟩ := List.mem_take_iff_getElem.mp before
    have earlier : place < descriptor.signatures.findIdx sameArity := lt_of_lt_of_le inside (min_le_left _ _)
    exact Bool.eq_false_iff.mp (List.not_of_lt_findIdx earlier)
  simp only [validateArity,beq_iff_eq.mp first] at passed
  split at passed
  · cases passed
  · rename_i unambiguous
    simp only [Bool.and_eq_true,Bool.not_eq_true',not_and,Bool.not_eq_true] at unambiguous
    exact unambiguous fresh

end Validation

/-- In an accepted table no argument types are ambiguous for an elementwise descriptor. -/
theorem validatePrimitiveTable_unambiguous {descriptors : List PrimitiveDescriptor}
    (valid : (validatePrimitiveTable descriptors).ok = true) {descriptor : PrimitiveDescriptor}
    (member : descriptor ∈ descriptors) (elementwise : descriptor.lifting = .elementwise)
    (types : List ScalarType) : (selectPrimitiveSignature descriptor types).status ≠ .ambiguous := by
  intro ambiguous
  obtain ⟨best,found,-⟩ := (status_ambiguous_iff types descriptor).mp ambiguous
  obtain ⟨leads,-⟩ := selectPrimitiveSignature_leads types found
  obtain ⟨applicable,-⟩ := signatureCost_eq_some_iff.mp leads.costs
  obtain ⟨index,faultless⟩ := validatePrimitiveTable_ok valid member
  have free := validateDescriptor_arities faultless elementwise (List.mem_of_getElem? leads.here)
  rw [← applicable.length_eq] at free
  have some' := (hasAmbiguousAssignment_iff descriptor types.length).mpr ⟨types,rfl,ambiguous⟩
  rw [free] at some'
  cases some'

/-- What selection finds: no applicable signature, or the only one of least promotions. -/
def SelectsUniquely (descriptor : PrimitiveDescriptor) (types : List ScalarType)
    (result : SignatureSelectionResult) : Prop :=
  (result.signature = none ∧ (result.status = .arityMismatch ∨ result.status = .typeMismatch) ∧
    ∀ signature ∈ descriptor.signatures, ¬Applicable types signature) ∨
  ∃ signature, result.status = .success ∧ result.signature = some signature ∧
    descriptor.signatures[result.signatureIndex]? = some signature ∧ Applicable types signature ∧
    result.promotionCost = promotions types signature ∧
    ∀ (place : Nat) (other : PrimitiveSignature), place ≠ result.signatureIndex →
      descriptor.signatures[place]? = some other → Applicable types other →
      promotions types signature < promotions types other

theorem selectPrimitiveSignature_unique {descriptor : PrimitiveDescriptor} {types : List ScalarType}
    (clear : (selectPrimitiveSignature descriptor types).status ≠ .ambiguous) :
    SelectsUniquely descriptor types (selectPrimitiveSignature descriptor types) := by
  cases found : scan (actualCost types) none 0 descriptor.signatures with
  | none =>
    obtain ⟨inapplicable,result⟩ := selectPrimitiveSignature_none types found
    rw [result]
    refine .inl ⟨?_,?_,inapplicable⟩ <;> split <;> simp
  | some best =>
    obtain ⟨leads,result⟩ := selectPrimitiveSignature_leads types found
    have free : best.tied = false := by
      rw [result] at clear
      cases tied : best.tied
      · rfl
      · simp [tied] at clear
    rw [free] at result
    obtain ⟨applicable,cost⟩ := signatureCost_eq_some_iff.mp leads.costs
    rw [result]
    refine .inr ⟨best.element,rfl,rfl,leads.here,applicable,cost,?_⟩
    intro place other apart here applicable'
    rw [← cost]
    exact leads.unique free apart here (signatureCost_eq_some_iff.mpr ⟨applicable',rfl⟩)

/-- The order of the signatures does not matter to an unambiguous selection, but for the index. -/
theorem selectPrimitiveSignature_perm {descriptor : PrimitiveDescriptor} {types : List ScalarType}
    (clear : (selectPrimitiveSignature descriptor types).status ≠ .ambiguous)
    {signatures : List PrimitiveSignature} (perm : descriptor.signatures.Perm signatures) :
    let result := selectPrimitiveSignature descriptor types
    let other := selectPrimitiveSignature { descriptor with signatures := signatures } types
    other.status = result.status ∧ other.signature = result.signature ∧
      other.promotionCost = result.promotionCost := by
  have exists' : signatures.any (·.parameters.length == types.length) =
      descriptor.signatures.any (·.parameters.length == types.length) := by
    rw [Bool.eq_iff_iff,List.any_eq_true,List.any_eq_true]
    exact exists_congr fun signature => and_congr_left fun _ => perm.symm.mem_iff
  have scanned := scan_leads (actualCost types) signatures
  dsimp only
  cases found : scan (actualCost types) none 0 descriptor.signatures with
  | none =>
    obtain ⟨inapplicable,result⟩ := selectPrimitiveSignature_none types found
    have free : scan (actualCost types) none 0 signatures = none := by
      cases other : scan (actualCost types) none 0 signatures with
      | none => rfl
      | some best =>
        rw [other] at scanned
        obtain ⟨applicable,-⟩ := signatureCost_eq_some_iff.mp scanned.costs
        exact absurd applicable (inapplicable _ (perm.symm.mem_iff.mp (List.mem_of_getElem? scanned.here)))
    obtain ⟨-,result'⟩ := @selectPrimitiveSignature_none types { descriptor with signatures := signatures } free
    rw [result,result',exists']
    exact ⟨rfl,rfl,rfl⟩
  | some best =>
    obtain ⟨leads,result⟩ := selectPrimitiveSignature_leads types found
    have free : best.tied = false := by
      rw [result] at clear
      cases tied : best.tied
      · rfl
      · simp [tied] at clear
    cases found' : scan (actualCost types) none 0 signatures with
    | none =>
      rw [found'] at scanned
      have costless := scanned _ (perm.mem_iff.mp (List.mem_of_getElem? leads.here))
      rw [leads.costs] at costless
      cases costless
    | some other =>
      obtain ⟨leads',result'⟩ :=
        @selectPrimitiveSignature_leads types { descriptor with signatures := signatures } other found'
      obtain ⟨element,cost,free'⟩ := leads.perm leads' perm free
      rw [result,result',free,free',element,cost]
      exact ⟨rfl,rfl,rfl⟩

/-- Validation decides ambiguity for every descriptor and arity; in an accepted table selection
on an elementwise descriptor finds nothing applicable or the only signature of least
promotions, in any order of the signatures. -/
theorem validatedTable_selects :
    (∀ descriptor arity, hasAmbiguousAssignment descriptor arity = true ↔ ∃ types : List ScalarType,
      types.length = arity ∧ (selectPrimitiveSignature descriptor types).status = .ambiguous) ∧
    ∀ descriptors, (validatePrimitiveTable descriptors).ok = true →
      ∀ descriptor ∈ descriptors, descriptor.lifting = .elementwise → ∀ types,
        SelectsUniquely descriptor types (selectPrimitiveSignature descriptor types) ∧
        ∀ signatures, descriptor.signatures.Perm signatures →
          let other := selectPrimitiveSignature { descriptor with signatures := signatures } types
          other.status = (selectPrimitiveSignature descriptor types).status ∧
            other.signature = (selectPrimitiveSignature descriptor types).signature ∧
            other.promotionCost = (selectPrimitiveSignature descriptor types).promotionCost := by
  refine ⟨hasAmbiguousAssignment_iff,?_⟩
  intro descriptors valid descriptor member elementwise types
  have clear := validatePrimitiveTable_unambiguous valid member elementwise types
  exact ⟨selectPrimitiveSignature_unique clear,fun signatures perm => selectPrimitiveSignature_perm clear perm⟩

/-- The production table is accepted, and its sum of an integer and a double is the sum of doubles. -/
theorem validatedTable_selects_sum :
    (selectPrimitiveSignature ⟨.add,"add".toList,.elementwise,addSignatures.reverse⟩
      [.integer,.doublePrecision]).signature = some ⟨[scalarDouble,scalarDouble],scalarDouble,.addDouble⟩ := by
  have valid : (validatePrimitiveTable productionDescriptors).ok = true := by decide
  have selected := validatedTable_selects.2 productionDescriptors valid
    ⟨.add,"add".toList,.elementwise,addSignatures⟩ (by decide) rfl [.integer,.doublePrecision]
  exact (selected.2 addSignatures.reverse (List.reverse_perm addSignatures).symm).2.1.trans (by decide)

end Bennu
