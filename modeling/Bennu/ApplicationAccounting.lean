import Bennu.ApplicationLifting

/-! What an application takes from storage: on success what its result holds, on failure nothing. -/
namespace Bennu

section accounting

variable {initial : Baseline} {rest : List Holding} {h after : Host} {resources : EvaluationResources}
  {platform : KernelPlatform} {descriptor : PrimitiveDescriptor} {selected : Nat} {signature : PrimitiveSignature}
  {arguments : List (TypedPrimitiveArgument Value)} {location : RewritePosition} {index : Nat} {value : Value}

/-- Vectors that differ in their elements alone. -/
structure SameStorage (left right : VectorValue) : Prop where
  elementType : right.elementType = left.elementType
  booleans : right.booleans.map (·.payload) = left.booleans.map (·.payload)
  booleanCount : right.booleanCount = left.booleanCount
  integers : right.integers.map (·.payload) = left.integers.map (·.payload)
  integerCount : right.integerCount = left.integerCount
  doubles : right.doubles.map (·.payload) = left.doubles.map (·.payload)
  doubleCount : right.doubleCount = left.doubleCount
  canonicalBytes : right.canonicalBytes = left.canonicalBytes
  accountingActive : right.accountingActive = left.accountingActive
  accountingOwner : right.accountingOwner = left.accountingOwner
  allocationOrdinal : right.allocationOrdinal = left.allocationOrdinal

theorem write_payload {α : Type} (buffer : Option (HostBuffer α)) (index : Nat) (element : α) :
    (buffer.map (·.write index element)).map (·.payload) = buffer.map (·.payload) := by
  cases buffer <;> rfl

namespace SameStorage

variable {left right : VectorValue} (same : SameStorage left right)
include same

theorem holding : right.holding = left.holding := by
  simp only [VectorValue.holding,VectorValue.storage,same.elementType,same.booleans,same.integers,same.doubles,
    same.canonicalBytes,same.accountingActive,same.accountingOwner,same.allocationOrdinal]

theorem storage : right.storage = left.storage := by
  simp only [VectorValue.storage,same.elementType,same.booleans,same.integers,same.doubles]

theorem activeLength : right.activeLength = left.activeLength := by
  simp only [VectorValue.activeLength,same.elementType,same.booleanCount,same.integerCount,same.doubleCount]

theorem tidy (tidy : left.Tidy) : right.Tidy := by
  refine ⟨fun other => ?_,fun other => ?_,fun other => ?_,fun owned => ?_⟩
  · have free := same.booleans
    rw [tidy.booleans (same.elementType ▸ other)] at free
    exact Option.map_eq_none_iff.mp free
  · have free := same.integers
    rw [tidy.integers (same.elementType ▸ other)] at free
    exact Option.map_eq_none_iff.mp free
  · have free := same.doubles
    rw [tidy.doubles (same.elementType ▸ other)] at free
    exact Option.map_eq_none_iff.mp free
  · rw [same.canonicalBytes,same.activeLength,same.elementType]
    exact tidy.charged (same.accountingOwner ▸ owned)

theorem trans {last : VectorValue} (later : SameStorage right last) : SameStorage left last :=
  ⟨later.elementType.trans same.elementType,later.booleans.trans same.booleans,
    later.booleanCount.trans same.booleanCount,later.integers.trans same.integers,
    later.integerCount.trans same.integerCount,later.doubles.trans same.doubles,later.doubleCount.trans same.doubleCount,
    later.canonicalBytes.trans same.canonicalBytes,later.accountingActive.trans same.accountingActive,
    later.accountingOwner.trans same.accountingOwner,later.allocationOrdinal.trans same.allocationOrdinal⟩

end SameStorage

theorem SameStorage.refl (vector : VectorValue) : SameStorage vector vector :=
  ⟨rfl,rfl,rfl,rfl,rfl,rfl,rfl,rfl,rfl,rfl,rfl⟩

/-- Values whose vectors differ in their elements alone. -/
def Rewritten (before value : Value) : Prop :=
  ∃ vector, value = { before with vector } ∧ SameStorage before.vector vector

theorem kept_same {vector : VectorValue} (kept : value.Kept initial rest h) (same : SameStorage value.vector vector) :
    ({ value with vector } : Value).Kept initial rest h := by
  obtain ⟨accounted,tidy,-,tuple⟩ := kept
  refine ⟨?_,same.tidy tidy,trivial,tuple⟩
  show Accounted initial h (vector.holding :: value.tuple.holdings ++ rest)
  rw [same.holding]
  exact accounted

theorem Rewritten.kept {before : Value} (kept : before.Kept initial rest h) (rewritten : Rewritten before value) :
    value.Kept initial rest h := by
  obtain ⟨vector,rfl,same⟩ := rewritten
  exact kept_same kept same

theorem Rewritten.storage {before : Value} (rewritten : Rewritten before value) :
    value.vector.storage = before.vector.storage := by
  obtain ⟨vector,rfl,same⟩ := rewritten
  exact same.storage

theorem Rewritten.tuple {before : Value} (rewritten : Rewritten before value) : value.tuple = before.tuple := by
  obtain ⟨vector,rfl,-⟩ := rewritten
  rfl

theorem Rewritten.trans {before last : Value} (first : Rewritten before value) (later : Rewritten value last) :
    Rewritten before last := by
  obtain ⟨vector,rfl,same⟩ := first
  obtain ⟨other,rfl,more⟩ := later
  exact ⟨other,rfl,same.trans more⟩

theorem storeScalar_rewritten {scalar : ScalarValue} {stored : Value}
    (stores : storeScalar value index scalar = some stored) : Rewritten value stored := by
  rw [storeScalar] at stores
  split at stores
  · cases stores
  · cases stores
    refine ⟨_,rfl,?_⟩
    cases scalar.type <;> exact ⟨rfl,by simp only [write_payload],rfl,by simp only [write_payload],rfl,
      by simp only [write_payload],rfl,rfl,rfl,rfl,rfl⟩

theorem fillIota_same (vector : VectorValue) (count : Nat) : SameStorage vector (fillIota vector count) := by
  rw [fillIota]
  generalize List.range count = places
  induction places generalizing vector with
  | nil => exact .refl vector
  | cons place places ih =>
    have first : SameStorage vector
        { vector with integers := vector.integers.map (·.write place (Int64.ofNat place + 1)) } :=
      ⟨rfl,rfl,rfl,write_payload _ _ _,rfl,rfl,rfl,rfl,rfl,rfl,rfl⟩
    exact first.trans (ih _)

/-- A vector that is abandoned leaves nothing behind. -/
theorem abandonVector_accounted (kept : value.Kept initial rest h) : Accounted initial (abandonVector h resources value) rest :=
  (releaseVectorReservation_kept noHostFailure kept).dropped

theorem allocateVector_kept {type : ScalarType} {count work : Nat} (accounted : Accounted initial h rest)
    (allocated : h.allocateVector resources type count work = (after,.ok value)) : value.Kept initial rest after := by
  have charged : AccountedAfter initial rest Value.holdings (h.allocateVector resources type count work) :=
    allocateVector_accounted accounted type count work
  rw [allocated] at charged
  exact ⟨charged,allocateVector_tidy allocated⟩

theorem allocateVector_refused {type : ScalarType} {count work : Nat} {fault : ResourceFault}
    (accounted : Accounted initial h rest)
    (refused : h.allocateVector resources type count work = (after,.error fault)) : Accounted initial after rest := by
  have charged : AccountedAfter initial rest Value.holdings (h.allocateVector resources type count work) :=
    allocateVector_accounted accounted type count work
  rw [refused] at charged
  exact charged

theorem checkArguments_same {all : List (TypedPrimitiveArgument Value)} :
    ∀ {arguments : List (TypedPrimitiveArgument Value)} {h after : Host} {actualTypes : List ScalarType} {outcome},
      checkArguments descriptor all h actualTypes arguments = (after,outcome) → h.SameRegistries after
  | [],_,_,_,_,ends => by
    cases ends
    exact .refl _
  | argument :: rest,h,_,actualTypes,_,ends => by
    rw [checkArguments] at ends
    split at ends
    · rename_i rejected
      cases ends
      exact validateValue_next rejected
    · rename_i accepted
      have same := validateValue_next accepted
      split at ends
      · cases ends
        exact same
      · split at ends
        · cases ends
          exact same
        · exact same.trans (checkArguments_same ends)
        · exact same.trans (checkArguments_same ends)

theorem applyElements_rewritten (remaining : Nat) : ∀ {index : Nat} {value : Value} {outcome},
    applyElements platform descriptor selected signature arguments location remaining index value = some outcome →
      Rewritten value (match outcome with
        | .ok result => result
        | .error (_,partly) => partly) := by
  induction remaining with
  | zero =>
    intro index value outcome ends
    cases ends
    exact ⟨_,rfl,.refl _⟩
  | succ remaining ih =>
    intro index value outcome ends
    rw [applyElements] at ends
    obtain ⟨element,-,ends⟩ := Option.bind_eq_some_iff.mp ends
    cases element with
    | error failure =>
      cases ends
      exact ⟨_,rfl,.refl _⟩
    | ok scalar =>
      dsimp only at ends
      split at ends
      · cases ends
        exact ⟨_,rfl,.refl _⟩
      · rename_i stored stores
        exact (storeScalar_rewritten stores).trans (ih ends)

theorem valueFromScalar_kept (accounted : Accounted initial h rest) (scalar : ScalarValue) :
    (valueFromScalar scalar).Kept initial rest h := by
  rw [valueFromScalar]
  split <;> exact kept_empty accounted rfl rfl

theorem applyStructural_accounted (accounted : Accounted initial h rest) (typedSignature : Option Nat)
    (actualTypes : List ScalarType) :
    AccountedAfter initial rest Value.holdings
      (applyStructural h resources descriptor typedSignature arguments actualTypes) := by
  unfold applyStructural
  split
  · exact accounted
  · split
    · split
      · exact accounted
      · dsimp only
        split
        · rename_i refused
          exact allocateVector_refused accounted refused
        · rename_i allocated
          exact (kept_same (allocateVector_kept accounted allocated) (fillIota_same _ _)).accounted
    · exact accounted

theorem applyLifted_accounted (accounted : Accounted initial h rest) (typedSignature : Option Nat)
    (actualTypes : List ScalarType) {ended : Application}
    (ends : applyLifted platform h resources descriptor typedSignature arguments actualTypes location = some ended) :
    AccountedAfter initial rest Value.holdings ended := by
  rw [applyLifted] at ends
  split at ends
  · cases ends
    exact accounted
  · split at ends
    · cases ends
      exact accounted
    · have worked : Accounted initial (h.chargeWork resources 1).1 rest := chargeWork_accounted accounted 1
      split at ends
      · rename_i refused
        rw [refused] at worked
        cases ends
        exact worked
      · rename_i charged
        rw [charged] at worked
        obtain ⟨outcome,-,rfl⟩ := Option.map_eq_some_iff.mp ends
        cases outcome with
        | error failure => exact worked
        | ok scalar => exact (valueFromScalar_kept worked scalar).accounted
    · split at ends
      · rename_i refused
        cases ends
        exact allocateVector_refused accounted refused
      · rename_i allocated
        obtain ⟨outcome,ran,rfl⟩ := Option.map_eq_some_iff.mp ends
        have kept := (applyElements_rewritten _ ran).kept (allocateVector_kept accounted allocated)
        cases outcome with
        | ok result => exact kept.accounted
        | error failure => exact abandonVector_accounted kept

/-- An application leaves the registries accounted: when it succeeds its result is held beside what
was held before, and when it fails nothing is held but that. -/
theorem apply_accounted (accounted : Accounted initial h rest) (typedSignature : Option Nat) {ended : Application}
    (ends : applyPrimitiveImpl platform h resources descriptor typedSignature arguments location = some ended) :
    AccountedAfter initial rest Value.holdings ended := by
  rw [applyPrimitiveImpl] at ends
  split at ends
  · cases ends
    exact accounted
  · split at ends
    · cases ends
      exact accounted
    · split at ends
      · rename_i refused
        cases ends
        exact accounted.sameRegistries (checkArguments_same refused)
      · rename_i checked
        have accounted := accounted.sameRegistries (checkArguments_same checked)
        split at ends
        · cases ends
          exact applyStructural_accounted accounted typedSignature _
        · exact applyLifted_accounted accounted typedSignature _ ends

/-! ### Buffers -/

/-- The buffers without that of a pointer. -/
def withoutBuffer (buffers : List HostAllocationRecord) (pointer : Option Nat) : List HostAllocationRecord :=
  pointer.elim buffers fun payload => KeyedList.discard HostAllocationRecord.payload payload buffers

theorem releaseHostBuffer_buffers (h : Host) (pointer : Option Nat) :
    (h.releaseHostBuffer pointer).buffers = withoutBuffer h.buffers pointer := by
  cases pointer with
  | none => rfl
  | some payload =>
    rw [Host.releaseHostBuffer]
    split
    · rename_i missing
      have apart := KeyedList.lookup_none missing
      exact (List.filter_eq_self.mpr fun record member => by simp [apart record member]).symm
    · dsimp only
      split
      · simp [Host.releaseAbandonedSemanticAllocation,Host.refundOwner,withoutBuffer]
      · rfl

theorem dropVector_buffers (h : Host) {vector : VectorValue} (tidy : vector.Tidy) :
    (h.dropVector vector).buffers = withoutBuffer h.buffers vector.storage := by
  have b := tidy.booleans
  have i := tidy.integers
  have d := tidy.doubles
  rw [Host.dropVector,VectorValue.storage]
  cases same : vector.elementType
  case boolean =>
    rw [i (by simp [same]),d (by simp [same])]
    exact releaseHostBuffer_buffers h _
  case integer =>
    rw [b (by simp [same]),d (by simp [same])]
    exact releaseHostBuffer_buffers h _
  case doublePrecision =>
    rw [b (by simp [same]),i (by simp [same])]
    exact releaseHostBuffer_buffers h _

theorem dropValue_buffers (h : Host) (tidy : value.vector.Tidy) (tuple : value.tuple = emptyTuple) :
    (h.dropValue value).buffers = withoutBuffer h.buffers value.vector.storage := by
  rw [← dropVector_buffers h tidy,Host.dropValue,tuple]
  rfl

theorem consumeHolding_buffers {holding : Holding} {next : Host} (consumed : h.consumeHolding holding = some next) :
    withoutBuffer next.buffers holding.storage = withoutBuffer h.buffers holding.storage := by
  unfold Host.consumeHolding Host.consumeSemanticHostBuffer at consumed
  split at consumed
  · rename_i matches'
    cases consumed
    cases pointer : holding.storage with
    | none => simp [pointer,Host.semanticHostBufferMatches] at matches'
    | some payload => exact KeyedList.discard_adjust fun _ => rfl
  · cases consumed

theorem releaseVectorParts_buffers (h : Host) (tidy : value.vector.Tidy) (tuple : value.tuple = emptyTuple) :
    ((h.releaseVectorParts resources value).1.dropValue (h.releaseVectorParts resources value).2.1).buffers =
      withoutBuffer h.buffers value.vector.storage := by
  unfold Host.releaseVectorParts
  dsimp only
  split
  · exact dropValue_buffers h tidy tuple
  · split
    · exact dropValue_buffers h tidy tuple
    · rename_i next consumed
      have same : withoutBuffer next.buffers value.vector.storage = withoutBuffer h.buffers value.vector.storage := by
        split at consumed
        · exact consumeHolding_buffers consumed
        · cases consumed
          rfl
      dsimp only
      have dropped := fun used => @dropValue_buffers { value with vector := value.vector.released } used tidy.released tuple
      refine (dropped _).trans ?_
      rw [VectorValue.released_storage]
      refine (releaseHostBuffer_buffers _ _).trans ?_
      rw [Host.buffers_release,← same]
      split
      · rw [Host.refundOwner,Host.buffers_modifyAccount]
        rfl
      · rfl

/-- A vector that is abandoned loses its buffer, whether its release is granted or not. -/
theorem abandonVector_buffers (h : Host) (tidy : value.vector.Tidy) (tuple : value.tuple = emptyTuple) :
    (abandonVector h resources value).buffers = withoutBuffer h.buffers value.vector.storage := by
  unfold abandonVector
  by_cases vector : value.container = .vector
  · cases verdict : validateValue noHostFailure h value with
    | mk used validated =>
      obtain ⟨next,verdict'⟩ := validated
      obtain ⟨_,rfl⟩ := validateValue_next verdict
      cases verdict' with
      | some failure =>
        simp only [Host.releaseVectorReservation,vector,verdict,ne_eq,not_true_eq_false,if_false]
        exact dropValue_buffers _ tidy tuple
      | none =>
        simp only [Host.releaseVectorReservation,vector,verdict,ne_eq,not_true_eq_false,if_false]
        split
        · exact dropValue_buffers _ tidy tuple
        · exact releaseVectorParts_buffers _ tidy tuple
  · simp only [Host.releaseVectorReservation,vector,ne_eq,not_false_eq_true,if_true]
    exact dropValue_buffers h tidy tuple

/-- The record of a vector's storage. -/
def VectorValue.records (v : VectorValue) : List HostAllocationRecord :=
  v.storage.toList.map fun payload => ⟨payload,v.canonicalBytes,scalarElement v.elementType,
    ⟨v.accountingOwner,v.canonicalBytes,v.allocationOrdinal.getD 0,.vectorPayload,v.accountingActive⟩⟩

/-- Buffers to which a vector's storage was added. -/
structure Grown (before after : List HostAllocationRecord) (vector : VectorValue) : Prop where
  appended : after = before ++ vector.records
  apart : ∀ record ∈ before, vector.storage ≠ some record.payload

theorem SameStorage.records {left right : VectorValue} (same : SameStorage left right) : right.records = left.records := by
  simp only [VectorValue.records,same.storage,same.elementType,same.canonicalBytes,same.accountingOwner,
    same.allocationOrdinal,same.accountingActive]

theorem Grown.same {before buffers : List HostAllocationRecord} {left right : VectorValue} (same : SameStorage left right)
    (grown : Grown before buffers left) : Grown before buffers right :=
  ⟨same.records ▸ grown.appended,fun record member => same.storage ▸ grown.apart record member⟩

theorem Grown.removed {before buffers : List HostAllocationRecord} {vector : VectorValue}
    (grown : Grown before buffers vector) : withoutBuffer buffers vector.storage = before := by
  obtain ⟨rfl,apart⟩ := grown
  unfold VectorValue.records
  cases pointer : vector.storage with
  | none => exact List.append_nil _
  | some payload =>
    have fresh : ∀ record ∈ before, HostAllocationRecord.payload record ≠ payload := fun record member same =>
      apart record member (pointer.trans (congrArg some same.symm))
    exact @KeyedList.discard_append _ _ _ HostAllocationRecord.payload before ⟨payload,_,_,_⟩ fresh

theorem Grown.unstored {before : List HostAllocationRecord} {vector : VectorValue} (unstored : vector.storage = none) :
    Grown before before vector := by
  refine ⟨?_,fun record _ stored => ?_⟩
  · simp [VectorValue.records,unstored]
  · cases unstored.symm.trans stored

theorem Rewritten.grown {before buffers : List HostAllocationRecord} {left : Value} (rewritten : Rewritten left value)
    (grown : Grown before buffers left.vector) : Grown before buffers value.vector := by
  obtain ⟨vector,rfl,same⟩ := rewritten
  exact grown.same same

theorem allocateVector_grown {type : ScalarType} {count work : Nat} (accounted : Accounted initial h rest)
    (allocated : h.allocateVector resources type count work = (after,.ok value)) :
    Grown h.buffers after.buffers value.vector ∧ value.tuple = emptyTuple := by
  unfold Host.allocateVector at allocated
  split at allocated
  · cases allocated
  · split at allocated
    · cases allocated
    · cases allocated
      refine ⟨?_,rfl⟩
      rw [Host.setAccount,Host.buffers_modifyAccount]
      exact .unstored (by cases type <;> rfl)
    · cases allocated
      refine ⟨⟨?_,fun record member stored => ?_⟩,rfl⟩
      · cases type <;> simp [Host.bindFreshBuffer,Host.setAccount,VectorValue.records,vectorValue,vectorOver,
          VectorValue.storage,emptyVectorOf,scalarElement,HostElement.width,elementWidth]
      · have fresh : record.payload = h.nextPayload := by cases type <;> exact (Option.some.inj stored).symm
        have old := accounted.balanced.fresh record member
        omega

/-- What an application does to the buffers: a failure leaves them as they were, and a success adds the
storage of its result. -/
def LeavesBuffers (before : List HostAllocationRecord) : Application → Prop
  | (after,.error _) => after.buffers = before
  | (after,.ok value) => Grown before after.buffers value.vector

theorem valueFromScalar_storage (scalar : ScalarValue) : (valueFromScalar scalar).vector.storage = none := by
  rw [valueFromScalar]
  split <;> rfl

theorem allocateVector_same {type : ScalarType} {count work : Nat} {fault : ResourceFault}
    (refused : h.allocateVector resources type count work = (after,.error fault)) : after.buffers = h.buffers := by
  unfold Host.allocateVector at refused
  split at refused
  · cases refused
    rfl
  · split at refused
    · cases refused
      simp [Host.setAccount]
    · cases refused
    · cases refused

theorem chargeWork_buffers (h : Host) (resources : EvaluationResources) (work : Nat) :
    (h.chargeWork resources work).1.buffers = h.buffers := by
  unfold Host.chargeWork
  split
  · rfl
  · simp [Host.setAccount]

theorem applyStructural_buffers (accounted : Accounted initial h rest) (typedSignature : Option Nat)
    (actualTypes : List ScalarType) :
    LeavesBuffers h.buffers (applyStructural h resources descriptor typedSignature arguments actualTypes) := by
  unfold applyStructural
  split
  · rfl
  · split
    · split
      · rfl
      · dsimp only
        split
        · rename_i refused
          exact allocateVector_same refused
        · rename_i value allocated
          exact (allocateVector_grown accounted allocated).1.same (fillIota_same value.vector _)
    · rfl

theorem applyLifted_buffers (accounted : Accounted initial h rest) (typedSignature : Option Nat)
    (actualTypes : List ScalarType) {ended : Application}
    (ends : applyLifted platform h resources descriptor typedSignature arguments actualTypes location = some ended) :
    LeavesBuffers h.buffers ended := by
  rw [applyLifted] at ends
  split at ends
  · cases ends
    rfl
  · split at ends
    · cases ends
      rfl
    · have same := chargeWork_buffers h resources 1
      split at ends
      · rename_i refused
        rw [refused] at same
        cases ends
        exact same
      · rename_i charged
        rw [charged] at same
        obtain ⟨outcome,-,rfl⟩ := Option.map_eq_some_iff.mp ends
        cases outcome with
        | error failure => exact same
        | ok scalar =>
          show Grown _ _ (valueFromScalar scalar).vector
          rw [same]
          exact .unstored (valueFromScalar_storage scalar)
    · split at ends
      · rename_i refused
        cases ends
        exact allocateVector_same refused
      · rename_i allocated
        have kept := allocateVector_kept accounted allocated
        obtain ⟨grown,tuple⟩ := allocateVector_grown accounted allocated
        obtain ⟨outcome,ran,rfl⟩ := Option.map_eq_some_iff.mp ends
        have rewritten := applyElements_rewritten _ ran
        have ended := rewritten.kept kept
        cases outcome with
        | ok result => exact rewritten.grown grown
        | error failure =>
          show (abandonVector _ _ _).buffers = _
          rw [abandonVector_buffers _ ended.tidy.vector (rewritten.tuple.trans tuple),rewritten.storage]
          exact grown.removed

theorem apply_buffers (accounted : Accounted initial h rest) (typedSignature : Option Nat) {ended : Application}
    (ends : applyPrimitiveImpl platform h resources descriptor typedSignature arguments location = some ended) :
    LeavesBuffers h.buffers ended := by
  rw [applyPrimitiveImpl] at ends
  split at ends
  · cases ends
    rfl
  · split at ends
    · cases ends
      rfl
    · split at ends
      · rename_i refused
        cases ends
        obtain ⟨_,rfl⟩ := checkArguments_same refused
        rfl
      · rename_i checked
        have same := checkArguments_same checked
        have accounted := accounted.sameRegistries same
        obtain ⟨_,rfl⟩ := same
        split at ends
        · cases ends
          exact applyStructural_buffers accounted typedSignature _
        · exact applyLifted_buffers accounted typedSignature _ ends

end accounting

/-! ### Accounts -/

/-- A context that is open or has a binding is registered. -/
theorem Host.Balanced.present {initial : Baseline} {h : Host} (balanced : h.Balanced initial) {token : Nat}
    (held : 0 < h.activeBindings token + (initial.opened token).toNat) : ∃ state, h.findState token = some state := by
  by_cases isOpen : initial.opened token = true
  · exact Option.isSome_iff_exists.mp (balanced.registered token isOpen)
  · by_contra gone
    have unbound : ∀ record ∈ h.buffers, boundCount token record = 0 := by
      intro record member
      rw [boundCount,if_neg]
      rintro ⟨active,rfl⟩
      exact gone (Option.isSome_iff_exists.mp (balanced.owned record member active))
    rw [Host.activeBindings,KeyedList.total,List.map_congr_left unbound] at held
    simp [isOpen] at held

/-- An application ends. -/
theorem apply_ends (platform : KernelPlatform) (h : Host) (resources : EvaluationResources)
    (descriptor : PrimitiveDescriptor) (typedSignature : Option Nat) (arguments : List (TypedPrimitiveArgument Value))
    (location : RewritePosition) :
    ∃ ended, applyPrimitiveImpl platform h resources descriptor typedSignature arguments location = some ended := by
  rw [applyPrimitiveImpl]
  split
  · exact ⟨_,rfl⟩
  · split
    · exact ⟨_,rfl⟩
    · split
      · exact ⟨_,rfl⟩
      · rename_i h actualTypes checked
        split
        · exact ⟨_,rfl⟩
        · rw [show actualTypes = argumentTypes arguments from checkArguments_types checked]
          obtain ⟨after,outcome,ends,-⟩ :=
            applyLifted_outcome platform h resources descriptor typedSignature arguments location
          exact ⟨_,ends⟩

/-- The records of what an application ends with. -/
def resultRecords : Except ApplicationFailure Value → List HostAllocationRecord
  | .error _ => []
  | .ok value => value.vector.records

theorem LeavesBuffers.total {before : List HostAllocationRecord} {after : Host}
    {outcome : Except ApplicationFailure Value} (leaves : LeavesBuffers before (after,outcome))
    (measure : HostAllocationRecord → Nat) :
    KeyedList.total measure after.buffers =
      KeyedList.total measure before + KeyedList.total measure (resultRecords outcome) := by
  cases outcome with
  | error failure =>
    rw [show after.buffers = before from leaves]
    rfl
  | ok value =>
    rw [leaves.appended,KeyedList.total,List.map_append,List.sum_append]
    rfl

/-- An application from accounted registries ends, and every context grows by the records of its result. -/
theorem apply_charges {initial : Baseline} {rest : List Holding} {h : Host} (accounted : Accounted initial h rest)
    (platform : KernelPlatform) (resources : EvaluationResources) (descriptor : PrimitiveDescriptor)
    (typedSignature : Option Nat) (arguments : List (TypedPrimitiveArgument Value)) (location : RewritePosition) :
    ∃ after outcome,
      applyPrimitiveImpl platform h resources descriptor typedSignature arguments location = some (after,outcome) ∧
      LeavesBuffers h.buffers (after,outcome) ∧
      ∀ token state, h.findState token = some state → ∃ ended, after.findState token = some ended ∧
        ended.account.liveEvaluationBytes =
          state.account.liveEvaluationBytes + KeyedList.total (boundBytes token) (resultRecords outcome) ∧
        ended.referenceCount = state.referenceCount + KeyedList.total (boundCount token) (resultRecords outcome) := by
  obtain ⟨⟨after,outcome⟩,ends⟩ := apply_ends platform h resources descriptor typedSignature arguments location
  have leaves := apply_buffers accounted typedSignature ends
  have before := accounted.balanced
  have balanced : after.Balanced initial := by
    have held := apply_accounted accounted typedSignature ends
    cases outcome with
    | error failure => exact held.balanced
    | ok value => exact held.balanced
  refine ⟨after,outcome,ends,leaves,fun token state found => ?_⟩
  have bytes : after.activeBytes token = h.activeBytes token + _ := leaves.total (boundBytes token)
  have bindings : after.activeBindings token = h.activeBindings token + _ := leaves.total (boundCount token)
  have counted := before.references token state found
  have positive := before.referenced token state found
  rw [before.active token state found] at counted
  obtain ⟨ended,present⟩ := balanced.present (show 0 < after.activeBindings token + (initial.opened token).toNat by omega)
  refine ⟨ended,present,?_,?_⟩
  · rw [balanced.live token ended present,before.live token state found,bytes,Nat.add_assoc]
  · rw [balanced.references token ended present,balanced.active token ended present,counted,bindings,Nat.add_right_comm]

/-- In a process that any operations led to, an application ends; a failure leaves the buffers as they
were, and a success adds the storage of its result and no other. Every context stays registered, its
live bytes and its references grown by those of the result. -/
theorem application_accounting (bufferPlan : Nat → Nat → HostResourceErrorReason)
    (arrayPlan : Nat → HostResourceErrorReason) {accounts : List Account} (sized : ∀ a ∈ accounts, a.Sized)
    (operations : List ResourceOperation) (platform : KernelPlatform) (resources : EvaluationResources)
    (descriptor : PrimitiveDescriptor) (typedSignature : Option Nat) (arguments : List (TypedPrimitiveArgument Value))
    (location : RewritePosition) :
    let h := ((startSession bufferPlan arrayPlan accounts).run operations).host
    ∃ after outcome,
      applyPrimitiveImpl platform h resources descriptor typedSignature arguments location = some (after,outcome) ∧
      LeavesBuffers h.buffers (after,outcome) ∧
      ∀ token state, h.findState token = some state → ∃ ended, after.findState token = some ended ∧
        ended.account.liveEvaluationBytes =
          state.account.liveEvaluationBytes + KeyedList.total (boundBytes token) (resultRecords outcome) ∧
        ended.referenceCount = state.referenceCount + KeyedList.total (boundCount token) (resultRecords outcome) :=
  apply_charges (ResourceSession.run_sound (startSession_sound sized) operations).accounted platform resources descriptor
    typedSignature arguments location

/-- A process that holds one vector of three integers. -/
def vectorSession : ResourceSession :=
  (startSession (fun _ _ => .none) (fun _ => .none) [trustedLocalV2Account]).run [.allocateVector 0 .integer 3 3]

/-- That vector as an argument, its last element replaced. -/
def vectorArgument (last : Int64) : TypedPrimitiveArgument Value :=
  let value := vectorSession.values.headD (makeIntValue 0)
  ⟨(storeScalar value 2 ⟨.integer,false,last,0⟩).getD value,none⟩

/-- The live bytes and the references of the session's context, if they are. -/
def contextCounts (h : Host) : Option (Nat × Nat) :=
  (h.findState 1).map fun state => (state.account.liveEvaluationBytes,state.referenceCount)

/-- What the context is charged for the result of an application, and whether there is one. -/
def resultCounts (outcome : Except ApplicationFailure Value) : (Nat × Nat) × Bool :=
  ((KeyedList.total (boundBytes 1) (resultRecords outcome),KeyedList.total (boundCount 1) (resultRecords outcome)),
    outcome.toOption.isSome)

/-- Incremented, the vector takes as much again; one that ends in the largest integer is refused, and
leaves what was there. -/
theorem application_accounting_vectors : ∃ inc, findPrimitive "inc".toList = some inc ∧
    (∃ after value, applyPrimitiveImpl integerPlatform vectorSession.host openedHost.2 inc none [vectorArgument 5] ⟨1,1,1⟩ =
        some (after,.ok value) ∧
      Grown vectorSession.host.buffers after.buffers value.vector ∧ contextCounts after = some (48,3)) ∧
    ∃ after failure, applyPrimitiveImpl integerPlatform vectorSession.host openedHost.2 inc none
        [vectorArgument Int64.maxValue] ⟨1,1,1⟩ = some (after,.error failure) ∧
      after.buffers = vectorSession.host.buffers ∧ contextCounts after = some (24,2) := by
  have counts : contextCounts vectorSession.host = some (24,2) := by decide +kernel
  have grants : (findPrimitive "inc".toList).map (fun inc => (applyPrimitiveImpl integerPlatform vectorSession.host
      openedHost.2 inc none [vectorArgument 5] ⟨1,1,1⟩).map (resultCounts ·.2)) = some (some ((24,1),true)) := by
    decide +kernel
  have refuses : (findPrimitive "inc".toList).map (fun inc => (applyPrimitiveImpl integerPlatform vectorSession.host
      openedHost.2 inc none [vectorArgument Int64.maxValue] ⟨1,1,1⟩).map (resultCounts ·.2)) =
        some (some ((0,0),false)) := by decide +kernel
  obtain ⟨state,found,counts⟩ := Option.map_eq_some_iff.mp counts
  obtain ⟨bytes,bindings⟩ := Prod.mk.inj counts
  have sized : ∀ a ∈ [trustedLocalV2Account], a.Sized := by simpa using trustedLocalV2Account_sized
  obtain ⟨inc,known,grants⟩ := Option.map_eq_some_iff.mp grants
  rw [known,Option.map_some,Option.some.injEq] at refuses
  have run := fun last => application_accounting (fun _ _ => .none) (fun _ => .none) sized
    [.allocateVector 0 .integer 3 3] integerPlatform openedHost.2 inc none [vectorArgument last] ⟨1,1,1⟩
  have counted : ∀ {after : Host} {outcome : Except ApplicationFailure Value} {charged : Nat × Nat} {granted : Bool},
      (∀ token state, vectorSession.host.findState token = some state → ∃ ended, after.findState token = some ended ∧
        ended.account.liveEvaluationBytes =
          state.account.liveEvaluationBytes + KeyedList.total (boundBytes token) (resultRecords outcome) ∧
        ended.referenceCount = state.referenceCount + KeyedList.total (boundCount token) (resultRecords outcome)) →
      resultCounts outcome = (charged,granted) → contextCounts after = some (24 + charged.1,2 + charged.2) := by
    intro after outcome charged granted contexts charges
    obtain ⟨ended,present,live,references⟩ := contexts 1 state found
    obtain ⟨rfl,-⟩ := Prod.mk.inj charges
    rw [contextCounts,present,Option.map_some,live,references,bytes,bindings]
  refine ⟨inc,known,?_,?_⟩
  · obtain ⟨after,outcome,ran,leaves,contexts⟩ := run 5
    rw [show applyPrimitiveImpl integerPlatform vectorSession.host _ _ _ _ _ = _ from ran,Option.map_some,
      Option.some.injEq] at grants
    cases outcome with
    | error failure => cases (Prod.mk.inj grants).2
    | ok value => exact ⟨after,value,ran,leaves,counted contexts grants⟩
  · obtain ⟨after,outcome,ran,leaves,contexts⟩ := run Int64.maxValue
    rw [show applyPrimitiveImpl integerPlatform vectorSession.host _ _ _ _ _ = _ from ran,Option.map_some,
      Option.some.injEq] at refuses
    cases outcome with
    | error failure => exact ⟨after,failure,ran,leaves,counted contexts refuses⟩
    | ok value => cases (Prod.mk.inj refuses).2

end Bennu
