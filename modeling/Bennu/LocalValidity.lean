import Bennu.Resources

/-! What the local checks of `validate_value` accept: scalars, vector payloads and
tuple tables, each stated on its own fields. -/
namespace Bennu

/-- A NaN has the canonical bits. -/
def CanonicalDouble (bits : Binary64) : Prop := isNanBits bits = true → bits = canonicalNanBits

/-- The inactive fields are zero and a double is canonical. -/
def ScalarValue.Sound (s : ScalarValue) : Prop :=
  match s.type with
  | .boolean => s.integer = 0 ∧ s.doublePrecision = 0
  | .integer => s.boolean = false ∧ s.doublePrecision = 0
  | .doublePrecision => s.boolean = false ∧ s.integer = 0 ∧ CanonicalDouble s.doublePrecision

/-- A buffer of this many bytes: none at all, or one registered under its element type. -/
def Registered (h : Host) (element : HostElement) (storage : Option Nat) (bytes : Nat) : Prop :=
  match storage with
  | none => bytes = 0
  | some payload =>
    ∃ record, h.findRecord payload = some record ∧ record.element = element ∧ record.byteCount = bytes

/-- An accounting record of this many bytes. An active record that is not empty names a live
owner and is the very binding that its buffer was registered with. -/
structure Holding.Recorded (h : Host) (x : Holding) (bytes : Nat) : Prop where
  size : bytes ≤ sizeMax
  counted : x.bytes = bytes
  unbound : x.active = false → x.owner = 0
  empty : bytes = 0 → x.owner = 0 ∧ x.ordinal = none
  bound : bytes ≠ 0 → x.active = true → (h.findState x.owner).isSome = true ∧
    ∃ payload ordinal record, x.storage = some payload ∧ x.ordinal = some ordinal ∧
      h.findRecord payload = some record ∧
      record.semantic = ⟨x.owner,bytes,ordinal,x.purpose,true⟩

def VectorValue.byteCount (v : VectorValue) : Nat := v.activeLength * elementWidth v.elementType

structure VectorValue.Sound (h : Host) (v : VectorValue) : Prop where
  booleansInactive : v.elementType ≠ .boolean → v.booleans = none ∧ v.booleanCount = 0
  integersInactive : v.elementType ≠ .integer → v.integers = none ∧ v.integerCount = 0
  doublesInactive : v.elementType ≠ .doublePrecision → v.doubles = none ∧ v.doubleCount = 0
  held : v.activeLength = 0 ↔ v.storage = none
  registered : Registered h (scalarElement v.elementType) v.storage v.byteCount
  booleans : ∀ b ∈ v.booleans.elim [] (·.elements), b ≤ 1
  doubles : ∀ d ∈ v.doubles.elim [] (·.elements), CanonicalDouble d
  recorded : v.holding.Recorded h v.byteCount
  inert : v.activeLength = 0 → v.accountingActive = false

/-- The table of a tuple of `count` children, sixteen bytes each. -/
structure TupleTableReservation.Sound (h : Host) (r : TupleTableReservation) (count : Nat) : Prop where
  counted : r.elementCount = count
  held : count = 0 ↔ r.payload = none
  registered : Registered h .byte r.payload (count * 16)
  recorded : r.holding.Recorded h (count * 16)

theorem isCanonicalDouble_iff (bits : Binary64) : isCanonicalDouble bits = true ↔ CanonicalDouble bits := by
  unfold isCanonicalDouble CanonicalDouble
  cases isNanBits bits <;> simp

theorem validateScalar_none (s : ScalarValue) : validateScalar s = none ↔ s.Sound := by
  unfold validateScalar ScalarValue.Sound
  cases s.type with
  | boolean => simp
  | integer => simp
  | doublePrecision =>
    simp only [← isCanonicalDouble_iff]
    cases s.boolean <;> by_cases zero : s.integer = 0 <;>
      cases isCanonicalDouble s.doublePrecision <;> simp [zero]

theorem isEmptyScalar_iff (s : ScalarValue) : isEmptyScalar s = true ↔ s = emptyScalar := by
  obtain ⟨type,boolean,integer,double⟩ := s
  simp [isEmptyScalar,emptyScalar,and_assoc]

theorem hostBufferValid_iff {h : Host} {element : HostElement} {storage : Option Nat} {bytes : Nat} :
    h.hostBufferValid element storage bytes = true ↔ Registered h element storage bytes := by
  unfold Host.hostBufferValid Registered
  cases storage with
  | none => simp
  | some payload =>
    dsimp only
    cases h.findRecord payload <;> simp

/-- A live owner whose binding matches is exactly a binding recorded for it. -/
theorem bound_iff {h : Host} {storage : Option Nat} {owner bytes : Nat} {ordinal : Option Nat}
    {purpose : AllocationPurpose} : (h.findState owner).isSome = true ∧
      h.semanticHostBufferMatches storage owner bytes ordinal purpose = true ↔
    (h.findState owner).isSome = true ∧ ∃ payload number record, storage = some payload ∧
      ordinal = some number ∧ h.findRecord payload = some record ∧
      record.semantic = ⟨owner,bytes,number,purpose,true⟩ := by
  refine and_congr_right fun live => ?_
  have named : owner ≠ 0 := by
    rintro rfl
    simp [Host.findState] at live
  unfold Host.semanticHostBufferMatches
  cases storage with
  | none => simp
  | some payload =>
    cases ordinal with
    | none => simp
    | some number =>
      cases found : h.findRecord payload with
      | none => simp [found]
      | some record =>
        obtain ⟨_,_,_,⟨owner',bytes',number',purpose',active⟩⟩ := record
        dsimp only
        rw [found]
        simp only [Host.bindingMatches,Bool.and_eq_true,beq_iff_eq,decide_eq_true_eq]
        constructor
        · rintro ⟨-,⟨⟨⟨isActive,isOwner⟩,isBytes⟩,isNumber⟩,isPurpose⟩
          exact ⟨payload,number,_,rfl,rfl,found,by simp [isActive,isOwner,isBytes,isNumber,isPurpose]⟩
        · rintro ⟨_,_,_,isStorage,isOrdinal,found',same⟩
          cases isStorage
          cases isOrdinal
          cases found.symm.trans found'
          simp only [SemanticBinding.mk.injEq] at same
          simp [same,named]

/-- The accounting checks that vectors and tuple tables share. -/
theorem recorded_iff (h : Host) (x : Holding) (bytes : Nat) : x.Recorded h bytes ↔
    bytes ≤ sizeMax ∧ x.bytes = bytes ∧ (x.active = false → x.owner = 0) ∧
      (bytes = 0 → x.owner = 0 ∧ x.ordinal = none) ∧
      (bytes ≠ 0 → x.active = true → (h.findState x.owner).isSome = true ∧
        h.semanticHostBufferMatches x.storage x.owner bytes x.ordinal x.purpose = true) := by
  constructor
  · rintro ⟨size,counted,unbound,empty,bound⟩
    exact ⟨size,counted,unbound,empty,fun some active => bound_iff.mpr (bound some active)⟩
  · rintro ⟨size,counted,unbound,empty,bound⟩
    exact ⟨size,counted,unbound,empty,fun some active => bound_iff.mp (bound some active)⟩

theorem owner_of_live {h : Host} {owner : Nat} (live : (h.findState owner).isSome = true) : owner ≠ 0 := by
  rintro rfl
  simp [Host.findState] at live

theorem ordinal_of_matches {h : Host} {storage : Option Nat} {owner bytes : Nat} {ordinal : Option Nat}
    {purpose : AllocationPurpose}
    (bound : h.semanticHostBufferMatches storage owner bytes ordinal purpose = true) :
    ordinal.isSome = true := by
  cases ordinal with
  | some number => rfl
  | none => cases storage <;> simp [Host.semanticHostBufferMatches] at bound

/-- The owner and the ordinal that the code checks before the binding are implied by it. -/
theorem bound_checks {h : Host} {storage : Option Nat} {owner bytes : Nat} {ordinal : Option Nat}
    {purpose : AllocationPurpose} : (¬owner = 0 ∧ (h.findState owner).isSome = true ∧
      ordinal.isSome = true ∧ h.semanticHostBufferMatches storage owner bytes ordinal purpose = true) ↔
    (h.findState owner).isSome = true ∧
      h.semanticHostBufferMatches storage owner bytes ordinal purpose = true :=
  ⟨fun ⟨_,live,_,bound⟩ => ⟨live,bound⟩,
    fun ⟨live,bound⟩ => ⟨owner_of_live live,live,ordinal_of_matches bound,bound⟩⟩

theorem accountingValid_iff (h : Host) (v : VectorValue) {count width : Nat} (positive : 0 < width) :
    accountingValid h v count width = true ↔
      v.holding.Recorded h (count * width) ∧ (count = 0 → v.accountingActive = false) := by
  have fits : count ≤ sizeMax / width ↔ count * width ≤ sizeMax := Nat.le_div_iff_mul_le positive
  have nothing : count * width = 0 ↔ count = 0 := by
    simp [Nat.pos_iff_ne_zero.mp positive]
  unfold accountingValid
  rw [← nothing,recorded_iff]
  generalize count * width = bytes at fits nothing
  simp only [Bool.and_eq_true,Bool.not_eq_true',decide_eq_true_eq,fits,beq_iff_eq]
  dsimp only [VectorValue.holding]
  by_cases empty : bytes = 0
  · cases v.accountingActive <;> cases v.allocationOrdinal <;> simp [empty]
  · cases active : v.accountingActive with
    | false => simp [empty,and_assoc]
    | true => simp [empty,and_assoc,bound_checks]

theorem reservationValid_iff (h : Host) (r : TupleTableReservation) (count : Nat) :
    reservationValid h r count = true ↔ r.Sound h count := by
  have fits : count ≤ sizeMax / 16 ↔ count * 16 ≤ sizeMax := Nat.le_div_iff_mul_le (by decide)
  have nothing : count * 16 = 0 ↔ count = 0 := by omega
  have whole : r.Sound h count ↔ r.elementCount = count ∧ (count = 0 ↔ r.payload = none) ∧
      Registered h .byte r.payload (count * 16) ∧ r.holding.Recorded h (count * 16) :=
    ⟨fun ⟨a,b,c,d⟩ => ⟨a,b,c,d⟩,fun ⟨a,b,c,d⟩ => ⟨a,b,c,d⟩⟩
  have null : r.payload = none ↔ r.storage = none := by simp [TupleTableReservation.payload]
  unfold reservationValid
  rw [whole,← nothing,null,recorded_iff]
  generalize count * 16 = bytes at fits nothing
  simp only [Bool.and_eq_true,Bool.not_eq_true',decide_eq_true_eq,fits,beq_iff_eq,hostBufferValid_iff]
  dsimp only [TupleTableReservation.holding]
  by_cases empty : bytes = 0
  · cases r.accountingActive <;> cases r.allocationOrdinal <;> cases r.storage <;>
      simp [empty] <;> tauto
  · cases active : r.accountingActive with
    | false =>
      cases r.storage
      · simp [empty]
      · simp [empty]
        tauto
    | true =>
      cases r.storage
      · simp [empty]
      · simp [empty,and_assoc,bound_checks]
        tauto

theorem elementWidth_pos (type : ScalarType) : 0 < elementWidth type := by
  cases type <;> decide

theorem refused_none {p : Prop} [Decidable p] {invariant : ValueInvariant} {rest : Option ValueInvariant} :
    (if p then some invariant else rest) = none ↔ ¬p ∧ rest = none := by
  split <;> simp [*]

theorem granted_none {ok : Bool} {invariant : ValueInvariant} :
    (if ok then none else some invariant) = none ↔ ok = true := by
  cases ok <;> simp

theorem decide_isNone {α : Type} {count : Nat} {pointer : Option α} :
    decide (count = 0) = pointer.isNone ↔ (count = 0 ↔ pointer = none) := by
  cases pointer <;> simp

/-- What the three vector checks have in common, from the fields of the active element type. -/
theorem VectorValue.Sound.active {h : Host} {v : VectorValue} {count width : Nat}
    {storage : Option Nat} {element : HostElement} (length : v.activeLength = count)
    (isStorage : v.storage = storage) (isElement : scalarElement v.elementType = element)
    (isWidth : elementWidth v.elementType = width) : v.Sound h ↔
      ((v.elementType ≠ .boolean → v.booleans = none ∧ v.booleanCount = 0) ∧
      (v.elementType ≠ .integer → v.integers = none ∧ v.integerCount = 0) ∧
      (v.elementType ≠ .doublePrecision → v.doubles = none ∧ v.doubleCount = 0)) ∧
      (count = 0 ↔ storage = none) ∧ h.hostBufferValid element storage (count * width) = true ∧
      (∀ b ∈ v.booleans.elim [] (·.elements), b ≤ 1) ∧
      (∀ d ∈ v.doubles.elim [] (·.elements), CanonicalDouble d) ∧
      accountingValid h v count width = true := by
  subst length isStorage isElement isWidth
  rw [hostBufferValid_iff,accountingValid_iff h v (elementWidth_pos v.elementType)]
  exact ⟨fun ⟨a,b,c,d,e,f,g,i,j⟩ => ⟨⟨a,b,c⟩,d,e,f,g,i,j⟩,
    fun ⟨⟨a,b,c⟩,d,e,f,g,i,j⟩ => ⟨a,b,c,d,e,f,g,i,j⟩⟩

theorem count_of_accounting {h : Host} {v : VectorValue} {count width : Nat}
    (ok : accountingValid h v count width = true) : ¬count > sizeMax / width := by
  simp only [accountingValid,Bool.and_eq_true,decide_eq_true_eq] at ok
  omega

theorem vectorValidation_none (h : Host) (v : VectorValue) : vectorValidation h v = none ↔ v.Sound h := by
  unfold vectorValidation
  cases type : v.elementType with
  | boolean =>
    have storage : v.storage = v.booleans.map (·.payload) := by simp [VectorValue.storage,type]
    have length : v.activeLength = v.booleanCount := by simp [VectorValue.activeLength,type]
    have width : elementWidth v.elementType = 1 := by rw [type]; rfl
    rw [VectorValue.Sound.active length storage (congrArg scalarElement type) width]
    simp only [refused_none,granted_none,not_or,Option.not_isSome_iff_eq_none,not_not,
      decide_isNone]
    constructor
    · rintro ⟨⟨integers,integerCount,doubles,doubleCount,held⟩,valid,elements,recorded⟩
      exact ⟨⟨fun other => absurd type other,fun _ => ⟨integers,integerCount⟩,
        fun _ => ⟨doubles,doubleCount⟩⟩,by simpa using held,by simpa [scalarElement] using valid,
        by simpa using elements,by simp [doubles],recorded⟩
    · rintro ⟨⟨-,integers,doubles⟩,held,valid,elements,-,recorded⟩
      obtain ⟨integers,integerCount⟩ := integers (by simp [type])
      obtain ⟨doubles,doubleCount⟩ := doubles (by simp [type])
      exact ⟨⟨integers,integerCount,doubles,doubleCount,by simpa using held⟩,
        by simpa [scalarElement] using valid,by simpa using elements,recorded⟩
  | integer =>
    have storage : v.storage = v.integers.map (·.payload) := by simp [VectorValue.storage,type]
    have length : v.activeLength = v.integerCount := by simp [VectorValue.activeLength,type]
    have width : elementWidth v.elementType = 8 := by rw [type]; rfl
    rw [VectorValue.Sound.active length storage (congrArg scalarElement type) width]
    simp only [refused_none,granted_none,not_or,Option.not_isSome_iff_eq_none,not_not,
      decide_isNone]
    constructor
    · rintro ⟨⟨booleans,booleanCount,doubles,doubleCount,held⟩,⟨-,valid⟩,recorded⟩
      exact ⟨⟨fun _ => ⟨booleans,booleanCount⟩,fun other => absurd type other,
        fun _ => ⟨doubles,doubleCount⟩⟩,by simpa using held,by simpa [scalarElement] using valid,
        by simp [booleans],by simp [doubles],recorded⟩
    · rintro ⟨⟨booleans,-,doubles⟩,held,valid,-,-,recorded⟩
      obtain ⟨booleans,booleanCount⟩ := booleans (by simp [type])
      obtain ⟨doubles,doubleCount⟩ := doubles (by simp [type])
      exact ⟨⟨booleans,booleanCount,doubles,doubleCount,by simpa using held⟩,
        ⟨count_of_accounting recorded,by simpa [scalarElement] using valid⟩,recorded⟩
  | doublePrecision =>
    have storage : v.storage = v.doubles.map (·.payload) := by simp [VectorValue.storage,type]
    have length : v.activeLength = v.doubleCount := by simp [VectorValue.activeLength,type]
    have width : elementWidth v.elementType = 8 := by rw [type]; rfl
    rw [VectorValue.Sound.active length storage (congrArg scalarElement type) width]
    simp only [refused_none,granted_none,not_or,Option.not_isSome_iff_eq_none,not_not,
      decide_isNone]
    constructor
    · rintro ⟨⟨booleans,booleanCount,integers,integerCount,held⟩,⟨-,valid⟩,elements,recorded⟩
      exact ⟨⟨fun _ => ⟨booleans,booleanCount⟩,fun _ => ⟨integers,integerCount⟩,
        fun other => absurd type other⟩,by simpa using held,by simpa [scalarElement] using valid,
        by simp [booleans],by simpa [← isCanonicalDouble_iff] using elements,recorded⟩
    · rintro ⟨⟨booleans,integers,-⟩,held,valid,-,elements,recorded⟩
      obtain ⟨booleans,booleanCount⟩ := booleans (by simp [type])
      obtain ⟨integers,integerCount⟩ := integers (by simp [type])
      exact ⟨⟨booleans,booleanCount,integers,integerCount,by simpa using held⟩,
        ⟨count_of_accounting recorded,by simpa [scalarElement] using valid⟩,
        by simpa [← isCanonicalDouble_iff] using elements,recorded⟩

end Bennu
