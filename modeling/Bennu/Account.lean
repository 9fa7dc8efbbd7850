import Mathlib

/-! Counters, limits and admission checks of one evaluation resource state.
The functions here only read and replace the counters; the binding of host
buffers to a state is layered over them in `Bennu.Resources`. -/
namespace Bennu

/-- The largest `size_t` of the 64-bit targets. -/
def sizeMax : Nat := 2 ^ 64 - 1

/-- `size_t` addition, with its wrap. -/
def sizeAdd (a b : Nat) : Nat := (a + b) % (sizeMax + 1)

/-- `size_t` multiplication, with its wrap. -/
def sizeMul (a b : Nat) : Nat := (a * b) % (sizeMax + 1)

theorem sizeAdd_exact {a b : Nat} (left : a ≤ sizeMax) (room : b ≤ sizeMax - a) :
    sizeAdd a b = a + b :=
  Nat.mod_eq_of_lt (by omega)

theorem sizeMul_exact {a b : Nat} (positive : 0 < b) (room : a ≤ sizeMax / b) :
    sizeMul a b = a * b :=
  Nat.mod_eq_of_lt (Nat.lt_succ_of_le ((Nat.le_div_iff_mul_le positive).mp room))

theorem sizeAdd_le (a b : Nat) : sizeAdd a b ≤ sizeMax :=
  Nat.le_of_lt_succ (Nat.mod_lt _ (Nat.succ_pos _))

inductive ScalarType where
  | boolean | integer | doublePrecision
  deriving DecidableEq, Repr

inductive ExecutionProfile where
  | trustedLocalV1 | boundedV1 | trustedLocalV2 | boundedV2
  deriving DecidableEq, Repr

def executionProfileName : ExecutionProfile → String
  | .trustedLocalV1 => "trusted-local-v1"
  | .boundedV1 => "bounded-v1"
  | .trustedLocalV2 => "trusted-local-v2"
  | .boundedV2 => "bounded-v2"

structure ResourceLimits where
  maxVectorBytes : Option Nat
  maxLiveEvaluationBytes : Option Nat
  maxWorkUnits : Option Nat
  maxTupleTableBytes : Option Nat
  deriving DecidableEq, Repr

/-- A host request either succeeds (`none`) or names its reason. -/
inductive HostResourceErrorReason where
  | none | sizeOverflow | allocationUnavailable
  deriving DecidableEq, Repr

inductive ResourceErrorReason where
  | sizeOverflow | profileLimit | allocationUnavailable
  deriving DecidableEq, Repr

inductive ResourceLimitKind where
  | maxVectorBytes | maxTupleTableBytes | maxLiveEvaluationBytes | maxWorkUnits
  deriving DecidableEq, Repr

structure ResourceErrorContext where
  reason : ResourceErrorReason
  requestedElements : Option Nat
  requestedBytes : Option Nat
  profile : String
  limitKind : Option ResourceLimitKind
  configuredLimit : Option Nat
  usageBefore : Option Nat
  refusedCharge : Option Nat
  allocationOrdinal : Option Nat
  deriving DecidableEq, Repr

/-- The error of a refused operation. Location and producer name are the
caller's own arguments, copied into the error unread, and are added there. -/
inductive ResourceFault where
  | resource (context : ResourceErrorContext)
  | invalidExecutionProfile (message : String)
  | unsupportedTupleProfile (profileName : String)
  deriving DecidableEq, Repr

/-- The configuration and counters of `EvaluationResourceState`. -/
structure Account where
  profile : ExecutionProfile
  limits : ResourceLimits
  creationError : HostResourceErrorReason
  failAtReservationOrdinal : Option Nat
  liveEvaluationBytes : Nat
  workUnits : Nat
  reservationOrdinal : Nat
  deriving DecidableEq, Repr

namespace Account

def makeResourceFailure (a : Account) (reason : ResourceErrorReason)
    (elements bytes : Option Nat) (limit : Option (ResourceLimitKind × Nat × Nat × Nat))
    (ordinal : Option Nat) : ResourceFault :=
  .resource ⟨reason,elements,bytes,executionProfileName a.profile,limit.map (·.1),
    limit.map (·.2.1),limit.map (·.2.2.1),limit.map (·.2.2.2),ordinal⟩

def hasConfiguredLimit (l : ResourceLimits) : Bool :=
  l.maxVectorBytes.isSome || l.maxLiveEvaluationBytes.isSome || l.maxWorkUnits.isSome ||
    l.maxTupleTableBytes.isSome

def validateProfileConfiguration (a : Account) : Except ResourceFault Unit :=
  if a.creationError ≠ .none then
    .error (a.makeResourceFailure .allocationUnavailable none none none none)
  else match a.profile with
    | .trustedLocalV1 =>
      if hasConfiguredLimit a.limits then
        .error (.invalidExecutionProfile
          "trusted-local-v1 requires every resource limit to be omitted")
      else .ok ()
    | .boundedV1 =>
      if hasConfiguredLimit a.limits && a.limits.maxTupleTableBytes.isNone then .ok ()
      else if a.limits.maxTupleTableBytes.isSome then
        .error (.invalidExecutionProfile "bounded-v1 does not support max_tuple_table_bytes")
      else
        .error (.invalidExecutionProfile
          "bounded-v1 requires at least one configured resource limit")
    | .trustedLocalV2 =>
      if hasConfiguredLimit a.limits then
        .error (.invalidExecutionProfile
          "trusted-local-v2 requires every resource limit to be omitted")
      else .ok ()
    | .boundedV2 =>
      if hasConfiguredLimit a.limits then .ok ()
      else
        .error (.invalidExecutionProfile
          "bounded-v2 requires at least one configured resource limit")

def validateTupleProfile (a : Account) : Except ResourceFault Unit :=
  match a.validateProfileConfiguration with
  | .error e => .error e
  | .ok _ =>
    if a.profile = .trustedLocalV1 ∨ a.profile = .boundedV1 then
      .error (.unsupportedTupleProfile (executionProfileName a.profile))
    else .ok ()

structure Admission where
  liveAfter : Nat
  workAfter : Nat
  deriving DecidableEq, Repr

/-- What one operation asks of the account. -/
structure Request where
  vectorBytes : Option Nat
  liveCharge : Nat
  workCharge : Nat
  requestedElements : Option Nat
  requestedBytes : Option Nat
  deriving DecidableEq, Repr

/-- A configured limit that the amount exceeds. -/
def exceeds (limit : Option Nat) (amount : Nat) : Option Nat :=
  limit.bind fun bound => if amount > bound then some bound else none

def preflight (a : Account) (r : Request) : Except ResourceFault Admission :=
  if r.liveCharge > sizeMax - a.liveEvaluationBytes ∨ r.workCharge > sizeMax - a.workUnits then
    .error (a.makeResourceFailure .sizeOverflow r.requestedElements r.requestedBytes none none)
  else
    let liveAfter := sizeAdd a.liveEvaluationBytes r.liveCharge
    let workAfter := sizeAdd a.workUnits r.workCharge
    match r.vectorBytes.bind fun bytes => (exceeds a.limits.maxVectorBytes bytes).map (·,bytes) with
    | some (bound,bytes) =>
      .error (a.makeResourceFailure .profileLimit r.requestedElements r.requestedBytes
        (some (.maxVectorBytes,bound,0,bytes)) none)
    | none => match exceeds a.limits.maxLiveEvaluationBytes liveAfter with
      | some bound =>
        .error (a.makeResourceFailure .profileLimit r.requestedElements r.requestedBytes
          (some (.maxLiveEvaluationBytes,bound,a.liveEvaluationBytes,r.liveCharge)) none)
      | none => match exceeds a.limits.maxWorkUnits workAfter with
        | some bound =>
          .error (a.makeResourceFailure .profileLimit r.requestedElements r.requestedBytes
            (some (.maxWorkUnits,bound,a.workUnits,r.workCharge)) none)
        | none => .ok ⟨liveAfter,workAfter⟩

def commitAdmission (a : Account) (admission : Admission) : Account :=
  { a with liveEvaluationBytes := admission.liveAfter, workUnits := admission.workAfter }

/-- Take the next reservation ordinal. The counter has advanced when the
injected ordinal is refused. -/
def takeOrdinal (a : Account) (r : Request) : Account × Except ResourceFault Nat :=
  if a.reservationOrdinal = sizeMax then
    (a,.error (a.makeResourceFailure .sizeOverflow r.requestedElements r.requestedBytes none none))
  else
    let ordinal := a.reservationOrdinal
    let advanced := { a with reservationOrdinal := ordinal + 1 }
    if a.failAtReservationOrdinal = some ordinal then
      (advanced,.error (a.makeResourceFailure .allocationUnavailable r.requestedElements
        r.requestedBytes none (some ordinal)))
    else (advanced,.ok ordinal)

/-- The common tail of the three reserving operations: preflight, the ordinal,
the host buffer (`host` gives its outcome for each ordinal), and only then the
commit. An empty request commits without an ordinal. -/
def reserve (host : Nat → HostResourceErrorReason) (r : Request) (a : Account) :
    Account × Except ResourceFault (Option Nat) :=
  match a.preflight r with
  | .error e => (a,.error e)
  | .ok admission =>
    if r.liveCharge = 0 then (a.commitAdmission admission,.ok none)
    else match a.takeOrdinal r with
      | (advanced,.error e) => (advanced,.error e)
      | (advanced,.ok ordinal) => match host ordinal with
        | .none => (advanced.commitAdmission admission,.ok (some ordinal))
        | .sizeOverflow =>
          (advanced,.error (a.makeResourceFailure .sizeOverflow r.requestedElements
            r.requestedBytes none (some ordinal)))
        | .allocationUnavailable =>
          (advanced,.error (a.makeResourceFailure .allocationUnavailable r.requestedElements
            r.requestedBytes none (some ordinal)))

end Account

def elementWidth : ScalarType → Nat
  | .boolean => 1
  | .integer => 8
  | .doublePrecision => 8

namespace Account

def vectorRequest (a : Account) (type : ScalarType) (count work : Nat) :
    Except ResourceFault Request :=
  if count > sizeMax then
    .error (a.makeResourceFailure .sizeOverflow none none none none)
  else if count > sizeMax / elementWidth type then
    .error (a.makeResourceFailure .sizeOverflow (some count) none none none)
  else
    let bytes := sizeMul count (elementWidth type)
    .ok ⟨some bytes,bytes,work,some count,some bytes⟩

def allocateVector (host : Nat → HostResourceErrorReason) (type : ScalarType) (count work : Nat)
    (a : Account) : Account × Except ResourceFault (Option Nat) :=
  match a.validateProfileConfiguration with
  | .error e => (a,.error e)
  | .ok _ => match a.vectorRequest type count work with
    | .error e => (a,.error e)
    | .ok request => a.reserve host request

def reserveWorkspace (host : Nat → HostResourceErrorReason) (bytes work : Nat) (a : Account) :
    Account × Except ResourceFault (Option Nat) :=
  match a.validateProfileConfiguration with
  | .error e => (a,.error e)
  | .ok _ => a.reserve host ⟨none,bytes,work,none,some bytes⟩

def chargeWork (work : Nat) (a : Account) : Account × Except ResourceFault Unit :=
  match a.validateProfileConfiguration with
  | .error e => (a,.error e)
  | .ok _ => match a.preflight ⟨none,0,work,none,none⟩ with
    | .error e => (a,.error e)
    | .ok admission => (a.commitAdmission admission,.ok ())

def tupleElementSlotBytes : Nat := 16

def tupleRequest (a : Account) (count : Nat) : Except ResourceFault Request :=
  if count > sizeMax / tupleElementSlotBytes then
    .error (a.makeResourceFailure .sizeOverflow (some count) none none none)
  else
    let bytes := sizeMul count tupleElementSlotBytes
    match exceeds a.limits.maxTupleTableBytes bytes with
    | some bound =>
      .error (a.makeResourceFailure .profileLimit (some count) (some bytes)
        (some (.maxTupleTableBytes,bound,0,bytes)) none)
    | none => .ok ⟨none,bytes,0,some count,some bytes⟩

def reserveTupleTable (host : Nat → HostResourceErrorReason) (count : Nat) (a : Account) :
    Account × Except ResourceFault (Option Nat) :=
  match a.validateTupleProfile with
  | .error e => (a,.error e)
  | .ok _ => match a.tupleRequest count with
    | .error e => (a,.error e)
    | .ok request => a.reserve host request

/-- Give back charged bytes; a charge above the counter leaves it alone. -/
def refund (bytes : Nat) (a : Account) : Account :=
  if bytes ≤ a.liveEvaluationBytes then
    { a with liveEvaluationBytes := a.liveEvaluationBytes - bytes }
  else a

/-- The counters are `size_t` values. -/
structure Sized (a : Account) : Prop where
  live : a.liveEvaluationBytes ≤ sizeMax
  work : a.workUnits ≤ sizeMax
  ordinal : a.reservationOrdinal ≤ sizeMax

theorem Sized.refund {a : Account} (sized : a.Sized) (bytes : Nat) : (a.refund bytes).Sized := by
  unfold Account.refund
  split
  · exact ⟨Nat.le_trans (Nat.sub_le _ _) sized.live,sized.work,sized.ordinal⟩
  · exact sized

/-- Every configured limit bounds its counter. -/
structure WithinLimits (a : Account) : Prop where
  live : ∀ bound, a.limits.maxLiveEvaluationBytes = some bound → a.liveEvaluationBytes ≤ bound
  work : ∀ bound, a.limits.maxWorkUnits = some bound → a.workUnits ≤ bound

/-- An admission is exact: nothing wrapped, and no configured limit is passed. -/
structure Admits (a : Account) (r : Request) (admission : Admission) : Prop where
  live : admission.liveAfter = a.liveEvaluationBytes + r.liveCharge
  work : admission.workAfter = a.workUnits + r.workCharge
  liveSize : admission.liveAfter ≤ sizeMax
  workSize : admission.workAfter ≤ sizeMax
  vectorLimit : ∀ bytes bound, r.vectorBytes = some bytes →
    a.limits.maxVectorBytes = some bound → bytes ≤ bound
  liveLimit : ∀ bound, a.limits.maxLiveEvaluationBytes = some bound → admission.liveAfter ≤ bound
  workLimit : ∀ bound, a.limits.maxWorkUnits = some bound → admission.workAfter ≤ bound

theorem exceeds_none {limit : Option Nat} {amount : Nat} :
    exceeds limit amount = none ↔ ∀ bound, limit = some bound → amount ≤ bound := by
  cases limit with
  | none => simp [exceeds]
  | some bound => simp [exceeds]

theorem preflight_ok {a : Account} {r : Request} {admission : Admission} (sized : a.Sized)
    (ok : a.preflight r = .ok admission) : a.Admits r admission := by
  unfold preflight at ok
  split at ok
  · cases ok
  · rename_i room
    simp only [not_or,gt_iff_lt,Nat.not_lt] at room
    have liveExact := sizeAdd_exact sized.live room.1
    have workExact := sizeAdd_exact sized.work room.2
    have liveSize := sizeAdd_le a.liveEvaluationBytes r.liveCharge
    have workSize := sizeAdd_le a.workUnits r.workCharge
    dsimp only at ok
    split at ok
    · cases ok
    · rename_i vector
      split at ok
      · cases ok
      · rename_i live
        split at ok
        · cases ok
        · rename_i work
          cases ok
          refine ⟨liveExact,workExact,liveSize,workSize,?_,exceeds_none.mp live,exceeds_none.mp work⟩
          intro bytes bound requested configured
          rw [requested] at vector
          simp only [Option.bind_some,Option.map_eq_none_iff] at vector
          exact exceeds_none.mp vector bound configured

@[simp] theorem commitAdmission_limits (a : Account) (admission : Admission) :
    (a.commitAdmission admission).limits = a.limits := rfl

/-- The four ways a reserving operation can end. -/
inductive Reserves (r : Request) (a : Account) :
    Account → Except ResourceFault (Option Nat) → Prop
  | refused (fault : ResourceFault) : Reserves r a a (.error fault)
  | spent (admission : Admission) (fault : ResourceFault)
      (admitted : a.preflight r = .ok admission) (room : a.reservationOrdinal ≠ sizeMax) :
      Reserves r a { a with reservationOrdinal := a.reservationOrdinal + 1 } (.error fault)
  | empty (admission : Admission) (admitted : a.preflight r = .ok admission)
      (nothing : r.liveCharge = 0) : Reserves r a (a.commitAdmission admission) (.ok none)
  | reserved (admission : Admission) (admitted : a.preflight r = .ok admission)
      (something : r.liveCharge ≠ 0) (room : a.reservationOrdinal ≠ sizeMax) :
      Reserves r a
        ({ a with reservationOrdinal := a.reservationOrdinal + 1 }.commitAdmission admission)
        (.ok (some a.reservationOrdinal))

theorem reserve_cases (host : Nat → HostResourceErrorReason) (r : Request) (a : Account) :
    Reserves r a (a.reserve host r).1 (a.reserve host r).2 := by
  unfold reserve
  split
  · exact .refused _
  · rename_i admission admitted
    split
    · rename_i nothing
      exact .empty admission admitted nothing
    · rename_i something
      unfold takeOrdinal
      by_cases full : a.reservationOrdinal = sizeMax
      · simp only [full,if_true]
        exact .refused _
      · simp only [full,if_false]
        by_cases injected : a.failAtReservationOrdinal = some a.reservationOrdinal
        · rw [if_pos injected]
          exact .spent admission _ admitted full
        · rw [if_neg injected]
          dsimp only
          cases host a.reservationOrdinal with
          | none => exact .reserved admission admitted something full
          | sizeOverflow => exact .spent admission _ admitted full
          | allocationUnavailable => exact .spent admission _ admitted full

/-- The bytes that stay charged once an operation has ended. -/
def chargedBytes : Except ResourceFault (Option Nat) → Nat → Nat
  | .ok (some _),bytes => bytes
  | _,_ => 0

/-- A finished reservation leaves sized counters and charges exactly its bytes. -/
theorem Reserves.charge {r : Request} {a a' : Account} {result : Except ResourceFault (Option Nat)}
    (ended : Reserves r a a' result) (sized : a.Sized) :
    a'.Sized ∧ a'.liveEvaluationBytes = a.liveEvaluationBytes + chargedBytes result r.liveCharge ∧
      (∀ ordinal, result = .ok (some ordinal) → r.liveCharge ≠ 0) := by
  have next : a.reservationOrdinal ≠ sizeMax → a.reservationOrdinal + 1 ≤ sizeMax := by
    have bound := sized.ordinal
    omega
  cases ended with
  | refused fault => exact ⟨sized,rfl,by simp⟩
  | spent admission fault admitted room => exact ⟨⟨sized.live,sized.work,next room⟩,rfl,by simp⟩
  | empty admission admitted nothing =>
    have admits := preflight_ok sized admitted
    refine ⟨⟨admits.liveSize,admits.workSize,sized.ordinal⟩,?_,by simp⟩
    simpa [nothing,commitAdmission,chargedBytes] using admits.live
  | reserved admission admitted something room =>
    have admits := preflight_ok sized admitted
    exact ⟨⟨admits.liveSize,admits.workSize,next room⟩,admits.live,fun _ _ => something⟩

theorem vectorRequest_ok {a : Account} {type : ScalarType} {count work : Nat} {r : Request}
    (ok : a.vectorRequest type count work = .ok r) :
    count * elementWidth type ≤ sizeMax ∧
      r = ⟨some (count * elementWidth type),count * elementWidth type,work,some count,
        some (count * elementWidth type)⟩ := by
  have positive : 0 < elementWidth type := by cases type <;> decide
  unfold vectorRequest at ok
  split at ok
  · cases ok
  · split at ok
    · cases ok
    · rename_i room
      have room := Nat.le_of_not_lt room
      simp only [sizeMul_exact positive room] at ok
      cases ok
      exact ⟨(Nat.le_div_iff_mul_le positive).mp room,rfl⟩

theorem tupleRequest_ok {a : Account} {count : Nat} {r : Request}
    (ok : a.tupleRequest count = .ok r) :
    count * 16 ≤ sizeMax ∧ r = ⟨none,count * 16,0,some count,some (count * 16)⟩ ∧
      ∀ bound, a.limits.maxTupleTableBytes = some bound → count * 16 ≤ bound := by
  unfold tupleRequest at ok
  split at ok
  · cases ok
  · rename_i room
    have room := Nat.le_of_not_lt room
    have exactly : sizeMul count tupleElementSlotBytes = count * 16 :=
      sizeMul_exact (by decide) room
    simp only [exactly] at ok
    split at ok
    · cases ok
    · rename_i within
      cases ok
      exact ⟨(Nat.le_div_iff_mul_le (by decide)).mp room,rfl,exceeds_none.mp within⟩

end Account
end Bennu
