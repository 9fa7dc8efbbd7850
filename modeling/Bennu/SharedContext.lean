import Bennu.Account
import Bennu.MirroredState

/-! Context handles that share one resource state. A handle is a public record
that mirrors the configuration and the counters of the state; every operation
reconciles the two under the lock of the state. -/
namespace Bennu

open MirroredState

/-- The part of the state that only configuration updates replace. -/
structure ContextConfiguration where
  profile : ExecutionProfile
  limits : ResourceLimits
  creationError : HostResourceErrorReason
  failAtReservationOrdinal : Option Nat
  deriving DecidableEq, Repr

/-- The part that `finish_resource_record_sync` stores. -/
structure ContextCounters where
  liveEvaluationBytes : Nat
  workUnits : Nat
  reservationOrdinal : Nat
  deriving DecidableEq, Repr

namespace ContextConfiguration

def account (config : ContextConfiguration) (counters : ContextCounters) : Account :=
  ⟨config.profile,config.limits,config.creationError,config.failAtReservationOrdinal,
    counters.liveEvaluationBytes,counters.workUnits,counters.reservationOrdinal⟩

end ContextConfiguration

namespace Account

def contextConfiguration (a : Account) : ContextConfiguration :=
  ⟨a.profile,a.limits,a.creationError,a.failAtReservationOrdinal⟩

def contextCounters (a : Account) : ContextCounters :=
  ⟨a.liveEvaluationBytes,a.workUnits,a.reservationOrdinal⟩

@[simp] theorem account_contextCounters (a : Account) :
    a.contextConfiguration.account a.contextCounters = a := rfl

@[simp] theorem contextConfiguration_account (config : ContextConfiguration)
    (counters : ContextCounters) : (config.account counters).contextConfiguration = config := rfl

@[simp] theorem contextCounters_account (config : ContextConfiguration)
    (counters : ContextCounters) : (config.account counters).contextCounters = counters := rfl

theorem takeOrdinal_configuration (a : Account) (r : Request) :
    (a.takeOrdinal r).1.contextConfiguration = a.contextConfiguration := by
  unfold takeOrdinal
  split
  · rfl
  · dsimp only
    split <;> rfl

theorem reserve_configuration (host : Nat → HostResourceErrorReason) (r : Request) (a : Account) :
    (a.reserve host r).1.contextConfiguration = a.contextConfiguration := by
  have taken := takeOrdinal_configuration a r
  unfold reserve
  split
  · rfl
  · split
    · rfl
    · split
      · rename_i equal
        rwa [equal] at taken
      · rename_i equal
        rw [equal] at taken
        split <;> exact taken

end Account

/-- An operation on the whole account that changes its counters only, so that
storing the counters stores all of its effect. -/
structure CountingOperation where
  run : Account → Account
  configuration : ∀ a, (run a).contextConfiguration = a.contextConfiguration

namespace CountingOperation

def counters (operation : CountingOperation) (config : ContextConfiguration)
    (counters : ContextCounters) : ContextCounters :=
  (operation.run (config.account counters)).contextCounters

theorem account_counters (operation : CountingOperation) (config : ContextConfiguration)
    (counters : ContextCounters) :
    config.account (operation.counters config counters) =
      operation.run (config.account counters) := by
  have same := operation.configuration (config.account counters)
  rw [Account.contextConfiguration_account] at same
  calc config.account (operation.counters config counters)
      = (operation.run (config.account counters)).contextConfiguration.account
          (operation.counters config counters) := by rw [same]
    _ = operation.run (config.account counters) := Account.account_contextCounters _

def nothing : CountingOperation := ⟨id,fun _ => rfl⟩

def allocateVector (host : Nat → HostResourceErrorReason) (type : ScalarType) (count work : Nat) :
    CountingOperation where
  run a := (a.allocateVector host type count work).1
  configuration a := by
    unfold Account.allocateVector
    split
    · rfl
    · split
      · rfl
      · exact Account.reserve_configuration ..

def reserveWorkspace (host : Nat → HostResourceErrorReason) (bytes work : Nat) :
    CountingOperation where
  run a := (a.reserveWorkspace host bytes work).1
  configuration a := by
    unfold Account.reserveWorkspace
    split
    · rfl
    · exact Account.reserve_configuration ..

def chargeWork (work : Nat) : CountingOperation where
  run a := (a.chargeWork work).1
  configuration a := by
    unfold Account.chargeWork
    split
    · rfl
    · split <;> rfl

def reserveTupleTable (host : Nat → HostResourceErrorReason) (count : Nat) :
    CountingOperation where
  run a := (a.reserveTupleTable host count).1
  configuration a := by
    unfold Account.reserveTupleTable
    split
    · rfl
    · split
      · rfl
      · exact Account.reserve_configuration ..

def refund (bytes : Nat) : CountingOperation where
  run := Account.refund bytes
  configuration a := by
    unfold Account.refund
    split <;> rfl

end CountingOperation

/-- One node of the walk over a tuple value, as far as the account is concerned:
the bytes it holds, whether its binding is still there, whether it is still
charged, and whether the walk frees its storage. -/
structure ReservationVisit where
  canonicalBytes : Nat
  consumed : Bool
  accountingActive : Bool
  freed : Bool
  deriving DecidableEq, Repr

/-- The operations on a context handle. What lies outside the shared state (the
host's answers, the bindings, the checks of a value) is an argument. -/
inductive ContextOperation (Handle : Type) where
  | refresh
  | updateConfiguration
  | setLifetimeObserver
  | move (target : Handle)
  | allocateVector (host : Nat → HostResourceErrorReason) (type : ScalarType) (count work : Nat)
  | reserveWorkspace (host : Nat → HostResourceErrorReason) (bytes work : Nat)
  | releaseWorkspace (owned : Bool) (bytes : Nat)
  | chargeWork (work : Nat)
  | reserveTupleTable (host : Nat → HostResourceErrorReason) (count : Nat)
  | releaseTupleTable (consumed : Bool) (bytes : Nat) (freed : Bool)
  /-- `rollback` holds when the metadata of the tuple is refused by the host. -/
  | makeTupleValue (valid : Bool) (host : Nat → HostResourceErrorReason) (count : Nat)
      (rollback : Option Bool)
  | executeTupleConstruction (complete valid : Bool) (host : Nat → HostResourceErrorReason)
      (count : Nat) (rollback : Option Bool)
  | preadmitTupleAssembly (host : Nat → HostResourceErrorReason) (count : Nat)
      (rollback : Option Bool)
  | releasePreadmittedTupleAssembly
  | releaseVectorReservation (consumed active : Bool) (bytes : Nat) (freed : Bool)
  | walkReservations (visits : List ReservationVisit)
  | refundResourceStateBytes (bytes : Nat)

namespace ContextOperation

variable {Handle : Type}

abbrev ContextScript (Handle : Type) := Script Handle ContextConfiguration ContextCounters

/-- The section that ends an operation: the guard stores the counters before the
lock is dropped. -/
def leaveSynchronised (next : ContextScript Handle) : ContextScript Handle :=
  .finishSync (.leave next)

def observeIf (condition : Bool) (next : ContextScript Handle) : ContextScript Handle :=
  if condition then .observe next else next

/-- `observe_lifetime_unlocked` under the lock. -/
def observeLifetimeUnlocked (next : ContextScript Handle) : ContextScript Handle :=
  leaveSynchronised (.observe (.enter (.beginSync next)))

def computeAccount (operation : CountingOperation) (next : Account → ContextScript Handle) :
    ContextScript Handle :=
  .compute operation.counters fun config counters => next (config.account counters)

/-- The tuple-table reservation that three operations share. -/
def reserveTable (host : Nat → HostResourceErrorReason) (count : Nat)
    (next : ContextScript Handle) : ContextScript Handle :=
  computeAccount (.reserveTupleTable host count) fun a =>
    match (a.reserveTupleTable host count).2 with
    | .error _ => leaveSynchronised .done
    | .ok _ => leaveSynchronised next

/-- A reservation is given back: the binding must still be there, an active
charge is refunded, and the observer runs outside the lock. -/
def releaseReservation (consumed active : Bool) (bytes : Nat) (announced freed : Bool)
    (next : ContextScript Handle) : ContextScript Handle :=
  .enter <| .beginSync <|
    if bytes ≠ 0 ∧ consumed = false then leaveSynchronised next
    else if active then
      computeAccount (.refund bytes) fun a =>
        leaveSynchronised <| observeIf (announced && bytes ≤ a.liveEvaluationBytes) <|
          observeIf freed <| .enter <| leaveSynchronised next
    else leaveSynchronised <| observeIf freed <| .enter <| leaveSynchronised next

def releaseTable (consumed : Bool) (bytes : Nat) (freed : Bool) (next : ContextScript Handle) :
    ContextScript Handle :=
  releaseReservation consumed true bytes (bytes ≠ 0) freed next

/-- Give the table of a refused construction back. -/
def rollBackTable (rollback : Option Bool) (bytes : Nat) (next : ContextScript Handle) :
    ContextScript Handle :=
  match rollback with
  | none => next
  | some consumed => releaseTable consumed bytes (bytes ≠ 0) next

def tupleTableBytes (count : Nat) : Nat := sizeMul count Account.tupleElementSlotBytes

def makeTuple (valid : Bool) (host : Nat → HostResourceErrorReason) (count : Nat)
    (rollback : Option Bool) : ContextScript Handle :=
  .enter <| .beginSync <|
    if valid then
      reserveTable host count <| observeIf (tupleTableBytes count ≠ 0) <|
        rollBackTable rollback (tupleTableBytes count) <| .finishSync .done
    else leaveSynchronised .done

/-- The loop of `release_value_reservations` and `detach_value_reservations` over
the nodes of a tuple, with the lock held and the write-back armed. -/
def walk : List ReservationVisit → ContextScript Handle
  | [] => leaveSynchronised .done
  | visit :: rest =>
    let physical :=
      if visit.freed then observeLifetimeUnlocked (walk rest) else walk rest
    if visit.canonicalBytes ≠ 0 ∧ visit.consumed = false then leaveSynchronised .done
    else if visit.accountingActive then
      computeAccount (.refund visit.canonicalBytes) fun a =>
        if visit.canonicalBytes ≤ a.liveEvaluationBytes then observeLifetimeUnlocked physical
        else physical
    else physical

def script : ContextOperation Handle → ContextScript Handle
  | .refresh => .enter <| .refresh <| .leave .done
  | .updateConfiguration => .enter <| .update <| .leave .done
  | .setLifetimeObserver => .enter <| .leave .done
  | .move target => .enter <| .handOver target <| .leave .done
  | .allocateVector host type count work => .enter <| .beginSync <|
    computeAccount (.allocateVector host type count work) fun a =>
      match (a.allocateVector host type count work).2 with
      | .ok (some _) => leaveSynchronised <| .observe <| .enter <| leaveSynchronised .done
      | .ok none => leaveSynchronised .done
      | .error _ => leaveSynchronised .done
  | .reserveWorkspace host bytes work => .enter <| .beginSync <|
    computeAccount (.reserveWorkspace host bytes work) fun _ =>
      leaveSynchronised .done
  | .releaseWorkspace owned bytes => .enter <| .beginSync <|
    if owned then computeAccount (.refund bytes) fun _ => leaveSynchronised .done
    else leaveSynchronised .done
  | .chargeWork work => .enter <| .beginSync <|
    computeAccount (.chargeWork work) fun _ => leaveSynchronised .done
  | .reserveTupleTable host count => .enter <| .beginSync <|
    reserveTable host count <| observeIf (tupleTableBytes count ≠ 0) <| .finishSync .done
  | .releaseTupleTable consumed bytes freed => releaseTable consumed bytes freed .done
  | .makeTupleValue valid host count rollback => makeTuple valid host count rollback
  | .executeTupleConstruction complete valid host count rollback => .enter <| .beginSync <|
    computeAccount .nothing fun a => leaveSynchronised <|
      match a.validateTupleProfile with
      | .error _ => .done
      | .ok _ => .observe <| if complete then makeTuple valid host count rollback else .done
  | .preadmitTupleAssembly host count rollback => .enter <| .beginSync <|
    reserveTable host count <| rollBackTable rollback (tupleTableBytes count) <|
      observeIf (rollback.isNone && tupleTableBytes count ≠ 0) <| .finishSync .done
  | .releasePreadmittedTupleAssembly => .enter <| .beginSync <| leaveSynchronised .done
  | .releaseVectorReservation consumed active bytes freed =>
    releaseReservation consumed active bytes true freed .done
  | .walkReservations visits => .enter <| .beginSync <| walk visits
  | .refundResourceStateBytes bytes => .enter <|
    .adjust (CountingOperation.refund bytes).counters <| .leave .done

/-- A refund goes through the owner token of a binding, which keeps the state
alive; everything else acquires the state through an attached handle. -/
def needsContext : ContextOperation Handle → Bool
  | .refundResourceStateBytes _ => false
  | _ => true

section discipline

variable {next : ContextScript Handle} {armed : Bool}

theorem follows_leaveSynchronised (follows : Follows false false next) :
    Follows true armed (leaveSynchronised next) :=
  .finishSync (.leave follows)

theorem follows_observeIf (condition : Bool) (follows : Follows false false next) :
    Follows false false (observeIf condition next) := by
  unfold observeIf
  split
  · exact .observe follows
  · exact follows

theorem follows_observeLifetimeUnlocked (follows : Follows true true next) :
    Follows true true (observeLifetimeUnlocked next) := by
  apply follows_leaveSynchronised
  exact .observe (.enter (.beginSync follows))

theorem follows_computeAccount (operation : CountingOperation)
    {next : Account → ContextScript Handle} (follows : ∀ a, Follows true true (next a)) :
    Follows true true (computeAccount operation next) :=
  .compute fun _ _ => follows _

theorem follows_reserveTable (host : Nat → HostResourceErrorReason) (count : Nat)
    (follows : Follows false false next) : Follows true true (reserveTable host count next) := by
  apply follows_computeAccount
  intro a
  split
  · exact follows_leaveSynchronised .done
  · exact follows_leaveSynchronised follows

theorem follows_releaseReservation (consumed active : Bool) (bytes : Nat) (announced freed : Bool)
    (follows : Follows false false next) :
    Follows false false (releaseReservation consumed active bytes announced freed next) := by
  have relock : Follows false false (.enter (leaveSynchronised next)) :=
    .enter (follows_leaveSynchronised follows)
  apply Follows.enter
  apply Follows.beginSync
  split
  · exact follows_leaveSynchronised follows
  · split
    · apply follows_computeAccount
      intro a
      apply follows_leaveSynchronised
      apply follows_observeIf
      exact follows_observeIf freed relock
    · apply follows_leaveSynchronised
      exact follows_observeIf freed relock

theorem follows_rollBackTable (rollback : Option Bool) (bytes : Nat)
    (follows : Follows false false next) :
    Follows false false (rollBackTable rollback bytes next) := by
  cases rollback with
  | none => exact follows
  | some consumed => exact follows_releaseReservation _ _ _ _ _ follows

theorem follows_makeTuple (valid : Bool) (host : Nat → HostResourceErrorReason) (count : Nat)
    (rollback : Option Bool) :
    Follows false false (makeTuple valid host count rollback : ContextScript Handle) := by
  apply Follows.enter
  apply Follows.beginSync
  split
  · apply follows_reserveTable
    apply follows_observeIf
    apply follows_rollBackTable
    exact .finishIdle .done
  · exact follows_leaveSynchronised .done

/-- By induction on the visits; each of them starts and ends with the write-back
armed. -/
theorem follows_walk (visits : List ReservationVisit) :
    Follows true true (walk visits : ContextScript Handle) := by
  induction visits with
  | nil => exact follows_leaveSynchronised .done
  | cons visit rest remaining =>
    have physical : Follows true true
        (if visit.freed then observeLifetimeUnlocked (walk rest) else walk rest :
          ContextScript Handle) := by
      split
      · exact follows_observeLifetimeUnlocked remaining
      · exact remaining
    unfold walk
    dsimp only
    split
    · exact follows_leaveSynchronised .done
    · split
      · apply follows_computeAccount
        intro a
        split
        · exact follows_observeLifetimeUnlocked physical
        · exact physical
      · exact physical

/-- Every operation keeps the lock discipline. -/
theorem follows_script (operation : ContextOperation Handle) :
    Follows false false operation.script := by
  have closing : Follows true true (leaveSynchronised .done : ContextScript Handle) :=
    follows_leaveSynchronised .done
  cases operation with
  | refresh => exact .enter (.refresh (.leave .done))
  | updateConfiguration => exact .enter (.update (.leave .done))
  | setLifetimeObserver => exact .enter (.leave .done)
  | move target => exact .enter (.handOver (.leave .done))
  | allocateVector host type count work =>
    apply Follows.enter
    apply Follows.beginSync
    apply follows_computeAccount
    intro a
    split
    · apply follows_leaveSynchronised
      exact .observe (.enter (follows_leaveSynchronised .done))
    · exact closing
    · exact closing
  | reserveWorkspace host bytes work =>
    exact .enter (.beginSync (follows_computeAccount _ fun _ => closing))
  | releaseWorkspace owned bytes =>
    apply Follows.enter
    apply Follows.beginSync
    split
    · exact follows_computeAccount _ fun _ => closing
    · exact closing
  | chargeWork work => exact .enter (.beginSync (follows_computeAccount _ fun _ => closing))
  | reserveTupleTable host count =>
    apply Follows.enter
    apply Follows.beginSync
    apply follows_reserveTable
    apply follows_observeIf
    exact .finishIdle .done
  | releaseTupleTable consumed bytes freed => exact follows_releaseReservation _ _ _ _ _ .done
  | makeTupleValue valid host count rollback => exact follows_makeTuple ..
  | executeTupleConstruction complete valid host count rollback =>
    apply Follows.enter
    apply Follows.beginSync
    apply follows_computeAccount
    intro a
    apply follows_leaveSynchronised
    split
    · exact .done
    · apply Follows.observe
      split
      · exact follows_makeTuple ..
      · exact .done
  | preadmitTupleAssembly host count rollback =>
    apply Follows.enter
    apply Follows.beginSync
    apply follows_reserveTable
    apply follows_rollBackTable
    apply follows_observeIf
    exact .finishIdle .done
  | releasePreadmittedTupleAssembly => exact .enter (.beginSync closing)
  | releaseVectorReservation consumed active bytes freed =>
    exact follows_releaseReservation _ _ _ _ _ .done
  | walkReservations visits => exact .enter (.beginSync (follows_walk visits))
  | refundResourceStateBytes bytes => exact .enter (.adjust (.leave .done))

end discipline

end ContextOperation

/-- Generations are `uint64_t`. -/
def versionMax : Nat := 2 ^ 64 - 1

def contextProtocol (Handle : Type) :
    Protocol (ContextOperation Handle) Handle ContextConfiguration ContextCounters :=
  ⟨versionMax,ContextOperation.needsContext,ContextOperation.script,ContextOperation.follows_script⟩

/-- Any number of handles and threads: in every reachable state an update is
committed exactly when no other handle has committed one since this handle last
synchronised and the generation has not run out, a refused update leaves the
shared state alone, and the shared state is what the committed events leave
when each is applied once, in order, to what the earlier ones left. -/
theorem handles_linearizable {Thread Handle : Type} [DecidableEq Thread] [DecidableEq Handle]
    {start s : System Thread Handle ContextConfiguration ContextCounters}
    (fresh : Fresh versionMax start) (reached : Reachable (contextProtocol Handle) start s) :
    (∀ handle,
      ((s.updateConfiguration versionMax handle).1 = .updated ↔
        ¬Outdated handle s.history ∧ s.shared.version ≠ versionMax) ∧
      ((s.updateConfiguration versionMax handle).1 = .staleSnapshot ↔
        Outdated handle s.history) ∧
      ((s.updateConfiguration versionMax handle).1 ≠ .updated →
        (s.updateConfiguration versionMax handle).2.shared = s.shared)) ∧
    settle s.loaded s.shared s.mirrors = replay versionMax start.shared s.history ∧
    ∀ handle, s.loaded = some handle →
      (s.mirrors handle).record = replay versionMax start.shared s.history := by
  have coherent : Coherent versionMax start.shared s := Coherent.reachable fresh reached
  refine ⟨?_,coherent.data.settled,?_⟩
  · intro handle
    exact ⟨Coherent.updated_iff coherent.data handle,Coherent.stale_iff coherent.data handle,
      Coherent.refused_unchanged handle⟩
  · intro handle loaded
    have data := coherent.data
    rw [loaded] at data
    exact data.seen

/-- Two handles on a fresh trusted context. -/
def sharedPair : System Bool Bool ContextConfiguration ContextCounters :=
  let record : Record ContextConfiguration ContextCounters :=
    ⟨⟨.trustedLocalV2,⟨none,none,none,none⟩,.none,none⟩,⟨0,0,0⟩,1⟩
  ⟨record,true,none,fun _ => [],fun _ => ⟨record,true⟩,[]⟩

/-- One handle begins to charge work, the other commits a work limit, and a
second charge is refused by it. -/
def pairRun : Option (System Bool Bool ContextConfiguration ContextCounters) :=
  runAll (contextProtocol Bool) sharedPair
    [.start true true (.chargeWork 3),.start false false .updateConfiguration,
      .edit false ⟨.boundedV2,⟨none,none,some 5,none⟩,.none,none⟩ ⟨0,0,0⟩,
      .run false,.run false,.run false,.run false,
      .run true,.run true,.run true,.run true,.run true,.run true,
      .start false false (.chargeWork 3),
      .run false,.run false,.run false,.run false,.run false,.run false]

theorem handles_linearizable_pair :
    (pairRun.map fun s => (s.shared.counters,s.shared.version)) = some (⟨0,3,0⟩,2) ∧
      ∀ s, pairRun = some s →
        settle s.loaded s.shared s.mirrors = replay versionMax sharedPair.shared s.history ∧
          (s.updateConfiguration versionMax false).2.shared.version = 3 := by
  have fresh : Fresh versionMax sharedPair := ⟨by decide,rfl,fun _ => rfl,fun _ => rfl,rfl⟩
  refine ⟨by decide +kernel,?_⟩
  intro s ran
  have linear := handles_linearizable fresh (Reachable.refl.of_runAll ran)
  refine ⟨linear.2.1,?_⟩
  have version : pairRun.map (fun s => (s.updateConfiguration versionMax false).2.shared.version) =
    some 3 := by decide +kernel
  rw [ran] at version
  exact Option.some.inj version

end Bennu
