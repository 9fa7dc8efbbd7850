import Bennu.ResourceSession

/-! Configured limits over whole sessions: what an admitted operation charges,
what a refused one leaves alone, and that work only grows. -/
namespace Bennu

namespace Account

/-- The configuration an account is created with. -/
def configuration (a : Account) : ExecutionProfile × ResourceLimits × Option Nat :=
  (a.profile,a.limits,a.failAtReservationOrdinal)

/-- Later counters of the same configuration. -/
structure Spends (a a' : Account) : Prop where
  configuration : a'.configuration = a.configuration
  work : a.workUnits ≤ a'.workUnits
  ordinal : a.reservationOrdinal ≤ a'.reservationOrdinal
  within : a.WithinLimits → a'.WithinLimits

theorem Spends.refl (a : Account) : a.Spends a := ⟨rfl,Nat.le_refl _,Nat.le_refl _,id⟩

theorem Spends.trans {a b c : Account} (first : a.Spends b) (second : b.Spends c) : a.Spends c :=
  ⟨second.configuration.trans first.configuration,Nat.le_trans first.work second.work,
    Nat.le_trans first.ordinal second.ordinal,second.within ∘ first.within⟩

theorem refund_spends (bytes : Nat) (a : Account) : a.Spends (a.refund bytes) := by
  unfold refund
  split
  · exact ⟨rfl,Nat.le_refl _,Nat.le_refl _,fun within =>
      ⟨fun bound limit => Nat.le_trans (Nat.sub_le _ _) (within.live bound limit),within.work⟩⟩
  · exact .refl a

end Account

/-- Every state that is still registered has only spent. -/
def Host.Spends (h h' : Host) : Prop :=
  ∀ t s', h'.findState t = some s' → ∃ s, h.findState t = some s ∧ s.account.Spends s'.account

namespace Host.Spends

theorem refl (h : Host) : h.Spends h := fun _ s found => ⟨s,found,.refl _⟩

theorem trans {a b c : Host} (first : a.Spends b) (second : b.Spends c) : a.Spends c := by
  intro t s'' found
  obtain ⟨s',middle,later⟩ := second t s'' found
  obtain ⟨s,before,earlier⟩ := first t s' middle
  exact ⟨s,before,earlier.trans later⟩

theorem same {h h' : Host} (states : ∀ t, h'.findState t = h.findState t) : h.Spends h' :=
  fun t s found => ⟨s,(states t).symm.trans found,.refl _⟩

theorem sameRegistries {h h' : Host} (same : h.SameRegistries h') : h.Spends h' := by
  obtain ⟨_,rfl⟩ := same
  exact refl h

theorem modifyAccount {h : Host} {owner : Nat} {f : Account → Account}
    (spends : ∀ s, h.findState owner = some s → s.account.Spends (f s.account)) :
    h.Spends (h.modifyAccount owner f) := by
  intro t s' found
  rw [Host.findState_modifyAccount] at found
  split at found
  · rename_i mine
    obtain ⟨s,before,rfl⟩ := Option.map_eq_some_iff.mp found
    exact ⟨s,mine ▸ before,spends s before⟩
  · exact ⟨s',found,.refl _⟩

theorem refundOwner (h : Host) (owner bytes : Nat) : h.Spends (h.refundOwner owner bytes) :=
  modifyAccount fun s _ => Account.refund_spends bytes s.account

theorem releaseAccountingOwner (h : Host) (owner : Nat) : h.Spends (h.releaseAccountingOwner owner) := by
  intro t s' found
  rw [Host.findState_release] at found
  split at found
  · rename_i mine
    obtain ⟨s,before,kept⟩ := Option.bind_eq_some_iff.mp found
    split at kept
    · cases kept
    · cases kept
      exact ⟨s,mine ▸ before,.refl _⟩
  · exact ⟨s',found,.refl _⟩

theorem releaseHostBuffer (h : Host) (payload : Option Nat) : h.Spends (h.releaseHostBuffer payload) := by
  unfold Host.releaseHostBuffer
  split
  · exact refl h
  · rename_i payload
    split
    · exact refl h
    · rename_i record _
      have removed : h.Spends
          { h with buffers := KeyedList.discard HostAllocationRecord.payload payload h.buffers } :=
        same fun _ => rfl
      dsimp only
      split
      · exact removed.trans ((refundOwner _ record.semantic.ownerToken
          record.semantic.canonicalBytes).trans (releaseAccountingOwner _ _))
      · exact removed

theorem consumeHolding {h next : Host} {x : Holding} (ok : h.consumeHolding x = some next) :
    h.Spends next := by
  simp only [Host.consumeHolding,Host.consumeSemanticHostBuffer] at ok
  split at ok
  · cases ok
    exact same fun _ => rfl
  · cases ok

theorem releaseProven (h : Host) (x : Holding) : h.Spends (h.releaseProven x) := by
  have refunded : h.Spends (h.refundHolding x) := by
    unfold Host.refundHolding
    split
    · split
      · exact refl h
      · rename_i consumed ok
        exact (consumeHolding ok).trans (refundOwner _ _ _)
    · exact refl h
  exact refunded.trans ((releaseAccountingOwner _ _).trans (releaseHostBuffer _ _))

theorem releaseChecked {h next : Host} {r : EvaluationResources} {x : Holding} {bytes : Nat}
    (ok : h.releaseChecked r x bytes = some next) : h.Spends next := by
  simp only [Host.releaseChecked] at ok
  obtain ⟨consumed,isConsumed,equal⟩ := Option.map_eq_some_iff.mp ok
  have first : h.Spends consumed := by
    split at isConsumed
    · exact consumeHolding isConsumed
    · cases isConsumed
      exact refl h
  rw [← equal]
  refine first.trans (trans ?_ (releaseAccountingOwner _ _))
  split
  · exact refundOwner _ _ _
  · exact refl _

theorem dropVector (h : Host) (v : VectorValue) : h.Spends (h.dropVector v) :=
  (releaseHostBuffer _ _).trans ((releaseHostBuffer _ _).trans (releaseHostBuffer _ _))

theorem foldl {α : Type} {f : Host → α → Host} (each : ∀ (h : Host) (x : α), h.Spends (f h x))
    (xs : List α) (h : Host) : h.Spends (xs.foldl f h) := by
  induction xs generalizing h with
  | nil => exact refl h
  | cons x xs ih => exact (each h x).trans (ih (f h x))

theorem dropValue (h : Host) (v : Value) : h.Spends (h.dropValue v) :=
  (dropVector h v.vector).trans ((foldl dropVector _ _).trans
    ((foldl (fun h (r : TupleTableReservation) => releaseHostBuffer h r.payload) _ _).trans
      (releaseHostBuffer _ _)))

/-- A visitor that only spends makes a walk that only spends. -/
theorem walkArena {visitor : WalkVisitor}
    (table : ∀ h r next r', visitor.table h r = some (next,r') → h.Spends next)
    (payload : ∀ h v next v', visitor.payload h v = some (next,v') → h.Spends next) (h : Host)
    (t : TupleValue) : h.Spends (walkArena visitor h t).1 := by
  have stepped : ∀ s : WalkState, s.host.Spends (walkStep visitor s).state.host := by
    intro s
    unfold walkStep
    split
    · dsimp only
      split
      · exact refl _
      · split
        · exact refl _
        · rename_i ok
          rw [(leaveNode_records _).1]
          exact table _ _ _ _ ok
    · split
      · exact refl _
      · rename_i ok
        rw [(leaveNode_records _).1]
        exact payload _ _ _ _ ok
    · rw [(leaveNode_records _).1]
      exact refl _
  have walked : ∀ fuel (s : WalkState), s.host.Spends (walk visitor fuel s).1.host := by
    intro fuel
    induction fuel with
    | zero => exact fun s => refl _
    | succ fuel ih =>
      intro s
      have once := stepped s
      unfold walk
      split
      · rename_i next equal
        rw [equal] at once
        exact once.trans (ih next)
      · rename_i next equal
        rw [equal] at once
        exact once
      · rename_i next equal
        rw [equal] at once
        exact once
  exact walked (walkFuel t) ⟨h,t.linkParents,t.rootIndex⟩

theorem destroyParts (h : Host) (v : Value) : h.Spends (h.destroyParts v).1 := by
  unfold Host.destroyParts
  split
  · exact refl h
  · exact releaseProven h _
  · refine walkArena ?_ ?_ h v.tuple
    · rintro h r next r' ⟨⟩
      exact releaseProven h _
    · rintro h v next v' ⟨⟩
      exact releaseProven h _

theorem walkArena_release (r : EvaluationResources) (h : Host) (t : TupleValue) :
    h.Spends (Bennu.walkArena (releaseVisitor r) h t).1 := by
  refine walkArena ?_ ?_ h t
  · intro h t next t' ok
    obtain ⟨mid,checked,equal⟩ := Option.map_eq_some_iff.mp ok
    cases equal
    exact (releaseChecked checked).trans (releaseHostBuffer _ _)
  · intro h v next v' ok
    simp only [releaseVisitor] at ok
    split at ok
    · obtain ⟨mid,checked,equal⟩ := Option.map_eq_some_iff.mp ok
      cases equal
      exact (releaseChecked checked).trans (releaseHostBuffer _ _)
    · cases ok
      exact refl h

theorem walkArena_detach (r : EvaluationResources) (h : Host) (t : TupleValue) :
    h.Spends (Bennu.walkArena (detachVisitor r) h t).1 := by
  refine walkArena ?_ ?_ h t
  all_goals
    intro h x next x' ok
    obtain ⟨mid,checked,equal⟩ := Option.map_eq_some_iff.mp ok
    cases equal
    exact releaseChecked checked

theorem releaseTupleTable (h : Host) (r : EvaluationResources) (t : TupleTableReservation) :
    h.Spends (h.releaseTupleTable r t).1 := by
  unfold Host.releaseTupleTable
  dsimp only
  split
  · exact refl h
  · split
    · exact refl h
    · split
      · exact refl h
      · split
        · exact refl h
        · split
          · exact refl h
          · rename_i next checked
            exact (releaseChecked checked).trans (releaseHostBuffer _ _)

theorem releaseWorkspace (h : Host) (r : EvaluationResources) (w : WorkspaceReservation) :
    h.Spends (h.releaseWorkspace r w).1 := by
  unfold Host.releaseWorkspace
  split
  · exact refl h
  · split
    · exact refl h
    · split
      · exact refl h
      · split
        · exact refl h
        · split
          · exact refl h
          · rename_i next checked
            exact (releaseChecked checked).trans (releaseHostBuffer _ _)

theorem releaseVectorParts (h : Host) (r : EvaluationResources) (v : Value) :
    h.Spends (h.releaseVectorParts r v).1 := by
  unfold Host.releaseVectorParts
  dsimp only
  split
  · exact refl h
  · split
    · exact refl h
    · rename_i next consumed
      have first : h.Spends next := by
        split at consumed
        · exact consumeHolding consumed
        · cases consumed
          exact refl h
      refine first.trans (trans ?_ ((releaseAccountingOwner _ _).trans
        ((releaseHostBuffer _ _).trans (dropValue _ _))))
      split
      · exact refundOwner _ _ _
      · exact refl _

theorem releaseVectorReservation (f : HostFailureInjection) (h : Host) (r : EvaluationResources)
    (v : Value) : h.Spends (Host.releaseVectorReservation f h r v).2.1 := by
  unfold Host.releaseVectorReservation
  split
  · exact refl h
  · split
    · rename_i used next failure equal
      exact sameRegistries (validateValue_next equal)
    · rename_i used next equal
      have same := sameRegistries (validateValue_next equal)
      split
      · exact same
      · exact same.trans (releaseVectorParts _ _ _)

theorem releaseValueReservations (f : HostFailureInjection) (h : Host) (r : EvaluationResources)
    (v : Value) : h.Spends (Host.releaseValueReservations f h r v).2.1 := by
  unfold Host.releaseValueReservations
  split
  · rename_i used next failure equal
    exact sameRegistries (validateValue_next equal)
  · rename_i used next equal
    have same := sameRegistries (validateValue_next equal)
    split
    · exact same.trans (dropValue _ _)
    · split
      · exact same
      · exact same.trans (releaseVectorReservation _ _ _ _)
    · split
      · exact same
      · have walked := walkArena_release r next v.tuple
        split
        · rename_i last tuple invariant equal
          rw [equal] at walked
          exact same.trans walked
        · rename_i last tuple equal
          rw [equal] at walked
          exact same.trans (walked.trans (dropValue _ _))

theorem detachValueReservations (h : Host) (r : EvaluationResources) (v : Value) :
    h.Spends (h.detachValueReservations r v).1 := by
  unfold Host.detachValueReservations
  split
  · rename_i used next failure equal
    exact sameRegistries (validateValue_next equal)
  · rename_i used next equal
    have same := sameRegistries (validateValue_next equal)
    split
    · exact same
    · split
      · exact same
      · split
        · exact same
        · rename_i detached checked
          exact same.trans (releaseChecked checked)
    · split
      · exact same
      · have walked := walkArena_detach r next v.tuple
        split
        · rename_i last tuple invariant equal
          rw [equal] at walked
          exact same.trans walked
        · rename_i last tuple equal
          rw [equal] at walked
          exact same.trans walked

theorem destroyProvenValue (h : Host) (v : Value) : h.Spends (h.destroyProvenValue v).1 := by
  unfold Host.destroyProvenValue
  split
  · exact (destroyParts h v).trans (dropValue _ _)
  · exact refl h

theorem destroyValue (f : HostFailureInjection) (h : Host) (v : Value) :
    h.Spends (Host.destroyValue f h v).2.1 := by
  unfold Host.destroyValue
  split
  · split
    · rename_i used next failure equal
      exact sameRegistries (validateValue_next equal)
    · rename_i used next equal
      exact (sameRegistries (validateValue_next equal)).trans
        ((destroyParts next v).trans (dropValue _ _))
  · exact refl h

theorem releaseEvaluationResources (h : Host) (r : EvaluationResources) :
    h.Spends (h.releaseEvaluationResources r).1 := by
  unfold Host.releaseEvaluationResources
  split
  · exact refl h
  · rename_i state acquired
    have found := (acquire_some acquired).1
    refine trans ?_ (releaseAccountingOwner _ _)
    intro t s' isState
    rw [Host.findState_setState] at isState
    split at isState
    · cases isState
    · split at isState
      · rename_i mine
        cases isState
        exact ⟨state,mine ▸ found,.refl _⟩
      · exact ⟨s',isState,.refl _⟩

end Host.Spends

/-- What one charging operation asks of its context. -/
structure Demand where
  context : Nat
  purpose : Option AllocationPurpose
  bytes : Nat
  work : Nat
  deriving DecidableEq, Repr

def ResourceOperation.demand : ResourceOperation → Option Demand
  | .allocateVector context type count work =>
    some ⟨context,some .vectorPayload,count * elementWidth type,work⟩
  | .chargeWork context work => some ⟨context,none,0,work⟩
  | .reserveWorkspace context bytes work => some ⟨context,some .workspace,bytes,work⟩
  | .reserveTupleTable context count => some ⟨context,some .tupleTable,count * 16,0⟩
  | _ => none

/-- The limit on one allocation of a purpose. -/
def ResourceLimits.single (l : ResourceLimits) : Option AllocationPurpose → Option Nat
  | some .vectorPayload => l.maxVectorBytes
  | some .tupleTable => l.maxTupleTableBytes
  | _ => none

namespace Account

variable {a : Account} {d : Demand} {r : Request}

/-- The admission rule over unbounded naturals: everything a preflight must check. -/
structure Admissible (a : Account) (d : Demand) : Prop where
  profile : a.validateProfileConfiguration = .ok ()
  tuples : d.purpose = some .tupleTable → a.validateTupleProfile = .ok ()
  liveSize : a.liveEvaluationBytes + d.bytes ≤ sizeMax
  workSize : a.workUnits + d.work ≤ sizeMax
  single : ∀ bound, a.limits.single d.purpose = some bound → d.bytes ≤ bound
  live : ∀ bound, a.limits.maxLiveEvaluationBytes = some bound →
    a.liveEvaluationBytes + d.bytes ≤ bound
  work : ∀ bound, a.limits.maxWorkUnits = some bound → a.workUnits + d.work ≤ bound

def advanceOrdinal (a : Account) : Account := { a with reservationOrdinal := a.reservationOrdinal + 1 }

/-- The account after an admitted demand; an empty one takes no ordinal. -/
def charged (a : Account) (d : Demand) : Account :=
  { a with
    liveEvaluationBytes := a.liveEvaluationBytes + d.bytes
    workUnits := a.workUnits + d.work
    reservationOrdinal := if d.bytes = 0 then a.reservationOrdinal else a.reservationOrdinal + 1 }

/-- The answers to a demand: nothing but the ordinal moves without an admission, and
the ordinal moves only for an admissible demand. -/
inductive Answers (a : Account) (d : Demand) : Account → Bool → Prop
  | refused (inadmissible : ¬a.Admissible d) : Answers a d a false
  | exhausted (admissible : a.Admissible d) (full : a.reservationOrdinal = sizeMax) :
      Answers a d a false
  | spent (admissible : a.Admissible d) : Answers a d a.advanceOrdinal false
  | admitted (admissible : a.Admissible d) : Answers a d (a.charged d) true

/-- The request that a demand turns into once its own size has been checked. -/
structure Poses (a : Account) (d : Demand) (r : Request) : Prop where
  live : r.liveCharge = d.bytes
  work : r.workCharge = d.work
  vector : ∀ bytes, r.vectorBytes = some bytes → d.purpose = some .vectorPayload ∧ bytes = d.bytes
  single : r.vectorBytes = none → ∀ bound, a.limits.single d.purpose = some bound → d.bytes ≤ bound
  profile : a.validateProfileConfiguration = .ok ()
  tuples : d.purpose = some .tupleTable → a.validateTupleProfile = .ok ()

/-- The preflight computes the admission rule: no sum it compares has wrapped. -/
theorem preflight_exact (sized : a.Sized) (poses : a.Poses d r) :
    (a.Admissible d → a.preflight r =
      .ok ⟨a.liveEvaluationBytes + d.bytes,a.workUnits + d.work⟩) ∧
    ∀ admission, a.preflight r = .ok admission → a.Admissible d := by
  constructor
  · intro admissible
    have live := admissible.liveSize
    have work := admissible.workSize
    have single := admissible.single
    unfold preflight
    rw [poses.live,poses.work,if_neg (by omega),sizeAdd_exact sized.live (by omega),
      sizeAdd_exact sized.work (by omega)]
    have vector : (r.vectorBytes.bind fun bytes =>
        (exceeds a.limits.maxVectorBytes bytes).map (·,bytes)) = none := by
      cases requested : r.vectorBytes with
      | none => rfl
      | some bytes =>
        obtain ⟨purpose,rfl⟩ := poses.vector bytes requested
        rw [purpose] at single
        have fits : exceeds a.limits.maxVectorBytes d.bytes = none := exceeds_none.mpr single
        rw [Option.bind_some,fits]
        rfl
    simp only [vector,exceeds_none.mpr admissible.live,exceeds_none.mpr admissible.work]
  · intro admission ok
    have admits := preflight_ok sized ok
    have live := admits.live
    have work := admits.work
    rw [poses.live] at live
    rw [poses.work] at work
    refine ⟨poses.profile,poses.tuples,live ▸ admits.liveSize,work ▸ admits.workSize,?_,
      live ▸ admits.liveLimit,work ▸ admits.workLimit⟩
    intro bound limit
    cases requested : r.vectorBytes with
    | none => exact poses.single requested bound limit
    | some bytes =>
      obtain ⟨purpose,rfl⟩ := poses.vector bytes requested
      rw [purpose] at limit
      exact admits.vectorLimit _ bound requested limit

theorem reserve_answers (sized : a.Sized) (poses : a.Poses d r)
    (host : Nat → HostResourceErrorReason) :
    a.Answers d (a.reserve host r).1 (ResourceSession.isOk (a.reserve host r).2) := by
  obtain ⟨accepts,admissible⟩ := preflight_exact sized poses
  unfold reserve
  split
  · rename_i fault refused
    exact .refused fun fits => by cases (accepts fits).symm.trans refused
  · rename_i admission admitted
    have fits := admissible admission admitted
    cases (accepts fits).symm.trans admitted
    have charge : ∀ b : Account, b = a.charged d → a.Answers d b true := by
      rintro b rfl
      exact .admitted fits
    rw [poses.live]
    split
    · rename_i nothing
      exact charge _ (by simp [charged,commitAdmission,nothing])
    · rename_i something
      unfold takeOrdinal
      by_cases full : a.reservationOrdinal = sizeMax
      · rw [if_pos full]
        exact .exhausted fits full
      · rw [if_neg full]
        by_cases injected : a.failAtReservationOrdinal = some a.reservationOrdinal
        · rw [if_pos injected]
          exact .spent fits
        · rw [if_neg injected]
          dsimp only
          cases host a.reservationOrdinal with
          | none => exact charge _ (by simp [charged,commitAdmission,something])
          | sizeOverflow => exact .spent fits
          | allocationUnavailable => exact .spent fits

theorem allocateVector_answers (sized : a.Sized) (host : Nat → HostResourceErrorReason)
    (context : Nat) (type : ScalarType) (count work : Nat) :
    a.Answers ⟨context,some .vectorPayload,count * elementWidth type,work⟩
      (a.allocateVector host type count work).1
      (ResourceSession.isOk (a.allocateVector host type count work).2) := by
  unfold allocateVector
  split
  · rename_i fault invalid
    exact .refused fun fits => by cases fits.profile.symm.trans invalid
  · rename_i valid
    split
    · rename_i fault oversized
      refine .refused fun fits => ?_
      have small : count * elementWidth type ≤ sizeMax := Nat.le_trans (Nat.le_add_left _ _) fits.liveSize
      have positive : 0 < elementWidth type := by cases type <;> decide
      have bound := (Nat.le_div_iff_mul_le positive).mpr small
      have whole : count ≤ sizeMax := Nat.le_trans bound (Nat.div_le_self _ _)
      rw [vectorRequest,if_neg (Nat.not_lt.mpr whole),if_neg (Nat.not_lt.mpr bound)] at oversized
      cases oversized
    · rename_i request ok
      obtain ⟨-,rfl⟩ := vectorRequest_ok ok
      refine reserve_answers sized ⟨rfl,rfl,?_,(fun none => by cases none),valid,
        (fun other => by cases other)⟩ host
      rintro bytes ⟨⟩
      exact ⟨rfl,rfl⟩

theorem reserveWorkspace_answers (sized : a.Sized) (host : Nat → HostResourceErrorReason)
    (context bytes work : Nat) :
    a.Answers ⟨context,some .workspace,bytes,work⟩ (a.reserveWorkspace host bytes work).1
      (ResourceSession.isOk (a.reserveWorkspace host bytes work).2) := by
  unfold reserveWorkspace
  split
  · rename_i fault invalid
    exact .refused fun fits => by cases fits.profile.symm.trans invalid
  · rename_i valid
    exact reserve_answers sized ⟨rfl,rfl,(fun _ none => by cases none),(fun _ _ none => by cases none),
      valid,(fun other => by cases other)⟩ host

theorem validateTupleProfile_ok (ok : a.validateTupleProfile = .ok ()) :
    a.validateProfileConfiguration = .ok () := by
  unfold validateTupleProfile at ok
  split at ok
  · cases ok
  · assumption

theorem reserveTupleTable_answers (sized : a.Sized) (host : Nat → HostResourceErrorReason)
    (context count : Nat) :
    a.Answers ⟨context,some .tupleTable,count * 16,0⟩ (a.reserveTupleTable host count).1
      (ResourceSession.isOk (a.reserveTupleTable host count).2) := by
  unfold reserveTupleTable
  split
  · rename_i fault invalid
    exact .refused fun fits => by cases (fits.tuples rfl).symm.trans invalid
  · rename_i valid
    split
    · rename_i fault refused
      refine .refused fun fits => ?_
      have small : count * 16 ≤ sizeMax := Nat.le_trans (Nat.le_add_left _ _) fits.liveSize
      have bound : count ≤ sizeMax / tupleElementSlotBytes :=
        (Nat.le_div_iff_mul_le (by decide)).mpr small
      have exactly : sizeMul count tupleElementSlotBytes = count * 16 := sizeMul_exact (by decide) bound
      have within : exceeds a.limits.maxTupleTableBytes (count * 16) = none :=
        exceeds_none.mpr fits.single
      rw [tupleRequest,if_neg (Nat.not_lt.mpr bound)] at refused
      simp only [exactly,within] at refused
      cases refused
    · rename_i request ok
      obtain ⟨-,rfl,limit⟩ := tupleRequest_ok ok
      exact reserve_answers (d := ⟨context,some .tupleTable,count * 16,0⟩) sized
        ⟨rfl,rfl,(fun _ none => by cases none),(fun _ => limit),validateTupleProfile_ok valid,
          (fun _ => valid)⟩ host

theorem chargeWork_answers (sized : a.Sized) (context work : Nat) :
    a.Answers ⟨context,none,0,work⟩ (a.chargeWork work).1
      (ResourceSession.isOk (a.chargeWork work).2) := by
  unfold chargeWork
  split
  · rename_i fault invalid
    exact .refused fun fits => by cases fits.profile.symm.trans invalid
  · rename_i valid
    obtain ⟨accepts,admissible⟩ := preflight_exact (d := ⟨context,none,0,work⟩)
      (r := ⟨none,0,work,none,none⟩) sized
      ⟨rfl,rfl,(fun _ none => by cases none),(fun _ _ none => by cases none),valid,
        (fun none => by cases none)⟩
    split
    · rename_i fault refused
      exact .refused fun fits => by cases (accepts fits).symm.trans refused
    · rename_i admission admitted
      have fits := admissible admission admitted
      cases (accepts fits).symm.trans admitted
      exact .admitted fits

theorem Answers.spends {after : Account} {ok : Bool} (answers : a.Answers d after ok) :
    a.Spends after := by
  cases answers with
  | refused inadmissible => exact .refl a
  | exhausted admissible full => exact .refl a
  | spent admissible =>
    exact ⟨rfl,Nat.le_refl _,Nat.le_succ _,fun within => ⟨within.live,within.work⟩⟩
  | admitted admissible =>
    refine ⟨rfl,Nat.le_add_right _ _,?_,fun _ => ⟨admissible.live,admissible.work⟩⟩
    unfold charged
    dsimp only
    split
    · exact Nat.le_refl _
    · exact Nat.le_succ _

end Account

namespace Host

variable {h h' : Host} {owner : Nat} {d : Demand} {s : EvaluationResourceState} {account : Account}
  {ok : Bool}

/-- The answers of a context to a demand, over all registries. -/
inductive Answers (h : Host) (owner : Nat) (d : Demand) : Host → Bool → Prop
  | unchanged : Answers h owner d h false
  | spent {before : EvaluationResourceState} (found : h.findState owner = some before)
      (admissible : before.account.Admissible d)
      (spends : h.Spends (h.modifyAccount owner Account.advanceOrdinal)) :
      Answers h owner d (h.modifyAccount owner Account.advanceOrdinal) false
  | admitted {before after : EvaluationResourceState} {h' : Host}
      (found : h.findState owner = some before) (admissible : before.account.Admissible d)
      (left : h'.findState owner = some after) (charged : after.account = before.account.charged d)
      (spends : h.Spends h') : Answers h owner d h' true

theorem setAccount_found (found : h.findState owner = some s) (a : Account) :
    (h.setAccount owner a).findState owner = some { s with account := a } := by
  rw [setAccount,findState_modifyAccount,if_pos rfl,found]
  rfl

theorem setAccount_self (found : h.findState owner = some s) : h.setAccount owner s.account = h := by
  have registered : h.states owner = some s := by
    unfold findState at found
    split at found
    · cases found
    · exact found
  have same : (fun token => if token = owner then some s else h.states token) = h.states := by
    funext token
    split
    · rename_i equal
      rw [equal,registered]
    · rfl
  unfold setAccount modifyAccount
  rw [found]
  exact congrArg (fun states => { h with states := states }) same

theorem setAccount_eq_modify (found : h.findState owner = some s) (f : Account → Account) :
    h.setAccount owner (f s.account) = h.modifyAccount owner f := by
  unfold setAccount modifyAccount
  rw [found]

theorem bindFreshBuffer_found (found : h.findState owner = some s) (element : HostElement)
    (count bytes ordinal : Nat) (purpose : AllocationPurpose) :
    (h.bindFreshBuffer element count owner bytes ordinal purpose).findState owner =
      some { s with referenceCount := s.referenceCount + 1 } := by
  have retained := findState_retain h owner owner
  rw [if_pos rfl,found] at retained
  exact retained

theorem Spends.setAccount (found : h.findState owner = some s) (spends : s.account.Spends account) :
    h.Spends (h.setAccount owner account) :=
  .modifyAccount fun s' state => by
    cases found.symm.trans state
    exact spends

theorem Spends.bindFreshBuffer (h : Host) (element : HostElement) (count owner bytes ordinal : Nat)
    (purpose : AllocationPurpose) :
    h.Spends (h.bindFreshBuffer element count owner bytes ordinal purpose) := by
  intro t s' found
  have retained := findState_retain h owner t
  rw [show (h.retainAccountingOwner owner).findState t = some s' from found] at retained
  split at retained
  · rename_i mine
    obtain ⟨s,before,rfl⟩ := Option.map_eq_some_iff.mp retained.symm
    exact ⟨s,mine ▸ before,.refl _⟩
  · exact ⟨s',retained.symm,.refl _⟩

/-- An account's answer, as the registries after it: the counters replaced, and a
buffer bound when one was granted. -/
theorem Answers.of_account (found : h.findState owner = some s)
    (answers : s.account.Answers d account ok)
    (left : h' = h.setAccount owner account ∨ ok = true ∧
      ∃ element count bytes ordinal purpose, h' = (h.setAccount owner account).bindFreshBuffer
        element count owner bytes ordinal purpose) :
    h.Answers owner d h' ok := by
  have replaced := Spends.setAccount found answers.spends
  rcases left with rfl | ⟨rfl,element,count,bytes,ordinal,purpose,rfl⟩
  · cases answers with
    | refused inadmissible =>
      rw [setAccount_self found]
      exact .unchanged
    | exhausted admissible full =>
      rw [setAccount_self found]
      exact .unchanged
    | spent admissible =>
      rw [setAccount_eq_modify found] at replaced ⊢
      exact .spent found admissible replaced
    | admitted admissible => exact .admitted found admissible (setAccount_found found _) rfl replaced
  · cases answers with
    | admitted admissible =>
      exact .admitted found admissible (bindFreshBuffer_found (setAccount_found found _) ..) rfl
        (replaced.trans (.bindFreshBuffer _ _ _ _ _ _ _))

theorem Answers.spends (answers : h.Answers owner d h' ok) : h.Spends h' := by
  cases answers with
  | unchanged => exact .refl h
  | spent found admissible spends => exact spends
  | admitted found admissible left charged spends => exact spends

variable {r : EvaluationResources}

theorem allocateVector_answers (sized : ∀ t s, h.findState t = some s → s.account.Sized) (context : Nat)
    (type : ScalarType) (count work : Nat) :
    h.Answers r.owner ⟨context,some .vectorPayload,count * elementWidth type,work⟩
      (h.allocateVector r type count work).1 (ResourceSession.isOk (h.allocateVector r type count work).2) := by
  unfold Host.allocateVector
  split
  · exact .unchanged
  · rename_i s acquired
    have found := (acquire_some acquired).1
    have answers := Account.allocateVector_answers (sized _ s found) (h.bufferPlan r.owner) context type
      count work
    split
    all_goals
      rename_i equal
      rw [equal] at answers
    · exact .of_account found answers (.inl rfl)
    · exact .of_account found answers (.inl rfl)
    · exact .of_account found answers (.inr ⟨rfl,_,_,_,_,_,rfl⟩)

theorem reserveWorkspace_answers (sized : ∀ t s, h.findState t = some s → s.account.Sized)
    (context bytes work : Nat) :
    h.Answers r.owner ⟨context,some .workspace,bytes,work⟩ (h.reserveWorkspace r bytes work).1
      (ResourceSession.isOk (h.reserveWorkspace r bytes work).2) := by
  unfold Host.reserveWorkspace
  split
  · exact .unchanged
  · rename_i s acquired
    have found := (acquire_some acquired).1
    have answers := Account.reserveWorkspace_answers (sized _ s found) (h.bufferPlan r.owner) context
      bytes work
    split
    all_goals
      rename_i equal
      rw [equal] at answers
    · exact .of_account found answers (.inl rfl)
    · exact .of_account found answers (.inl rfl)
    · exact .of_account found answers (.inr ⟨rfl,_,_,_,_,_,rfl⟩)

theorem reserveTupleTable_answers (sized : ∀ t s, h.findState t = some s → s.account.Sized)
    (context count : Nat) :
    h.Answers r.owner ⟨context,some .tupleTable,count * 16,0⟩ (h.reserveTupleTable r count).1
      (ResourceSession.isOk (h.reserveTupleTable r count).2) := by
  unfold Host.reserveTupleTable
  split
  · exact .unchanged
  · rename_i s acquired
    have found := (acquire_some acquired).1
    have answers := Account.reserveTupleTable_answers (sized _ s found) (h.bufferPlan r.owner) context
      count
    split
    all_goals
      rename_i equal
      rw [equal] at answers
    · exact .of_account found answers (.inl rfl)
    · exact .of_account found answers (.inl rfl)
    · exact .of_account found answers (.inr ⟨rfl,_,_,_,_,_,rfl⟩)

theorem chargeWork_answers (sized : ∀ t s, h.findState t = some s → s.account.Sized)
    (context work : Nat) :
    h.Answers r.owner ⟨context,none,0,work⟩ (h.chargeWork r work).1
      (ResourceSession.isOk (h.chargeWork r work).2) := by
  unfold Host.chargeWork
  split
  · exact .unchanged
  · rename_i s acquired
    have found := (acquire_some acquired).1
    exact .of_account found (Account.chargeWork_answers (sized _ s found) context work) (.inl rfl)

theorem Answers.refused (answers : h.Answers owner d h' false) :
    h' = h ∨ ∃ before, h.findState owner = some before ∧ before.account.Admissible d ∧
      h' = h.modifyAccount owner Account.advanceOrdinal := by
  cases answers with
  | unchanged => exact .inl rfl
  | spent found admissible spends => exact .inr ⟨_,found,admissible,rfl⟩

theorem Answers.granted (answers : h.Answers owner d h' true) :
    ∃ before after, h.findState owner = some before ∧ h'.findState owner = some after ∧
      before.account.Admissible d ∧ after.account = before.account.charged d := by
  cases answers with
  | admitted found admissible left charged spends => exact ⟨_,_,found,left,admissible,charged⟩

/-- The tuple table is the only reservation behind a new tuple. -/
theorem makeTupleValue_spends (sized : ∀ t s, h.findState t = some s → s.account.Sized)
    (f : HostFailureInjection) (elements : List Value) :
    h.Spends (makeTupleValue f h r elements).2.1 := by
  unfold makeTupleValue
  split
  · exact .refl h
  · split
    · exact .refl h
    · rename_i s _ _ _ _
      have survey := (surveyElements_ok h s.account elements.length f [] elements
        ⟨elements.length,elements.length,0,0⟩).1
      have surveyed := Spends.sameRegistries survey
      split
      · rename_i used next failure equal
        rw [equal] at surveyed
        exact surveyed
      · rename_i used next counts equal
        rw [equal] at survey surveyed
        have sized' : ∀ t s, next.findState t = some s → s.account.Sized := by
          obtain ⟨_,rfl⟩ := survey
          exact sized
        have reserved := (reserveTupleTable_answers (r := r) sized' 0 elements.length).spends
        split
        · rename_i refused fault equal
          rw [equal] at reserved
          exact surveyed.trans reserved
        · rename_i admitted reservation equal
          rw [equal] at reserved
          have metadata := Spends.sameRegistries (tupleMetadata_same used admitted elements.length counts)
          split
          · rename_i begun granted equal
            rw [equal] at metadata
            exact surveyed.trans (reserved.trans metadata)
          · rename_i begun denied reason _ equal
            rw [equal] at metadata
            exact surveyed.trans (reserved.trans (metadata.trans (.releaseTupleTable _ _ _)))

end Host

namespace ResourceSession

variable {s : ResourceSession}

/-- One operation only spends, whatever it is and however it ends. -/
theorem step_spends (sized : ∀ t state, s.host.findState t = some state → state.account.Sized)
    (operation : ResourceOperation) : s.host.Spends (s.step operation).1.host := by
  cases operation with
  | makeScalar scalar => exact .refl _
  | moveValue source target =>
    simp only [step]
    split
    · exact .refl _
    · rename_i moved found
      by_cases claimed : moved.claimed = true
      · simp only [claimed,if_true]
        split
        · exact .refl _
        · exact .dropValue _ _
      · simp only [claimed]
        split
        · exact .refl _
        · exact .dropValue _ _
  | allocateVector context type count work =>
    have spends := (Host.allocateVector_answers (r := s.context context) sized context type count
      work).spends
    simp only [step]
    split
    all_goals
      rename_i equal
      rw [equal] at spends
      exact spends
  | chargeWork context work =>
    exact (Host.chargeWork_answers (r := s.context context) sized context work).spends
  | reserveWorkspace context bytes work =>
    have spends := (Host.reserveWorkspace_answers (r := s.context context) sized context bytes
      work).spends
    simp only [step]
    split
    all_goals
      rename_i equal
      rw [equal] at spends
      exact spends
  | releaseWorkspace context index =>
    simp only [step]
    split
    · exact .refl _
    · exact .releaseWorkspace _ _ _
  | dropWorkspace index =>
    simp only [step]
    split
    · exact .refl _
    · exact .releaseHostBuffer _ _
  | reserveTupleTable context count =>
    have spends := (Host.reserveTupleTable_answers (r := s.context context) sized context count).spends
    simp only [step]
    split
    all_goals
      rename_i equal
      rw [equal] at spends
      exact spends
  | releaseTupleTable context index =>
    simp only [step]
    split
    · exact .refl _
    · exact .releaseTupleTable _ _ _
  | dropTupleTable index =>
    simp only [step]
    split
    · exact .refl _
    · exact .releaseHostBuffer _ _
  | makeTuple context failure start count =>
    have spends := Host.makeTupleValue_spends (r := s.context context) sized failure
      ((s.values.drop start).take count)
    simp only [step]
    split
    all_goals
      rename_i equal
      rw [equal] at spends
      exact spends
  | releaseVector context failure index =>
    simp only [step]
    split
    · exact .refl _
    · exact .releaseVectorReservation _ _ _ _
  | releaseValue context failure index =>
    simp only [step]
    split
    · exact .refl _
    · exact .releaseValueReservations _ _ _ _
  | detachValue context index =>
    simp only [step]
    split
    · exact .refl _
    · exact .detachValueReservations _ _ _
  | destroyValue failure index =>
    simp only [step]
    split
    · exact .refl _
    · exact .destroyValue _ _ _
  | destroyProvenValue index =>
    simp only [step]
    split
    · exact .refl _
    · exact .destroyProvenValue _ _
  | dropValue index =>
    simp only [step]
    split
    · exact .refl _
    · exact .dropValue _ _
  | releaseContext context => exact .releaseEvaluationResources _ _

/-- A demanding operation is answered by its context, and a refused one leaves the
client's own records as they were. -/
theorem step_answers (sized : ∀ t state, s.host.findState t = some state → state.account.Sized)
    {operation : ResourceOperation} {d : Demand} (demanded : operation.demand = some d) :
    s.host.Answers (s.context d.context).owner d (s.step operation).1.host (s.step operation).2 ∧
      ((s.step operation).2 = false →
        (s.step operation).1 = { s with host := (s.step operation).1.host }) := by
  cases operation <;> cases demanded
  case allocateVector context type count work =>
    have answers := Host.allocateVector_answers (r := s.context context) sized context type count work
    simp only [step]
    split
    all_goals
      rename_i equal
      rw [equal] at answers
    · exact ⟨answers,fun _ => rfl⟩
    · exact ⟨answers,fun no => by cases no⟩
  case chargeWork context work =>
    exact ⟨Host.chargeWork_answers (r := s.context context) sized context work,fun _ => rfl⟩
  case reserveWorkspace context bytes work =>
    have answers := Host.reserveWorkspace_answers (r := s.context context) sized context bytes work
    simp only [step]
    split
    all_goals
      rename_i equal
      rw [equal] at answers
    · exact ⟨answers,fun _ => rfl⟩
    · exact ⟨answers,fun no => by cases no⟩
  case reserveTupleTable context count =>
    have answers := Host.reserveTupleTable_answers (r := s.context context) sized context count
    simp only [step]
    split
    all_goals
      rename_i equal
      rw [equal] at answers
    · exact ⟨answers,fun _ => rfl⟩
    · exact ⟨answers,fun no => by cases no⟩

end ResourceSession

/-- Limits hold along every session. Any operation keeps the configuration, never
lowers work and passes no limit that was kept. An admitted demand passed the exact
admission rule and is charged exactly; a refused one changes nothing except, when it
was admissible, one step of the ordinal. -/
theorem session_limits (bufferPlan : Nat → Nat → HostResourceErrorReason)
    (arrayPlan : Nat → HostResourceErrorReason) {accounts : List Account}
    (sized : ∀ a ∈ accounts, a.Sized) (operations : List ResourceOperation)
    (operation : ResourceOperation) :
    let s := (startSession bufferPlan arrayPlan accounts).run operations
    let s' := (s.step operation).1
    let admitted := (s.step operation).2
    (∀ token after, s'.host.findState token = some after →
      ∃ before, s.host.findState token = some before ∧ before.account.Spends after.account) ∧
    ∀ d, operation.demand = some d →
      let owner := (s.context d.context).owner
      (admitted = true → ∃ before after, s.host.findState owner = some before ∧
        s'.host.findState owner = some after ∧ before.account.Admissible d ∧
        after.account = before.account.charged d ∧ after.account.WithinLimits ∧ after.account.Sized) ∧
      (admitted = false → s' = s ∨ ∃ before, s.host.findState owner = some before ∧
        before.account.Admissible d ∧
        s' = { s with host := s.host.modifyAccount owner Account.advanceOrdinal }) := by
  intro s s' admitted
  have sound := ResourceSession.run_sound (@startSession_sound bufferPlan arrayPlan accounts sized)
    operations
  have after := ResourceSession.step_sound sound operation
  have sizes := sound.accounted.balanced.sized
  refine ⟨ResourceSession.step_spends sizes operation,fun d demanded => ?_⟩
  obtain ⟨answers,kept⟩ := ResourceSession.step_answers sizes demanded
  refine ⟨fun yes => ?_,fun no => ?_⟩
  · rw [show (s.step operation).2 = true from yes] at answers
    obtain ⟨before,last,found,left,admissible,charged⟩ := answers.granted
    refine ⟨before,last,found,left,admissible,charged,?_,after.accounted.balanced.sized _ _ left⟩
    rw [charged]
    exact ⟨admissible.live,admissible.work⟩
  · have same : s' = { s with host := s'.host } := kept no
    rw [show (s.step operation).2 = false from no] at answers
    rcases answers.refused with unchanged | ⟨before,found,admissible,spent⟩
    · exact .inl (same.trans (congrArg (fun host => { s with host := host }) unchanged))
    · exact .inr ⟨before,found,admissible,same.trans (congrArg (fun host => { s with host := host }) spent)⟩

/-- A context bounded in all four ways. -/
def boundedV2Account : Account := ⟨.boundedV2,⟨some 24,some 40,some 5,some 32⟩,.none,none,0,0,0⟩

theorem boundedV2Account_sized : boundedV2Account.Sized :=
  ⟨Nat.zero_le _,Nat.zero_le _,Nat.zero_le _⟩

/-- The second of two vectors of 24 bytes would pass the live limit: it is refused and
leaves the session as it was. -/
theorem session_limits_bounded :
    let start := startSession (fun _ _ => .none) (fun _ => .none) [boundedV2Account]
    let s := start.run [.allocateVector 0 .integer 3 3]
    (s.step (.allocateVector 0 .integer 3 1)).1 = s := by
  intro start s
  have sized : ∀ a ∈ [boundedV2Account], a.Sized := by simpa using boundedV2Account_sized
  have limits := session_limits (fun _ _ => .none) (fun _ => .none) sized
    [.allocateVector 0 .integer 3 3] (.allocateVector 0 .integer 3 1)
  rcases (limits.2 ⟨0,some .vectorPayload,24,1⟩ rfl).2 (by decide) with same | ⟨before,found,fits,-⟩
  · exact same
  · have live : (s.host.findState 1).map (·.account.liveEvaluationBytes) = some 24 := by decide
    have limit : (s.host.findState 1).map (·.account.limits.maxLiveEvaluationBytes) = some (some 40) := by
      decide
    have found : s.host.findState 1 = some before := found
    simp only [found,Option.map_some,Option.some.injEq] at live limit
    have bound := fits.live 40 limit
    rw [live] at bound
    exact absurd bound (by decide)

end Bennu
