import Bennu.ArenaAccounting

/-! Every resource operation keeps the accounting invariant, whether it is
admitted or refused and wherever it stops. -/
namespace Bennu

open KeyedList

section Metadata

variable {initial : Baseline} {h : Host} {xs : List Holding}

/-- Metadata requests only move the request counter. -/
def Host.SameRegistries (h h' : Host) : Prop := ∃ requests, h' = { h with arrayRequests := requests }

theorem Host.SameRegistries.refl (h : Host) : h.SameRegistries h := ⟨h.arrayRequests,rfl⟩

theorem Host.SameRegistries.trans {a b c : Host} (first : a.SameRegistries b)
    (second : b.SameRegistries c) : a.SameRegistries c := by
  obtain ⟨_,rfl⟩ := first
  obtain ⟨requests,rfl⟩ := second
  exact ⟨requests,rfl⟩

theorem Host.SameRegistries.symm {h h' : Host} (same : h.SameRegistries h') : h'.SameRegistries h := by
  obtain ⟨_,rfl⟩ := same
  exact ⟨h.arrayRequests,rfl⟩

theorem Accounted.sameRegistries {h' : Host} (accounted : Accounted initial h xs)
    (same : h.SameRegistries h') : Accounted initial h' xs := by
  obtain ⟨_,rfl⟩ := same
  exact ⟨⟨accounted.balanced.distinct,accounted.balanced.fresh,accounted.balanced.owned,
    accounted.balanced.live,accounted.balanced.references,accounted.balanced.referenced,
    accounted.balanced.active,accounted.balanced.registered,accounted.balanced.sized⟩,
    accounted.separate,fun x member => (accounted.backed x member).congr fun _ _ => rfl⟩

theorem allocateHostArrays_same (h : Host) (count : Nat) :
    h.SameRegistries (h.allocateHostArrays count).1 := by
  induction count generalizing h with
  | zero => exact .refl h
  | succ count ih =>
    unfold Host.allocateHostArrays
    dsimp only
    split
    · exact Host.SameRegistries.trans ⟨_,rfl⟩ (ih _)
    · exact ⟨_,rfl⟩

theorem validationScratch_same (f : HostFailureInjection) (h : Host) (t : TupleValue) :
    h.SameRegistries (validationScratch f h t).2.1 := by
  unfold validationScratch
  dsimp only
  split
  · exact .refl h
  · split
    · exact allocateHostArrays_same h _
    · exact .refl h

theorem validateValue_same (f : HostFailureInjection) (h : Host) (v : Value) :
    h.SameRegistries (validateValue f h v).2.1 := by
  have scratch := validationScratch_same f h v.tuple
  unfold validateValue
  dsimp only
  split
  · split
    · rename_i begun next equal
      simp only [equal] at scratch
      split
      · exact scratch
      · split
        · exact scratch
        · have path := scratch.trans (allocateHostArrays_same next
            (if (‹InvalidValue›).path = [] then 0 else 1))
          split
          · rename_i last granted
            rw [granted] at path
            exact path
          · rename_i last reason refused
            rw [refused] at path
            exact path
    · rename_i begun next reason equal
      simp only [equal] at scratch
      exact scratch
  · exact .refl h

/-- A validation that accepts saw a value without invalidity. -/
theorem validateValue_accepts {f used : HostFailureInjection} {next : Host} {v : Value}
    (ok : validateValue f h v = (used,next,none)) : Valid h v := by
  unfold validateValue at ok
  dsimp only at ok
  unfold Valid
  split at ok
  · split at ok
    · split at ok
      · assumption
      · split at ok
        · cases ok
        · split at ok <;> cases ok
    · cases ok
  · simpa using congrArg (·.2.2) ok

theorem validateValue_next {f used : HostFailureInjection} {next : Host} {v : Value}
    {verdict : Option ValidationFailure} (ok : validateValue f h v = (used,next,verdict)) :
    h.SameRegistries next := by
  have same := validateValue_same f h v
  rwa [ok] at same

end Metadata

/-- A value that holds records only in the fields of its container. -/
structure Value.Confined (v : Value) : Prop where
  claimed : v.claimed = true
  vector : v.container ≠ .vector → v.vector = emptyVector
  tuple : v.container ≠ .tuple → v.tuple = emptyTuple

theorem Valid.confined {h : Host} {v : Value} (valid : Valid h v) : v.Confined := by
  unfold Valid invalidity at valid
  split at valid
  · cases valid
  · rename_i root
    unfold validateRoot at root
    split at root
    · cases root
    · rename_i claimed
      refine (fun fields => ⟨by simpa using claimed,fields.1,fields.2⟩ : _ ∧ _ → _) ?_
      cases container : v.container <;> simp only [container] at root
      · split at root
        · cases root
        · split at root
          · cases root
          · simp_all [vectorFieldsEmpty,tupleFieldsEmpty]
      · split at root
        · cases root
        · split at root
          · cases root
          · simp_all [tupleFieldsEmpty]
      · repeat' split at root
        all_goals simp_all [vectorFieldsEmpty]

section Reservations

variable {initial : Baseline} {h : Host} {rest : List Holding} {r : EvaluationResources}

theorem acquire_some {s : EvaluationResourceState} (acquired : h.acquireValidated r = some s) :
    h.findState r.owner = some s ∧ s.contextActive = true ∧ r.stateHandle = r.owner := by
  obtain ⟨found,ok⟩ := Option.filter_eq_some_iff.mp acquired
  simpa [found] using ok

/-- The registries after an operation that either fails or hands out new records. -/
def AccountedAfter {ε α : Type} (initial : Baseline) (rest : List Holding)
    (records : α → List Holding) : Host × Except ε α → Prop
  | (next,.error _) => Accounted initial next rest
  | (next,.ok x) => Accounted initial next (records x ++ rest)

theorem setAccount_accounted (accounted : Accounted initial h rest) {s : EvaluationResourceState}
    (found : h.findState r.owner = some s) {account : Account} (sized : account.Sized)
    (same : account.liveEvaluationBytes = s.account.liveEvaluationBytes) :
    Accounted initial (h.setAccount r.owner account) rest :=
  accounted.modify _ fun s' state => by
    cases found.symm.trans state
    exact ⟨same,sized⟩

/-- What the account-level reservations promise to the registries. -/
structure Account.Charges (a : Account) (ended : Account × Except ResourceFault (Option Nat))
    (bytes : Nat) : Prop where
  sized : ended.1.Sized
  live : ended.1.liveEvaluationBytes = a.liveEvaluationBytes + chargedBytes ended.2 bytes
  nonempty : ∀ ordinal, ended.2 = .ok (some ordinal) → bytes ≠ 0

theorem Account.Charges.refused {a : Account} (sized : a.Sized) (fault : ResourceFault) (bytes : Nat) :
    a.Charges (a,.error fault) bytes := ⟨sized,rfl,fun _ impossible => by cases impossible⟩

theorem reserve_charges {a : Account} (sized : a.Sized) (host : Nat → HostResourceErrorReason)
    (request : Account.Request) : a.Charges (a.reserve host request) request.liveCharge := by
  obtain ⟨sized',live,nonempty⟩ := (Account.reserve_cases host request a).charge sized
  exact ⟨sized',live,nonempty⟩

theorem allocateVector_charges {a : Account} (sized : a.Sized) (host : Nat → HostResourceErrorReason)
    (type : ScalarType) (count work : Nat) :
    a.Charges (a.allocateVector host type count work) (count * elementWidth type) := by
  unfold Account.allocateVector
  split
  · exact .refused sized _ _
  · split
    · exact .refused sized _ _
    · rename_i request ok
      obtain ⟨-,rfl⟩ := Account.vectorRequest_ok ok
      exact reserve_charges sized host _

theorem reserveWorkspace_charges {a : Account} (sized : a.Sized)
    (host : Nat → HostResourceErrorReason) (bytes work : Nat) :
    a.Charges (a.reserveWorkspace host bytes work) bytes := by
  unfold Account.reserveWorkspace
  split
  · exact .refused sized _ _
  · exact reserve_charges sized host _

theorem reserveTupleTable_charges {a : Account} (sized : a.Sized)
    (host : Nat → HostResourceErrorReason) (count : Nat) :
    a.Charges (a.reserveTupleTable host count) (count * 16) := by
  unfold Account.reserveTupleTable
  split
  · exact .refused sized _ _
  · split
    · exact .refused sized _ _
    · rename_i request ok
      obtain ⟨-,rfl,-⟩ := Account.tupleRequest_ok ok
      exact reserve_charges sized host _

theorem vectorOver_holding (type : ScalarType) (payload count owner ordinal : Nat) :
    (vectorOver type payload count owner ordinal).holding =
      ⟨some payload,count * elementWidth type,true,owner,some ordinal,.vectorPayload⟩ := by
  cases type <;> rfl

theorem vectorOver_tidy (type : ScalarType) (payload count owner ordinal : Nat) :
    (vectorOver type payload count owner ordinal).Tidy := by
  cases type <;> exact ⟨by simp [vectorOver,emptyVectorOf],by simp [vectorOver,emptyVectorOf],
    by simp [vectorOver,emptyVectorOf],fun _ => rfl⟩

theorem emptyTuple_tidy {owned : Nat → Prop} (free : owned 0) : emptyTuple.Tidy owned :=
  ⟨by simp [emptyTuple],by simp [emptyTuple],free⟩

theorem vectorValue_accounted {v : VectorValue} :
    Accounted initial h ((vectorValue v).holdings ++ rest) ↔ Accounted initial h (v.holding :: rest) := by
  have order : ((vectorValue v).holdings ++ rest).Perm
      (emptyReservation.holding :: v.holding :: rest) := List.Perm.swap ..
  exact ⟨fun accounted => (accounted.perm order).tail,fun accounted =>
    ((Accounted.cons_empty rfl rfl).mpr accounted).perm order.symm⟩

theorem allocateVector_accounted (accounted : Accounted initial h rest) (type : ScalarType)
    (count work : Nat) :
    AccountedAfter initial rest Value.holdings (h.allocateVector r type count work) := by
  unfold Host.allocateVector
  split
  · exact accounted
  · rename_i s acquired
    have found := (acquire_some acquired).1
    have charges := allocateVector_charges (accounted.balanced.sized _ s found)
      (h.bufferPlan r.owner) type count work
    split
    · rename_i account fault equal
      rw [equal] at charges
      exact setAccount_accounted accounted found charges.sized charges.live
    · rename_i account equal
      rw [equal] at charges
      exact vectorValue_accounted.mpr ((Accounted.cons_empty rfl (by cases type <;> rfl)).mpr
        (setAccount_accounted accounted found charges.sized charges.live))
    · rename_i account ordinal equal
      rw [equal] at charges
      have bound := accounted.bind found (charges.nonempty ordinal rfl) charges.live charges.sized
        (scalarElement type) count ordinal .vectorPayload
      rw [← vectorOver_holding] at bound
      exact vectorValue_accounted.mpr bound

theorem allocateVector_tidy {type : ScalarType} {count work : Nat} {next : Host} {v : Value}
    (ok : h.allocateVector r type count work = (next,.ok v)) : v.Tidy fun _ => True := by
  unfold Host.allocateVector at ok
  split at ok
  · cases ok
  · split at ok <;> cases ok
    · exact ⟨emptyVectorOf_tidy type,trivial,emptyTuple_tidy trivial⟩
    · exact ⟨vectorOver_tidy ..,trivial,emptyTuple_tidy trivial⟩

theorem reserveWorkspace_accounted (accounted : Accounted initial h rest) (bytes work : Nat) :
    AccountedAfter initial rest ([·.holding]) (h.reserveWorkspace r bytes work) := by
  unfold Host.reserveWorkspace
  split
  · exact accounted
  · rename_i s acquired
    have found := (acquire_some acquired).1
    have charges := reserveWorkspace_charges (accounted.balanced.sized _ s found)
      (h.bufferPlan r.owner) bytes work
    split
    · rename_i account fault equal
      rw [equal] at charges
      exact setAccount_accounted accounted found charges.sized charges.live
    · rename_i account equal
      rw [equal] at charges
      exact (Accounted.cons_empty rfl rfl).mpr
        (setAccount_accounted accounted found charges.sized charges.live)
    · rename_i account ordinal equal
      rw [equal] at charges
      have owner : r.owner ≠ 0 := fun zero => by simp [zero] at found
      have bound := accounted.bind found (charges.nonempty ordinal rfl) charges.live charges.sized
        .byte bytes ordinal .workspace
      simpa [AccountedAfter,WorkspaceReservation.holding,owner] using bound

theorem chargeWork_accounted (accounted : Accounted initial h rest) (work : Nat) :
    Accounted initial (h.chargeWork r work).1 rest := by
  unfold Host.chargeWork
  split
  · exact accounted
  · rename_i s acquired
    have found := (acquire_some acquired).1
    have sized := accounted.balanced.sized _ s found
    refine setAccount_accounted accounted found ?_ ?_
    all_goals
      unfold Account.chargeWork
      split
      · first | exact sized | rfl
      · split
        · first | exact sized | rfl
        · rename_i admission ok
          have admits := Account.preflight_ok sized ok
          first
          | exact admits.live
          | exact ⟨admits.liveSize,admits.workSize,sized.ordinal⟩

theorem reserveTupleTable_accounted (accounted : Accounted initial h rest) (count : Nat) :
    AccountedAfter initial rest ([·.holding]) (h.reserveTupleTable r count) := by
  unfold Host.reserveTupleTable
  split
  · exact accounted
  · rename_i s acquired
    have found := (acquire_some acquired).1
    have charges := reserveTupleTable_charges (accounted.balanced.sized _ s found)
      (h.bufferPlan r.owner) count
    split
    · rename_i account fault equal
      rw [equal] at charges
      exact setAccount_accounted accounted found charges.sized charges.live
    · rename_i account equal
      rw [equal] at charges
      exact (Accounted.cons_empty rfl rfl).mpr
        (setAccount_accounted accounted found charges.sized charges.live)
    · rename_i account ordinal equal
      rw [equal] at charges
      exact accounted.bind found (charges.nonempty ordinal rfl) charges.live charges.sized
        .byte (count * 16) ordinal .tupleTable

end Reservations

section Releases

variable {initial : Baseline} {h : Host} {rest : List Holding} {r : EvaluationResources}

/-- A record that passes the owner check belongs to the context or to nobody. -/
theorem ownedBy_of_backed {x : Holding} (backed : x.Backed h)
    (check : x.active = true → x.bytes ≠ 0 → x.owner = r.owner) : ownedBy r x.owner := by
  rcases backed with ⟨owner,-⟩ | ⟨-,active,nonempty,-⟩
  · exact .inl owner
  · exact .inr (check active nonempty)

theorem ownersMatch_vector {v : Value} (container : v.container = .vector)
    (ok : ownersMatch r v = true) (backed : v.vector.holding.Backed h) :
    ownedBy r v.vector.accountingOwner :=
  ownedBy_of_backed backed fun active _ => by
    have active : v.vector.accountingActive = true := active
    simpa [ownersMatch,container,active,VectorValue.holding] using ok

theorem ownersMatch_tuple {v : Value} {owned : Nat → Prop} (container : v.container = .tuple)
    (ok : ownersMatch r v = true) (tidy : v.tuple.Tidy owned)
    (backed : ∀ x ∈ v.tuple.holdings, x.Backed h) : v.tuple.Tidy (ownedBy r) := by
  simp only [ownersMatch,container,Bool.and_eq_true,List.all_eq_true] at ok
  obtain ⟨payloads,tables⟩ := ok
  have table : ∀ t ∈ v.tuple.reservations ++ [v.tuple.rootReservation],
      ownedBy r t.accountingOwner := by
    intro t member
    have check := tables t member
    refine ownedBy_of_backed (x := t.holding) (backed _ ?_) fun active nonempty => ?_
    · simp only [TupleValue.holdings,List.mem_append,List.mem_map,List.mem_singleton] at member ⊢
      rcases member with inner | rfl
      · exact .inr (.inl ⟨t,inner,rfl⟩)
      · exact .inr (.inr rfl)
    · have active : t.accountingActive = true := active
      have nonempty : t.canonicalBytes ≠ 0 := nonempty
      simpa [active,nonempty,TupleTableReservation.holding] using check
  refine ⟨fun p member => ⟨(tidy.payloads p member).1,?_⟩,
    fun t member => table t (List.mem_append_left _ member),table _ (by simp)⟩
  have check := payloads p member
  refine ownedBy_of_backed (x := p.holding) (backed _ ?_) fun active _ => ?_
  · exact List.mem_append_left _ (List.mem_map_of_mem member)
  · have active : p.accountingActive = true := active
    simpa [active,VectorValue.holding] using check

theorem TupleValue.Tidy.any {t : TupleValue} {owned : Nat → Prop} (tidy : t.Tidy owned) :
    t.Tidy fun _ => True :=
  ⟨fun v member => ⟨(tidy.payloads v member).1,trivial⟩,fun _ _ => trivial,trivial⟩

theorem releaseTupleTable_accounted {t : TupleTableReservation}
    (accounted : Accounted initial h (t.holding :: rest)) :
    Accounted initial (h.releaseTupleTable r t).1 ((h.releaseTupleTable r t).2.1.holding :: rest) := by
  unfold Host.releaseTupleTable
  dsimp only
  split
  · exact accounted
  · split
    · exact accounted
    · split
      · exact accounted
      · rename_i owner
        split
        · exact accounted
        · split
          · exact accounted
          · rename_i next checked
            have ended := accounted.releaseChecked (z := { t.holding with owner := 0 })
              (fun nonzero => ⟨by
                by_contra other
                exact owner ⟨nonzero,other⟩,rfl⟩) checked rfl rfl
            exact (Accounted.cons_empty rfl rfl).mpr ended.free

theorem releaseWorkspace_accounted {w : WorkspaceReservation}
    (accounted : Accounted initial h (w.holding :: rest)) :
    Accounted initial (h.releaseWorkspace r w).1 ((h.releaseWorkspace r w).2.1.holding :: rest) := by
  unfold Host.releaseWorkspace
  split
  · exact accounted
  · split
    · exact accounted
    · split
      · exact accounted
      · split
        · exact accounted
        · rename_i state _ within
          split
          · exact accounted
          · rename_i next checked
            have mine : w.accountingOwner = r.owner := by
              by_contra other
              exact within (.inl other)
            have ended := accounted.releaseChecked (z := { w.holding with owner := 0 })
              (fun _ => ⟨mine,rfl⟩) checked rfl rfl
            exact (Accounted.cons_empty rfl rfl).mpr ended.free

/-- A value under the invariant, beside all other records. -/
structure Value.Kept (initial : Baseline) (rest : List Holding) (h : Host) (v : Value) : Prop where
  accounted : Accounted initial h (v.holdings ++ rest)
  tidy : v.Tidy fun _ => True

theorem kept_empty {v : Value} (accounted : Accounted initial h rest) (vector : v.vector = emptyVector)
    (tuple : v.tuple = emptyTuple) : v.Kept initial rest h := by
  refine ⟨?_,⟨vector ▸ emptyVectorOf_tidy _,trivial,tuple ▸ emptyTuple_tidy trivial⟩⟩
  rw [Value.holdings,vector,tuple]
  exact (Accounted.cons_empty rfl rfl).mpr ((Accounted.cons_empty rfl rfl).mpr accounted)

theorem Value.Kept.sameRegistries {v : Value} {h' : Host} (kept : v.Kept initial rest h)
    (same : h.SameRegistries h') : v.Kept initial rest h' :=
  ⟨kept.accounted.sameRegistries same,kept.tidy⟩

theorem Value.Kept.dropped {v : Value} (kept : v.Kept initial rest h) :
    Accounted initial (h.dropValue v) rest :=
  kept.accounted.dropValue kept.tidy

theorem Value.Kept.head {v : Value} (kept : v.Kept initial rest h) :
    Accounted initial h (v.vector.holding :: (v.tuple.holdings ++ rest)) := kept.accounted

/-- The tuple's records first, the unused vector record among the others. -/
theorem Value.Kept.arena {v : Value} (kept : v.Kept initial rest h) :
    Accounted initial h (v.tuple.holdings ++ v.vector.holding :: rest) :=
  kept.accounted.perm List.perm_middle.symm

theorem destroyParts_kept {v : Value} (kept : v.Kept initial rest h) :
    (h.destroyParts v).2.Kept initial rest (h.destroyParts v).1 := by
  unfold Host.destroyParts
  split
  · exact kept
  · exact ⟨(Accounted.cons_empty rfl v.vector.released_storage).mpr kept.head.releaseProven,
      ⟨kept.tidy.vector.released,trivial,kept.tidy.tuple⟩⟩
  · obtain ⟨accounted,tidy⟩ := walkArena_accounted destroyVisitor_accounts trivial kept.arena
      kept.tidy.tuple
    exact ⟨accounted.perm List.perm_middle,⟨kept.tidy.vector,trivial,tidy⟩⟩

theorem destroyProvenValue_kept {v : Value} (kept : v.Kept initial rest h) :
    (h.destroyProvenValue v).2.Kept initial rest (h.destroyProvenValue v).1 := by
  unfold Host.destroyProvenValue
  split
  · exact kept_empty (destroyParts_kept kept).dropped rfl rfl
  · exact kept

theorem destroyValue_kept (f : HostFailureInjection) {v : Value} (kept : v.Kept initial rest h) :
    (Host.destroyValue f h v).2.2.1.Kept initial rest (Host.destroyValue f h v).2.1 := by
  unfold Host.destroyValue
  split
  · split
    · rename_i used next failure equal
      exact kept.sameRegistries (validateValue_next equal)
    · rename_i used next equal
      exact kept_empty (destroyParts_kept (kept.sameRegistries (validateValue_next equal))).dropped
        rfl rfl
  · exact kept

theorem releaseVectorParts_kept {v : Value} (kept : v.Kept initial rest h)
    (owned : ownedBy r v.vector.accountingOwner) :
    (h.releaseVectorParts r v).2.1.Kept initial rest (h.releaseVectorParts r v).1 := by
  unfold Host.releaseVectorParts
  dsimp only
  split
  · exact kept
  · split
    · exact kept
    · rename_i next consumed
      refine kept_empty ?_ rfl rfl
      -- The refund happens exactly for an owned payload, whose bytes are its elements'.
      have checked : h.releaseChecked r v.vector.holding v.vector.holding.bytes = some
          (Host.releaseAccountingOwner (if v.vector.holding.active &&
            v.vector.holding.bytes == v.vector.holding.bytes then
              next.refundOwner r.owner v.vector.holding.bytes else next) v.vector.holding.owner) := by
        simp only [Host.releaseChecked]
        rw [consumed]
        rfl
      have ended := kept.head.releaseChecked (z := { v.vector.holding with owner := 0 })
        (fun nonzero => ⟨owned.resolve_left nonzero,rfl⟩) checked rfl rfl
      have finish : ∀ freed : Host, Accounted initial freed (v.tuple.holdings ++ rest) →
          Accounted initial (freed.dropValue { v with vector := v.vector.released }) rest := by
        intro freed accounted
        exact Accounted.dropValue ((Accounted.cons_empty rfl v.vector.released_storage).mpr accounted)
          ⟨kept.tidy.vector.released,trivial,kept.tidy.tuple⟩
      apply finish
      by_cases zero : v.vector.holding.owner = 0
      · -- Nothing is bound: whatever the refund test says, no bytes are charged.
        have unmatched : h.consumeHolding v.vector.holding = none := consumeHolding_ownerless zero
        have none : v.vector.holding.bytes = 0 := by
          by_contra nonzero
          simp [nonzero,unmatched] at consumed
        have same : next = h := by simpa [none,eq_comm] using consumed
        subst same
        simp only [zero,Host.releaseAccountingOwner,Host.findState_zero]
        refine Accounted.free ?_
        split
        · rename_i refund
          simp only [Bool.and_eq_true,beq_iff_eq,none] at refund
          rw [refund.2]
          exact kept.head.refundNothing
        · exact kept.head
      · have own : v.vector.holding.owner = r.owner := owned.resolve_left zero
        have bytes := kept.tidy.vector.charged zero
        have exactly : v.vector.activeLength * elementWidth v.vector.elementType =
            v.vector.holding.bytes := bytes.symm
        simpa [own,exactly] using ended.free

theorem Value.Kept.vector_backed {v : Value} (kept : v.Kept initial rest h) :
    v.vector.holding.Backed h :=
  kept.head.backed _ (List.mem_cons_self ..)

theorem Value.Kept.tuple_backed {v : Value} (kept : v.Kept initial rest h) :
    ∀ x ∈ v.tuple.holdings, x.Backed h := fun x member =>
  kept.arena.backed x (List.mem_append_left _ member)

/-- A walk that keeps the arena accounted keeps the value. -/
theorem walkArena_kept {visitor : WalkVisitor} {owned : Nat → Prop} {v : Value}
    (kept : v.Kept initial rest h) (accounts : visitor.Accounts owned) (free : owned 0)
    (tidy : v.tuple.Tidy owned) :
    Value.Kept initial rest (walkArena visitor h v.tuple).1
      { v with tuple := (walkArena visitor h v.tuple).2.1 } := by
  obtain ⟨accounted,tidy⟩ := walkArena_accounted accounts free kept.arena tidy
  exact ⟨accounted.perm List.perm_middle,⟨kept.tidy.vector,trivial,tidy.any⟩⟩

theorem releaseVectorReservation_kept (f : HostFailureInjection) {v : Value}
    (kept : v.Kept initial rest h) :
    (Host.releaseVectorReservation f h r v).2.2.1.Kept initial rest
      (Host.releaseVectorReservation f h r v).2.1 := by
  unfold Host.releaseVectorReservation
  split
  · exact kept
  · split
    · rename_i used next failure equal
      exact kept.sameRegistries (validateValue_next equal)
    · rename_i used next equal
      have kept := kept.sameRegistries (validateValue_next equal)
      split
      · exact kept
      · rename_i check
        refine releaseVectorParts_kept kept (ownedBy_of_backed kept.vector_backed fun active _ => ?_)
        by_contra other
        exact check ⟨active,other⟩

theorem releaseValueReservations_kept (f : HostFailureInjection) {v : Value}
    (kept : v.Kept initial rest h) :
    (Host.releaseValueReservations f h r v).2.2.1.Kept initial rest
      (Host.releaseValueReservations f h r v).2.1 := by
  unfold Host.releaseValueReservations
  split
  · rename_i used next failure equal
    exact kept.sameRegistries (validateValue_next equal)
  · rename_i used next equal
    have kept := kept.sameRegistries (validateValue_next equal)
    split
    · exact kept_empty kept.dropped rfl rfl
    · split
      · exact kept
      · exact releaseVectorReservation_kept noHostFailure kept
    · rename_i container
      split
      · exact kept
      · rename_i check
        simp only [Bool.not_eq_true',not_or,Bool.not_eq_false] at check
        have walked := walkArena_kept kept (releaseVisitor_accounts r) (.inl rfl)
          (ownersMatch_tuple container check.2 kept.tidy.tuple kept.tuple_backed)
        split
        · rename_i last tuple invariant equal
          rw [equal] at walked
          exact walked
        · rename_i last tuple equal
          rw [equal] at walked
          exact kept_empty walked.dropped rfl rfl

theorem restoreArena_records (t : TupleValue) :
    ((Host.restoreArena t).vectorPayloads,(Host.restoreArena t).reservations,
      (Host.restoreArena t).rootReservation) =
    (t.vectorPayloads,t.reservations,t.rootReservation) := rfl

theorem detachValueReservations_kept {v : Value} (kept : v.Kept initial rest h) :
    (h.detachValueReservations r v).2.1.Kept initial rest (h.detachValueReservations r v).1 := by
  unfold Host.detachValueReservations
  split
  · rename_i used next failure equal
    exact kept.sameRegistries (validateValue_next equal)
  · rename_i used next equal
    have kept := kept.sameRegistries (validateValue_next equal)
    split
    · exact kept
    · rename_i container
      split
      · exact kept
      · rename_i check
        simp only [Bool.not_eq_true',not_or,Bool.not_eq_false] at check
        split
        · exact kept
        · rename_i detached checked
          have owned := ownersMatch_vector container check.2 kept.vector_backed
          exact ⟨kept.head.releaseChecked (fun owner => ⟨owned.resolve_left owner,rfl⟩) checked rfl rfl,
            ⟨kept.tidy.vector.detached,trivial,kept.tidy.tuple⟩⟩
    · rename_i container
      split
      · exact kept
      · rename_i check
        simp only [Bool.not_eq_true',not_or,Bool.not_eq_false] at check
        have walked := walkArena_kept kept (detachVisitor_accounts r) (.inl rfl)
          (ownersMatch_tuple container check.2 kept.tidy.tuple kept.tuple_backed)
        split
        · rename_i last tuple invariant equal
          rw [equal] at walked
          exact walked
        · rename_i last tuple equal
          rw [equal] at walked
          have same := restoreArena_records tuple
          refine ⟨?_,⟨walked.tidy.vector,trivial,TupleValue.tidy_congr walked.tidy.tuple same⟩⟩
          simpa [Value.holdings,TupleValue.holdings_congr same] using walked.accounted

end Releases

section Construction

variable {initial : Baseline} {h : Host} {rest : List Holding} {r : EvaluationResources}

/-- The records that hold a buffer or a reference. -/
def Holding.occupied (x : Holding) : Bool := x.storage.isSome || x.owner != 0

theorem accounted_occupied {xs : List Holding} :
    Accounted initial h xs ↔ Accounted initial h (xs.filter Holding.occupied) := by
  have shrink : ∀ (ys xs : List Holding), Accounted initial h (xs ++ ys) ↔
      Accounted initial h (xs.filter Holding.occupied ++ ys) := by
    intro ys xs
    induction xs generalizing ys with
    | nil => exact Iff.rfl
    | cons x xs ih =>
      by_cases held : x.occupied = true
      · have moved := ih (x :: ys)
        rw [List.filter_cons_of_pos held]
        exact ⟨fun a => (moved.mp (a.perm List.perm_middle.symm)).perm List.perm_middle,
          fun a => (moved.mpr (a.perm List.perm_middle.symm)).perm List.perm_middle⟩
      · rw [List.filter_cons_of_neg held]
        simp only [Holding.occupied,Bool.or_eq_true,bne_iff_ne,not_or,ne_eq,not_not,
          Option.not_isSome_iff_eq_none] at held
        exact (Accounted.cons_empty held.2 held.1).trans (ih ys)
  simpa using shrink [] xs

def TupleTables.holdings (t : TupleTables) : List Holding :=
  t.vectorPayloads.map (·.holding) ++ t.reservations.map (·.holding)

/-- Moving an element into the tables moves exactly its records. -/
theorem TupleTables.append_holdings (t : TupleTables) {v : Value} (confined : v.Confined) :
    ((t.append v).holdings.filter Holding.occupied).Perm
      ((t.holdings ++ v.holdings).filter Holding.occupied) := by
  obtain ⟨-,vector,tuple⟩ := confined
  have blank : emptyVector.holding.occupied = false := rfl
  have blankTable : emptyReservation.holding.occupied = false := rfl
  rw [List.perm_iff_count]
  intro x
  unfold TupleTables.append
  cases container : v.container
  · have v0 := vector (by simp [container])
    have t0 := tuple (by simp [container])
    simp [TupleTables.holdings,Value.holdings,TupleValue.holdings,v0,t0,emptyTuple,blank,blankTable]
  · have t0 := tuple (by simp [container])
    simp only [TupleTables.holdings,Value.holdings,TupleValue.holdings,t0,emptyTuple,List.map_append,
      List.map_nil,List.map_cons,List.filter_append,List.filter_cons,List.count_append,
      List.filter_nil,blankTable]
    simp only [List.nil_append]
    split
    · simp
      omega
    · simp
  · have v0 := vector (by simp [container])
    simp only [TupleTables.holdings,Value.holdings,TupleValue.holdings,v0,List.map_append,
      List.map_nil,List.map_cons,List.filter_append,List.filter_cons,List.count_append,
      List.filter_nil,blank]
    simp only [Bool.false_eq_true,if_false,List.count_append]
    omega

theorem TupleTables.fold_holdings {elements : List Value} (confined : ∀ v ∈ elements, v.Confined)
    (t : TupleTables) :
    ((elements.foldl TupleTables.append t).holdings.filter Holding.occupied).Perm
      ((t.holdings ++ elements.flatMap Value.holdings).filter Holding.occupied) := by
  induction elements generalizing t with
  | nil => simp
  | cons v elements ih =>
    have moved := t.append_holdings (confined v (List.mem_cons_self ..))
    have rest := ih (fun w member => confined w (List.mem_cons_of_mem _ member)) (t.append v)
    simp only [List.foldl_cons,List.flatMap_cons,List.filter_append] at *
    refine rest.trans ?_
    rw [← List.append_assoc]
    exact moved.append_right _

theorem composeTuple_accounted {elements : List Value} {root : TupleTableReservation}
    (confined : ∀ v ∈ elements, v.Confined)
    (accounted : Accounted initial h (root.holding :: (elements.flatMap Value.holdings ++ rest))) :
    Accounted initial h ((composeTuple elements root).holdings ++ rest) := by
  rw [accounted_occupied] at accounted ⊢
  refine accounted.perm ?_
  have moved := TupleTables.fold_holdings confined ⟨[],[],[],[],[]⟩
  have blank : emptyVector.holding.occupied = false := rfl
  rw [List.perm_iff_count] at moved ⊢
  intro x
  have share := moved x
  simp only [TupleTables.holdings,List.map_nil,List.nil_append,List.filter_append,
    List.count_append] at share
  simp only [composeTuple,Value.holdings,TupleValue.holdings,List.cons_append,List.filter_cons,
    List.filter_append,blank,List.filter_nil]
  simp only [Bool.false_eq_true,if_false,List.count_append]
  split
  all_goals
    simp [List.count_cons]
    omega

theorem composeTuple_tidy {elements : List Value} {root : TupleTableReservation}
    (tidy : ∀ v ∈ elements, v.Tidy fun _ => True) : (composeTuple elements root).Tidy fun _ => True := by
  have payloads : ∀ (es : List Value) (t : TupleTables), (∀ v ∈ es, v.Tidy fun _ => True) →
      (∀ p ∈ t.vectorPayloads, p.Tidy) → ∀ p ∈ (es.foldl TupleTables.append t).vectorPayloads, p.Tidy := by
    intro es
    induction es with
    | nil => exact fun t _ kept => kept
    | cons v es ih =>
      intro t all kept
      refine ih (t.append v) (fun w member => all w (List.mem_cons_of_mem _ member)) ?_
      have own := all v (List.mem_cons_self ..)
      unfold TupleTables.append
      split
      · exact kept
      · intro p member
        rcases List.mem_append.mp member with old | new
        · exact kept p old
        · exact (List.mem_singleton.mp new) ▸ own.vector
      · intro p member
        rcases List.mem_append.mp member with old | new
        · exact kept p old
        · exact (own.tuple.payloads p new).1
  exact ⟨emptyVectorOf_tidy _,trivial,
    ⟨fun p member => ⟨payloads elements _ tidy (by simp) p member,trivial⟩,fun _ _ => trivial,trivial⟩⟩

/-- The survey of the elements changes no registry and passes only confined values. -/
theorem surveyElements_ok (h : Host) (a : Account) (total : Nat) (f : HostFailureInjection)
    (before elements : List Value) (counts : TupleCounts) :
    h.SameRegistries (surveyElements a total f h before counts elements).2.1 ∧
      ∀ added, (surveyElements a total f h before counts elements).2.2 = .ok added →
        ∀ v ∈ elements, v.Confined := by
  induction elements generalizing h f before counts with
  | nil => exact ⟨.refl h,fun _ _ v member => by cases member⟩
  | cons v elements ih =>
    unfold surveyElements
    split
    · rename_i used next reason equal
      exact ⟨validateValue_next equal,fun _ impossible => by cases impossible⟩
    · rename_i used next invalid equal
      exact ⟨validateValue_next equal,fun _ impossible => by cases impossible⟩
    · rename_i used next equal
      have same := validateValue_next equal
      have confined := (validateValue_accepts equal).confined
      split
      · exact ⟨same,fun _ impossible => by cases impossible⟩
      · split
        · exact ⟨same,fun _ impossible => by cases impossible⟩
        · rename_i more _
          obtain ⟨same',rest⟩ := ih next used (before ++ [v]) more
          refine ⟨same.trans same',fun added ok w member => ?_⟩
          rcases List.mem_cons.mp member with rfl | later
          · exact confined
          · exact rest added ok w later

theorem tupleMetadata_same (f : HostFailureInjection) (h : Host) (count : Nat) (c : TupleCounts) :
    h.SameRegistries (tupleMetadata f h count c).2.1 := by
  unfold tupleMetadata
  dsimp only
  split
  · exact .refl h
  · split
    · rename_i begun _
      have same := allocateHostArrays_same h (List.takeWhile (fun capacity =>
        begun.maxContainerElements.all fun maximum => decide (capacity ≤ maximum))
        ([c.nodes,c.edges,c.payloads,c.reservations,count].filter (· ≠ 0))).length
      split
      · rename_i next granted
        rw [granted] at same
        exact same
      · rename_i next reason refused
        rw [refused] at same
        exact same
    · exact .refl h

/-- The elements stay as they were, or all move into the new value. -/
def TupleMade (initial : Baseline) (rest : List Holding) (elements : List Value) :
    HostFailureInjection × Host × List Value × Except TupleFailure Value → Prop
  | (_,next,left,.error _) =>
    left = elements ∧ Accounted initial next (elements.flatMap Value.holdings ++ rest)
  | (_,next,left,.ok v) => left = elements.map (fun _ => invalidConstructionValue) ∧
    (v.Tidy fun _ => True) ∧ Accounted initial next (v.holdings ++ rest)

theorem makeTupleValue_accounted (f : HostFailureInjection) {elements : List Value}
    (accounted : Accounted initial h (elements.flatMap Value.holdings ++ rest))
    (tidy : ∀ v ∈ elements, v.Tidy fun _ => True) :
    TupleMade initial rest elements (makeTupleValue f h r elements) := by
  unfold makeTupleValue
  split
  · exact ⟨rfl,accounted⟩
  · split
    · exact ⟨rfl,accounted⟩
    · rename_i s _ _ _ _
      have survey := surveyElements_ok h s.account elements.length f [] elements
        ⟨elements.length,elements.length,0,0⟩
      split
      · rename_i used next failure equal
        rw [equal] at survey
        exact ⟨rfl,accounted.sameRegistries survey.1⟩
      · rename_i used next counts equal
        rw [equal] at survey
        have confined := survey.2 counts rfl
        have reserved := reserveTupleTable_accounted (r := r) (accounted.sameRegistries survey.1)
          elements.length
        split
        · rename_i refused fault equal
          rw [equal] at reserved
          exact ⟨rfl,reserved⟩
        · rename_i admitted reservation equal
          rw [equal] at reserved
          have metadata := tupleMetadata_same used admitted elements.length counts
          split
          · rename_i begun granted equal
            rw [equal] at metadata
            exact ⟨rfl,composeTuple_tidy tidy,
              composeTuple_accounted confined (reserved.sameRegistries metadata)⟩
          · rename_i begun denied reason _ equal
            rw [equal] at metadata
            exact ⟨rfl,(releaseTupleTable_accounted (reserved.sameRegistries metadata)).tail⟩

end Construction
end Bennu
