import Bennu.TuplePreadmission

/-! What an abandoned assembly gives back: its elements, each destroyed once, and its table;
and preadmitted construction as a whole. -/
namespace Bennu

/-- Values destroyed one after another, the last first, all they hold freed once. -/
inductive DestroyedInTurn : Host → List Value → Host → Prop
  | nothing {h} : DestroyedInTurn h [] h
  | destroyed {h mid h' v v' rest} : DestroyedInTurn h rest mid →
      Destroyed destroyVisitor mid v h' v' → DestroyedInTurn h (v :: rest) h'

/-- What an owner is charged for these records. -/
def chargedTo (owner : Nat) (xs : List Holding) : Nat :=
  (xs.map fun x => if x.owner = owner then x.bytes else 0).sum

section Slots

variable {initial : Baseline} {h : Host} {xs ys : List Holding} {slots : List Value}

theorem Accounted.behind (accounted : Accounted initial h (xs ++ ys)) : Accounted initial h ys := by
  induction xs with
  | nil => exact accounted
  | cons x xs ih => exact ih accounted.tail

theorem chargedTo_append (owner : Nat) (xs ys : List Holding) :
    chargedTo owner (xs ++ ys) = chargedTo owner xs + chargedTo owner ys := by
  simp [chargedTo]

/-- The records' own shares of what an owner is charged. -/
theorem backed_total {owner : Nat} (positive : owner ≠ 0) (backed : ∀ x ∈ xs, x.Backed h) :
    ((xs.filterMap (·.storage)).map fun q => (h.findRecord q).elim 0 (boundBytes owner)).sum =
      chargedTo owner xs := by
  induction xs with
  | nil => rfl
  | cons x xs ih =>
    have rest := ih fun y member => backed y (List.mem_cons_of_mem _ member)
    have share : chargedTo owner (x :: xs) = (if x.owner = owner then x.bytes else 0) + chargedTo owner xs := by
      simp [chargedTo]
    rw [share,← rest]
    rcases backed x (List.mem_cons_self ..) with ⟨unowned,unbound⟩ | ⟨-,-,-,bound⟩
    · rw [if_neg (by rw [unowned]; exact Ne.symm positive),Nat.zero_add]
      cases storage : x.storage with
      | none => rw [List.filterMap_cons_none storage]
      | some q =>
        obtain ⟨record,found,inactive⟩ := unbound q storage
        rw [List.filterMap_cons_some storage,List.map_cons,List.sum_cons,found]
        simp [boundBytes,inactive]
    · obtain ⟨q,ordinal,record,storage,-,-,found,semantic⟩ := matches_record bound
      rw [List.filterMap_cons_some storage,List.map_cons,List.sum_cons,found]
      simp [boundBytes,semantic]

/-- Freeing the buffers of some records takes off what their owners are charged for them. -/
theorem Accounted.freed_bytes {h' : Host} (accounted : Accounted initial h (xs ++ ys))
    (balanced : h'.Balanced initial) (records : ∀ q, h'.findRecord q =
      if q ∈ xs.filterMap (·.storage) then none else h.findRecord q) {owner : Nat} (positive : owner ≠ 0) :
    h.activeBytes owner = h'.activeBytes owner + chargedTo owner xs := by
  have separate := accounted.separate
  rw [List.filterMap_append] at separate
  rw [← backed_total positive fun x member => accounted.backed x (List.mem_append_left _ member)]
  exact KeyedList.total_removed (boundBytes owner) accounted.balanced.distinct balanced.distinct
    (List.nodup_append.mp separate).1 records

theorem Value.Exact.buffer_dropped {v : Value} (exact : v.Exact h) {q : Nat} :
    .buffer q ∈ v.dropped ↔ q ∈ v.storages := by
  rw [Value.dropped,exact.holdings_storages]
  simp [buffer_not_table]

/-- A valid value stays valid where its own records are left alone. -/
theorem Valid.untouched {g : Host} {v : Value} (balanced : g.Balanced initial)
    (same : ∀ q ∈ v.storages, g.findRecord q = h.findRecord q) (valid : Valid h v) : Valid g v := by
  have exact := (invalidity_none_iff h v).mp valid
  have keeps : h.KeepsOf (· ∈ v.storages) g := by
    refine ⟨fun q record own found => (same q own).trans found,fun q record own found active _ => ?_⟩
    obtain ⟨member,-⟩ := KeyedList.lookup_some ((same q own).trans found)
    exact balanced.owned record member active
  exact (invalidity_none_iff g v).mpr (exact.keptOf keeps fun _ own => own)

/-- Valid values whose records are accounted for share no storage. -/
theorem Accounted.storages_nodup (accounted : Accounted initial h (slots.flatMap Value.holdings ++ ys))
    (valid : ∀ v ∈ slots, Valid h v) : (slots.flatMap Value.storages).Nodup := by
  have separate := accounted.separate
  rw [List.filterMap_append] at separate
  have all : (slots.flatMap Value.holdings).filterMap (·.storage) = slots.flatMap Value.storages := by
    rw [List.filterMap_flatMap]
    exact List.flatMap_congr fun v member => ((invalidity_none_iff h v).mp (valid v member)).holdings_storages
  rw [all] at separate
  exact (List.nodup_append.mp separate).1

/-- The slots are destroyed in turn, and the rest stays accounted for. -/
theorem destroySlots_destroys (tidy : ∀ v ∈ slots, v.Tidy fun _ => True)
    (accounted : Accounted initial h (slots.flatMap Value.holdings ++ ys)) (valid : ∀ v ∈ slots, Valid h v) :
    DestroyedInTurn h slots (PreadmittedTupleAssembly.destroySlots h slots) ∧
      Accounted initial (PreadmittedTupleAssembly.destroySlots h slots) ys ∧
      ∀ q, (PreadmittedTupleAssembly.destroySlots h slots).findRecord q =
        if q ∈ slots.flatMap Value.storages then none else h.findRecord q := by
  induction slots generalizing ys with
  | nil => exact ⟨.nothing,accounted,fun q => by simp [PreadmittedTupleAssembly.destroySlots]⟩
  | cons v rest ih =>
    have nodup := accounted.storages_nodup valid
    have order : ((v :: rest).flatMap Value.holdings ++ ys).Perm
        (rest.flatMap Value.holdings ++ (v.holdings ++ ys)) := by
      rw [List.flatMap_cons,List.append_assoc]
      exact List.perm_append_comm_assoc ..
    obtain ⟨inTurn,left,records⟩ := ih (fun w member => tidy w (List.mem_cons_of_mem _ member))
      (accounted.perm order) fun w member => valid w (List.mem_cons_of_mem _ member)
    rw [List.flatMap_cons,List.nodup_append] at nodup
    have own : Valid (PreadmittedTupleAssembly.destroySlots h rest) v := by
      refine (valid v (List.mem_cons_self ..)).untouched left.balanced fun q held => ?_
      rw [records,if_neg fun other => nodup.2.2 q held q other rfl]
    have destroyed := destroyProvenValue_destroyed own
    have kept : v.Kept initial ys (PreadmittedTupleAssembly.destroySlots h rest) :=
      ⟨left,tidy v (List.mem_cons_self ..)⟩
    refine ⟨inTurn.destroyed destroyed,(destroyProvenValue_kept kept).accounted.behind,fun q => ?_⟩
    refine (destroyed.registry q).trans ?_
    simp only [((invalidity_none_iff _ v).mp own).buffer_dropped,records,List.flatMap_cons,List.mem_append]
    by_cases mine : q ∈ v.storages <;> simp [mine]

end Slots

/-- What abandoning an assembly leaves: its elements destroyed in turn and its table freed,
nothing twice, no other buffer touched, and each owner's bytes taken back. -/
structure GivenBack (h : Host) (moved : List Value) (root : TupleTableReservation) (h' : Host) : Prop where
  destroyed : ∃ mid, DestroyedInTurn h moved mid ∧ h' = mid.releaseProven root.holding
  distinct : (moved.flatMap Value.storages ++ root.payload.toList).Nodup
  records : ∀ q, h'.findRecord q =
    if q ∈ moved.flatMap Value.storages ++ root.payload.toList then none else h.findRecord q
  live : ∀ t s s', h.findState t = some s → h'.findState t = some s' →
    s.account.liveEvaluationBytes = s'.account.liveEvaluationBytes +
      chargedTo t (moved.flatMap Value.holdings ++ [root.holding])

/-- In balance, a context can be used exactly while its handle is open. -/
theorem Host.Balanced.usable {initial : Baseline} {h : Host} (balanced : h.Balanced initial)
    (r : EvaluationResources) : (h.acquireValidated r).isNone =
      !(initial.opened r.owner && r.stateHandle == r.owner) := by
  unfold Host.acquireValidated
  cases found : h.findState r.owner with
  | none =>
    cases isOpen : initial.opened r.owner with
    | false => rfl
    | true =>
      have present := balanced.registered _ isOpen
      rw [found] at present
      cases present
  | some state =>
    rw [Option.filter_some,balanced.active _ _ found]
    cases initial.opened r.owner && r.stateHandle == r.owner <;> rfl

section Release

variable {initial : Baseline} {h : Host} {r : EvaluationResources} {count : Nat} {c : TupleCounts}
  {root : TupleTableReservation} {moved : List Value} {a : PreadmittedTupleAssembly} {rest : List Holding}

theorem Assembling.release (state : Assembling count c root moved a)
    (tidy : ∀ v ∈ moved, v.Tidy fun _ => True) (valid : ∀ v ∈ moved, Valid h v)
    (accounted : Accounted initial h (moved.flatMap Value.holdings ++ (root.holding :: rest))) :
    ∃ h', PreadmittedTupleAssembly.release h r a = (h',PreadmittedTupleAssembly.abandoned,
        if (h'.acquireValidated r).isNone then .error .resourceContextMismatch else .ok ()) ∧
      GivenBack h moved root h' ∧ Accounted initial h' rest := by
  have slots : a.fixedSlots.take a.transferredCount = moved := by
    rw [state.assembly]
    exact List.take_left
  have safe : moved.all preadmittedValueLayoutSafe = true :=
    List.all_eq_true.mpr fun v member => (preadmittedValueCounts_some (state.counted v member)).1
  have table : a.value.tuple.rootReservation = root := by rw [state.assembly]; rfl
  obtain ⟨inTurn,left,records⟩ := destroySlots_destroys tidy accounted valid
  have freed := left.releaseProven
  refine ⟨(PreadmittedTupleAssembly.destroySlots h moved).releaseProven root.holding,?_,?_,freed⟩
  · simp [PreadmittedTupleAssembly.release,slots,state.storageSafe,safe,table]
  · have owned : (moved.flatMap Value.holdings ++ (root.holding :: rest)).Perm
        ((moved.flatMap Value.holdings ++ [root.holding]) ++ rest) := by simp
    have mine := accounted.perm owned
    have all : (moved.flatMap Value.holdings ++ [root.holding]).filterMap (·.storage) =
        moved.flatMap Value.storages ++ root.payload.toList := by
      rw [List.filterMap_append,List.filterMap_flatMap]
      refine congrArg₂ _ (List.flatMap_congr fun v member => ?_) ?_
      · exact ((invalidity_none_iff h v).mp (valid v member)).holdings_storages
      · cases storage : root.payload with
        | none => exact List.filterMap_cons_none storage
        | some q => exact List.filterMap_cons_some storage
    have distinct : (moved.flatMap Value.storages ++ root.payload.toList).Nodup := by
      have separate := mine.separate
      rw [List.filterMap_append,all] at separate
      exact (List.nodup_append.mp separate).1
    have gone : ∀ q, ((PreadmittedTupleAssembly.destroySlots h moved).releaseProven root.holding).findRecord
        q = if q ∈ moved.flatMap Value.storages ++ root.payload.toList then none else h.findRecord q := by
      intro q
      have storage : root.holding.storage = root.payload := rfl
      rw [releaseProven_findRecord,records,storage]
      by_cases here : root.payload = some q
      · simp [here]
      · simp [here,Option.mem_toList]
    refine ⟨⟨_,inTurn,rfl⟩,distinct,gone,fun t s s' before after => ?_⟩
    have positive : t ≠ 0 := by
      rintro rfl
      cases before
    have bytes := accounted.balanced.live t s before
    have bytes' := freed.balanced.live t s' after
    have active := mine.freed_bytes freed.balanced (fun q => by rw [all]; exact gone q) positive
    omega

end Release

/-- A session that holds the table of an admitted assembly. -/
def ResourceSession.holding (s : ResourceSession) (granted : Host) (root : TupleTableReservation) :
    ResourceSession :=
  { s with host := granted, tables := s.tables ++ [root] }

namespace ResourceSession

variable {live : Nat → Nat} {s : ResourceSession}

theorem Sound.holding (sound : s.Sound live) {r : EvaluationResources} {count : Nat} {admitted granted : Host}
    {root : TupleTableReservation} (reserved : s.host.reserveTupleTable r count = (admitted,.ok root))
    (same : admitted.SameRegistries granted) : (s.holding granted root).Sound live := by
  have after := reserveTupleTable_accounted (r := r) sound.accounted count
  rw [reserved] at after
  have accounted : Accounted (s.baseline live) granted (root.holding :: s.holdings) :=
    Accounted.sameRegistries after same
  refine ⟨accounted.perm ?_,sound.tidy,sound.handles,sound.distinct⟩
  have moved : (root.holding :: s.holdings).Perm (s.holdings ++ [root.holding]) :=
    (List.perm_append_singleton _ _).symm
  simpa [ResourceSession.holding,holdings] using moved

theorem subperm_others {α : Type} {moved all : List α} (owned : moved.Subperm all) :
    ∃ others, all.Perm (moved ++ others) := by
  obtain ⟨list,order,sub⟩ := List.subperm_iff.mp owned
  obtain ⟨others,split⟩ := sub.exists_perm_append
  exact ⟨others,order.symm.trans split⟩

/-- Some of the values and one of the tables, apart from all else that a session owns. -/
theorem holdings_parts {moved : List Value} {root : TupleTableReservation} (owned : moved.Subperm s.values)
    (held : root ∈ s.tables) :
    ∃ rest, s.holdings.Perm (moved.flatMap Value.holdings ++ (root.holding :: rest)) := by
  obtain ⟨others,split⟩ := subperm_others owned
  obtain ⟨before,behind,tables⟩ := List.append_of_mem held
  refine ⟨others.flatMap Value.holdings ++ (s.workspaces.map (·.holding) ++ (before.map (·.holding) ++
    behind.map (·.holding))),?_⟩
  have first := split.flatMap_right Value.holdings
  rw [List.flatMap_append] at first
  rw [holdings,tables,List.map_append,List.map_cons]
  refine (first.append_right _).trans ?_
  rw [List.append_assoc]
  refine List.Perm.append_left _ ?_
  rw [← List.append_assoc (s.workspaces.map _),← List.append_assoc (others.flatMap _),
    ← List.append_assoc (s.workspaces.map _) (before.map _),← List.append_assoc (others.flatMap _)]
  refine List.perm_middle.trans (.of_eq ?_)
  simp only [List.append_assoc]

end ResourceSession

/-- An admitted assembly in a session: what it publishes, and what it gives back. -/
theorem Assembling.in_session {live : Nat → Nat} {s : ResourceSession} {r : EvaluationResources} {count : Nat}
    {c : TupleCounts} {root : TupleTableReservation} {moved : List Value} {a : PreadmittedTupleAssembly}
    (state : Assembling count c root moved a) (sound : s.Sound live) (held : root ∈ s.tables)
    (owned : moved.Subperm s.values) (valid : ∀ v ∈ moved, Valid s.host v) :
    ∃ h', PreadmittedTupleAssembly.release s.host r a = (h',PreadmittedTupleAssembly.abandoned,
        if (s.host.acquireValidated r).isNone then .error .resourceContextMismatch else .ok ()) ∧
      GivenBack s.host moved root h' := by
  obtain ⟨rest,parts⟩ := ResourceSession.holdings_parts owned held
  obtain ⟨h',released,back,left⟩ := state.release (r := r)
    (fun v member => sound.tidy v (owned.subset member)) valid (sound.accounted.perm parts)
  rw [left.balanced.usable,← sound.accounted.balanced.usable] at released
  exact ⟨h',released,back⟩

section Construction

variable {initial : Baseline} {h : Host} {r : EvaluationResources}

/-- What `make_tuple_value` has done when it succeeds. -/
theorem makeTupleValue_ok {f used : HostFailureInjection} {made : Host} {elements left : List Value}
    {w : Value} (ok : makeTupleValue f h r elements = (used,made,left,.ok w)) :
    (∀ v ∈ elements, preadmittedValueCounts v = some v.tableSizes) ∧
      ∃ next admitted root, h.SameRegistries next ∧
        next.reserveTupleTable r elements.length = (admitted,.ok root) ∧ admitted.SameRegistries made ∧
        w = composeTuple elements root := by
  unfold makeTupleValue at ok
  split at ok
  · cases ok
  · rename_i state opened
    split at ok
    · cases ok
    · have survey := (surveyElements_ok h state.account elements.length f [] elements
        ⟨elements.length,elements.length,0,0⟩).1
      split at ok
      · cases ok
      · rename_i begun next counts surveyed
        rw [surveyed] at survey
        have countable : ∀ v ∈ elements, preadmittedValueCounts v = some v.tableSizes := by
          intro v member
          exact surveyElements_countable surveyed (Nat.ne_of_gt (List.length_pos_of_mem member)) v member
        split at ok
        · cases ok
        · rename_i admitted root reserved
          have metadata := tupleMetadata_same begun admitted elements.length counts
          split at ok
          · rename_i last granted filled
            rw [filled] at metadata
            cases ok
            exact ⟨countable,next,admitted,root,survey,reserved,metadata,rfl⟩
          · cases ok

/-- Against `make_tuple_value`: the same registries, and the same tuple exactly when scalars
come first. -/
theorem preadmitted_against_made {f used : HostFailureInjection} {made granted : Host}
    {elements left : List Value} {w : Value} {a : PreadmittedTupleAssembly}
    (ok : makeTupleValue f h r elements = (used,made,left,.ok w))
    (preadmitted : preadmitTupleAssembly h r elements.length (exactCounts elements) = (granted,.ok a)) :
    made.SameRegistries granted ∧ ∃ full v, Transfers a elements full ∧
      full.publish = (PreadmittedTupleAssembly.published,.ok v) ∧ (v = w ↔ ScalarsFirst elements) ∧
      (Valid granted v → ScalarsFirst elements) := by
  obtain ⟨countable,next,admitted,root,survey,reserved,metadata,rfl⟩ := makeTupleValue_ok ok
  obtain ⟨admitted',root',reserved',same',rootEdges,rfl⟩ := preadmitTupleAssembly_ok preadmitted
  obtain ⟨requests,rfl⟩ := survey
  rw [reserveTupleTable_requests,reserved'] at reserved
  cases reserved
  obtain ⟨full,run⟩ : ∃ a, Transfers (admittedAssembly elements.length (exactCounts elements) root)
      elements a := transfers_all countable
  have state := (Assembling.admitted rootEdges).transfers run
  refine ⟨?_,full,_,run,state.published rfl rfl,publishedTuple_eq_iff elements root,publishedTuple_valid⟩
  have first : Host.SameRegistries { admitted' with arrayRequests := requests } admitted' := ⟨_,rfl⟩
  exact metadata.symm.trans (first.trans same')

end Construction

/-- Releasing an assembly of a session with these elements in it: at once, the elements being
the session's, and after any further operations that left its table to it. -/
structure Releases (s : ResourceSession) (r : EvaluationResources) (granted : Host) (moved : List Value)
    (a : PreadmittedTupleAssembly) : Prop where
  atOnce : moved.Subperm s.values → (∀ v ∈ moved, Valid s.host v) →
    ∃ h', PreadmittedTupleAssembly.release granted r a = (h',PreadmittedTupleAssembly.abandoned,.ok ()) ∧
      GivenBack granted moved a.value.tuple.rootReservation h' ∧
      ∀ t before after, s.host.findState t = some before → h'.findState t = some after →
        before.account.liveEvaluationBytes = after.account.liveEvaluationBytes +
          chargedTo t (moved.flatMap Value.holdings)
  later : ∀ operations, let g := (s.holding granted a.value.tuple.rootReservation).run operations
    a.value.tuple.rootReservation ∈ g.tables → moved.Subperm g.values → (∀ v ∈ moved, Valid g.host v) →
    ∃ h', PreadmittedTupleAssembly.release g.host r a = (h',PreadmittedTupleAssembly.abandoned,
        if (g.host.acquireValidated r).isNone then .error .resourceContextMismatch else .ok ()) ∧
      GivenBack g.host moved a.value.tuple.rootReservation h'

/-- A granted table is charged to its owner alone. -/
theorem TableGranted.chargedTo_root {h h' : Host} {before : EvaluationResourceState} {owner count : Nat}
    {root : TupleTableReservation} (granted : TableGranted h before owner count h' root) {t : Nat}
    (positive : t ≠ 0) : chargedTo t [root.holding] = if t = owner then count * 16 else 0 := by
  rw [granted.table]
  by_cases none : count = 0
  · simp [chargedTo,none,TupleTableReservation.holding,emptyReservation,Ne.symm positive]
  · simp [chargedTo,none,TupleTableReservation.holding,eq_comm]

section Releasing

variable {live : Nat → Nat} {s : ResourceSession} {r : EvaluationResources} {count : Nat} {c : TupleCounts}
  {granted : Host} {start a : PreadmittedTupleAssembly} {moved : List Value}

theorem Assembling.releases {admitted : Host} {root : TupleTableReservation} (sound : s.Sound live)
    (reserved : s.host.reserveTupleTable r count = (admitted,.ok root))
    (same : admitted.SameRegistries granted) (state : Assembling count c root moved a) :
    Releases s r granted moved a := by
  have table : a.value.tuple.rootReservation = root := by rw [state.assembly]; rfl
  have held := sound.holding reserved same
  have balanced := sound.accounted.balanced
  obtain ⟨before,opened,charged⟩ := Host.reserveTupleTable_granted balanced.sized reserved
  have charged := charged.sameRegistries same
  constructor
  · intro owned valid
    rw [table]
    have valid' : ∀ v ∈ moved, Valid granted v := fun v member =>
      (invalidity_none_iff granted v).mpr
        (((invalidity_none_iff s.host v).mp (valid v member)).kept charged.keeps)
    obtain ⟨h',released,back⟩ := state.in_session (r := r) held
      (List.mem_append_right _ (List.mem_singleton_self root)) owned valid'
    obtain ⟨now,usable⟩ := charged.acquired opened
    have isOpen : ((s.holding granted root).host.acquireValidated r).isNone = false := by
      change (granted.acquireValidated r).isNone = false
      rw [usable]
      rfl
    rw [isOpen] at released
    refine ⟨h',released,back,fun t first last found found' => ?_⟩
    have positive : t ≠ 0 := by
      rintro rfl
      cases found
    have states := charged.states t
    have share := charged.chargedTo_root positive
    by_cases own : t = r.owner
    · subst own
      rw [if_pos rfl] at states share
      have same : first = before := Option.some.inj (found.symm.trans charged.found)
      have bytes := back.live _ _ last states found'
      rw [chargedTo_append,share] at bytes
      simp only [Account.charged,tableDemand] at bytes
      rw [same]
      omega
    · rw [if_neg own] at states share
      have bytes := back.live t first last (states.trans found) found'
      rw [chargedTo_append,share] at bytes
      exact bytes
  · intro operations g member owned valid
    rw [table] at member ⊢
    exact state.in_session (ResourceSession.run_sound (table ▸ held) operations) member owned valid

end Releasing

/-- In every reachable state, for any elements: an admitted assembly takes them all and is
published as what `make_tuple_value` makes of them, over the same registries, exactly when no
scalar stands behind an element that carries a vector; publishing is refused and changes
nothing until every slot and all room are used up; and releasing the assembly before that
destroys what was moved in turn, frees the table and takes all their bytes back. -/
theorem preadmission_iff (bufferPlan : Nat → Nat → HostResourceErrorReason)
    (arrayPlan : Nat → HostResourceErrorReason) {accounts : List Account}
    (sized : ∀ a ∈ accounts, a.Sized) (operations : List ResourceOperation) (r : EvaluationResources) :
    let s := (startSession bufferPlan arrayPlan accounts).run operations
    (∀ f elements used made left w granted start,
      makeTupleValue f s.host r elements = (used,made,left,.ok w) →
      preadmitTupleAssembly s.host r elements.length (exactCounts elements) = (granted,.ok start) →
      made.SameRegistries granted ∧ ∃ full v, Transfers start elements full ∧
        full.publish = (PreadmittedTupleAssembly.published,.ok v) ∧ (v = w ↔ ScalarsFirst elements) ∧
        (Valid granted v → ScalarsFirst elements)) ∧
    ∀ count c granted start moved a,
      preadmitTupleAssembly s.host r count c = (granted,.ok start) → Transfers start moved a →
      (¬(moved.length = count ∧ exactCounts moved = c) → a.publish = (a,.error .invalidTupleRange)) ∧
      (moved.length = count ∧ exactCounts moved = c →
        ∃ v, a.publish = (PreadmittedTupleAssembly.published,.ok v)) ∧
      Releases s r granted moved a := by
  intro s
  have sound := ResourceSession.run_sound (@startSession_sound bufferPlan arrayPlan accounts sized)
    operations
  refine ⟨fun _ _ _ _ _ _ _ _ ok preadmitted => preadmitted_against_made ok preadmitted,?_⟩
  intro count c granted start moved a preadmitted run
  obtain ⟨admitted,root,reserved,same,rootEdges,rfl⟩ := preadmitTupleAssembly_ok preadmitted
  have state := (Assembling.admitted rootEdges).transfers run
  exact ⟨state.unpublished,fun filled => ⟨_,state.published filled.1 filled.2⟩,
    state.releases sound reserved same⟩

/-- The elements `(0 0)` and `7`. -/
def vectorThenScalar : ResourceSession :=
  (startSession (fun _ _ => .none) (fun _ => .none) [trustedLocalV2Account]).run
    [.allocateVector 0 .integer 2 2,.makeScalar ⟨.integer,false,7,0⟩]

/-- The tuple of a vector and a scalar: published, it is another and no valid value. -/
theorem preadmission_differs :
    let s := vectorThenScalar
    let made := makeTupleValue noHostFailure s.host (s.context 0) s.values
    let admitted := preadmitTupleAssembly s.host (s.context 0) 2 (exactCounts s.values)
    ∃ w start full v, made.2.2.2 = .ok w ∧ admitted.2 = .ok start ∧ Transfers start s.values full ∧
      full.publish = (PreadmittedTupleAssembly.published,.ok v) ∧ v ≠ w ∧ ¬Valid admitted.1 v := by
  intro s made admitted
  have composed : made.2.2.2.toOption.isSome = true := by decide +kernel
  have preadmitted : admitted.2.toOption.isSome = true := by decide +kernel
  have behind : ¬ScalarsFirst s.values := by decide +kernel
  cases result : made.2.2.2 with
  | error failure =>
    rw [result] at composed
    cases composed
  | ok w =>
    cases ended : admitted.2 with
    | error fault =>
      rw [ended] at preadmitted
      cases preadmitted
    | ok start =>
      have first : made = (made.1,made.2.1,made.2.2.1,.ok w) := by rw [← result]
      have second : preadmitTupleAssembly s.host (s.context 0) s.values.length (exactCounts s.values) =
          (admitted.1,.ok start) := by rw [← ended]; rfl
      obtain ⟨-,full,v,run,published,same,valid⟩ := preadmitted_against_made first second
      exact ⟨w,start,full,v,rfl,rfl,run,published,fun equal => behind (same.mp equal),
        fun accepted => behind (valid accepted)⟩

/-- A scalar, then a tuple that carries a vector: published as it is made. -/
theorem preadmission_iff_scalar_first :
    let s := (startSession (fun _ _ => .none) (fun _ => .none) [trustedLocalV2Account]).run
      [.makeScalar ⟨.integer,false,7,0⟩,.allocateVector 0 .integer 2 2,.makeTuple 0 noHostFailure 1 1]
    let elements := [s.values.getD 0 invalidConstructionValue,s.values.getD 2 invalidConstructionValue]
    let made := makeTupleValue noHostFailure s.host (s.context 0) elements
    let admitted := preadmitTupleAssembly s.host (s.context 0) 2 (exactCounts elements)
    ∃ w start full, made.2.2.2 = .ok w ∧ admitted.2 = .ok start ∧ Transfers start elements full ∧
      full.publish = (PreadmittedTupleAssembly.published,.ok w) := by
  intro s elements made admitted
  have sized : ∀ a ∈ [trustedLocalV2Account], a.Sized := by simpa using trustedLocalV2Account_sized
  have law := (preadmission_iff (fun _ _ => .none) (fun _ => .none) sized
    [.makeScalar ⟨.integer,false,7,0⟩,.allocateVector 0 .integer 2 2,.makeTuple 0 noHostFailure 1 1]
    (s.context 0)).1
  have composed : made.2.2.2.toOption.isSome = true := by decide +kernel
  have preadmitted : admitted.2.toOption.isSome = true := by decide +kernel
  have ahead : ScalarsFirst elements := by decide +kernel
  cases result : made.2.2.2 with
  | error failure =>
    rw [result] at composed
    cases composed
  | ok w =>
    cases ended : admitted.2 with
    | error fault =>
      rw [ended] at preadmitted
      cases preadmitted
    | ok start =>
      have first : made = (made.1,made.2.1,made.2.2.1,.ok w) := by rw [← result]
      have second : preadmitTupleAssembly s.host (s.context 0) elements.length (exactCounts elements) =
          (admitted.1,.ok start) := by rw [← ended]; rfl
      obtain ⟨-,full,v,run,published,same,-⟩ := law _ _ _ _ _ _ _ _ first second
      exact ⟨w,start,full,rfl,rfl,run,(same.mpr ahead) ▸ published⟩

end Bennu
