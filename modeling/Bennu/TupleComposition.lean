import Bennu.ArenaDestruction
import Bennu.TupleForest
import Bennu.ResourceLimits

/-! `make_tuple_value` as a whole: the elements become one exact tree over a fresh table,
and a refused construction leaves the registries as they were. -/
namespace Bennu

/-- Later registries that still hold every buffer record and every registered state. -/
structure Host.Keeps (h h' : Host) : Prop where
  records : ∀ q record, h.findRecord q = some record → h'.findRecord q = some record
  states : ∀ t, (h.findState t).isSome = true → (h'.findState t).isSome = true

/-- Later registries that still hold the records of some buffers, each bound to a state that
is still registered. -/
structure Host.KeepsOf (owns : Nat → Prop) (h h' : Host) : Prop where
  records : ∀ q record, owns q → h.findRecord q = some record → h'.findRecord q = some record
  states : ∀ q record, owns q → h.findRecord q = some record → record.semantic.active = true →
    (h.findState record.semantic.ownerToken).isSome = true →
    (h'.findState record.semantic.ownerToken).isSome = true

section Kept

variable {h h' : Host} {owns : Nat → Prop}

theorem Host.Keeps.of (keeps : h.Keeps h') : h.KeepsOf owns h' :=
  ⟨fun q record _ => keeps.records q record,fun _ _ _ _ _ => keeps.states _⟩

theorem Registered.kept {element : HostElement} {storage : Option Nat} {bytes : Nat}
    (keeps : h.KeepsOf owns h') (owned : ∀ q, storage = some q → owns q)
    (registered : Registered h element storage bytes) : Registered h' element storage bytes := by
  cases storage with
  | none => exact registered
  | some payload =>
    obtain ⟨record,found,type,size⟩ := registered
    exact ⟨record,keeps.records _ _ (owned _ rfl) found,type,size⟩

theorem Holding.Recorded.kept {x : Holding} {bytes : Nat} (keeps : h.KeepsOf owns h')
    (owned : ∀ q, x.storage = some q → owns q) (recorded : x.Recorded h bytes) : x.Recorded h' bytes := by
  refine ⟨recorded.size,recorded.counted,recorded.unbound,recorded.empty,fun nonempty active => ?_⟩
  obtain ⟨live,payload,ordinal,record,storage,taken,found,binding⟩ := recorded.bound nonempty active
  have own := owned payload storage
  have state := keeps.states payload record own found (by rw [binding])
  rw [binding] at state
  exact ⟨state live,payload,ordinal,record,storage,taken,keeps.records _ _ own found,binding⟩

theorem VectorValue.Sound.kept {v : VectorValue} (keeps : h.KeepsOf owns h')
    (owned : ∀ q, v.storage = some q → owns q) (sound : v.Sound h) : v.Sound h' :=
  { sound with
    registered := sound.registered.kept keeps owned
    recorded := sound.recorded.kept keeps owned }

theorem TupleTableReservation.Sound.kept {r : TupleTableReservation} {count : Nat}
    (keeps : h.KeepsOf owns h') (owned : ∀ q, r.payload = some q → owns q) (sound : r.Sound h count) :
    r.Sound h' count :=
  { sound with
    registered := sound.registered.kept keeps owned
    recorded := sound.recorded.kept keeps owned }

theorem TupleValue.NodeSound.kept {t : TupleValue} {scalar : ScalarValue} {i : Nat}
    (keeps : h.KeepsOf owns h') (owned : ∀ q ∈ t.storages, owns q) (sound : t.NodeSound h scalar i) :
    t.NodeSound h' scalar i := by
  unfold TupleValue.NodeSound at *
  rw [TupleValue.storages_eq] at owned
  cases container : t.containerAt i with
  | scalar =>
    rw [container] at sound
    exact sound
  | vector =>
    rw [container] at sound
    obtain ⟨empty,first,count,table,v,found,payload⟩ := sound
    refine ⟨empty,first,count,table,v,found,payload.kept keeps fun q storage => owned q ?_⟩
    exact List.mem_append_left _ (List.mem_filterMap.mpr ⟨v,List.mem_of_getElem? found,storage⟩)
  | tuple =>
    rw [container] at sound
    obtain ⟨empty,unused,range,r,found,table⟩ := sound
    refine ⟨empty,unused,range,r,found,table.kept keeps fun q storage => owned q ?_⟩
    refine List.mem_append_right _ (List.mem_append.mpr ?_)
    unfold TupleValue.reservationAt at found
    split at found
    · cases found
      exact .inr (Option.mem_toList.mpr storage)
    · exact .inl (List.mem_filterMap.mpr ⟨r,List.mem_of_getElem? found,storage⟩)

/-- A value stays exact while the registries keep what it holds. -/
theorem Value.Exact.keptOf {v : Value} (keeps : h.KeepsOf owns h') (owned : ∀ q ∈ v.storages, owns q)
    (exact : v.Exact h) : v.Exact h' :=
  { exact with
    vector := fun container => (exact.vector container).kept keeps fun q storage => owned q (by
      rw [Value.storages,container]
      exact Option.mem_toList.mpr storage)
    tuple := fun container => { exact.tuple container with
      sound := fun i bound => ((exact.tuple container).sound i bound).kept keeps (by
        rwa [Value.storages_tuple container] at owned) } }

theorem Value.Exact.kept {v : Value} (keeps : h.Keeps h') (exact : v.Exact h) : v.Exact h' :=
  exact.keptOf (keeps.of : h.KeepsOf (fun _ => True) h') fun _ _ => trivial

/-- The storage of an exact value is registered. -/
theorem Value.Exact.storage_registered {v : Value} (exact : v.Exact h) {q : Nat}
    (member : q ∈ v.storages) : (h.findRecord q).isSome = true := by
  cases container : v.container with
  | scalar => simp [Value.storages,container] at member
  | vector =>
    rw [Value.storages,container] at member
    have registered : Registered h _ _ _ := (exact.vector container).registered
    exact registered.found (Option.mem_toList.mp member)
  | tuple =>
    rw [Value.storages_tuple container] at member
    exact (exact.tuple container).storage_found member

end Kept

namespace TupleTables

/-- The invariant of the moving loop: the tables are the forest of the elements moved so
far, in order, and own exactly their storage. -/
structure Assembled (h : Host) (moved : List Value) (t : TupleTables) : Prop where
  forest : t.Forest h
  meanings : t.meanings = moved.map Value.meaning
  storages : t.storages.Perm (moved.flatMap Value.storages)
  roots : t.roots.length = moved.length

/-- No two elements hold the same storage. -/
def Apart (elements : List Value) : Prop :=
  elements.Pairwise fun v w => ∀ q ∈ v.storages, q ∉ w.storages

section Assembly

variable {h : Host} {moved : List Value} {t : TupleTables} {v : Value}

theorem Assembled.nothing (h : Host) : Assembled h [] empty := by
  refine ⟨⟨?_,?_,.nil,.nil,.nil,.nil,.nil⟩,rfl,.nil,rfl⟩
  all_goals
    intro i inside
    cases inside

/-- Moving one more element. -/
theorem Assembled.append (assembled : Assembled h moved t) (exact : v.Exact h)
    (apart : ∀ w ∈ moved, ∀ q ∈ w.storages, q ∉ v.storages) :
    Assembled h (moved ++ [v]) (t.append v) := by
  have block := block_of exact
  have separate : ∀ q ∈ t.storages, q ∉ (TupleTables.block v).storages := by
    intro q old new
    obtain ⟨w,member,own⟩ := List.mem_flatMap.mp (assembled.storages.mem_iff.mp old)
    exact apart w member q own (block.storages.mem_iff.mp new)
  rw [append_eq_join]
  refine ⟨assembled.forest.join block.forest separate,?_,?_,?_⟩
  · rw [join_meanings assembled.forest block.forest,assembled.meanings,block.meanings,List.map_append]
    rfl
  · rw [join_storages assembled.forest block.forest,List.flatMap_append,List.flatMap_singleton]
    exact assembled.storages.append block.storages
  · simp [join,assembled.roots,block.roots]

theorem Assembled.appendAll {rest : List Value} (assembled : Assembled h moved t)
    (exact : ∀ v ∈ rest, v.Exact h) (apart : Apart (moved ++ rest)) :
    Assembled h (moved ++ rest) (rest.foldl TupleTables.append t) := by
  induction rest generalizing moved t with
  | nil => simpa using assembled
  | cons v rest ih =>
    have next : moved ++ v :: rest = (moved ++ [v]) ++ rest := by simp
    have before : ∀ w ∈ moved, ∀ q ∈ w.storages, q ∉ v.storages := fun w member =>
      (List.pairwise_append.mp apart).2.2 w member v (List.mem_cons_self ..)
    rw [next] at apart ⊢
    exact ih (assembled.append (exact v (List.mem_cons_self ..)) before)
      (fun w member => exact w (List.mem_cons_of_mem _ member)) apart

end Assembly

end TupleTables

theorem composeTuple_eq (elements : List Value) (root : TupleTableReservation) :
    composeTuple elements root = ⟨.tuple,emptyScalar,emptyVector,
      (elements.foldl TupleTables.append TupleTables.empty).close root,true⟩ := rfl

/-- Exact elements that share no storage make an exact tuple over a fresh table. -/
theorem composeTuple_exact {h : Host} {elements : List Value} {root : TupleTableReservation}
    (exact : ∀ v ∈ elements, v.Exact h) (apart : TupleTables.Apart elements)
    (sound : root.Sound h elements.length)
    (fresh : ∀ v ∈ elements, ∀ q, root.payload = some q → q ∉ v.storages) :
    (composeTuple elements root).Exact h ∧
      (composeTuple elements root).meaning = .tuple (elements.map Value.meaning) ∧
      (composeTuple elements root).storages.Perm
        (elements.flatMap Value.storages ++ root.payload.toList) := by
  have assembled := (TupleTables.Assembled.nothing h).appendAll exact (by simpa using apart)
  rw [List.nil_append] at assembled
  rw [composeTuple_eq]
  obtain ⟨t,isTables⟩ : ∃ t, t = elements.foldl TupleTables.append TupleTables.empty := ⟨_,rfl⟩
  rw [← isTables] at assembled ⊢
  have arena : (t.close root).Exact h emptyScalar :=
    TupleTables.close_exact assembled.forest (by rw [assembled.roots]; exact sound)
      (fun q own member => by
        obtain ⟨v,among,held⟩ := List.mem_flatMap.mp (assembled.storages.mem_iff.mp member)
        exact fresh v among q own held)
  refine ⟨⟨rfl,(fun other => by cases other),(fun other => by cases other),fun _ => arena,fun _ => rfl,
    fun _ => rfl,fun other => absurd rfl other⟩,?_,?_⟩
  · exact (TupleTables.close_meaning assembled.forest root).trans
      (congrArg Datum.tuple assembled.meanings)
  · have owned := arena.storages_perm
    have all : (List.range ((t.close root).nodes.length + 1)).flatMap (t.close root).buffersAt =
        t.storages ++ root.payload.toList := TupleTables.close_storages assembled.forest root
    rw [all] at owned
    rw [Value.storages_tuple rfl]
    exact owned.trans (assembled.storages.append_right _)

/-- The counts that make room for the elements surveyed so far. -/
structure TupleCounts.Fits (counts : TupleCounts) (total : Nat) (t : TupleTables) : Prop where
  nodes : counts.nodes + t.roots.length = total + t.nodes.length
  edges : counts.edges = total + t.childIndexes.length
  payloads : counts.payloads = t.vectorPayloads.length
  reservations : counts.reservations = t.reservations.length

theorem TupleCounts.Fits.add {counts added : TupleCounts} {total : Nat} {t : TupleTables} {v : Value}
    (fits : counts.Fits total t) (ok : counts.add v = some added) : added.Fits total (t.append v) := by
  obtain ⟨nodes,edges,payloads,reservations⟩ := fits
  unfold TupleCounts.add at ok
  unfold TupleTables.append
  cases container : v.container with
  | scalar =>
    simp only [container] at ok ⊢
    cases ok
    constructor <;> simp <;> omega
  | vector =>
    simp only [container] at ok ⊢
    cases ok
    constructor <;> simp <;> omega
  | tuple =>
    simp only [container] at ok ⊢
    split at ok
    · cases ok
    · cases ok
      constructor <;> simp <;> omega

section Survey

variable {h next : Host} {profile : Account} {total : Nat} {f used : HostFailureInjection}
  {before elements : List Value} {counts added : TupleCounts}

/-- A survey that passes found every element valid and apart from those before it, and has
counted the room they need. -/
theorem surveyElements_passed {t : TupleTables}
    (ok : surveyElements profile total f h before counts elements = (used,next,.ok added))
    (apart : TupleTables.Apart before) (fits : counts.Fits total t) :
    (∀ v ∈ elements, Valid h v) ∧ TupleTables.Apart (before ++ elements) ∧
      added.Fits total (elements.foldl TupleTables.append t) := by
  induction elements generalizing f h before counts t with
  | nil =>
    cases ok
    exact ⟨(fun v member => by cases member),by simpa using apart,fits⟩
  | cons v rest ih =>
    unfold surveyElements at ok
    split at ok
    · cases ok
    · cases ok
    · rename_i begun later accepted
      have same := validateValue_next accepted
      have valid := validateValue_accepts accepted
      split at ok
      · cases ok
      · rename_i distinct
        split at ok
        · cases ok
        · rename_i more counted
          have separate : TupleTables.Apart (before ++ [v]) := by
            refine List.pairwise_append.mpr ⟨apart,List.pairwise_singleton _ _,?_⟩
            intro w member u only q inW inV
            rw [List.mem_singleton.mp only] at inV
            refine distinct (List.any_eq_true.mpr ⟨w,member,?_⟩)
            exact List.any_eq_true.mpr ⟨q,inV,List.contains_iff_mem.mpr inW⟩
          obtain ⟨others,all,room⟩ := ih ok separate (fits.add counted)
          refine ⟨fun w member => ?_,by simpa using all,room⟩
          rcases List.mem_cons.mp member with rfl | later
          · exact valid
          · exact (others w later).sameRegistries same.symm

end Survey

/-- What a tuple of `count` elements asks of its context. -/
def tableDemand (count : Nat) : Demand := ⟨0,some .tupleTable,count * 16,0⟩

/-- The buffer record of a table; an empty table has none. -/
def tableRecords (payload owner count ordinal : Nat) : List HostAllocationRecord :=
  if count = 0 then []
  else [⟨payload,count * 16,.byte,⟨owner,count * 16,ordinal,.tupleTable,true⟩⟩]

/-- A granted table: its owner is charged for it and, unless it is empty, one fresh buffer
is bound to that owner. -/
structure TableGranted (h : Host) (before : EvaluationResourceState) (owner count : Nat) (h' : Host)
    (t : TupleTableReservation) : Prop where
  found : h.findState owner = some before
  admissible : before.account.Admissible (tableDemand count)
  states : ∀ u, h'.findState u = if u = owner then
    some { before with
      referenceCount := before.referenceCount + (if count = 0 then 0 else 1)
      account := before.account.charged (tableDemand count) } else h.findState u
  buffers : h'.buffers = h.buffers ++ tableRecords h.nextPayload owner count before.account.reservationOrdinal
  table : t = if count = 0 then { emptyReservation with accountingActive := true }
    else ⟨some ⟨h.nextPayload,List.replicate (count * 16) 0⟩,count,count * 16,true,owner,
      some before.account.reservationOrdinal⟩

/-- The registries as they were, but for at most one step of the owner's ordinal. -/
structure OrdinalOnly (h : Host) (owner : Nat) (h' : Host) : Prop where
  buffers : h'.buffers = h.buffers
  states : (∀ t, h'.findState t = h.findState t) ∨
    ∀ t, h'.findState t = (h.modifyAccount owner Account.advanceOrdinal).findState t

section Table

variable {h h' : Host} {r : EvaluationResources} {before : EvaluationResourceState} {count : Nat}
  {t : TupleTableReservation}

theorem Account.Reserves.ordinal {request : Request} {a a' : Account} {ordinal : Option Nat}
    (ended : Reserves request a a' (.ok ordinal)) :
    ordinal = if request.liveCharge = 0 then none else some a.reservationOrdinal := by
  cases ended with
  | empty admission admitted nothing => rw [if_pos nothing]
  | reserved admission admitted something room => rw [if_neg something]

theorem Account.reserveTupleTable_granted {a a' : Account} {host : Nat → HostResourceErrorReason}
    {ordinal : Option Nat} (sized : a.Sized) (ok : a.reserveTupleTable host count = (a',.ok ordinal)) :
    a.Admissible (tableDemand count) ∧ a' = a.charged (tableDemand count) ∧
      ordinal = if count = 0 then none else some a.reservationOrdinal := by
  have answers := reserveTupleTable_answers sized host 0 count
  rw [ok] at answers
  have taken : ordinal = if count = 0 then none else some a.reservationOrdinal := by
    unfold Account.reserveTupleTable at ok
    split at ok
    · cases ok
    · split at ok
      · cases ok
      · rename_i request posed
        obtain ⟨-,rfl,-⟩ := tupleRequest_ok posed
        have cases := reserve_cases host ⟨none,count * 16,0,some count,some (count * 16)⟩ a
        rw [ok] at cases
        exact cases.ordinal.trans (if_congr (show count * 16 = 0 ↔ count = 0 by omega) rfl rfl)
  cases answers with
  | admitted admissible => exact ⟨admissible,rfl,taken⟩

/-- A granted table, whichever way the reservation went. -/
theorem Host.reserveTupleTable_granted (sized : ∀ t s, h.findState t = some s → s.account.Sized)
    (ok : h.reserveTupleTable r count = (h',.ok t)) :
    ∃ before, h.acquireValidated r = some before ∧ TableGranted h before r.owner count h' t := by
  unfold Host.reserveTupleTable at ok
  split at ok
  · cases ok
  · rename_i s acquired
    have found := (acquire_some acquired).1
    refine ⟨s,acquired,?_⟩
    split at ok
    · cases ok
    · rename_i account reserved
      cases ok
      obtain ⟨admissible,rfl,taken⟩ := Account.reserveTupleTable_granted (sized _ s found) reserved
      have none : count = 0 := by
        by_contra filled
        simp [filled] at taken
      refine ⟨found,admissible,fun u => ?_,by simp [setAccount,tableRecords,none],by simp [none]⟩
      simp [setAccount,findState_modifyAccount,found,none]
    · rename_i account ordinal reserved
      cases ok
      obtain ⟨admissible,rfl,taken⟩ := Account.reserveTupleTable_granted (sized _ s found) reserved
      have filled : count ≠ 0 := by
        rintro rfl
        simp at taken
      rw [if_neg filled] at taken
      cases taken
      refine ⟨found,admissible,fun u => ?_,?_,by rw [if_neg filled]⟩
      · have same : (((h.setAccount r.owner (s.account.charged (tableDemand count))).bindFreshBuffer .byte
            (count * 16) r.owner (count * 16) s.account.reservationOrdinal .tupleTable).findState u) =
            ((h.setAccount r.owner (s.account.charged (tableDemand count))).retainAccountingOwner
              r.owner).findState u := rfl
        rw [same,findState_retain]
        simp only [setAccount,findState_modifyAccount,if_true,found,Option.map_some,if_neg filled]
        split <;> rfl
      · simp [bindFreshBuffer,setAccount,tableRecords,filled,HostElement.width]

/-- No record has the next address yet. -/
theorem Host.Balanced.unseen {initial : Baseline} (balanced : h.Balanced initial) :
    h.findRecord h.nextPayload = none := by
  cases seen : h.findRecord h.nextPayload with
  | none => rfl
  | some record =>
    obtain ⟨member,key⟩ := KeyedList.lookup_some seen
    exact absurd (balanced.fresh record member) (by omega)

namespace TableGranted

theorem findRecord (granted : TableGranted h before r.owner count h' t) (q : Nat) :
    h'.findRecord q = (h.findRecord q).or
      (KeyedList.lookup HostAllocationRecord.payload q
        (tableRecords h.nextPayload r.owner count before.account.reservationOrdinal)) := by
  rw [Host.findRecord,granted.buffers]
  unfold Host.findRecord KeyedList.lookup
  exact List.find?_append

theorem keeps (granted : TableGranted h before r.owner count h' t) : h.Keeps h' := by
  refine ⟨fun q record found => ?_,fun u live => ?_⟩
  · rw [granted.findRecord,found]
    rfl
  · rw [granted.states]
    split
    · rfl
    · exact live

theorem record (granted : TableGranted h before r.owner count h' t)
    (unseen : h.findRecord h.nextPayload = none) (filled : count ≠ 0) :
    h'.findRecord h.nextPayload = some ⟨h.nextPayload,count * 16,.byte,
      ⟨r.owner,count * 16,before.account.reservationOrdinal,.tupleTable,true⟩⟩ := by
  rw [granted.findRecord,unseen,tableRecords,if_neg filled]
  simp [KeyedList.lookup]

theorem payload (granted : TableGranted h before r.owner count h' t) :
    t.payload = if count = 0 then none else some h.nextPayload := by
  rw [granted.table]
  split <;> rfl

/-- The granted table is sound for as many children. -/
theorem sound (granted : TableGranted h before r.owner count h' t)
    (unseen : h.findRecord h.nextPayload = none) : t.Sound h' count := by
  have room := granted.admissible.liveSize
  have size : (tableDemand count).bytes = count * 16 := rfl
  have owner : r.owner ≠ 0 := by
    intro zero
    have found := granted.found
    simp [zero] at found
  by_cases none : count = 0
  · have table := granted.table
    rw [if_pos none] at table
    subst none
    subst table
    exact ⟨rfl,⟨fun _ => rfl,fun _ => rfl⟩,rfl,⟨Nat.zero_le _,rfl,(fun no => by cases no),
      fun _ => ⟨rfl,rfl⟩,fun impossible => absurd rfl impossible⟩⟩
  · have table := granted.table
    rw [if_neg none] at table
    have record := granted.record unseen none
    have live : (h'.findState r.owner).isSome = true := by
      rw [granted.states,if_pos rfl]
      rfl
    have nonempty : count * 16 ≠ 0 := by omega
    subst table
    refine ⟨rfl,⟨fun zero => absurd zero none,fun no => by cases no⟩,⟨_,record,rfl,rfl⟩,
      ⟨by omega,rfl,(fun no => by cases no),fun zero => absurd zero nonempty,fun _ _ => ⟨live,_,_,_,rfl,rfl,
        record,rfl⟩⟩⟩

theorem sameRegistries {next : Host} (granted : TableGranted h before r.owner count h' t)
    (same : h'.SameRegistries next) : TableGranted h before r.owner count next t := by
  obtain ⟨_,rfl⟩ := same
  exact ⟨granted.found,granted.admissible,granted.states,granted.buffers,granted.table⟩

theorem acquired (granted : TableGranted h before r.owner count h' t)
    (opened : h.acquireValidated r = some before) : ∃ s, h'.acquireValidated r = some s := by
  unfold Host.acquireValidated at *
  rw [granted.found,Option.filter_some] at opened
  split at opened
  · rename_i usable
    have state := granted.states r.owner
    rw [if_pos rfl] at state
    rw [state,Option.filter_some,if_pos usable]
    exact ⟨_,rfl⟩
  · cases opened

/-- An empty table gives nothing back. -/
theorem release_empty (granted : TableGranted h before r.owner count h' t)
    (opened : h.acquireValidated r = some before) (none : count = 0) :
    (h'.releaseTupleTable r t).1 = h'.refundOwner r.owner 0 := by
  obtain ⟨s,acquired⟩ := granted.acquired opened
  have table := granted.table
  rw [if_pos none] at table
  subst table
  unfold Host.releaseTupleTable
  simp [emptyReservation,TupleTableReservation.payload,Host.hostBufferValid,acquired,Host.releaseChecked,
    TupleTableReservation.holding,Host.releaseHostBuffer,Host.releaseAccountingOwner]

theorem release_filled (granted : TableGranted h before r.owner count h' t)
    (opened : h.acquireValidated r = some before) (unseen : h.findRecord h.nextPayload = none)
    (filled : count ≠ 0) : (h'.releaseTupleTable r t).1 =
      (((({ h' with
        buffers := KeyedList.adjust HostAllocationRecord.payload h.nextPayload Host.deactivate
          h'.buffers } : Host).refundOwner r.owner (count * 16)).releaseAccountingOwner
        r.owner).releaseHostBuffer (some h.nextPayload)) := by
  obtain ⟨s,acquired⟩ := granted.acquired opened
  have record := granted.record unseen filled
  have room := granted.admissible.liveSize
  have size : (tableDemand count).bytes = count * 16 := rfl
  have owner : r.owner ≠ 0 := by
    intro zero
    have found := granted.found
    simp [zero] at found
  have table := granted.table
  rw [if_neg filled] at table
  subst table
  have bound : h'.semanticHostBufferMatches (some h.nextPayload) r.owner (count * 16)
      (some before.account.reservationOrdinal) .tupleTable = true := by
    simp [Host.semanticHostBufferMatches,record,Host.bindingMatches,owner]
  have registered : h'.hostBufferValid .byte (some h.nextPayload) (count * 16) = true := by
    simp [Host.hostBufferValid,record]
  have small : ¬count > sizeMax / 16 := by omega
  have nonempty : count * 16 ≠ 0 := by omega
  unfold Host.releaseTupleTable
  simp [emptyReservation,TupleTableReservation.payload,acquired,Host.releaseChecked,
    TupleTableReservation.holding,Host.holdingMatches,bound,registered,owner,nonempty,small,
    Host.consumeHolding,Host.consumeSemanticHostBuffer]

/-- Releasing a table just granted leaves the registries as they were before it. -/
theorem rollback {initial : Baseline} (granted : TableGranted h before r.owner count h' t)
    (opened : h.acquireValidated r = some before) (balanced : h.Balanced initial) :
    OrdinalOnly h r.owner (h'.releaseTupleTable r t).1 := by
  have unseen := balanced.unseen
  have counted := balanced.referenced _ _ granted.found
  by_cases none : count = 0
  · rw [granted.release_empty opened none]
    refine ⟨?_,.inl fun u => ?_⟩
    · rw [Host.refundOwner,Host.buffers_modifyAccount,granted.buffers,tableRecords,if_pos none]
      exact List.append_nil _
    · rw [Host.refundOwner,Host.findState_modifyAccount,granted.states,granted.states,if_pos rfl]
      split
      · rename_i same
        subst same
        simp [granted.found,none,Account.charged,tableDemand,Account.refund]
      · rfl
  · rw [granted.release_filled opened unseen none]
    obtain ⟨record,isRecord⟩ : ∃ record, record = (⟨h.nextPayload,count * 16,.byte,⟨r.owner,count * 16,
      before.account.reservationOrdinal,.tupleTable,true⟩⟩ : HostAllocationRecord) := ⟨_,rfl⟩
    have buffers := granted.buffers
    rw [tableRecords,if_neg none,← isRecord] at buffers
    obtain ⟨consumed,isConsumed⟩ : ∃ consumed : Host, consumed = { h' with
      buffers := KeyedList.adjust HostAllocationRecord.payload h.nextPayload Host.deactivate
        h'.buffers } := ⟨_,rfl⟩
    have states : ∀ u, consumed.findState u = h'.findState u := fun u => by rw [isConsumed]; rfl
    have kept : ∀ r : HostAllocationRecord, (Host.deactivate r).payload = r.payload := fun _ => rfl
    obtain ⟨after,isAfter⟩ : ∃ after, after =
      (consumed.refundOwner r.owner (count * 16)).releaseAccountingOwner r.owner := ⟨_,rfl⟩
    have left : after.buffers = KeyedList.adjust HostAllocationRecord.payload h.nextPayload Host.deactivate
        h'.buffers := by
      rw [isAfter,Host.buffers_release,Host.refundOwner,Host.buffers_modifyAccount,isConsumed]
    have found : after.findRecord h.nextPayload = some (Host.deactivate record) := by
      rw [Host.findRecord,left,KeyedList.lookup_adjust kept,if_pos rfl]
      have bound : h'.findRecord h.nextPayload = some record := isRecord ▸ granted.record unseen none
      rw [Host.findRecord] at bound
      rw [bound]
      rfl
    rw [← isConsumed,← isAfter,Host.releaseHostBuffer]
    dsimp only
    rw [found]
    dsimp only
    rw [if_neg (by simp [Host.deactivate])]
    refine ⟨?_,.inr fun u => ?_⟩
    · dsimp only
      rw [left,KeyedList.discard_adjust kept,buffers]
      have key : record.payload = h.nextPayload := by rw [isRecord]
      rw [← key]
      refine KeyedList.discard_append fun y member => ?_
      have older := balanced.fresh y member
      omega
    · change after.findState u = _
      rw [isAfter,Host.findState_release,Host.refundOwner,Host.findState_modifyAccount,
        Host.findState_modifyAccount,Host.findState_modifyAccount,states,states,granted.states,
        granted.states,if_pos rfl]
      split
      · rename_i same
        subst same
        have nonempty : count * 16 ≠ 0 := by omega
        simp [granted.found,nonempty,Account.charged,tableDemand,Account.refund,Account.advanceOrdinal]
        omega
      · rfl

end TableGranted

end Table

/-- What `make_tuple_value` leaves when it succeeds: a valid tuple of the elements over one
table charged to the owner, which owns their storage. The metadata arrays, as large as the
survey counted, hold it exactly. -/
structure Composed (h : Host) (owner : Nat) (elements : List Value) (h' : Host) (v : Value) : Prop where
  inputs : ∀ e ∈ elements, Valid h e
  valid : Valid h' v
  meaning : v.meaning = .tuple (elements.map Value.meaning)
  storages : v.storages.Perm (elements.flatMap Value.storages ++ v.tuple.rootReservation.payload.toList)
  charged : ∃ before, TableGranted h before owner elements.length h' v.tuple.rootReservation
  filled : ∀ profile f used next counts, surveyElements profile elements.length f h []
    ⟨elements.length,elements.length,0,0⟩ elements = (used,next,.ok counts) →
    counts = ⟨v.tuple.nodes.length,v.tuple.childIndexes.length,v.tuple.vectorPayloads.length,
      v.tuple.reservations.length⟩

section Operation

variable {initial : Baseline} {h : Host} {r : EvaluationResources}

theorem OrdinalOnly.sameRegistries {owner : Nat} {h' : Host} (same : h.SameRegistries h') :
    OrdinalOnly h owner h' := by
  obtain ⟨_,rfl⟩ := same
  exact ⟨rfl,.inl fun _ => rfl⟩

theorem OrdinalOnly.after {owner : Nat} {next h' : Host} (same : h.SameRegistries next)
    (only : OrdinalOnly next owner h') : OrdinalOnly h owner h' := by
  obtain ⟨_,rfl⟩ := same
  refine ⟨only.buffers,only.states.imp (fun kept t => kept t) fun moved t => (moved t).trans ?_⟩
  rw [Host.findState_modifyAccount,Host.findState_modifyAccount]
  rfl

theorem TableGranted.after {before : EvaluationResourceState} {count : Nat} {next h' : Host}
    {t : TupleTableReservation} (same : h.SameRegistries next)
    (granted : TableGranted next before r.owner count h' t) : TableGranted h before r.owner count h' t := by
  obtain ⟨_,rfl⟩ := same
  exact ⟨granted.found,granted.admissible,granted.states,granted.buffers,granted.table⟩

theorem Host.Balanced.sameRegistries {next : Host} (balanced : h.Balanced initial)
    (same : h.SameRegistries next) : next.Balanced initial := by
  have accounted : Accounted initial h [] := ⟨balanced,.nil,fun x member => by cases member⟩
  exact (accounted.sameRegistries same).balanced

/-- A refused table changes at most the owner's ordinal. -/
theorem reserveTupleTable_refused (sized : ∀ t s, h.findState t = some s → s.account.Sized) {count : Nat}
    {h' : Host} {fault : ResourceFault} (refused : h.reserveTupleTable r count = (h',.error fault)) :
    OrdinalOnly h r.owner h' := by
  have answers := Host.reserveTupleTable_answers (r := r) sized 0 count
  rw [refused] at answers
  rcases answers.refused with rfl | ⟨before,found,admissible,rfl⟩
  · exact ⟨rfl,.inl fun _ => rfl⟩
  · exact ⟨Host.buffers_modifyAccount _ _ _,.inr fun _ => rfl⟩

/-- Elements that passed the survey, over a table granted after it. -/
theorem composed {before : EvaluationResourceState} {elements : List Value} {h' : Host}
    {root : TupleTableReservation} (balanced : h.Balanced initial)
    (valid : ∀ v ∈ elements, Valid h v) (apart : TupleTables.Apart elements)
    (granted : TableGranted h before r.owner elements.length h' root) :
    Composed h r.owner elements h' (composeTuple elements root) := by
  have exact : ∀ v ∈ elements, v.Exact h := fun v member => (invalidity_none_iff h v).mp (valid v member)
  have fresh : ∀ v ∈ elements, ∀ q, root.payload = some q → q ∉ v.storages := by
    intro v member q own held
    have found := (exact v member).storage_registered held
    rw [granted.payload] at own
    split at own
    · cases own
    · cases own
      rw [balanced.unseen] at found
      cases found
  obtain ⟨sound,meaning,storages⟩ := composeTuple_exact
    (fun v member => (exact v member).kept granted.keeps) apart (granted.sound balanced.unseen) fresh
  refine ⟨valid,(invalidity_none_iff h' _).mpr sound,meaning,storages,⟨before,granted⟩,?_⟩
  intro profile f used next counts surveyed
  have start : (⟨elements.length,elements.length,0,0⟩ : TupleCounts).Fits elements.length
      TupleTables.empty := ⟨rfl,rfl,rfl,rfl⟩
  obtain ⟨-,-,fits⟩ := surveyElements_passed surveyed .nil start
  have roots := ((TupleTables.Assembled.nothing h).appendAll exact (by simpa using apart)).roots
  obtain ⟨nodes,edges,payloads,reservations⟩ := fits
  rw [List.nil_append] at roots
  rw [composeTuple_eq]
  cases counts
  simp only [TupleTables.close,List.length_append,TupleCounts.mk.injEq] at *
  omega

/-- `make_tuple_value` either composes all elements or leaves everything as it was. -/
theorem makeTupleValue_composes (balanced : h.Balanced initial) (f : HostFailureInjection)
    (elements : List Value) {used : HostFailureInjection} {h' : Host} {left : List Value}
    {result : Except TupleFailure Value} (ended : makeTupleValue f h r elements = (used,h',left,result)) :
    (∀ v, result = .ok v → left = elements.map (fun _ => invalidConstructionValue) ∧
      Composed h r.owner elements h' v) ∧
    ∀ failure, result = .error failure → left = elements ∧ OrdinalOnly h r.owner h' := by
  unfold makeTupleValue at ended
  split at ended
  · cases ended
    exact ⟨(fun v no => by cases no),fun _ _ => ⟨rfl,.sameRegistries (.refl h)⟩⟩
  · rename_i state opened
    split at ended
    · cases ended
      exact ⟨(fun v no => by cases no),fun _ _ => ⟨rfl,.sameRegistries (.refl h)⟩⟩
    · have survey := (surveyElements_ok h state.account elements.length f [] elements
        ⟨elements.length,elements.length,0,0⟩).1
      split at ended
      · rename_i begun next failure surveyed
        rw [surveyed] at survey
        cases ended
        exact ⟨(fun v no => by cases no),fun _ _ => ⟨rfl,.sameRegistries survey⟩⟩
      · rename_i begun next counts surveyed
        rw [surveyed] at survey
        have start : (⟨elements.length,elements.length,0,0⟩ : TupleCounts).Fits elements.length
            TupleTables.empty := ⟨rfl,rfl,rfl,rfl⟩
        obtain ⟨valid,apart,-⟩ := surveyElements_passed surveyed .nil start
        have balanced' := balanced.sameRegistries survey
        split at ended
        · rename_i refused fault reserved
          cases ended
          exact ⟨(fun v no => by cases no),fun _ _ => ⟨rfl,.after survey
            (reserveTupleTable_refused balanced'.sized reserved)⟩⟩
        · rename_i admitted reservation reserved
          obtain ⟨before,opened',granted⟩ := Host.reserveTupleTable_granted balanced'.sized reserved
          have metadata := tupleMetadata_same begun admitted elements.length counts
          split at ended
          · rename_i last granted' filled
            rw [filled] at metadata
            cases ended
            refine ⟨fun v made => ?_,fun _ no => by cases no⟩
            cases made
            exact ⟨rfl,composed balanced valid (by simpa using apart)
              ((granted.sameRegistries metadata).after survey)⟩
          · rename_i last denied reason _ unfilled
            rw [unfilled] at metadata
            cases ended
            exact ⟨(fun v no => by cases no),fun _ _ => ⟨rfl,.after survey
              ((granted.sameRegistries metadata).rollback opened' balanced')⟩⟩

end Operation

/-- In every reachable state, through any context and for any elements, `make_tuple_value`
either makes a valid tuple of its elements, empties them and charges the new table, or
leaves the elements and all registries as they were, but for one step of the ordinal. -/
theorem tuple_composition (bufferPlan : Nat → Nat → HostResourceErrorReason)
    (arrayPlan : Nat → HostResourceErrorReason) {accounts : List Account}
    (sized : ∀ a ∈ accounts, a.Sized) (operations : List ResourceOperation) (r : EvaluationResources)
    (f : HostFailureInjection) (elements : List Value) :
    let h := ((startSession bufferPlan arrayPlan accounts).run operations).host
    (∀ used h' left v, makeTupleValue f h r elements = (used,h',left,.ok v) →
      left = elements.map (fun _ => invalidConstructionValue) ∧ Composed h r.owner elements h' v) ∧
    ∀ used h' left failure, makeTupleValue f h r elements = (used,h',left,.error failure) →
      left = elements ∧ OrdinalOnly h r.owner h' := by
  intro h
  have sound := ResourceSession.run_sound (@startSession_sound bufferPlan arrayPlan accounts sized)
    operations
  have balanced := sound.accounted.balanced
  exact ⟨fun _ _ _ v made => (makeTupleValue_composes balanced f elements made).1 v rfl,
    fun _ _ _ failure refused => (makeTupleValue_composes balanced f elements refused).2 failure rfl⟩

/-- The tuple `[[7] (0 0)]` out of the tuple `[7]` and a vector. -/
theorem tuple_composition_nested :
    let s := (startSession (fun _ _ => .none) (fun _ => .none) [trustedLocalV2Account]).run
      [.makeScalar ⟨.integer,false,7,0⟩,.makeTuple 0 noHostFailure 0 1,.allocateVector 0 .integer 2 2]
    let made := makeTupleValue noHostFailure s.host (s.context 0) (s.values.drop 1)
    ∃ v, made.2.2.2 = .ok v ∧ Composed s.host 1 (s.values.drop 1) made.2.1 v := by
  intro s made
  have sized : ∀ a ∈ [trustedLocalV2Account], a.Sized := by simpa using trustedLocalV2Account_sized
  have composition := tuple_composition (fun _ _ => .none) (fun _ => .none) sized
    [.makeScalar ⟨.integer,false,7,0⟩,.makeTuple 0 noHostFailure 0 1,.allocateVector 0 .integer 2 2]
    (s.context 0) noHostFailure (s.values.drop 1)
  have granted : made.2.2.2.toOption.isSome = true := by decide +kernel
  cases result : made.2.2.2 with
  | error failure =>
    rw [result] at granted
    cases granted
  | ok v =>
    have ended : made = (made.1,made.2.1,made.2.2.1,.ok v) := by rw [← result]
    exact ⟨v,rfl,(composition.1 _ _ _ v ended).2⟩

end Bennu
