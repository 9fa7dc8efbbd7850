import Bennu.ArenaAcceptance
import Bennu.TupleComposition

/-! `detach_value_reservations`: the walk restores every link it overwrites, and the value
keeps its nodes and payloads while its bindings end. -/
namespace Bennu

/-- The arena with its records detached; its nodes and edges are the same. -/
def TupleValue.detached (t : TupleValue) : TupleValue :=
  t.mapRecords VectorValue.detached TupleTableReservation.detached

/-- The value once its accounting has ended; nothing else of it changes. -/
def Value.detached (v : Value) : Value :=
  match v.container with
  | .scalar => v
  | .vector => { v with vector := v.vector.detached }
  | .tuple => { v with tuple := v.tuple.detached }

/-- A node without the field that links it to its parent. -/
def ValueNode.unlinked (node : ValueNode) : ValueNode :=
  if node.container = .tuple then { node with vectorPayloadIndex := 0 }
  else { node with firstChild := 0 }

theorem ValueNode.unlinked_self {node : ValueNode}
    (unused : if node.container = .tuple then node.vectorPayloadIndex = 0 else node.firstChild = 0) :
    node.unlinked = node := by
  rcases node with ⟨container,scalar,first,count,table,payload⟩
  unfold ValueNode.unlinked
  by_cases tuple : container = .tuple
  · simp only [tuple,if_true] at unused ⊢
    rw [unused]
  · simp only [tuple,if_false] at unused ⊢
    rw [unused]

section Restoring

variable {h : Host} {t : TupleValue} {scalar : ScalarValue}

theorem TupleValue.Exact.unlinked (exact : t.Exact h scalar) {i : Nat} (inside : i < t.nodes.length) :
    (t.nodes[i]).unlinked = t.nodes[i] := by
  have sound := exact.sound i (Nat.le_of_lt inside)
  have notRoot : i ≠ t.rootIndex := by
    rw [exact.root]
    exact Nat.ne_of_lt inside
  have node : t.node i = t.nodes[i] := by simp [TupleValue.node,inside]
  unfold TupleValue.NodeSound at sound
  rw [TupleValue.containerAt,if_neg notRoot,node] at sound
  refine ValueNode.unlinked_self ?_
  cases container : (t.nodes[i]).container with
  | scalar =>
    rw [container] at sound
    exact sound.1
  | vector =>
    rw [container] at sound
    exact sound.2.1
  | tuple =>
    rw [container] at sound
    exact sound.2.1 notRoot

theorem TupleValue.Exact.counted (exact : t.Exact h scalar) {i : Nat} (bound : i ≤ t.nodes.length)
    (tuple : t.containerAt i = .tuple) : (t.reservationOf i).elementCount = t.childCountAt i :=
  ((reservationValid_iff h _ _).mp (exact.wellFormed.table bound tuple)).counted

end Restoring

/-- Later registries with every buffer still registered, bound or not. -/
def Host.Registers (h h' : Host) : Prop := ∀ q record, h.findRecord q = some record →
  ∃ record', h'.findRecord q = some record' ∧ record'.element = record.element ∧
    record'.byteCount = record.byteCount

section Ended

variable {h h' : Host} {t : TupleValue} {scalar : ScalarValue}

theorem Registered.still {element : HostElement} {storage : Option Nat} {bytes : Nat}
    (registers : h.Registers h') (registered : Registered h element storage bytes) :
    Registered h' element storage bytes := by
  cases storage with
  | none => exact registered
  | some payload =>
    obtain ⟨record,found,type,size⟩ := registered
    obtain ⟨later,found',sameType,sameSize⟩ := registers payload record found
    exact ⟨later,found',sameType.trans type,sameSize.trans size⟩

/-- A record whose accounting has ended needs no binding. -/
theorem Holding.Recorded.ended {x : Holding} {bytes : Nat} (recorded : x.Recorded h bytes) :
    Holding.Recorded h' { x with active := false, owner := 0 } bytes :=
  ⟨recorded.size,recorded.counted,fun _ => rfl,fun empty => ⟨rfl,(recorded.empty empty).2⟩,
    (fun _ active => by cases active)⟩

theorem VectorValue.Sound.detached {v : VectorValue} (registers : h.Registers h') (sound : v.Sound h) :
    v.detached.Sound h' where
  booleansInactive := sound.booleansInactive
  integersInactive := sound.integersInactive
  doublesInactive := sound.doublesInactive
  held := sound.held
  registered := Registered.still registers sound.registered
  booleans := sound.booleans
  doubles := sound.doubles
  recorded := sound.recorded.ended
  inert _ := rfl

theorem TupleTableReservation.Sound.detached {r : TupleTableReservation} {count : Nat}
    (registers : h.Registers h') (sound : r.Sound h count) : r.detached.Sound h' count where
  counted := sound.counted
  held := sound.held
  registered := Registered.still registers sound.registered
  recorded := sound.recorded.ended

theorem TupleValue.reservationAt_mapRecords (t : TupleValue) (payload : VectorValue → VectorValue)
    (table : TupleTableReservation → TupleTableReservation) (q : Nat) :
    (t.mapRecords payload table).reservationAt q = (t.reservationAt q).map table := by
  unfold TupleValue.reservationAt TupleValue.mapRecords
  simp only [List.length_map,List.getElem?_map]
  split <;> rfl

theorem TupleValue.tableIndex_mapRecords (t : TupleValue) (payload : VectorValue → VectorValue)
    (table : TupleTableReservation → TupleTableReservation) (i : Nat) :
    (t.mapRecords payload table).tableIndex i = t.tableIndex i := by
  unfold TupleValue.tableIndex TupleValue.mapRecords
  simp only [List.length_map]
  rfl

theorem TupleValue.NodeSound.detached {i : Nat} (registers : h.Registers h')
    (sound : t.NodeSound h scalar i) : t.detached.NodeSound h' scalar i := by
  unfold TupleValue.NodeSound at *
  have same : t.detached.containerAt i = t.containerAt i := rfl
  rw [same]
  cases container : t.containerAt i with
  | scalar =>
    rw [container] at sound
    exact sound
  | vector =>
    rw [container] at sound
    obtain ⟨empty,first,count,table,v,found,payload⟩ := sound
    refine ⟨empty,first,count,table,v.detached,?_,payload.detached registers⟩
    change (t.vectorPayloads.map VectorValue.detached)[(t.node i).vectorPayloadIndex]? = _
    rw [List.getElem?_map,found]
    rfl
  | tuple =>
    rw [container] at sound
    obtain ⟨empty,unused,range,r,found,table⟩ := sound
    refine ⟨empty,unused,range,r.detached,?_,table.detached registers⟩
    rw [TupleValue.detached,TupleValue.tableIndex_mapRecords,TupleValue.reservationAt_mapRecords,found]
    rfl

theorem TupleValue.bufferAt_detached (t : TupleValue) (i : Nat) :
    t.detached.bufferAt i = t.bufferAt i := by
  unfold TupleValue.bufferAt
  have same : t.detached.containerAt i = t.containerAt i := rfl
  rw [same]
  cases t.containerAt i with
  | scalar => rfl
  | vector =>
    dsimp only
    change ((t.vectorPayloads.map VectorValue.detached)[(t.node i).vectorPayloadIndex]?).bind _ = _
    rw [List.getElem?_map]
    cases t.vectorPayloads[(t.node i).vectorPayloadIndex]? <;> rfl
  | tuple =>
    dsimp only
    rw [TupleValue.detached,TupleValue.tableIndex_mapRecords,TupleValue.reservationAt_mapRecords]
    cases t.reservationAt (t.tableIndex i) <;> rfl

/-- Detaching the records of an exact arena leaves it exact. -/
theorem TupleValue.Exact.detached (registers : h.Registers h') (exact : t.Exact h scalar) :
    t.detached.Exact h' scalar := by
  have tables : t.detached.tablesAt = t.tablesAt := by
    funext i
    unfold TupleValue.tablesAt
    rw [TupleValue.detached,TupleValue.tableIndex_mapRecords]
    rfl
  have buffers : t.detached.buffersAt = t.buffersAt :=
    funext fun i => congrArg Option.toList (t.bufferAt_detached i)
  refine ⟨exact.root,fun i bound => (exact.sound i bound).detached registers,exact.earlier,exact.reached,
    exact.nodes,exact.edges,?_,?_,?_⟩
  · have size : t.detached.vectorPayloads.length = t.vectorPayloads.length := List.length_map _
    rw [size]
    exact exact.payloads
  · have size : t.detached.reservations.length = t.reservations.length := List.length_map _
    rw [size,tables]
    exact exact.tables
  · rw [buffers]
    exact exact.storage

/-- Detaching the records of an exact value leaves it exact. -/
theorem Value.Exact.detached {v : Value} (registers : h.Registers h') (exact : v.Exact h) :
    v.detached.Exact h' := by
  rcases v with ⟨container,scalar,vector,tuple,claimed⟩
  cases container with
  | scalar =>
    exact ⟨exact.claimed,exact.scalar,(fun other => by cases other),(fun other => by cases other),
      exact.scalarEmpty,exact.vectorEmpty,exact.tupleEmpty⟩
  | vector =>
    exact ⟨exact.claimed,exact.scalar,fun _ => (exact.vector rfl).detached registers,
      (fun other => by cases other),exact.scalarEmpty,fun other => absurd rfl other,exact.tupleEmpty⟩
  | tuple =>
    exact ⟨exact.claimed,exact.scalar,(fun other => by cases other),
      fun _ => (exact.tuple rfl).detached registers,exact.scalarEmpty,exact.vectorEmpty,
      fun other => absurd rfl other⟩

end Ended

section Owned

variable {h : Host} {t : TupleValue} {scalar : ScalarValue} {v : Value}

theorem blank_recorded {x : Holding} (blank : x = emptyVector.holding ∨ x = emptyReservation.holding) :
    x.Recorded h x.bytes ∧ (x.bytes = 0 → x.storage = none) := by
  rcases blank with rfl | rfl
  all_goals exact ⟨⟨Nat.zero_le _,rfl,fun _ => rfl,fun _ => ⟨rfl,rfl⟩,fun some => absurd rfl some⟩,fun _ => rfl⟩

theorem VectorValue.Sound.record {w : VectorValue} (sound : w.Sound h) :
    w.holding.Recorded h w.holding.bytes ∧ (w.holding.bytes = 0 → w.holding.storage = none) := by
  have counted : w.holding.bytes = w.byteCount := sound.recorded.counted
  refine ⟨counted ▸ sound.recorded,fun empty => sound.held.mp ?_⟩
  rw [counted,VectorValue.byteCount] at empty
  exact (Nat.mul_eq_zero.mp empty).resolve_right (Nat.ne_of_gt (elementWidth_pos _))

theorem TupleTableReservation.Sound.record {r : TupleTableReservation} {count : Nat}
    (sound : r.Sound h count) :
    r.holding.Recorded h r.holding.bytes ∧ (r.holding.bytes = 0 → r.holding.storage = none) := by
  have counted : r.holding.bytes = count * 16 := sound.recorded.counted
  exact ⟨counted ▸ sound.recorded,fun empty => sound.held.mp (by omega)⟩

theorem TupleValue.Exact.payload_sound (exact : t.Exact h scalar) : ∀ w ∈ t.vectorPayloads, w.Sound h := by
  intro w member
  obtain ⟨p,less,rfl⟩ := List.mem_iff_getElem.mp member
  have wf := exact.wellFormed
  obtain ⟨i,bound,vector,place⟩ := wf.payloads p less
  obtain ⟨found,valid⟩ := wf.payload bound vector
  rw [place,List.getElem?_eq_getElem less] at found
  exact (vectorValidation_none h _).mp (Option.some.inj found ▸ valid)

theorem TupleValue.Exact.recorded (exact : t.Exact h scalar) :
    ∀ x ∈ t.holdings, x.Recorded h x.bytes ∧ (x.bytes = 0 → x.storage = none) := by
  intro x member
  have wf := exact.wellFormed
  obtain ⟨i,bound,rfl⟩ := wf.mem_holdings.1 x member
  unfold TupleValue.recordAt
  cases container : t.containerAt i with
  | scalar => exact blank_recorded (.inr rfl)
  | vector => exact ((vectorValidation_none h _).mp (wf.payload bound container).2).record
  | tuple => exact ((reservationValid_iff h _ _).mp (wf.table bound container)).record

theorem Value.Exact.recorded (exact : v.Exact h) :
    ∀ x ∈ v.holdings, x.Recorded h x.bytes ∧ (x.bytes = 0 → x.storage = none) := by
  intro x member
  rcases List.mem_cons.mp member with rfl | inner
  · by_cases container : v.container = .vector
    · exact (exact.vector container).record
    · rw [exact.vectorEmpty container]
      exact blank_recorded (.inl rfl)
  · by_cases container : v.container = .tuple
    · exact (exact.tuple container).recorded x inner
    · rw [exact.tupleEmpty container] at inner
      exact blank_recorded (.inr (List.mem_singleton.mp inner))

theorem Value.Exact.holdings_storages (exact : v.Exact h) :
    v.holdings.filterMap (·.storage) = v.storages := by
  have nothing : emptyVector.holding.storage = none := rfl
  have none : emptyTuple.holdings.filterMap (·.storage) = [] := rfl
  cases container : v.container with
  | scalar =>
    rw [Value.holdings,exact.vectorEmpty (by simp [container]),exact.tupleEmpty (by simp [container]),
      List.filterMap_cons,nothing,none,Value.storages,container]
  | vector =>
    rw [Value.holdings,exact.tupleEmpty (by simp [container]),StacklessWalk.filterMap_head,none,Value.storages,container]
    simp
    rfl
  | tuple =>
    rw [Value.holdings,exact.vectorEmpty (by simp [container]),List.filterMap_cons,nothing,
      Value.storages_tuple container]
    rfl

theorem Value.Exact.storages_nodup (exact : v.Exact h) : v.storages.Nodup := by
  cases container : v.container with
  | scalar => simp [Value.storages,container]
  | vector =>
    rw [Value.storages,container]
    cases v.vector.storage <;> simp
  | tuple =>
    rw [Value.storages_tuple container]
    exact (exact.tuple container).storages_perm.nodup_iff.mpr (exact.tuple container).storage

theorem VectorValue.Sound.tidy {w : VectorValue} (sound : w.Sound h) : w.Tidy :=
  ⟨fun other => (sound.booleansInactive other).1,fun other => (sound.integersInactive other).1,
    fun other => (sound.doublesInactive other).1,fun _ => sound.recorded.counted⟩

theorem Value.Exact.tidy (exact : v.Exact h) : v.Tidy fun _ => True := by
  refine ⟨?_,trivial,?_⟩
  · by_cases container : v.container = .vector
    · exact (exact.vector container).tidy
    · rw [exact.vectorEmpty container]
      exact emptyVectorOf_tidy _
  · by_cases container : v.container = .tuple
    · exact ⟨fun w member => ⟨((exact.tuple container).payload_sound w member).tidy,trivial⟩,
        fun _ _ => trivial,trivial⟩
    · rw [exact.tupleEmpty container]
      exact emptyTuple_tidy trivial

theorem Holding.Recorded.backed {x : Holding} (recorded : x.Recorded h x.bytes)
    (held : x.bytes = 0 → x.storage = none) (active : x.bytes ≠ 0 → x.active = true) : x.Backed h := by
  by_cases empty : x.bytes = 0
  · refine .inl ⟨(recorded.empty empty).1,fun p own => ?_⟩
    rw [held empty] at own
    cases own
  · obtain ⟨live,matched⟩ := ((recorded_iff h x x.bytes).mp recorded).2.2.2.2 empty (active empty)
    exact .inr ⟨owner_of_live live,active empty,empty,matched⟩

/-- A value whose records are all still bound is accounted for by any balance. -/
theorem Value.Exact.accounted {initial : Baseline} (exact : v.Exact h) (balanced : h.Balanced initial)
    (active : ∀ x ∈ v.holdings, x.bytes ≠ 0 → x.active = true) : v.Kept initial [] h := by
  refine ⟨⟨balanced,?_,fun x member => ?_⟩,exact.tidy⟩
  · rw [List.append_nil,exact.holdings_storages]
    exact exact.storages_nodup
  · rw [List.append_nil] at member
    obtain ⟨recorded,held⟩ := exact.recorded x member
    exact recorded.backed held (active x member)

end Owned

/-- Nothing but one owner's live bytes and references differs between the states. -/
structure Host.Settles (owner : Nat) (h h' : Host) : Prop where
  others : ∀ t, t ≠ owner → h'.findState t = h.findState t
  own : ∀ s', h'.findState owner = some s' → ∃ s, h.findState owner = some s ∧
    s' = { s with
      referenceCount := s'.referenceCount
      account := { s.account with liveEvaluationBytes := s'.account.liveEvaluationBytes } }

namespace Host.Settles

variable {owner : Nat} {h h' : Host}

theorem refl (owner : Nat) (h : Host) : h.Settles owner h := ⟨fun _ _ => rfl,fun s' found => ⟨s',found,rfl⟩⟩

theorem trans {g : Host} (first : Settles owner h h') (second : Settles owner h' g) :
    Settles owner h g := by
  refine ⟨fun t other => (second.others t other).trans (first.others t other),fun s'' found => ?_⟩
  obtain ⟨s',found',same'⟩ := second.own s'' found
  obtain ⟨s,found,same⟩ := first.own s' found'
  refine ⟨s,found,?_⟩
  rw [same] at same'
  exact same'

theorem of_states (states : ∀ t, h'.findState t = h.findState t) : Settles owner h h' :=
  ⟨fun t _ => states t,fun s' found => ⟨s',(states owner).symm.trans found,rfl⟩⟩

theorem refundOwner (h : Host) (owner bytes : Nat) : Settles owner h (h.refundOwner owner bytes) := by
  refine ⟨fun t other => ?_,fun s' found => ?_⟩
  · rw [Host.refundOwner,findState_modifyAccount,if_neg other]
  · rw [Host.refundOwner,findState_modifyAccount,if_pos rfl] at found
    obtain ⟨s,before,rfl⟩ := Option.map_eq_some_iff.mp found
    refine ⟨s,before,?_⟩
    unfold Account.refund
    split <;> rfl

theorem releaseAccountingOwner (h : Host) (owner : Nat) :
    Settles owner h (h.releaseAccountingOwner owner) := by
  refine ⟨fun t other => ?_,fun s' found => ?_⟩
  · rw [findState_release,if_neg other]
  · rw [findState_release,if_pos rfl] at found
    obtain ⟨s,before,kept⟩ := Option.bind_eq_some_iff.mp found
    split at kept
    · cases kept
    · cases kept
      exact ⟨s,before,rfl⟩

/-- A checked release through a context settles with that context alone. -/
theorem releaseChecked {r : EvaluationResources} {x : Holding} {bytes : Nat} {next : Host}
    (mine : ownedBy r x.owner) (ok : h.releaseChecked r x bytes = some next) : Settles r.owner h next := by
  simp only [Host.releaseChecked] at ok
  obtain ⟨consumed,isConsumed,equal⟩ := Option.map_eq_some_iff.mp ok
  have first : Settles r.owner h consumed := by
    split at isConsumed
    · simp only [Host.consumeHolding,Host.consumeSemanticHostBuffer] at isConsumed
      split at isConsumed
      · cases isConsumed
        exact of_states fun _ => rfl
      · cases isConsumed
    · cases isConsumed
      exact refl _ _
  rw [← equal]
  have refunded : Settles r.owner consumed (if x.active && bytes == x.bytes then
      consumed.refundOwner r.owner bytes else consumed) := by
    split
    · exact refundOwner _ _ _
    · exact refl _ _
  refine first.trans (refunded.trans ?_)
  · rcases mine with none | own
    · rw [none]
      exact of_states fun _ => rfl
    · rw [own]
      exact releaseAccountingOwner _ _

end Host.Settles

section Detaching

variable {initial : Baseline} {h : Host} {r : EvaluationResources} {v : Value}

/-- What a detachment does: it ends the bindings of the value's storage, all of them bound
before, and settles with the context. -/
structure EndsBindings (h : Host) (r : EvaluationResources) (v : Value) (h' : Host) (v' : Value) : Prop where
  value : v' = v.detached
  bound : ∀ x ∈ v.holdings, x.bytes ≠ 0 → x.active = true ∧ x.owner = r.owner
  records : ∀ q, h'.findRecord q =
    if q ∈ v.storages then (h.findRecord q).map Host.deactivate else h.findRecord q
  settles : h.Settles r.owner h'
  opened : (v.container = .scalar ∧ h' = h) ∨ (h.acquireValidated r).isSome = true

/-- The bytes charged for all records of a value. -/
def Value.canonicalBytes (v : Value) : Nat := (v.holdings.map (·.bytes)).sum

theorem EndsBindings.registers {h' : Host} {v' : Value} (ends : EndsBindings h r v h' v') :
    h.Registers h' := by
  intro q record found
  rw [ends.records q,found]
  split
  · exact ⟨Host.deactivate record,rfl,rfl,rfl⟩
  · exact ⟨record,rfl,rfl,rfl⟩

end Detaching

end Bennu
