import Bennu.ArenaWalk
import Bennu.ResourceSession

/-! Failures of the whole-value operations: which of them leave the value and the
registries as they were, and which stop in the middle of the walk. -/
namespace Bennu

open StacklessWalk

/-- The Bennu value that a `Value` stands for, whatever its accounting. -/
inductive Datum where
  | scalar (value : ScalarValue)
  | booleans (elements : List UInt8)
  | integers (elements : List Int64)
  | doubles (elements : List Binary64)
  | tuple (elements : List Datum)

def VectorValue.meaning (v : VectorValue) : Datum :=
  match v.elementType with
  | .boolean => .booleans (v.booleans.elim [] (·.elements))
  | .integer => .integers (v.integers.elim [] (·.elements))
  | .doublePrecision => .doubles (v.doubles.elim [] (·.elements))

/-- The datum below one node; children precede parents, so the index bounds the depth. -/
def TupleValue.meaningAt (t : TupleValue) : Nat → Nat → Datum
  | 0,_ => .tuple []
  | depth + 1,i => match t.containerAt i with
    | .scalar => .scalar (t.node i).scalar
    | .vector => (t.payloadOf i).meaning
    | .tuple => .tuple ((List.range (t.childCountAt i)).map fun k => t.meaningAt depth (t.childOf i k))

def Value.meaning (v : Value) : Datum :=
  match v.container with
  | .scalar => .scalar v.scalar
  | .vector => v.vector.meaning
  | .tuple => v.tuple.meaningAt (v.tuple.nodes.length + 1) v.tuple.rootIndex

/-- Nothing that a failed operation should keep has changed: the value is valid and
means the same, and the states and bindings are those from before. -/
structure Unharmed (h : Host) (v : Value) (h' : Host) (v' : Value) : Prop where
  valid : Valid h' v'
  meaning : v'.meaning = v.meaning
  states : h'.states = h.states
  buffers : h'.buffers = h.buffers

section Validity

variable {h : Host}

theorem validationLoop_requests (requests : Nat) (t : TupleValue) (scalar : ScalarValue) (fuel : Nat)
    (tables : ValidationTables) :
    validationLoop { h with arrayRequests := requests } t scalar fuel tables =
      validationLoop h t scalar fuel tables := by
  induction fuel generalizing tables with
  | zero => rfl
  | succ fuel ih =>
    unfold validationLoop
    split
    · rfl
    · rename_i work rest _
      have same : validationStep { h with arrayRequests := requests } t scalar work
          { tables with stack := rest } = validationStep h t scalar work { tables with stack := rest } := rfl
      rw [same]
      split
      · rfl
      · exact ih _

theorem Valid.sameRegistries {h' : Host} {v : Value} (valid : Valid h v) (same : h.SameRegistries h') :
    Valid h' v := by
  obtain ⟨requests,rfl⟩ := same
  have arena : validateArena { h with arrayRequests := requests } v.tuple v.scalar =
      validateArena h v.tuple v.scalar := by
    unfold validateArena
    rw [validationLoop_requests]
  have verdict : invalidity { h with arrayRequests := requests } v = invalidity h v := by
    unfold invalidity
    rw [arena]
    rfl
  exact verdict.trans valid

theorem Unharmed.sameRegistries {h' : Host} {v : Value} (valid : Valid h v) (same : h.SameRegistries h') :
    Unharmed h v h' v := by
  have valid' := valid.sameRegistries same
  obtain ⟨requests,rfl⟩ := same
  exact ⟨valid',rfl,rfl,rfl⟩

/-- What validation says of one accounting record. -/
structure Holding.Checked (h : Host) (x : Holding) : Prop where
  bound : x.bytes ≠ 0 → x.active = true → h.holdingMatches x = true
  unowned : x.active = false → x.owner = 0

theorem accountingValid_checked {v : VectorValue} {count width : Nat}
    (valid : accountingValid h v count width = true) :
    v.canonicalBytes = count * width ∧ count ≤ sizeMax / width ∧ v.holding.Checked h := by
  simp only [accountingValid,Bool.and_eq_true,Bool.not_eq_true',Bool.and_eq_false_iff,
    decide_eq_true_eq,beq_iff_eq,Bool.not_eq_false'] at valid
  obtain ⟨⟨⟨⟨⟨⟨⟨small,bytes⟩,-⟩,-⟩,-⟩,-⟩,unowned⟩,bound⟩ := valid
  refine ⟨bytes,small,⟨fun nonzero active => ?_,fun inactive => ?_⟩⟩
  · have nonzero : v.canonicalBytes ≠ 0 := nonzero
    have active : v.accountingActive = true := active
    rw [bytes] at nonzero
    simpa [Host.holdingMatches,VectorValue.holding,bytes,nonzero,active] using bound
  · have inactive : v.accountingActive = false := inactive
    simpa [inactive,VectorValue.holding] using unowned

theorem vectorValidation_checked {v : VectorValue} (valid : vectorValidation h v = none) :
    v.canonicalBytes = v.activeLength * elementWidth v.elementType ∧
      v.activeLength ≤ sizeMax / elementWidth v.elementType ∧ v.holding.Checked h := by
  unfold vectorValidation at valid
  unfold VectorValue.activeLength
  split at valid
  all_goals
    rename_i type
    rw [type]
    repeat' split at valid
    all_goals try cases valid
    all_goals exact accountingValid_checked ‹_›

theorem reservationValid_checked {r : TupleTableReservation} {count : Nat}
    (valid : reservationValid h r count = true) :
    r.elementCount = count ∧ r.canonicalBytes = count * 16 ∧ r.holding.Checked h := by
  simp only [reservationValid,Bool.and_eq_true,Bool.not_eq_true',Bool.and_eq_false_iff,
    decide_eq_true_eq,beq_iff_eq,Bool.not_eq_false'] at valid
  obtain ⟨⟨⟨⟨⟨⟨⟨⟨⟨⟨⟨-,-⟩,elements⟩,bytes⟩,-⟩,-⟩,-⟩,-⟩,-⟩,-⟩,unowned⟩,bound⟩ := valid
  refine ⟨elements,bytes,⟨fun nonzero active => ?_,fun inactive => ?_⟩⟩
  · have nonzero : r.canonicalBytes ≠ 0 := nonzero
    have active : r.accountingActive = true := active
    rw [bytes] at nonzero
    simpa [Host.holdingMatches,TupleTableReservation.holding,bytes,nonzero,active] using bound
  · have inactive : r.accountingActive = false := inactive
    simpa [inactive,TupleTableReservation.holding] using unowned

end Validity

section Records

variable {h : Host} {t u : TupleValue}

/-- The accounting record of a node's table or payload. -/
def TupleValue.recordAt (t : TupleValue) (i : Nat) : Holding :=
  match t.containerAt i with
  | .scalar => emptyReservation.holding
  | .vector => (t.payloadOf i).holding
  | .tuple => (t.reservationOf i).holding

theorem TupleValue.WellFormed.reservation (wf : t.WellFormed h) {i : Nat} (bound : i ≤ t.nodes.length)
    (tuple : t.containerAt i = .tuple) : t.reservationAt (t.tableIndex i) = some (t.reservationOf i) := by
  obtain ⟨r,found,-⟩ := (wf.seen.checked i bound).table tuple
  rw [found]
  unfold TupleValue.tableIndex at found
  unfold TupleValue.reservationOf
  by_cases top : i = t.rootIndex
  · rw [if_pos top]
    rw [if_pos top,TupleValue.reservationAt,if_pos rfl] at found
    exact found.symm
  · have rootBound : t.rootIndex ≤ t.nodes.length := Nat.le_of_eq wf.root
    have rootTuple : t.containerAt t.rootIndex = .tuple := by simp [TupleValue.containerAt]
    have other := (wf.seen.apart i t.rootIndex bound rootBound top).tables tuple rootTuple
    simp only [TupleValue.tableIndex,if_neg top,if_true] at other
    rw [if_neg top,TupleValue.reservationAt,if_neg other] at found
    rw [if_neg top,List.getD_eq_getElem?_getD,found]
    rfl

theorem TupleValue.WellFormed.table (wf : t.WellFormed h) {i : Nat} (bound : i ≤ t.nodes.length)
    (tuple : t.containerAt i = .tuple) :
    reservationValid h (t.reservationOf i) (t.childCountAt i) = true := by
  obtain ⟨r,found,valid⟩ := (wf.seen.checked i bound).table tuple
  cases found.symm.trans (wf.reservation bound tuple)
  exact valid

theorem TupleValue.WellFormed.payload (wf : t.WellFormed h) {i : Nat} (bound : i ≤ t.nodes.length)
    (vector : t.containerAt i = .vector) :
    t.vectorPayloads[(t.node i).vectorPayloadIndex]? = some (t.payloadOf i) ∧
      vectorValidation h (t.payloadOf i) = none := by
  obtain ⟨v,found,valid⟩ := (wf.seen.checked i bound).payload vector
  have same : t.payloadOf i = v := by
    rw [TupleValue.payloadOf,List.getD_eq_getElem?_getD,found]
    rfl
  exact ⟨same ▸ found,same ▸ valid⟩

theorem TupleValue.WellFormed.record (wf : t.WellFormed h) {i : Nat} (bound : i ≤ t.nodes.length) :
    (t.recordAt i).Checked h ∧ (t.recordAt i).storage = t.bufferAt i := by
  unfold TupleValue.recordAt TupleValue.bufferAt
  cases container : t.containerAt i with
  | scalar => exact ⟨⟨fun nonzero => absurd rfl nonzero,fun _ => rfl⟩,rfl⟩
  | vector =>
    obtain ⟨found,valid⟩ := wf.payload bound container
    exact ⟨(vectorValidation_checked valid).2.2,by rw [found]; rfl⟩
  | tuple =>
    have valid := wf.table bound container
    exact ⟨(reservationValid_checked valid).2.2,by rw [wf.reservation bound container]; rfl⟩

/-- Every record of a well-formed arena is some node's. -/
theorem TupleValue.WellFormed.mem_holdings (wf : t.WellFormed h) :
    (∀ x ∈ t.holdings, ∃ i ≤ t.nodes.length, t.recordAt i = x) ∧
      ∀ i ≤ t.nodes.length, t.containerAt i ≠ .scalar → t.recordAt i ∈ t.holdings := by
  constructor
  · intro x member
    simp only [TupleValue.holdings,List.mem_append,List.mem_map,List.mem_singleton] at member
    rcases member with ⟨v,inside,rfl⟩ | ⟨r,inside,rfl⟩ | rfl
    · obtain ⟨p,less,rfl⟩ := List.mem_iff_getElem.mp inside
      obtain ⟨i,bound,vector,place⟩ := wf.payloads p less
      refine ⟨i,bound,?_⟩
      obtain ⟨found,-⟩ := wf.payload bound vector
      rw [place,List.getElem?_eq_getElem less] at found
      simp only [TupleValue.recordAt,vector,Option.some.inj found]
    · obtain ⟨q,less,rfl⟩ := List.mem_iff_getElem.mp inside
      obtain ⟨i,bound,tuple,place⟩ := wf.tables q (Nat.le_of_lt less)
      refine ⟨i,bound,?_⟩
      have found := wf.reservation bound tuple
      rw [place,TupleValue.reservationAt,if_neg (Nat.ne_of_lt less),List.getElem?_eq_getElem less]
        at found
      simp only [TupleValue.recordAt,tuple,Option.some.inj found]
    · refine ⟨t.rootIndex,Nat.le_of_eq wf.root,?_⟩
      simp [TupleValue.recordAt,TupleValue.containerAt,TupleValue.reservationOf]
  · intro i bound other
    unfold TupleValue.recordAt
    simp only [TupleValue.holdings,List.mem_append,List.mem_map,List.mem_singleton]
    cases container : t.containerAt i with
    | scalar => exact absurd container other
    | vector =>
      obtain ⟨found,-⟩ := wf.payload bound container
      exact .inl ⟨_,List.mem_of_getElem? found,rfl⟩
    | tuple =>
      have found := wf.reservation bound container
      unfold TupleValue.reservationAt at found
      split at found
      · exact .inr (.inr (by rw [← Option.some.inj found]))
      · exact .inr (.inl ⟨_,List.mem_of_getElem? found,rfl⟩)

/-- Whether the checked release of a record is refused. -/
def Host.Refuses (h : Host) (x : Holding) : Prop := x.bytes ≠ 0 ∧ h.holdingMatches x = false

/-- A visitor that fails exactly on refused records and changes no other buffer. -/
structure WalkVisitor.Checks (visitor : WalkVisitor) : Prop where
  table : ∀ h r, visitor.table h r = none ↔ h.Refuses r.holding
  payload : ∀ h v, v.canonicalBytes = v.activeLength * elementWidth v.elementType →
    v.activeLength ≤ sizeMax / elementWidth v.elementType →
    (visitor.payload h v = none ↔ h.Refuses v.holding)
  tableFrame : ∀ {h r done}, visitor.table h r = some done → ∀ q, r.holding.storage ≠ some q →
    done.1.findRecord q = h.findRecord q
  payloadFrame : ∀ {h v done}, visitor.payload h v = some done → ∀ q, v.holding.storage ≠ some q →
    done.1.findRecord q = h.findRecord q

theorem consumeHolding_none {h : Host} {x : Holding} :
    h.consumeHolding x = none ↔ h.holdingMatches x = false := by
  unfold Host.consumeHolding Host.consumeSemanticHostBuffer Host.holdingMatches
  split
  · rename_i bound
    simp [bound]
  · rename_i unbound
    simpa using unbound

theorem releaseChecked_none {h : Host} {r : EvaluationResources} {x : Holding} :
    h.releaseChecked r x x.bytes = none ↔ h.Refuses x := by
  unfold Host.releaseChecked Host.Refuses
  by_cases empty : x.bytes = 0
  · simp [empty]
  · simp [empty,consumeHolding_none]

/-- Consuming a binding deactivates the record of its buffer alone. -/
theorem consumeHolding_findRecord {h next : Host} {x : Holding} (ok : h.consumeHolding x = some next)
    (q : Nat) : next.findRecord q =
      if x.storage = some q then (h.findRecord q).map Host.deactivate else h.findRecord q := by
  unfold Host.consumeHolding Host.consumeSemanticHostBuffer at ok
  split at ok
  · rename_i bound
    cases ok
    cases pointer : x.storage with
    | none => simp [Host.semanticHostBufferMatches,pointer] at bound
    | some p =>
      have keep : ∀ y : HostAllocationRecord, (Host.deactivate y).payload = y.payload := fun _ => rfl
      have adjusted : KeyedList.lookup HostAllocationRecord.payload q
          (KeyedList.adjust HostAllocationRecord.payload p Host.deactivate h.buffers) = _ :=
        KeyedList.lookup_adjust keep q
      refine adjusted.trans ?_
      simp only [Option.some.injEq,eq_comm]
      rfl
  · cases ok

theorem releaseChecked_findRecord {h next : Host} {r : EvaluationResources} {x : Holding} {bytes : Nat}
    (ok : h.releaseChecked r x bytes = some next) (q : Nat) : next.findRecord q =
      if bytes ≠ 0 ∧ x.storage = some q then (h.findRecord q).map Host.deactivate
      else h.findRecord q := by
  obtain ⟨consumed,isConsumed,rfl⟩ := Option.map_eq_some_iff.mp ok
  have refunded : ∀ g : Host, ((if x.active && bytes == x.bytes then g.refundOwner r.owner bytes
      else g).releaseAccountingOwner x.owner).findRecord q = g.findRecord q := by
    intro g
    split <;> simp [Host.findRecord,Host.refundOwner]
  refine (refunded consumed).trans ?_
  split at isConsumed
  · rename_i some
    rw [consumeHolding_findRecord isConsumed]
    simp only [ne_eq,some,not_false_eq_true,true_and]
  · rename_i none
    cases isConsumed
    rw [if_neg fun both => none both.1]

theorem releaseChecked_frame {h next : Host} {r : EvaluationResources} {x : Holding} {bytes : Nat}
    (ok : h.releaseChecked r x bytes = some next) (q : Nat) (other : x.storage ≠ some q) :
    next.findRecord q = h.findRecord q := by
  rw [releaseChecked_findRecord ok,if_neg fun both => other both.2]

/-- Freeing a buffer removes its record alone. -/
theorem releaseHostBuffer_findRecord (h : Host) (storage : Option Nat) (q : Nat) :
    (h.releaseHostBuffer storage).findRecord q = if storage = some q then none else h.findRecord q := by
  unfold Host.releaseHostBuffer
  split
  · simp
  · rename_i p
    split
    · rename_i missing
      split
      · rename_i same
        cases same
        exact missing
      · rfl
    · have discarded : KeyedList.lookup HostAllocationRecord.payload q
          (KeyedList.discard HostAllocationRecord.payload p h.buffers) = _ :=
        KeyedList.lookup_discard q
      have removed : KeyedList.lookup HostAllocationRecord.payload q
          (KeyedList.discard HostAllocationRecord.payload p h.buffers) =
          if some p = some q then none else h.findRecord q := by
        refine discarded.trans ?_
        simp only [Option.some.injEq,eq_comm]
        rfl
      dsimp only
      split
      · simpa [Host.releaseAbandonedSemanticAllocation,Host.findRecord,Host.refundOwner] using removed
      · exact removed

theorem releaseHostBuffer_frame (h : Host) {storage : Option Nat} (q : Nat)
    (other : storage ≠ some q) : (h.releaseHostBuffer storage).findRecord q = h.findRecord q := by
  rw [releaseHostBuffer_findRecord,if_neg other]

theorem releaseVisitor_checks (r : EvaluationResources) : (releaseVisitor r).Checks where
  table h t := by
    simp only [releaseVisitor,Option.map_eq_none_iff]
    exact releaseChecked_none
  payload h v bytes small := by
    simp only [releaseVisitor,if_pos small,Option.map_eq_none_iff,← bytes]
    exact releaseChecked_none
  tableFrame := by
    intro h t done ok q other
    obtain ⟨next,checked,rfl⟩ := Option.map_eq_some_iff.mp ok
    exact (releaseHostBuffer_frame next q other).trans (releaseChecked_frame checked q other)
  payloadFrame := by
    intro h v done ok q other
    simp only [releaseVisitor] at ok
    split at ok
    · obtain ⟨next,checked,rfl⟩ := Option.map_eq_some_iff.mp ok
      exact (releaseHostBuffer_frame next q other).trans (releaseChecked_frame checked q other)
    · cases ok
      rfl

theorem detachVisitor_checks (r : EvaluationResources) : (detachVisitor r).Checks where
  table h t := by
    simp only [detachVisitor,Option.map_eq_none_iff]
    exact releaseChecked_none
  payload h v _ _ := by
    simp only [detachVisitor,Option.map_eq_none_iff]
    exact releaseChecked_none
  tableFrame := by
    intro h t done ok q other
    obtain ⟨next,checked,rfl⟩ := Option.map_eq_some_iff.mp ok
    exact releaseChecked_frame checked q other
  payloadFrame := by
    intro h v done ok q other
    obtain ⟨next,checked,rfl⟩ := Option.map_eq_some_iff.mp ok
    exact releaseChecked_frame checked q other

/-- A node's own record is still the one validated. -/
structure Untouched (t u : TupleValue) (i : Nat) : Prop where
  payload : t.containerAt i = .vector → u.payloadOf i = t.payloadOf i
  table : t.containerAt i = .tuple → u.reservationOf i = t.reservationOf i

variable {visitor : WalkVisitor} {d d' : Host × TupleValue} {i : Nat}

theorem framed_containerAt (wf : t.WellFormed h) (framed : t.linkParents.Framed u) (i : Nat) :
    u.containerAt i = t.containerAt i := by
  obtain ⟨_,_,_,rfl⟩ := framed
  exact (TupleValue.linkParents_shape wf.root).containerAt i

theorem visitNode_none (wf : t.WellFormed h) (checks : visitor.Checks) (bound : i ≤ t.nodes.length)
    (framed : t.linkParents.Framed d.2) (untouched : Untouched t d.2 i) :
    visitNode visitor i d = none ↔ d.1.Refuses (t.recordAt i) := by
  unfold visitNode TupleValue.recordAt
  rw [framed_containerAt wf framed]
  cases container : t.containerAt i with
  | scalar => simp [Host.Refuses,TupleTableReservation.holding,emptyReservation]
  | vector =>
    obtain ⟨bytes,small,-⟩ := vectorValidation_checked (wf.payload bound container).2
    dsimp only
    rw [untouched.payload container,Option.map_eq_none_iff]
    exact checks.payload d.1 _ bytes small
  | tuple =>
    dsimp only
    rw [untouched.table container,Option.map_eq_none_iff]
    exact checks.table d.1 _

/-- The slots of a linked arena's records are those of the arena itself. -/
theorem framed_slots (wf : t.WellFormed h) (framed : t.linkParents.Framed u) :
    u.rootIndex = t.rootIndex ∧
      (∀ k, t.containerAt k = .vector → (u.node k).vectorPayloadIndex = (t.node k).vectorPayloadIndex) ∧
      ∀ k, k ≠ t.rootIndex → t.containerAt k = .tuple →
        (u.node k).tupleReservationIndex = t.tableIndex k := by
  have shape := TupleValue.linkParents_shape wf.root
  obtain ⟨_,_,_,rfl⟩ := framed
  refine ⟨shape.root,fun k vector => ?_,fun k notRoot tuple => ?_⟩
  · unfold TupleValue.containerAt at vector
    split at vector
    · cases vector
    · exact shape.vector k vector
  · rw [TupleValue.containerAt,if_neg notRoot] at tuple
    rw [TupleValue.tableIndex,if_neg notRoot]
    exact (shape.tuple k tuple).2.2

/-- Writing one node's payload leaves every other node's alone. -/
theorem payloadOf_set (wf : t.WellFormed h) (framed : t.linkParents.Framed u)
    (bound : i ≤ t.nodes.length) (vector : t.containerAt i = .vector) {j : Nat}
    (inside : j ≤ t.nodes.length) (other : t.containerAt j = .vector) (v : VectorValue) :
    TupleValue.payloadOf { u with
      vectorPayloads := u.vectorPayloads.set (u.node i).vectorPayloadIndex v } j =
      if i = j ∧ (t.node i).vectorPayloadIndex < u.vectorPayloads.length then v else u.payloadOf j := by
  obtain ⟨-,index,-⟩ := framed_slots wf framed
  change (u.vectorPayloads.set _ _).getD (u.node j).vectorPayloadIndex emptyVector = _
  rw [getD_set,index i vector,index j other]
  by_cases same : i = j
  · subst same
    simp only [true_and,TupleValue.payloadOf,index i vector]
  · have different := (wf.seen.apart i j bound inside same).payloads vector other
    rw [if_neg fun both => different both.1,if_neg fun both => same both.1,TupleValue.payloadOf,
      index j other]

/-- Writing one node's table leaves every other node's alone. -/
theorem reservationOf_set (wf : t.WellFormed h) (framed : t.linkParents.Framed u)
    (bound : i ≤ t.nodes.length) (tuple : t.containerAt i = .tuple) {j : Nat}
    (inside : j ≤ t.nodes.length) (other : t.containerAt j = .tuple) (r : TupleTableReservation) :
    (u.setReservation i r).reservationOf j =
      if i = j ∧ (i ≠ t.rootIndex → t.tableIndex i < u.reservations.length) then r
      else u.reservationOf j := by
  obtain ⟨top,-,index⟩ := framed_slots wf framed
  unfold TupleValue.setReservation
  rw [top]
  by_cases rootI : i = t.rootIndex
  · rw [if_pos rootI]
    by_cases same : i = j
    · subst same
      simp [TupleValue.reservationOf,rootI]
    · have rootJ : j ≠ t.rootIndex := fun rootJ => same (rootI.trans rootJ.symm)
      simp [TupleValue.reservationOf,TupleValue.node,top,rootJ,same]
  · rw [if_neg rootI]
    by_cases rootJ : j = t.rootIndex
    · have same : i ≠ j := fun same => rootI (same.trans rootJ)
      simp [TupleValue.reservationOf,top,rootJ,rootI]
    · simp only [TupleValue.reservationOf,top,if_neg rootJ]
      change (u.reservations.set _ _).getD (u.node j).tupleReservationIndex _ = _
      rw [getD_set,index i rootI tuple,index j rootJ other]
      by_cases same : i = j
      · subst same
        simp [rootI]
      · have different := (wf.seen.apart i j bound inside same).tables tuple other
        rw [if_neg fun both => different both.1,if_neg fun both => same both.1]

/-- A visit changes no other node's record and no other node's buffer. -/
theorem visitNode_frame (wf : t.WellFormed h) (checks : visitor.Checks) (bound : i ≤ t.nodes.length)
    (framed : t.linkParents.Framed d.2) (untouched : Untouched t d.2 i)
    (ok : visitNode visitor i d = some d') :
    (∀ j ≤ t.nodes.length, j ≠ i → Untouched t d.2 j → Untouched t d'.2 j) ∧
      ∀ q, (t.recordAt i).storage ≠ some q → d'.1.findRecord q = d.1.findRecord q := by
  unfold visitNode at ok
  unfold TupleValue.recordAt
  rw [framed_containerAt wf framed] at ok
  cases container : t.containerAt i with
  | scalar =>
    rw [container] at ok
    cases ok
    exact ⟨fun _ _ _ kept => kept,fun _ _ => rfl⟩
  | vector =>
    rw [container] at ok
    dsimp only at ok
    rw [untouched.payload container] at ok
    obtain ⟨done,visited,rfl⟩ := Option.map_eq_some_iff.mp ok
    refine ⟨fun j inside other kept => ⟨fun vector => ?_,kept.table⟩,
      fun q apart => checks.payloadFrame visited q apart⟩
    rw [← kept.payload vector,payloadOf_set wf framed bound container inside vector,
      if_neg fun both => other both.1.symm]
  | tuple =>
    rw [container] at ok
    dsimp only at ok
    rw [untouched.table container] at ok
    obtain ⟨done,visited,rfl⟩ := Option.map_eq_some_iff.mp ok
    refine ⟨fun j inside other kept => ⟨fun vector => ?_,fun tuple => ?_⟩,
      fun q apart => checks.tableFrame visited q apart⟩
    · rw [← kept.payload vector]
      unfold TupleValue.payloadOf TupleValue.setReservation
      split <;> rfl
    · rw [← kept.table tuple,reservationOf_set wf framed bound container inside tuple,
        if_neg fun both => other both.1.symm]

theorem linkParents_untouched (wf : t.WellFormed h) (i : Nat) : Untouched t t.linkParents i := by
  have shape := TupleValue.linkParents_shape wf.root
  have records := shape.records
  simp only [Prod.mk.injEq] at records
  obtain ⟨payloads,reservations,root⟩ := records
  refine ⟨fun vector => ?_,fun tuple => ?_⟩
  · have inner : (t.node i).container = .vector := by
      unfold TupleValue.containerAt at vector
      split at vector
      · cases vector
      · exact vector
    rw [TupleValue.payloadOf,TupleValue.payloadOf,payloads,shape.vector i inner]
  · unfold TupleValue.reservationOf
    rw [shape.root]
    by_cases top : i = t.rootIndex
    · rw [if_pos top,if_pos top,root]
    · rw [if_neg top,if_neg top,reservations]
      rw [TupleValue.containerAt,if_neg top] at tuple
      rw [(shape.tuple i tuple).2.2]

theorem holdingMatches_congr {h h' : Host} {x : Holding}
    (same : ∀ p, x.storage = some p → h'.findRecord p = h.findRecord p) :
    h'.holdingMatches x = h.holdingMatches x := by
  unfold Host.holdingMatches Host.semanticHostBufferMatches
  split
  · rename_i p o storage ordinal
    rw [same p storage]
  · rfl

/-- The invariant of the visits still to come: their nodes are untouched, and so are
the registrations of their buffers. -/
structure Ahead (h : Host) (t : TupleValue) (nodes : List Nat) (d : Host × TupleValue) : Prop where
  framed : t.linkParents.Framed d.2
  untouched : ∀ i ∈ nodes, Untouched t d.2 i
  bound : ∀ i ∈ nodes, d.1.holdingMatches (t.recordAt i) = h.holdingMatches (t.recordAt i)

theorem Ahead.start (wf : t.WellFormed h) (nodes : List Nat) : Ahead h t nodes (h,t.linkParents) :=
  ⟨.refl _,fun i _ => linkParents_untouched wf i,fun _ _ => rfl⟩

theorem Ahead.visit (wf : t.WellFormed h) (checks : visitor.Checks) {rest : List Nat}
    (ahead : Ahead h t (i :: rest) d) (inside : ∀ j ∈ i :: rest, j ≤ t.nodes.length)
    (nodup : (i :: rest).Nodup) (ok : visitNode visitor i d = some d') : Ahead h t rest d' := by
  have own := List.mem_cons_self (a := i) (l := rest)
  obtain ⟨records,buffers⟩ := visitNode_frame wf checks (inside i own) ahead.framed
    (ahead.untouched i own) ok
  have fresh := (List.nodup_cons.mp nodup).1
  have other : ∀ j ∈ rest, j ≠ i := fun j member same => fresh (same ▸ member)
  refine ⟨ahead.framed.trans (visitNode_framed ok),fun j member => ?_,fun j member => ?_⟩
  · exact records j (inside j (List.mem_cons_of_mem _ member)) (other j member)
      (ahead.untouched j (List.mem_cons_of_mem _ member))
  · rw [← ahead.bound j (List.mem_cons_of_mem _ member)]
    refine holdingMatches_congr fun p storage => buffers p fun shared => ?_
    have apart := wf.seen.apart i j (inside i own) (inside j (List.mem_cons_of_mem _ member))
      (Ne.symm (other j member))
    rw [(wf.record (inside i own)).2] at shared
    rw [(wf.record (inside j (List.mem_cons_of_mem _ member))).2] at storage
    exact apart.buffers p shared storage

/-- The visits of a list of nodes fail exactly when one of their records is refused. -/
theorem visitAll_none (wf : t.WellFormed h) (checks : visitor.Checks) {nodes : List Nat}
    (ahead : Ahead h t nodes d) (inside : ∀ j ∈ nodes, j ≤ t.nodes.length) (nodup : nodes.Nodup) :
    visitAll (visitNode visitor) nodes d = none ↔ ∃ i ∈ nodes, h.Refuses (t.recordAt i) := by
  induction nodes generalizing d with
  | nil => simp [visitAll]
  | cons i rest ih =>
    have own := List.mem_cons_self (a := i) (l := rest)
    have first : visitNode visitor i d = none ↔ h.Refuses (t.recordAt i) := by
      rw [visitNode_none wf checks (inside i own) ahead.framed (ahead.untouched i own),Host.Refuses,
        Host.Refuses,ahead.bound i own]
    simp only [visitAll,List.exists_mem_cons_iff]
    cases visited : visitNode visitor i d with
    | none => simp [first.mp visited]
    | some next =>
      have accepted : ¬h.Refuses (t.recordAt i) := by
        rw [← first,visited]
        simp
      simp only [Option.bind_some,accepted,false_or]
      exact ih (ahead.visit wf checks inside nodup visited)
        (fun j member => inside j (List.mem_cons_of_mem _ member)) (List.nodup_cons.mp nodup).2

/-- A record that the value owns but has already been detached. -/
def TupleValue.Detached (t : TupleValue) : Prop := ∃ x ∈ t.holdings, x.bytes ≠ 0 ∧ x.active = false

theorem order_refused (wf : t.WellFormed h) :
    (∃ i ∈ wf.forest.order t.nodes.length, h.Refuses (t.recordAt i)) ↔ t.Detached := by
  constructor
  · rintro ⟨i,member,nonempty,unmatched⟩
    have bound := Forest.le_of_mem_order member
    have checked := (wf.record bound).1
    refine ⟨t.recordAt i,wf.mem_holdings.2 i bound fun scalar => ?_,nonempty,?_⟩
    · simp [TupleValue.recordAt,scalar,TupleTableReservation.holding,emptyReservation] at nonempty
    · by_contra active
      rw [checked.bound nonempty (by simpa using active)] at unmatched
      cases unmatched
  · rintro ⟨x,member,nonempty,inactive⟩
    obtain ⟨i,bound,rfl⟩ := wf.mem_holdings.1 x member
    refine ⟨i,wf.mem_order bound,nonempty,?_⟩
    have owner := (wf.record bound).1.unowned inactive
    unfold Host.holdingMatches Host.semanticHostBufferMatches
    split <;> simp [owner]

/-- A checking walk over a valid arena fails exactly when some record is detached, and
then leaves an arena that is not valid. -/
theorem walkArena_fails (wf : t.WellFormed h) (checks : visitor.Checks) :
    (t.Detached → ∃ last tuple invariant, walkArena visitor h t = (last,tuple,some invariant) ∧
      ∀ h', ¬tuple.WellFormed h') ∧
    (¬t.Detached → ∃ last tuple, walkArena visitor h t = (last,tuple,none)) := by
  have visits := walkArena_visits wf visitor
  have fails := (visitAll_none wf checks (.start wf _) (fun j member => Forest.le_of_mem_order member)
    (Forest.order_nodup (f := wf.forest) t.nodes.length)).trans (order_refused wf)
  constructor
  · intro detached
    rw [fails.mpr detached] at visits
    obtain ⟨last,tuple,invariant,walked,root,counted⟩ := visits
    refine ⟨last,tuple,invariant,walked,fun h' wf' => ?_⟩
    have count : ∀ {g : Host} {s : TupleValue}, s.WellFormed g →
        s.rootReservation.elementCount = s.childCount := by
      intro g s sound
      have table := sound.table (Nat.le_of_eq sound.root) (by simp [TupleValue.containerAt])
      have elements := (reservationValid_checked table).1
      simpa [TupleValue.reservationOf,TupleValue.childCountAt,TupleValue.childRange] using elements
    have before := count wf
    have after := count wf'
    rw [root,before] at after
    have none : t.childCount = 0 := by
      by_contra some
      have less := counted some
      omega
    -- Without children the root is the only node, and its table is empty.
    obtain ⟨i,member,nonempty,-⟩ := (order_refused wf).mpr detached
    have rootTuple : t.containerAt t.nodes.length = .tuple := by
      simp [TupleValue.containerAt,wf.root]
    have noCount : t.childCountAt t.nodes.length = 0 := by
      simp [TupleValue.childCountAt,TupleValue.childRange,wf.root,none]
    rcases Forest.mem_order.mp member with top | ⟨c,child,-⟩
    · have bytes := (reservationValid_checked (wf.table (Nat.le_refl _) rootTuple)).2.1
      rw [noCount] at bytes
      rw [top,TupleValue.recordAt,rootTuple] at nonempty
      exact nonempty bytes
    · obtain ⟨-,-,k,less,-⟩ := TupleValue.mem_childrenAt.mp child
      omega
  · intro attached
    cases result : visitAll (visitNode visitor) (wf.forest.order t.nodes.length) (h,t.linkParents) with
    | none => exact absurd (fails.mp result) attached
    | some data =>
      rw [result] at visits
      obtain ⟨pending,walked⟩ := visits
      exact ⟨_,_,walked⟩

end Records

section Operations

variable {h : Host} {v : Value}

/-- The inputs on which a whole-value operation stops in the middle of its walk: a tuple
whose context is live and owns every active record, with a record already detached. -/
def StopsMidway (h : Host) (r : EvaluationResources) (v : Value) : Prop :=
  v.container = .tuple ∧ (h.acquireValidated r).isSome = true ∧ ownersMatch r v = true ∧
    v.tuple.Detached

/-- The host grants the scratch tables of the arena's validation. -/
def ScratchGranted (f : HostFailureInjection) (h : Host) (t : TupleValue) : Prop :=
  (validationScratch f h t).2.2 = .none

/-- A valid tuple passes its validation exactly when the scratch tables are granted. -/
theorem validateValue_granted {f : HostFailureInjection} (valid : Valid h v)
    (container : v.container = .tuple) :
    (validateValue f h v).2.2 = none ↔ ScratchGranted f h v.tuple := by
  have verdict : invalidity h v = none := valid
  have root : (validateRoot v).isNone = true := by
    unfold invalidity at verdict
    split at verdict
    · cases verdict
    · rename_i checked
      simp [checked]
  unfold validateValue ScratchGranted
  rw [if_pos ⟨container,root⟩,verdict]
  split
  · rename_i begun next granted
    simp [granted]
  · rename_i begun next reason refused other
    rw [other]
    simp only [reduceCtorEq,false_iff]
    exact refused

/-- What is left by a release or detachment that fails although it should not harm. -/
theorem validateValue_fails {f used : HostFailureInjection} {next : Host} {failure : ValidationFailure}
    (valid : Valid h v) (failed : validateValue f h v = (used,next,some failure)) :
    Unharmed h v next v :=
  .sameRegistries valid (validateValue_next failed)

theorem releaseVectorReservation_fails {f used : HostFailureInjection} {r : EvaluationResources}
    {h' : Host} {v' : Value} {e : ReleaseFailure} (valid : Valid h v)
    (failed : Host.releaseVectorReservation f h r v = (used,h',v',.error e)) : Unharmed h v h' v' := by
  unfold Host.releaseVectorReservation at failed
  split at failed
  · cases failed
    exact .sameRegistries valid (.refl h)
  · split at failed
    · rename_i rejected
      cases failed
      exact validateValue_fails valid rejected
    · rename_i begun next accepted
      have same := validateValue_next accepted
      split at failed
      · cases failed
        exact .sameRegistries valid same
      · unfold Host.releaseVectorParts at failed
        dsimp only at failed
        split at failed
        · cases failed
          exact .sameRegistries valid same
        · split at failed
          · cases failed
            exact .sameRegistries valid same
          · cases failed

theorem Unharmed.after {mid last : Host} {v' : Value} (same : h.SameRegistries mid)
    (rest : Unharmed mid v last v') : Unharmed h v last v' := by
  obtain ⟨_,rfl⟩ := same
  exact ⟨rest.valid,rest.meaning,rest.states,rest.buffers⟩

variable {r : EvaluationResources}

theorem StopsMidway.sameRegistries {next : Host} (same : h.SameRegistries next) :
    StopsMidway next r v ↔ StopsMidway h r v := by
  obtain ⟨_,rfl⟩ := same
  exact Iff.rfl

/-- A failing release harms nothing unless it stops midway. -/
theorem releaseValueReservations_unharmed {f used : HostFailureInjection} {h' : Host} {v' : Value}
    {e : ReleaseFailure} (valid : Valid h v) (condition : ¬(ScratchGranted f h v.tuple ∧ StopsMidway h r v))
    (failed : Host.releaseValueReservations f h r v = (used,h',v',.error e)) : Unharmed h v h' v' := by
  unfold Host.releaseValueReservations at failed
  split at failed
  · rename_i rejected
    cases failed
    exact validateValue_fails valid rejected
  · rename_i begun next accepted
    have same := validateValue_next accepted
    split at failed
    · cases failed
    · split at failed
      · cases failed
        exact .sameRegistries valid same
      · cases released : Host.releaseVectorReservation noHostFailure next r v with
        | mk begun' rest =>
          obtain ⟨freed,left,result⟩ := rest
          rw [released] at failed
          cases failed
          exact .after same (releaseVectorReservation_fails (valid.sameRegistries same) released)
    · rename_i container
      split at failed
      · cases failed
        exact .sameRegistries valid same
      · rename_i check
        simp only [Bool.not_eq_true',not_or,Bool.not_eq_false,Option.isNone_iff_eq_none] at check
        have wf := (valid.sameRegistries same).wellFormed container
        have attached : ¬v.tuple.Detached := fun detached => condition
          ⟨(validateValue_granted valid container).mp (by rw [accepted]),
            (StopsMidway.sameRegistries same).mp
              ⟨container,Option.isSome_iff_ne_none.mpr check.1,check.2,detached⟩⟩
        obtain ⟨last,tuple,walked⟩ := (walkArena_fails wf (releaseVisitor_checks r)).2 attached
        rw [walked] at failed
        cases failed

theorem detachValueReservations_unharmed {h' : Host} {v' : Value} {e : ReleaseFailure}
    (valid : Valid h v) (condition : ¬(ScratchGranted noHostFailure h v.tuple ∧ StopsMidway h r v))
    (failed : h.detachValueReservations r v = (h',v',.error e)) : Unharmed h v h' v' := by
  unfold Host.detachValueReservations at failed
  split at failed
  · rename_i rejected
    cases failed
    exact validateValue_fails valid rejected
  · rename_i begun next accepted
    have same := validateValue_next accepted
    split at failed
    · cases failed
    · split at failed
      · cases failed
        exact .sameRegistries valid same
      · split at failed
        · cases failed
          exact .sameRegistries valid same
        · cases failed
    · rename_i container
      split at failed
      · cases failed
        exact .sameRegistries valid same
      · rename_i check
        simp only [Bool.not_eq_true',not_or,Bool.not_eq_false,Option.isNone_iff_eq_none] at check
        have wf := (valid.sameRegistries same).wellFormed container
        have attached : ¬v.tuple.Detached := fun detached => condition
          ⟨(validateValue_granted valid container).mp (by rw [accepted]),
            (StopsMidway.sameRegistries same).mp
              ⟨container,Option.isSome_iff_ne_none.mpr check.1,check.2,detached⟩⟩
        obtain ⟨last,tuple,walked⟩ := (walkArena_fails wf (detachVisitor_checks r)).2 attached
        rw [walked] at failed
        cases failed

theorem releaseValueReservations_midway {f : HostFailureInjection} (valid : Valid h v)
    (granted : ScratchGranted f h v.tuple) (stops : StopsMidway h r v) :
    ∃ used h' v' e, Host.releaseValueReservations f h r v = (used,h',v',.error e) ∧ ¬Valid h' v' := by
  have container := stops.1
  have accepted := (validateValue_granted valid container).mpr granted
  obtain ⟨used,next,verdict⟩ : ∃ used next, validateValue f h v = (used,next,none) :=
    ⟨_,_,Prod.ext rfl (Prod.ext rfl accepted)⟩
  have same := validateValue_next verdict
  obtain ⟨-,live,owners,detached⟩ := (StopsMidway.sameRegistries same).mpr stops
  have wf := (valid.sameRegistries same).wellFormed container
  obtain ⟨last,tuple,invariant,walked,broken⟩ :=
    (walkArena_fails wf (releaseVisitor_checks r)).1 detached
  refine ⟨used,last,{ v with tuple := tuple },.invariant invariant,?_,fun sound =>
    broken last (sound.wellFormed container)⟩
  unfold Host.releaseValueReservations
  rw [verdict]
  dsimp only
  rw [container]
  dsimp only
  rw [if_neg (by simp [owners,Option.isSome_iff_ne_none.mp live]),walked]

theorem detachValueReservations_midway (valid : Valid h v)
    (granted : ScratchGranted noHostFailure h v.tuple) (stops : StopsMidway h r v) :
    ∃ h' v' e, h.detachValueReservations r v = (h',v',.error e) ∧ ¬Valid h' v' := by
  have container := stops.1
  have accepted := (validateValue_granted valid container).mpr granted
  obtain ⟨used,next,verdict⟩ : ∃ used next, validateValue noHostFailure h v = (used,next,none) :=
    ⟨_,_,Prod.ext rfl (Prod.ext rfl accepted)⟩
  have same := validateValue_next verdict
  obtain ⟨-,live,owners,detached⟩ := (StopsMidway.sameRegistries same).mpr stops
  have wf := (valid.sameRegistries same).wellFormed container
  obtain ⟨last,tuple,invariant,walked,broken⟩ :=
    (walkArena_fails wf (detachVisitor_checks r)).1 detached
  refine ⟨last,{ v with tuple := tuple },.invariant invariant,?_,fun sound =>
    broken last (sound.wellFormed container)⟩
  unfold Host.detachValueReservations
  rw [verdict]
  dsimp only
  rw [container]
  dsimp only
  rw [if_neg (by simp [owners,Option.isSome_iff_ne_none.mp live]),walked]

/-- Both operations are failure atomic exactly when they do not stop midway. -/
theorem failure_atomic_iff (valid : Valid h v) (r : EvaluationResources) (f : HostFailureInjection) :
    ((∀ used h' v' e, Host.releaseValueReservations f h r v = (used,h',v',.error e) →
      Unharmed h v h' v') ↔ ¬(ScratchGranted f h v.tuple ∧ StopsMidway h r v)) ∧
    ((∀ h' v' e, h.detachValueReservations r v = (h',v',.error e) → Unharmed h v h' v') ↔
      ¬(ScratchGranted noHostFailure h v.tuple ∧ StopsMidway h r v)) := by
  refine ⟨⟨?_,fun condition used h' v' e failed =>
    releaseValueReservations_unharmed valid condition failed⟩,⟨?_,fun condition h' v' e failed =>
    detachValueReservations_unharmed valid condition failed⟩⟩
  · rintro atomic ⟨granted,stops⟩
    obtain ⟨used,h',v',e,failed,broken⟩ := releaseValueReservations_midway valid granted stops
    exact broken (atomic used h' v' e failed).valid
  · rintro atomic ⟨granted,stops⟩
    obtain ⟨h',v',e,failed,broken⟩ := detachValueReservations_midway valid granted stops
    exact broken (atomic h' v' e failed).valid

end Operations

/-- A vector that has been detached: detaching it again fails and harms nothing. -/
theorem failure_atomic_vector :
    let s := (startSession (fun _ _ => .none) (fun _ => .none) [trustedLocalV2Account]).run
      [.allocateVector 0 .integer 2 2,.detachValue 0 0]
    let v := s.values.getD 0 invalidConstructionValue
    ∀ h' v' e, s.host.detachValueReservations (s.context 0) v = (h',v',.error e) →
      Unharmed s.host v h' v' :=
  (failure_atomic_iff (by decide +kernel) _ noHostFailure).2.mpr fun ⟨_,tuple,_⟩ =>
    absurd tuple (by decide +kernel)

section Counterexample

variable {h : Host} {r : EvaluationResources} {v : Value} {e : ReleaseFailure}

theorem release_harms (failed : (Host.releaseValueReservations noHostFailure h r v).2.2.2 = .error e)
    (broken : ¬Valid (Host.releaseValueReservations noHostFailure h r v).2.1
      (Host.releaseValueReservations noHostFailure h r v).2.2.1) :
    ¬∀ used h' v' e, Host.releaseValueReservations noHostFailure h r v = (used,h',v',.error e) →
      Unharmed h v h' v' := fun atomic =>
  broken (atomic _ _ _ e (Prod.ext rfl (Prod.ext rfl (Prod.ext rfl failed)))).valid

theorem detach_harms (failed : (h.detachValueReservations r v).2.2 = .error e)
    (broken : ¬Valid (h.detachValueReservations r v).1 (h.detachValueReservations r v).2.1) :
    ¬∀ h' v' e, h.detachValueReservations r v = (h',v',.error e) → Unharmed h v h' v' := fun atomic =>
  broken (atomic _ _ e (Prod.ext rfl (Prod.ext rfl failed))).valid

end Counterexample

/-- A session that builds the tuple `[[1 2] 7]` and detaches it. -/
def detachedTupleSession : ResourceSession :=
  (startSession (fun _ _ => .none) (fun _ => .none) [trustedLocalV2Account]).run
    [.allocateVector 0 .integer 2 2,.makeScalar ⟨.integer,false,7,0⟩,.makeTuple 0 noHostFailure 0 2,
      .detachValue 0 2]

/-- Detaching that tuple once more fails and leaves a value that is no longer valid; so
does releasing it. -/
theorem detached_tuple_harmed :
    let s := detachedTupleSession
    let v := s.values.getD 2 invalidConstructionValue
    Valid s.host v ∧
      ¬(∀ h' v' e, s.host.detachValueReservations (s.context 0) v = (h',v',.error e) →
        Unharmed s.host v h' v') ∧
      ¬(∀ used h' v' e, Host.releaseValueReservations noHostFailure s.host (s.context 0) v =
        (used,h',v',.error e) → Unharmed s.host v h' v') := by
  exact ⟨by decide +kernel,detach_harms (e := .invariant .invalidVectorPayloadHandle)
    (by decide +kernel) (by decide +kernel),release_harms (e := .invariant .invalidVectorPayloadHandle)
    (by decide +kernel) (by decide +kernel)⟩

end Bennu
