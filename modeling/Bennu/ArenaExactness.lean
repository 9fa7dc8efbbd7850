import Mathlib.Logic.Relation
import Bennu.LocalValidity
import Bennu.MarkTable

/-! `validate_value` accepts exactly the arenas that are trees with nothing shared and
nothing left over. The nodes done so far say what every scratch table holds. -/
namespace Bennu

open MarkTable

namespace TupleValue

variable (t : TupleValue)

def childCountAt (i : Nat) : Nat := (t.childRange i).2

/-- The child a tuple node reaches through one of its edges. -/
def childOf (i k : Nat) : Nat := t.childAt ((t.childRange i).1 + k)

/-- Where the reservation of a tuple node is, counting the root's own last. -/
def tableIndex (i : Nat) : Nat :=
  if i = t.rootIndex then t.reservations.length else (t.node i).tupleReservationIndex

/-- The buffer that a node owns through its table or payload. -/
def bufferAt (i : Nat) : Option Nat :=
  match t.containerAt i with
  | .scalar => none
  | .vector => (t.vectorPayloads[(t.node i).vectorPayloadIndex]?).bind (·.storage)
  | .tuple => (t.reservationAt (t.tableIndex i)).bind (·.payload)

def childrenAt (i : Nat) : List Nat :=
  if i ≤ t.nodes.length ∧ t.containerAt i = .tuple then (List.range (t.childCountAt i)).map (t.childOf i)
  else []

/-- The edge slots of a tuple node. -/
def edgesAt (i : Nat) : List Nat :=
  if t.containerAt i = .tuple then (List.range (t.childCountAt i)).map ((t.childRange i).1 + ·) else []

/-- The payload slot of a vector node. -/
def payloadsAt (i : Nat) : List Nat :=
  if t.containerAt i = .vector then [(t.node i).vectorPayloadIndex] else []

/-- The reservation slot of a tuple node. -/
def tablesAt (i : Nat) : List Nat := if t.containerAt i = .tuple then [t.tableIndex i] else []

def buffersAt (i : Nat) : List Nat := (t.bufferAt i).toList

def scalarAt (scalar : ScalarValue) (i : Nat) : ScalarValue :=
  if i = t.rootIndex then scalar else (t.node i).scalar

/-- One node on its own: only the fields of its container are set, its record is there
and is sound. -/
def NodeSound (h : Host) (scalar : ScalarValue) (i : Nat) : Prop :=
  match t.containerAt i with
  | .scalar => (t.node i).firstChild = 0 ∧ (t.node i).childCount = 0 ∧
      (t.node i).tupleReservationIndex = 0 ∧ (t.node i).vectorPayloadIndex = 0 ∧
      (t.node i).scalar.Sound
  | .vector => (t.node i).scalar = emptyScalar ∧ (t.node i).firstChild = 0 ∧
      (t.node i).childCount = 0 ∧ (t.node i).tupleReservationIndex = 0 ∧
      ∃ v, t.vectorPayloads[(t.node i).vectorPayloadIndex]? = some v ∧ v.Sound h
  | .tuple => t.scalarAt scalar i = emptyScalar ∧
      (i ≠ t.rootIndex → (t.node i).vectorPayloadIndex = 0) ∧
      (t.childRange i).1 + t.childCountAt i ≤ t.childIndexes.length ∧
      ∃ r, t.reservationAt (t.tableIndex i) = some r ∧ r.Sound h (t.childCountAt i)

/-- The node table is a finite tree under its last node: children come before their parent,
every node is reached from the root, and every node, edge slot, payload and reservation is
used exactly once, no two of them with the same storage. -/
structure Exact (h : Host) (scalar : ScalarValue) : Prop where
  root : t.rootIndex = t.nodes.length
  sound : ∀ i ≤ t.nodes.length, t.NodeSound h scalar i
  earlier : ∀ i ≤ t.nodes.length, ∀ c ∈ t.childrenAt i, c < i
  reached : ∀ i ≤ t.nodes.length, Relation.ReflTransGen (fun p c => c ∈ t.childrenAt p) t.rootIndex i
  nodes : ((List.range (t.nodes.length + 1)).flatMap t.childrenAt).Perm (List.range t.nodes.length)
  edges : ((List.range (t.nodes.length + 1)).flatMap t.edgesAt).Perm
    (List.range t.childIndexes.length)
  payloads : ((List.range (t.nodes.length + 1)).flatMap t.payloadsAt).Perm
    (List.range t.vectorPayloads.length)
  tables : ((List.range (t.nodes.length + 1)).flatMap t.tablesAt).Perm
    (List.range (t.reservations.length + 1))
  storage : ((List.range (t.nodes.length + 1)).flatMap t.buffersAt).Nodup

/-- Nodes with nothing in common: no shared child, edge slot, payload, table or storage. -/
structure Apart (done : List Nat) : Prop where
  nodes : done.Nodup
  children : (done.flatMap t.childrenAt).Nodup
  edges : (done.flatMap t.edgesAt).Nodup
  payloads : (done.flatMap t.payloadsAt).Nodup
  tables : (done.flatMap t.tablesAt).Nodup
  storage : (done.flatMap t.buffersAt).Nodup

/-- The work items that a node pushes, its first child on top. -/
def pushedBy (i : Nat) : List ValidationWork :=
  if t.containerAt i = .tuple then
    (List.range (t.childCountAt i)).map fun k => ⟨t.childOf i k,some i,k⟩
  else []

end TupleValue

/-- The scratch tables once exactly these nodes are done. -/
def ValidationTables.mark (tables : ValidationTables) (t : TupleValue) (done : List Nat) :
    ValidationTables :=
  { tables with
    visited := flags (t.nodes.length + 1) done
    edgeOwners := flags t.childIndexes.length (done.flatMap t.edgesAt)
    parentCount := counts (t.nodes.length + 1) (done.flatMap t.childrenAt)
    payloadOwners := flags t.vectorPayloads.length (done.flatMap t.payloadsAt)
    reservationOwners := flags (t.reservations.length + 1) (done.flatMap t.tablesAt) }

/-- The scratch tables after one more node. -/
def ValidationTables.advance (tables : ValidationTables) (t : TupleValue) (done : List Nat)
    (work : ValidationWork) : ValidationTables :=
  { tables.mark t (work.nodeIndex :: done) with
    pathParents := tables.pathParents.set work.nodeIndex work.parentIndex
    pathOffsets := tables.pathOffsets.set work.nodeIndex work.childOffset
    stack := t.pushedBy work.nodeIndex ++ tables.stack }

/-- A value whose inactive parts are empty and whose active part is sound. -/
structure Value.Exact (h : Host) (v : Value) : Prop where
  claimed : v.claimed = true
  scalar : v.container = .scalar → v.scalar.Sound
  vector : v.container = .vector → v.vector.Sound h
  tuple : v.container = .tuple → v.tuple.Exact h v.scalar
  scalarEmpty : v.container ≠ .scalar → v.scalar = emptyScalar
  vectorEmpty : v.container ≠ .vector → v.vector = emptyVector
  tupleEmpty : v.container ≠ .tuple → v.tuple = emptyTuple

section Claims

variable {t : TupleValue} {tables after : ValidationTables} {i first : Nat}

theorem reservationAt_some {q : Nat} {r : TupleTableReservation} (found : t.reservationAt q = some r) :
    q < t.reservations.length + 1 := by
  unfold TupleValue.reservationAt at found
  split at found
  · omega
  · obtain ⟨inside,-⟩ := List.getElem?_eq_some_iff.mp found
    omega

/-- The claims on edges and children once these edges are claimed too. -/
def ValidationTables.claim (tables : ValidationTables) (t : TupleValue) (edges owned : List Nat) :
    ValidationTables :=
  { tables with
    edgeOwners := flags t.childIndexes.length edges
    parentCount := counts (t.nodes.length + 1) owned }

theorem claimEdges_cons (bound : i ≤ t.nodes.length) {o : Nat} {rest edges owned : List Nat}
    (inside : first + o < t.childIndexes.length) :
    claimEdges t i first (o :: rest) (tables.claim t edges owned) = .ok after ↔
      first + o ∉ edges ∧ t.childAt (first + o) < i ∧ t.childAt (first + o) ∉ owned ∧
        claimEdges t i first rest
          (tables.claim t ((first + o) :: edges) (t.childAt (first + o) :: owned)) = .ok after := by
  obtain ⟨c,isChild⟩ : ∃ c, c = t.childAt (first + o) := ⟨_,rfl⟩
  have claimed : (tables.claim t edges owned).edgeOwners.getD (first + o) false =
      decide (first + o ∈ edges) := getD_flags.trans (by simp only [inside,true_and])
  rw [claimEdges]
  dsimp only
  rw [claimed,← isChild]
  split
  · rename_i overlapping
    have shared : first + o ∈ edges := of_decide_eq_true overlapping
    simp [shared]
  · rename_i fresh
    split
    · rename_i outside
      simp only [reduceCtorEq,false_iff]
      rintro ⟨-,early,-⟩
      omega
    · rename_i within
      split
      · rename_i late
        simp only [reduceCtorEq,false_iff]
        rintro ⟨-,early,-⟩
        omega
      · rename_i early
        have child : c < t.nodes.length + 1 := by omega
        have counted : counts (t.nodes.length + 1) (c :: owned) =
            (tables.claim t edges owned).parentCount.set c
              ((tables.claim t edges owned).parentCount.getD c 0 + 1) := by
          rw [ValidationTables.claim,getD_counts child,counts_set]
        have next : tables.claim t ((first + o) :: edges) (c :: owned) = { tables.claim t edges owned with
            edgeOwners := (tables.claim t edges owned).edgeOwners.set (first + o) true
            parentCount := (tables.claim t edges owned).parentCount.set c
              ((tables.claim t edges owned).parentCount.getD c 0 + 1) } := by
          rw [← counted]
          simp only [ValidationTables.claim,flags_set]
        rw [← counted,getD_counts child,List.count_cons_self]
        split
        · rename_i again
          have shared : c ∈ owned := List.count_pos_iff.mp (by omega)
          simp [shared]
        · rename_i single
          have unowned : c ∉ owned := List.count_eq_zero.mp (by omega)
          have unclaimed : first + o ∉ edges := fun member => fresh (decide_eq_true member)
          rw [next]
          refine ⟨fun ok => ⟨unclaimed,by omega,unowned,?_⟩,fun ⟨_,_,_,ok⟩ => ?_⟩
          · rw [← counted]
            exact ok
          · rw [← counted] at ok
            exact ok

/-- Claiming edges succeeds exactly when they are fresh and lead to fresh, earlier nodes. -/
theorem claimEdges_ok_iff (bound : i ≤ t.nodes.length) {offsets edges owned : List Nat}
    (inside : ∀ o ∈ offsets, first + o < t.childIndexes.length) (edgesApart : edges.Nodup)
    (ownedApart : owned.Nodup) :
    claimEdges t i first offsets (tables.claim t edges owned) = .ok after ↔
      (offsets.map (first + ·) ++ edges).Nodup ∧ (∀ o ∈ offsets, t.childAt (first + o) < i) ∧
        (offsets.map (fun o => t.childAt (first + o)) ++ owned).Nodup ∧
        after = tables.claim t (offsets.map (first + ·) ++ edges)
          (offsets.map (fun o => t.childAt (first + o)) ++ owned) := by
  induction offsets generalizing edges owned with
  | nil => simp [claimEdges,edgesApart,ownedApart,eq_comm]
  | cons o rest ih =>
    obtain ⟨here,later⟩ := List.forall_mem_cons.mp inside
    obtain ⟨c,isChild⟩ : ∃ c, c = t.childAt (first + o) := ⟨_,rfl⟩
    have edgeOrder : (rest.map (first + ·) ++ (first + o) :: edges).Perm
        ((o :: rest).map (first + ·) ++ edges) := List.perm_middle
    have childOrder : (rest.map (fun o => t.childAt (first + o)) ++ c :: owned).Perm
        ((o :: rest).map (fun o => t.childAt (first + o)) ++ owned) := isChild ▸ List.perm_middle
    have marked : tables.claim t (rest.map (first + ·) ++ (first + o) :: edges)
        (rest.map (fun o => t.childAt (first + o)) ++ c :: owned) =
        tables.claim t ((o :: rest).map (first + ·) ++ edges)
          ((o :: rest).map (fun o => t.childAt (first + o)) ++ owned) := by
      unfold ValidationTables.claim
      rw [flags_congr fun _ => edgeOrder.mem_iff,counts_congr childOrder]
    rw [claimEdges_cons bound here,← isChild]
    constructor
    · rintro ⟨fresh,early,unowned,ok⟩
      obtain ⟨edgesNew,earlier,childrenNew,same⟩ := (ih later (List.nodup_cons.mpr ⟨fresh,edgesApart⟩)
        (List.nodup_cons.mpr ⟨unowned,ownedApart⟩)).mp ok
      exact ⟨edgeOrder.nodup_iff.mp edgesNew,List.forall_mem_cons.mpr ⟨isChild ▸ early,earlier⟩,
        childOrder.nodup_iff.mp childrenNew,same.trans marked⟩
    · rintro ⟨edgesNew,earlier,childrenNew,same⟩
      obtain ⟨early,earlier⟩ := List.forall_mem_cons.mp earlier
      have edgesNew := edgeOrder.nodup_iff.mpr edgesNew
      have childrenNew := childOrder.nodup_iff.mpr childrenNew
      have fresh := (List.nodup_append.mp edgesNew).2.1
      have unowned := (List.nodup_append.mp childrenNew).2.1
      exact ⟨(List.nodup_cons.mp fresh).1,isChild ▸ early,(List.nodup_cons.mp unowned).1,
        (ih later fresh unowned).mpr ⟨edgesNew,earlier,childrenNew,same.trans marked.symm⟩⟩

/-- Whether a claimed slot holds this storage. -/
theorem ownedStorage_iff {payloads reservations : List Nat} {exceptPayload exceptReservation : Option Nat}
    {s : Nat} (payloadMarks : tables.payloadOwners = flags t.vectorPayloads.length payloads)
    (reservationMarks : tables.reservationOwners = flags (t.reservations.length + 1) reservations) :
    ownedStorage t tables exceptPayload exceptReservation s = true ↔
      (∃ p ∈ payloads, some p ≠ exceptPayload ∧ (t.vectorPayloads[p]?).bind (·.storage) = some s) ∨
      (∃ q ∈ reservations, some q ≠ exceptReservation ∧ (t.reservationAt q).bind (·.payload) = some s) := by
  unfold ownedStorage
  rw [payloadMarks,reservationMarks]
  simp only [Bool.or_eq_true,List.any_eq_true,List.mem_range,Bool.and_eq_true,getD_flags,
    decide_eq_true_eq,beq_iff_eq]
  refine or_congr ⟨?_,?_⟩ ⟨?_,?_⟩
  · rintro ⟨p,-,⟨⟨-,named⟩,other⟩,same⟩
    exact ⟨p,named,other,same⟩
  · rintro ⟨p,named,other,same⟩
    obtain ⟨v,found,-⟩ := Option.bind_eq_some_iff.mp same
    obtain ⟨inside,-⟩ := List.getElem?_eq_some_iff.mp found
    exact ⟨p,inside,⟨⟨inside,named⟩,other⟩,same⟩
  · rintro ⟨q,-,⟨⟨-,named⟩,other⟩,same⟩
    exact ⟨q,named,other,same⟩
  · rintro ⟨q,named,other,same⟩
    obtain ⟨r,found,-⟩ := Option.bind_eq_some_iff.mp same
    have inside := reservationAt_some found
    exact ⟨q,inside,⟨⟨inside,named⟩,other⟩,same⟩

theorem mem_buffersAt {s : Nat} : s ∈ t.buffersAt i ↔
    (∃ p ∈ t.payloadsAt i, (t.vectorPayloads[p]?).bind (·.storage) = some s) ∨
      ∃ q ∈ t.tablesAt i, (t.reservationAt q).bind (·.payload) = some s := by
  unfold TupleValue.buffersAt TupleValue.bufferAt TupleValue.payloadsAt TupleValue.tablesAt
  cases t.containerAt i <;> simp

/-- The storage of the nodes done is the storage of the slots they claimed. -/
theorem mem_buffers {done : List Nat} {s : Nat} : s ∈ done.flatMap t.buffersAt ↔
    (∃ p ∈ done.flatMap t.payloadsAt, (t.vectorPayloads[p]?).bind (·.storage) = some s) ∨
      ∃ q ∈ done.flatMap t.tablesAt, (t.reservationAt q).bind (·.payload) = some s := by
  simp only [List.mem_flatMap,mem_buffersAt]
  constructor
  · rintro ⟨i,member,⟨p,slot,same⟩ | ⟨q,slot,same⟩⟩
    · exact .inl ⟨p,⟨i,member,slot⟩,same⟩
    · exact .inr ⟨q,⟨i,member,slot⟩,same⟩
  · rintro (⟨p,⟨i,member,slot⟩,same⟩ | ⟨q,⟨i,member,slot⟩,same⟩)
    · exact ⟨i,member,.inl ⟨p,slot,same⟩⟩
    · exact ⟨i,member,.inr ⟨q,slot,same⟩⟩

variable {h : Host} {scalar : ScalarValue} {done : List Nat} {visited : ValidationTables}

theorem validateScalarNode_ok_iff (h : Host) (scalar : ScalarValue) (container : t.containerAt i = .scalar) :
    validateScalarNode t i visited = .ok after ↔ t.NodeSound h scalar i ∧ after = visited := by
  unfold validateScalarNode TupleValue.NodeSound
  rw [container]
  dsimp only
  split
  · rename_i used
    simp only [reduceCtorEq,false_iff]
    rintro ⟨⟨first,count,table,payload,-⟩,-⟩
    simp [first,count,table,payload] at used
  · rename_i unused
    simp only [not_or,not_not] at unused
    obtain ⟨first,count,table,payload⟩ := unused
    split
    · rename_i refused
      simp only [reduceCtorEq,false_iff]
      rintro ⟨⟨-,-,-,-,sound⟩,-⟩
      rw [(validateScalar_none _).mpr sound] at refused
      cases refused
    · rename_i accepted
      have sound := (validateScalar_none _).mp accepted
      simp [first,count,table,payload,sound,eq_comm]

/-- A vector node claims a fresh payload slot whose storage no node done has. -/
theorem validateVectorNode_ok_iff (scalar : ScalarValue) (container : t.containerAt i = .vector)
    (payloadMarks : visited.payloadOwners = flags t.vectorPayloads.length (done.flatMap t.payloadsAt))
    (reservationMarks : visited.reservationOwners =
      flags (t.reservations.length + 1) (done.flatMap t.tablesAt)) :
    validateVectorNode h t i visited = .ok after ↔ t.NodeSound h scalar i ∧
      (t.node i).vectorPayloadIndex ∉ done.flatMap t.payloadsAt ∧
      (∀ s ∈ t.buffersAt i, s ∉ done.flatMap t.buffersAt) ∧
      after = { visited with
        payloadOwners := flags t.vectorPayloads.length ((i :: done).flatMap t.payloadsAt) } := by
  have slots : (i :: done).flatMap t.payloadsAt =
      (t.node i).vectorPayloadIndex :: done.flatMap t.payloadsAt := by
    simp [TupleValue.payloadsAt,container]
  rw [slots]
  have held : ∀ s, s ∈ t.buffersAt i ↔
      (t.vectorPayloads[(t.node i).vectorPayloadIndex]?).bind (·.storage) = some s := by
    simp [TupleValue.buffersAt,TupleValue.bufferAt,container]
  simp only [held]
  unfold validateVectorNode TupleValue.NodeSound
  rw [container]
  dsimp only
  cases empty : isEmptyScalar (t.node i).scalar with
  | false =>
    have other : (t.node i).scalar ≠ emptyScalar := fun same => by
      rw [(isEmptyScalar_iff _).mpr same] at empty
      cases empty
    simp [other]
  | true =>
    have same := (isEmptyScalar_iff _).mp empty
    simp only [Bool.not_true,Bool.false_eq_true,if_false]
    split
    · rename_i used
      simp only [reduceCtorEq,false_iff]
      rintro ⟨⟨-,first,count,table,-⟩,-⟩
      simp [first,count,table] at used
    · rename_i unused
      simp only [not_or,not_not] at unused
      obtain ⟨first,count,table⟩ := unused
      cases found : t.vectorPayloads[(t.node i).vectorPayloadIndex]? with
      | none => simp
      | some payload =>
        obtain ⟨inside,-⟩ := List.getElem?_eq_some_iff.mp found
        dsimp only
        rw [payloadMarks,getD_flags]
        split
        · rename_i claimed
          have member := (of_decide_eq_true claimed).2
          simp [member]
        · rename_i unclaimed
          have fresh : (t.node i).vectorPayloadIndex ∉ done.flatMap t.payloadsAt :=
            fun member => unclaimed (decide_eq_true ⟨inside,member⟩)
          rw [flags_set]
          generalize isClaimed : (ValidationTables.mk _ _ _ _ _ _ _ _) = claimed
          have owned : ∀ s, ownedStorage t claimed (some (t.node i).vectorPayloadIndex) none s = true ↔
              s ∈ done.flatMap t.buffersAt := by
            intro s
            have marks : claimed.payloadOwners = flags t.vectorPayloads.length
                ((t.node i).vectorPayloadIndex :: done.flatMap t.payloadsAt) := by rw [← isClaimed]
            rw [ownedStorage_iff marks (by rw [← isClaimed]; exact reservationMarks),mem_buffers]
            refine or_congr ⟨?_,?_⟩ (by simp)
            · rintro ⟨p,member,other,holds⟩
              exact ⟨p,(List.mem_cons.mp member).resolve_left fun top => other (by rw [top]),holds⟩
            · rintro ⟨p,member,holds⟩
              exact ⟨p,List.mem_cons_of_mem _ member,fun top => fresh (Option.some.inj top ▸ member),holds⟩
          have storage : payload.storage.any (ownedStorage t claimed
              (some (t.node i).vectorPayloadIndex) none) = true ↔
              ∃ s, payload.storage = some s ∧ s ∈ done.flatMap t.buffersAt := by
            simp only [Option.any_eq_true,owned]
          split
          · rename_i shared
            obtain ⟨s,holds,member⟩ := storage.mp shared
            simp only [reduceCtorEq,false_iff]
            rintro ⟨-,-,apart,-⟩
            exact apart s holds member
          · rename_i apart
            have apart : ∀ s, payload.storage = some s → s ∉ done.flatMap t.buffersAt :=
              fun s holds member => apart (storage.mpr ⟨s,holds,member⟩)
            split
            · rename_i refused
              have unsound : ¬payload.Sound h := fun sound => by
                rw [(vectorValidation_none h payload).mpr sound] at refused
                cases refused
              simp [unsound]
            · rename_i accepted
              have sound := (vectorValidation_none h payload).mp accepted
              refine ⟨fun ok => ⟨⟨same,first,count,table,payload,rfl,sound⟩,fresh,apart,?_⟩,
                fun ⟨_,_,_,same⟩ => by rw [same]⟩
              cases ok
              rfl

/-- A tuple node whose range is in the table claims its edges and its children. -/
theorem claimEdges_node_iff {claimed : ValidationTables} (container : t.containerAt i = .tuple)
    (bound : i ≤ t.nodes.length) (apart : t.Apart done)
    (range : (t.childRange i).1 + t.childCountAt i ≤ t.childIndexes.length)
    (edgeMarks : visited.edgeOwners = flags t.childIndexes.length (done.flatMap t.edgesAt))
    (parentMarks : visited.parentCount = counts (t.nodes.length + 1) (done.flatMap t.childrenAt)) :
    claimEdges t i (t.childRange i).1 (List.range (t.childRange i).2) visited = .ok claimed ↔
      ((i :: done).flatMap t.edgesAt).Nodup ∧ (∀ c ∈ t.childrenAt i, c < i) ∧
      ((i :: done).flatMap t.childrenAt).Nodup ∧
      claimed = visited.claim t ((i :: done).flatMap t.edgesAt) ((i :: done).flatMap t.childrenAt) := by
  have edges : (i :: done).flatMap t.edgesAt =
      (List.range (t.childCountAt i)).map ((t.childRange i).1 + ·) ++ done.flatMap t.edgesAt := by
    rw [List.flatMap_cons,TupleValue.edgesAt,if_pos container]
  have children : t.childrenAt i =
      (List.range (t.childCountAt i)).map fun k => t.childAt ((t.childRange i).1 + k) := by
    rw [TupleValue.childrenAt,if_pos ⟨bound,container⟩]
    rfl
  have isClaim : visited = visited.claim t (done.flatMap t.edgesAt) (done.flatMap t.childrenAt) := by
    unfold ValidationTables.claim
    rw [← edgeMarks,← parentMarks]
  have inside : ∀ o ∈ List.range (t.childCountAt i), (t.childRange i).1 + o < t.childIndexes.length := by
    intro o member
    have less := List.mem_range.mp member
    omega
  have early : (∀ o ∈ List.range (t.childCountAt i), t.childAt ((t.childRange i).1 + o) < i) ↔
      ∀ c ∈ t.childrenAt i, c < i := by
    rw [children]
    simp
  have claims := @claimEdges_ok_iff t visited claimed i _ bound _ _ _ inside apart.edges apart.children
  rw [← isClaim,early,← edges,← children] at claims
  rw [List.flatMap_cons (f := t.childrenAt)]
  exact claims

/-- A tuple node claims fresh edges to fresh, earlier children and a fresh table whose storage
no node done has. -/
theorem validateTupleNode_ok_iff (container : t.containerAt i = .tuple) (bound : i ≤ t.nodes.length)
    (apart : t.Apart done)
    (edgeMarks : visited.edgeOwners = flags t.childIndexes.length (done.flatMap t.edgesAt))
    (parentMarks : visited.parentCount = counts (t.nodes.length + 1) (done.flatMap t.childrenAt))
    (payloadMarks : visited.payloadOwners = flags t.vectorPayloads.length (done.flatMap t.payloadsAt))
    (reservationMarks : visited.reservationOwners =
      flags (t.reservations.length + 1) (done.flatMap t.tablesAt)) :
    validateTupleNode h t scalar i visited = .ok after ↔ t.NodeSound h scalar i ∧
      ((i :: done).flatMap t.edgesAt).Nodup ∧ (∀ c ∈ t.childrenAt i, c < i) ∧
      ((i :: done).flatMap t.childrenAt).Nodup ∧ t.tableIndex i ∉ done.flatMap t.tablesAt ∧
      (∀ s ∈ t.buffersAt i, s ∉ done.flatMap t.buffersAt) ∧
      after = { visited.claim t ((i :: done).flatMap t.edgesAt) ((i :: done).flatMap t.childrenAt) with
        reservationOwners := flags (t.reservations.length + 1) ((i :: done).flatMap t.tablesAt)
        stack := t.pushedBy i ++ visited.stack } := by
  have tables : (i :: done).flatMap t.tablesAt = t.tableIndex i :: done.flatMap t.tablesAt := by
    simp [TupleValue.tablesAt,container]
  have held : ∀ s, s ∈ t.buffersAt i ↔
      (t.reservationAt (t.tableIndex i)).bind (·.payload) = some s := by
    simp [TupleValue.buffersAt,TupleValue.bufferAt,container]
  have pushed : t.pushedBy i =
      (List.range (t.childCountAt i)).map fun k => ⟨t.childOf i k,some i,k⟩ := by
    rw [TupleValue.pushedBy,if_pos container]
  simp only [held]
  rw [tables,pushed]
  unfold validateTupleNode TupleValue.NodeSound
  rw [container]
  dsimp only
  change (if (!isEmptyScalar (t.scalarAt scalar i)) = true then _ else _) = _ ↔ _
  cases empty : isEmptyScalar (t.scalarAt scalar i) with
  | false =>
    have other : t.scalarAt scalar i ≠ emptyScalar := fun same => by
      rw [(isEmptyScalar_iff _).mpr same] at empty
      cases empty
    simp [other]
  | true =>
    have same := (isEmptyScalar_iff _).mp empty
    simp only [Bool.not_true,Bool.false_eq_true,if_false]
    split
    · rename_i used
      obtain ⟨inner,payload⟩ := used
      simp [inner,payload]
    · rename_i unused
      have unused : i ≠ t.rootIndex → (t.node i).vectorPayloadIndex = 0 := by
        intro inner
        by_contra payload
        exact unused ⟨inner,payload⟩
      split
      · rename_i outside
        simp only [reduceCtorEq,false_iff]
        rintro ⟨⟨-,-,range,-⟩,-⟩
        unfold TupleValue.childCountAt at range
        omega
      · rename_i within
        have range : (t.childRange i).1 + t.childCountAt i ≤ t.childIndexes.length := by
          unfold TupleValue.childCountAt
          omega
        have claims := fun claimed =>
          @claimEdges_node_iff t i done visited claimed container bound apart range edgeMarks parentMarks
        split
        · rename_i refused
          simp only [reduceCtorEq,false_iff]
          rintro ⟨-,edgesNew,earlier,childrenNew,-⟩
          rw [(claims _).mpr ⟨edgesNew,earlier,childrenNew,rfl⟩] at refused
          cases refused
        · rename_i claimed edgesClaimed
          obtain ⟨edgesNew,earlier,childrenNew,isClaimed⟩ := (claims claimed).mp edgesClaimed
          obtain ⟨q,isIndex⟩ : ∃ q, q = t.tableIndex i := ⟨_,rfl⟩
          rw [show (if i = t.rootIndex then t.reservations.length else
            (t.node i).tupleReservationIndex) = q from isIndex.symm,← isIndex]
          cases found : t.reservationAt q with
          | none => simp
          | some reservation =>
            have place := reservationAt_some found
            have marks : claimed.reservationOwners =
                flags (t.reservations.length + 1) (done.flatMap t.tablesAt) := by
              rw [isClaimed]
              exact reservationMarks
            dsimp only
            rw [marks,getD_flags]
            split
            · rename_i owned
              have member := (of_decide_eq_true owned).2
              simp [member]
            · rename_i unowned
              have fresh : q ∉ done.flatMap t.tablesAt :=
                fun member => unowned (decide_eq_true ⟨place,member⟩)
              rw [flags_set]
              generalize isOwned : (ValidationTables.mk _ _ _ _ _ _ _ _) = owned
              have shares : ∀ s, ownedStorage t owned none (some q) s = true ↔
                  s ∈ done.flatMap t.buffersAt := by
                intro s
                have payloads : owned.payloadOwners = visited.payloadOwners := by
                  rw [← isOwned,isClaimed]
                  rfl
                have reservations : owned.reservationOwners = flags (t.reservations.length + 1)
                    (q :: done.flatMap t.tablesAt) := by rw [← isOwned]
                rw [ownedStorage_iff (payloads.trans payloadMarks) reservations,mem_buffers]
                refine or_congr (by simp) ⟨?_,?_⟩
                · rintro ⟨p,member,other,holds⟩
                  exact ⟨p,(List.mem_cons.mp member).resolve_left fun top => other (by rw [top]),holds⟩
                · rintro ⟨p,member,holds⟩
                  exact ⟨p,List.mem_cons_of_mem _ member,
                    fun top => fresh (Option.some.inj top ▸ member),holds⟩
              have storage : reservation.payload.any (ownedStorage t owned none (some q)) = true ↔
                  ∃ s, reservation.payload = some s ∧ s ∈ done.flatMap t.buffersAt := by
                simp only [Option.any_eq_true,shares]
              split
              · rename_i shared
                obtain ⟨s,holds,member⟩ := storage.mp shared
                simp only [reduceCtorEq,false_iff]
                rintro ⟨-,-,-,-,-,apart,-⟩
                exact apart s holds member
              · rename_i unshared
                have unshared : ∀ s, reservation.payload = some s → s ∉ done.flatMap t.buffersAt :=
                  fun s holds member => unshared (storage.mpr ⟨s,holds,member⟩)
                have valid := reservationValid_iff h reservation (t.childCountAt i)
                unfold TupleValue.childCountAt at valid
                split
                · rename_i refused
                  have unsound : ¬reservation.Sound h (t.childRange i).2 := fun sound => by
                    rw [valid.mpr sound] at refused
                    cases refused
                  simp [unsound,TupleValue.childCountAt]
                · rename_i accepted
                  have sound := valid.mp (by simpa using accepted)
                  have done : pushChildren t i (t.childRange i).1 (t.childRange i).2 owned =
                      { visited.claim t ((i :: done).flatMap t.edgesAt)
                          ((i :: done).flatMap t.childrenAt) with
                        reservationOwners := flags (t.reservations.length + 1)
                          (q :: done.flatMap t.tablesAt)
                        stack := (List.range (t.childCountAt i)).map
                          (fun k => ⟨t.childOf i k,some i,k⟩) ++ visited.stack } := by
                    rw [← isOwned,isClaimed]
                    rfl
                  rw [done]
                  refine ⟨fun ok => ⟨⟨same,unused,range,reservation,rfl,sound⟩,edgesNew,earlier,
                    childrenNew,fresh,unshared,(Except.ok.inj ok).symm⟩,
                    fun ⟨_,_,_,_,_,_,isAfter⟩ => by rw [isAfter]⟩

/-- A node is apart from the nodes done when what it claims is fresh. -/
theorem Apart.cons_iff (apart : t.Apart done) : t.Apart (i :: done) ↔ i ∉ done ∧
    ((i :: done).flatMap t.edgesAt).Nodup ∧ ((i :: done).flatMap t.childrenAt).Nodup ∧
    (∀ p ∈ t.payloadsAt i, p ∉ done.flatMap t.payloadsAt) ∧
    (∀ q ∈ t.tablesAt i, q ∉ done.flatMap t.tablesAt) ∧
    ∀ s ∈ t.buffersAt i, s ∉ done.flatMap t.buffersAt := by
  have payloadSingle : (t.payloadsAt i).Nodup := by
    unfold TupleValue.payloadsAt
    split <;> simp
  have tableSingle : (t.tablesAt i).Nodup := by
    unfold TupleValue.tablesAt
    split <;> simp
  have bufferSingle : (t.buffersAt i).Nodup := by
    unfold TupleValue.buffersAt
    cases t.bufferAt i <;> simp
  have join : ∀ {xs ys : List Nat}, xs.Nodup → ys.Nodup →
      ((xs ++ ys).Nodup ↔ ∀ x ∈ xs, x ∉ ys) := by
    intro xs ys left right
    rw [List.nodup_append]
    exact ⟨fun ⟨_,_,apart⟩ x member shared => apart x member x shared rfl,
      fun apart => ⟨left,right,fun x member y shared same => apart x member (same ▸ shared)⟩⟩
  constructor
  · rintro ⟨nodes,children,edges,payloads,tables,storage⟩
    simp only [List.flatMap_cons] at payloads tables storage
    exact ⟨(List.nodup_cons.mp nodes).1,edges,children,
      (join payloadSingle apart.payloads).mp payloads,(join tableSingle apart.tables).mp tables,
      (join bufferSingle apart.storage).mp storage⟩
  · rintro ⟨fresh,edges,children,payloads,tables,storage⟩
    refine ⟨List.nodup_cons.mpr ⟨fresh,apart.nodes⟩,children,edges,?_,?_,?_⟩
    · rw [List.flatMap_cons]
      exact (join payloadSingle apart.payloads).mpr payloads
    · rw [List.flatMap_cons]
      exact (join tableSingle apart.tables).mpr tables
    · rw [List.flatMap_cons]
      exact (join bufferSingle apart.storage).mpr storage

/-- A step succeeds exactly at a fresh sound node that is apart from the nodes done. -/
theorem validationStep_ok_iff {work : ValidationWork} (bound : work.nodeIndex ≤ t.nodes.length)
    (apart : t.Apart done) :
    validationStep h t scalar work (tables.mark t done) = .ok after ↔
      t.NodeSound h scalar work.nodeIndex ∧ (∀ c ∈ t.childrenAt work.nodeIndex, c < work.nodeIndex) ∧
      t.Apart (work.nodeIndex :: done) ∧ after = tables.advance t done work := by
  obtain ⟨i,isNode⟩ : ∃ i, i = work.nodeIndex := ⟨_,rfl⟩
  rw [Apart.cons_iff apart,← isNode]
  rw [← isNode] at bound
  unfold validationStep
  dsimp only
  rw [← isNode]
  have seen : (tables.mark t done).visited.getD i false = decide (i ∈ done) :=
    getD_flags.trans (by simp only [Nat.lt_succ_of_le bound,true_and])
  change (if (tables.mark t done).visited.getD i false = true then _ else _) = _ ↔ _
  rw [seen]
  split
  · rename_i again
    simp [of_decide_eq_true again]
  · rename_i first
    have fresh : i ∉ done := fun member => first (decide_eq_true member)
    generalize isVisited : (ValidationTables.mk _ _ _ _ _ _ _ _) = visited
    have marked : visited.visited = flags (t.nodes.length + 1) (i :: done) := by
      rw [← isVisited]
      exact flags_set
    have advanced : tables.advance t done work = { visited with
        edgeOwners := flags t.childIndexes.length ((i :: done).flatMap t.edgesAt)
        parentCount := counts (t.nodes.length + 1) ((i :: done).flatMap t.childrenAt)
        payloadOwners := flags t.vectorPayloads.length ((i :: done).flatMap t.payloadsAt)
        reservationOwners := flags (t.reservations.length + 1) ((i :: done).flatMap t.tablesAt)
        stack := t.pushedBy i ++ visited.stack } := by
      rw [← isVisited,isNode]
      simp only [ValidationTables.advance,ValidationTables.mark,flags_set]
    rw [advanced]
    have edgeMarks : visited.edgeOwners = flags t.childIndexes.length (done.flatMap t.edgesAt) := by
      rw [← isVisited]
      rfl
    have parentMarks : visited.parentCount =
        counts (t.nodes.length + 1) (done.flatMap t.childrenAt) := by
      rw [← isVisited]
      rfl
    have payloadMarks : visited.payloadOwners =
        flags t.vectorPayloads.length (done.flatMap t.payloadsAt) := by
      rw [← isVisited]
      rfl
    have reservationMarks : visited.reservationOwners =
        flags (t.reservations.length + 1) (done.flatMap t.tablesAt) := by
      rw [← isVisited]
      rfl
    cases container : t.containerAt i with
    | scalar =>
      have none : t.edgesAt i = [] ∧ t.childrenAt i = [] ∧ t.payloadsAt i = [] ∧ t.tablesAt i = [] ∧
          t.buffersAt i = [] ∧ t.pushedBy i = [] := by
        simp [TupleValue.edgesAt,TupleValue.childrenAt,TupleValue.payloadsAt,TupleValue.tablesAt,
          TupleValue.buffersAt,TupleValue.bufferAt,TupleValue.pushedBy,container]
      obtain ⟨edges,children,payloads,reservations,buffers,pushed⟩ := none
      dsimp only
      rw [validateScalarNode_ok_iff h scalar container]
      simp only [List.flatMap_cons,edges,children,payloads,reservations,buffers,pushed,List.nil_append,
        List.not_mem_nil,false_implies,implies_true,true_and,and_true,fresh,not_false_eq_true,
        apart.edges,apart.children]
      rw [← edgeMarks,← parentMarks,← payloadMarks,← reservationMarks]
    | vector =>
      have none : t.edgesAt i = [] ∧ t.childrenAt i = [] ∧ t.tablesAt i = [] ∧ t.pushedBy i = [] := by
        simp [TupleValue.edgesAt,TupleValue.childrenAt,TupleValue.tablesAt,TupleValue.pushedBy,container]
      obtain ⟨edges,children,reservations,pushed⟩ := none
      have slot : t.payloadsAt i = [(t.node i).vectorPayloadIndex] := by
        rw [TupleValue.payloadsAt,if_pos container]
      dsimp only
      rw [validateVectorNode_ok_iff scalar container payloadMarks reservationMarks]
      simp only [List.flatMap_cons,edges,children,slot,reservations,pushed,List.nil_append,
        List.not_mem_nil,false_implies,implies_true,true_and,fresh,not_false_eq_true,
        apart.edges,apart.children,List.mem_singleton,forall_eq,and_assoc]
      rw [← edgeMarks,← parentMarks,← reservationMarks]
    | tuple =>
      have noPayload : t.payloadsAt i = [] := by simp [TupleValue.payloadsAt,container]
      have slot : t.tablesAt i = [t.tableIndex i] := by rw [TupleValue.tablesAt,if_pos container]
      dsimp only
      rw [validateTupleNode_ok_iff container bound apart edgeMarks parentMarks payloadMarks
        reservationMarks]
      have claimed : ∀ edges owned, visited.claim t edges owned = { visited with
          edgeOwners := flags t.childIndexes.length edges
          parentCount := counts (t.nodes.length + 1) owned
          payloadOwners := flags t.vectorPayloads.length ((i :: done).flatMap t.payloadsAt) } := by
        intro edges owned
        rw [List.flatMap_cons,noPayload,List.nil_append,← payloadMarks]
        rfl
      rw [claimed]
      constructor
      · rintro ⟨sound,edges,earlier,children,table,storage,isAfter⟩
        exact ⟨sound,earlier,⟨fresh,edges,children,by simp [noPayload],by simpa [slot] using table,
          storage⟩,isAfter⟩
      · rintro ⟨sound,earlier,⟨-,edges,children,-,table,storage⟩,isAfter⟩
        exact ⟨sound,edges,earlier,children,by simpa [slot] using table,storage,isAfter⟩

/-- The walk in front of its stack: the nodes done are sound and apart, and with the nodes
waiting they are the root and the children of the nodes done. -/
structure Walked (h : Host) (t : TupleValue) (scalar : ScalarValue) (done : List Nat)
    (tables : ValidationTables) : Prop where
  apart : t.Apart done
  sound : ∀ i ∈ done, i ≤ t.nodes.length ∧ t.NodeSound h scalar i ∧ ∀ c ∈ t.childrenAt i, c < i
  marks : tables = tables.mark t done
  waiting : (tables.stack.map (·.nodeIndex) ++ done).Perm (t.rootIndex :: done.flatMap t.childrenAt)

variable {work : ValidationWork} {rest : List ValidationWork}

theorem initialTables_walked (h : Host) (t : TupleValue) (scalar : ScalarValue) :
    Walked h t scalar [] (initialTables t) := by
  refine ⟨⟨?_,?_,?_,?_,?_,?_⟩,by simp,?_,by simp [initialTables]⟩
  all_goals first
    | exact List.nodup_nil
    | simp [ValidationTables.mark,initialTables,flags_nil,counts_nil]

theorem Walked.bound (walked : Walked h t scalar done tables) (root : t.rootIndex = t.nodes.length)
    (member : i ∈ tables.stack.map (·.nodeIndex) ++ done) : i ≤ t.nodes.length := by
  rcases List.mem_cons.mp (walked.waiting.mem_iff.mp member) with rfl | child
  · exact Nat.le_of_eq root
  · obtain ⟨p,isDone,child⟩ := List.mem_flatMap.mp child
    obtain ⟨bound,-,earlier⟩ := walked.sound p isDone
    have less := earlier i child
    omega

theorem pushedBy_nodes (bound : i ≤ t.nodes.length) :
    (t.pushedBy i).map (·.nodeIndex) = t.childrenAt i := by
  unfold TupleValue.pushedBy TupleValue.childrenAt
  split
  · rename_i container
    rw [if_pos ⟨bound,container⟩,List.map_map]
    rfl
  · rename_i other
    rw [if_neg fun both => other both.2]
    rfl

/-- A step succeeds exactly when the node on top is sound and apart, and moves it to the
nodes done. -/
theorem Walked.step_iff (walked : Walked h t scalar done tables) (root : t.rootIndex = t.nodes.length)
    (top : tables.stack = work :: rest) :
    validationStep h t scalar work { tables with stack := rest } = .ok after ↔
      t.NodeSound h scalar work.nodeIndex ∧ (∀ c ∈ t.childrenAt work.nodeIndex, c < work.nodeIndex) ∧
      t.Apart (work.nodeIndex :: done) ∧
      after = ValidationTables.advance { tables with stack := rest } t done work := by
  have bound := walked.bound root (i := work.nodeIndex) (by simp [top])
  have marked : { tables with stack := rest } =
      ValidationTables.mark { tables with stack := rest } t done := by
    conv_lhs => rw [walked.marks]
    rfl
  rw [← validationStep_ok_iff bound walked.apart,← marked]

theorem Walked.step (walked : Walked h t scalar done tables) (root : t.rootIndex = t.nodes.length)
    (top : tables.stack = work :: rest)
    (ok : validationStep h t scalar work { tables with stack := rest } = .ok after) :
    Walked h t scalar (work.nodeIndex :: done) after := by
  have bound := walked.bound root (i := work.nodeIndex) (by simp [top])
  obtain ⟨sound,earlier,apart,rfl⟩ := (walked.step_iff root top).mp ok
  refine ⟨apart,List.forall_mem_cons.mpr ⟨⟨bound,sound,earlier⟩,walked.sound⟩,rfl,?_⟩
  have waiting := walked.waiting
  rw [top,List.map_cons,List.cons_append] at waiting
  change ((t.pushedBy work.nodeIndex ++ rest).map (·.nodeIndex) ++ work.nodeIndex :: done).Perm _
  rw [List.map_append,pushedBy_nodes bound,List.flatMap_cons,List.append_assoc]
  calc (t.childrenAt work.nodeIndex ++ (rest.map (·.nodeIndex) ++ work.nodeIndex :: done)).Perm
        (t.childrenAt work.nodeIndex ++ (work.nodeIndex :: (rest.map (·.nodeIndex) ++ done))) :=
      List.Perm.append_left _ List.perm_middle
    _ |>.Perm (t.childrenAt work.nodeIndex ++ (t.rootIndex :: done.flatMap t.childrenAt)) :=
      List.Perm.append_left _ waiting
    _ |>.Perm (t.rootIndex :: (t.childrenAt work.nodeIndex ++ done.flatMap t.childrenAt)) :=
      List.perm_middle

theorem childrenAt_length (bound : i ≤ t.nodes.length) :
    (t.childrenAt i).length = (t.edgesAt i).length := by
  unfold TupleValue.childrenAt TupleValue.edgesAt
  by_cases container : t.containerAt i = .tuple
  · rw [if_pos ⟨bound,container⟩,if_pos container,List.length_map,List.length_map]
  · rw [if_neg fun both => container both.2,if_neg container]

/-- A sound node's slots are in their tables. -/
theorem edgesAt_inside (sound : t.NodeSound h scalar i) : ∀ e ∈ t.edgesAt i, e < t.childIndexes.length := by
  unfold TupleValue.edgesAt
  split
  · rename_i container
    unfold TupleValue.NodeSound at sound
    rw [container] at sound
    obtain ⟨-,-,range,-⟩ := sound
    intro e member
    obtain ⟨k,inside,rfl⟩ := List.mem_map.mp member
    have less := List.mem_range.mp inside
    omega
  · simp

theorem payloadsAt_inside (sound : t.NodeSound h scalar i) :
    ∀ p ∈ t.payloadsAt i, p < t.vectorPayloads.length := by
  unfold TupleValue.payloadsAt
  split
  · rename_i container
    unfold TupleValue.NodeSound at sound
    rw [container] at sound
    obtain ⟨-,-,-,-,v,found,-⟩ := sound
    obtain ⟨inside,-⟩ := List.getElem?_eq_some_iff.mp found
    simpa using inside
  · simp

theorem tablesAt_inside (sound : t.NodeSound h scalar i) :
    ∀ q ∈ t.tablesAt i, q < t.reservations.length + 1 := by
  unfold TupleValue.tablesAt
  split
  · rename_i container
    unfold TupleValue.NodeSound at sound
    rw [container] at sound
    obtain ⟨-,-,-,r,found,-⟩ := sound
    simpa using reservationAt_some found
  · simp

/-- Every node done took one of the pushes, and every push claimed an edge slot. -/
theorem Walked.size (walked : Walked h t scalar done tables) :
    tables.stack.length + done.length ≤ t.childIndexes.length + 1 := by
  have waiting := walked.waiting.length_eq
  have same : (done.flatMap t.childrenAt).length = (done.flatMap t.edgesAt).length := by
    rw [List.length_flatMap,List.length_flatMap]
    refine congrArg List.sum (List.map_congr_left fun i member => ?_)
    exact childrenAt_length (walked.sound i member).1
  have inside : ∀ e ∈ done.flatMap t.edgesAt, e < t.childIndexes.length := by
    intro e member
    obtain ⟨i,isDone,edge⟩ := List.mem_flatMap.mp member
    exact edgesAt_inside (walked.sound i isDone).2.1 e edge
  have claimed := length_le_of_nodup walked.apart.edges inside
  rw [List.length_append,List.length_map,List.length_cons] at waiting
  omega

/-- The walk's fuel lasts until its stack is empty. -/
theorem validationLoop_walked {fuel : Nat} (root : t.rootIndex = t.nodes.length)
    (walked : Walked h t scalar done tables) (enough : t.childIndexes.length + 2 ≤ fuel + done.length)
    (ok : validationLoop h t scalar fuel tables = .ok after) :
    ∃ all, Walked h t scalar all after ∧ after.stack = [] := by
  induction fuel generalizing tables done with
  | zero =>
    have size := walked.size
    omega
  | succ fuel ih =>
    unfold validationLoop at ok
    split at ok
    · rename_i empty
      cases ok
      exact ⟨done,walked,empty⟩
    · rename_i work rest top
      split at ok
      · cases ok
      · rename_i next stepped
        refine ih (walked.step root top stepped) ?_ ok
        rw [List.length_cons]
        omega

/-- More fuel changes nothing. -/
theorem validationLoop_more {fuel : Nat} (root : t.rootIndex = t.nodes.length)
    (walked : Walked h t scalar done tables) (enough : t.childIndexes.length + 2 ≤ fuel + done.length)
    (more : Nat) : validationLoop h t scalar (fuel + more) tables = validationLoop h t scalar fuel tables := by
  induction fuel generalizing tables done with
  | zero =>
    have size := walked.size
    omega
  | succ fuel ih =>
    rw [Nat.add_right_comm]
    unfold validationLoop
    split
    · rfl
    · rename_i work rest top
      split
      · rfl
      · rename_i next stepped
        refine ih (walked.step root top stepped) ?_
        rw [List.length_cons]
        omega

/-- Nodes of a tree are apart. -/
theorem TupleValue.Exact.apart (exact : t.Exact h scalar) (distinct : done.Nodup)
    (bound : ∀ i ∈ done, i ≤ t.nodes.length) : t.Apart done := by
  have inside : ∀ i ∈ done, i ∈ List.range (t.nodes.length + 1) := fun i member =>
    List.mem_range.mpr (Nat.lt_succ_of_le (bound i member))
  exact ⟨distinct,nodup_flatMap_of_subset distinct inside (exact.nodes.nodup_iff.mpr List.nodup_range),
    nodup_flatMap_of_subset distinct inside (exact.edges.nodup_iff.mpr List.nodup_range),
    nodup_flatMap_of_subset distinct inside (exact.payloads.nodup_iff.mpr List.nodup_range),
    nodup_flatMap_of_subset distinct inside (exact.tables.nodup_iff.mpr List.nodup_range),
    nodup_flatMap_of_subset distinct inside exact.storage⟩

/-- In a tree the node on top of the stack is fresh. -/
theorem Walked.fresh (walked : Walked h t scalar done tables) (root : t.rootIndex = t.nodes.length)
    (top : tables.stack = work :: rest) : work.nodeIndex ∉ done := by
  have distinct : (t.rootIndex :: done.flatMap t.childrenAt).Nodup := by
    refine List.nodup_cons.mpr ⟨fun member => ?_,walked.apart.children⟩
    obtain ⟨p,isDone,child⟩ := List.mem_flatMap.mp member
    obtain ⟨bound,-,earlier⟩ := walked.sound p isDone
    have less := earlier _ child
    omega
  have waiting := walked.waiting.nodup_iff.mpr distinct
  rw [top,List.map_cons,List.cons_append] at waiting
  exact fun member => (List.nodup_cons.mp waiting).1 (List.mem_append_right _ member)

/-- The walk of a tree never fails. -/
theorem TupleValue.Exact.loop {fuel : Nat} (exact : t.Exact h scalar)
    (walked : Walked h t scalar done tables) :
    ∃ after, validationLoop h t scalar fuel tables = .ok after := by
  induction fuel generalizing tables done with
  | zero => exact ⟨tables,rfl⟩
  | succ fuel ih =>
    unfold validationLoop
    split
    · exact ⟨tables,rfl⟩
    · rename_i work rest top
      have bound := walked.bound exact.root (i := work.nodeIndex) (by simp [top])
      have apart : t.Apart (work.nodeIndex :: done) :=
        exact.apart (List.nodup_cons.mpr ⟨walked.fresh exact.root top,walked.apart.nodes⟩)
          (List.forall_mem_cons.mpr ⟨bound,fun i member => (walked.sound i member).1⟩)
      have stepped := (walked.step_iff exact.root top).mpr
        ⟨exact.sound _ bound,exact.earlier _ bound,apart,rfl⟩
      rw [stepped]
      exact ih (walked.step exact.root top stepped)

theorem findIdx?_flags {size : Nat} {named : List Nat} :
    (flags size named).findIdx? (!·) = none ↔ ∀ j < size, j ∈ named := by
  rw [List.findIdx?_eq_none_iff,← flags_full,List.any_eq_false]
  simp

/-- Nothing is left over when the nodes done fill every table. -/
theorem orphanCheck_ok_iff : orphanCheck t (tables.mark t done) = .ok () ↔
    (∀ i < t.nodes.length + 1, i ∈ done) ∧
    (∀ e < t.childIndexes.length, e ∈ done.flatMap t.edgesAt) ∧
    (∀ p < t.vectorPayloads.length, p ∈ done.flatMap t.payloadsAt) ∧
    ∀ q < t.reservations.length + 1, q ∈ done.flatMap t.tablesAt := by
  rw [← findIdx?_flags,← findIdx?_flags,← flags_full,← flags_full]
  unfold orphanCheck ValidationTables.mark
  dsimp only
  split
  · rename_i found
    simp [found]
  · rename_i visited
    split
    · rename_i found
      simp [found]
    · rename_i edges
      split
      · rename_i found
        simp [found]
      · rename_i payloads
        split
        · rename_i found
          simp [found]
        · rename_i reservations
          simp [visited,edges,payloads,reservations]

/-- An accepted arena is a tree with nothing left over, and every such tree is accepted. -/
theorem validateArena_ok_iff (root : t.rootIndex = t.nodes.length) :
    validateArena h t scalar = .ok () ↔ t.Exact h scalar := by
  have start := initialTables_walked h t scalar
  constructor
  · intro ok
    unfold validateArena at ok
    split at ok
    · cases ok
    · rename_i tables looped
      obtain ⟨done,walked,empty⟩ := validationLoop_walked root start (by simp) looped
      rw [walked.marks] at ok
      obtain ⟨nodes,edges,payloads,reservations⟩ := orphanCheck_ok_iff.mp ok
      have waiting : done.Perm (t.rootIndex :: done.flatMap t.childrenAt) := by
        have waiting := walked.waiting
        rwa [empty] at waiting
      have all : done.Perm (List.range (t.nodes.length + 1)) :=
        perm_range walked.apart.nodes
          (fun i member => Nat.lt_succ_of_le (walked.sound i member).1) nodes
      have inside : ∀ i ≤ t.nodes.length, i ∈ done := fun i bound => nodes i (Nat.lt_succ_of_le bound)
      refine ⟨root,fun i bound => (walked.sound i (inside i bound)).2.1,
        fun i bound => (walked.sound i (inside i bound)).2.2,?_,?_,?_,?_,?_,?_⟩
      · intro i
        obtain ⟨gap,isGap⟩ : ∃ gap, gap = t.nodes.length - i := ⟨_,rfl⟩
        induction gap using Nat.strongRecOn generalizing i with
        | _ gap ih =>
          intro bound
          rcases List.mem_cons.mp (waiting.mem_iff.mp (inside i bound)) with rfl | child
          · exact .refl
          · obtain ⟨p,isDone,child⟩ := List.mem_flatMap.mp child
            obtain ⟨within,-,earlier⟩ := walked.sound p isDone
            have less := earlier i child
            exact (ih (t.nodes.length - p) (by omega) p rfl within).tail child
      · have whole := (all.symm.trans waiting)
        rw [List.range_succ,root] at whole
        have rootLast : (List.range t.nodes.length ++ [t.nodes.length]).Perm
            (t.nodes.length :: List.range t.nodes.length) := List.perm_append_singleton _ _
        exact ((all.flatMap_right _).symm.trans (rootLast.symm.trans whole).cons_inv.symm)
      · refine (all.flatMap_right _).symm.trans (perm_range walked.apart.edges (fun e member => ?_) edges)
        obtain ⟨i,isDone,slot⟩ := List.mem_flatMap.mp member
        exact edgesAt_inside (walked.sound i isDone).2.1 e slot
      · refine (all.flatMap_right _).symm.trans
          (perm_range walked.apart.payloads (fun p member => ?_) payloads)
        obtain ⟨i,isDone,slot⟩ := List.mem_flatMap.mp member
        exact payloadsAt_inside (walked.sound i isDone).2.1 p slot
      · refine (all.flatMap_right _).symm.trans
          (perm_range walked.apart.tables (fun q member => ?_) reservations)
        obtain ⟨i,isDone,slot⟩ := List.mem_flatMap.mp member
        exact tablesAt_inside (walked.sound i isDone).2.1 q slot
      · exact (all.flatMap_right _).nodup_iff.mp walked.apart.storage
  · intro exact
    obtain ⟨after,looped⟩ : ∃ after,
        validationLoop h t scalar (t.childIndexes.length + 2) (initialTables t) = .ok after :=
      exact.loop start
    unfold validateArena
    rw [looped]
    obtain ⟨done,walked,empty⟩ := validationLoop_walked root start (by simp) looped
    have waiting : done.Perm (t.rootIndex :: done.flatMap t.childrenAt) := by
      have waiting := walked.waiting
      rwa [empty] at waiting
    -- The nodes done hold the root and are closed under children.
    have inside : ∀ i ≤ t.nodes.length, i ∈ done := by
      intro i bound
      have reached := exact.reached i bound
      clear bound
      induction reached with
      | refl => exact waiting.mem_iff.mpr (List.mem_cons_self ..)
      | tail _ child ih =>
        exact waiting.mem_iff.mpr (List.mem_cons_of_mem _ (List.mem_flatMap.mpr ⟨_,ih,child⟩))
    have all : done.Perm (List.range (t.nodes.length + 1)) :=
      perm_range walked.apart.nodes (fun i member => Nat.lt_succ_of_le (walked.sound i member).1)
        fun i less => inside i (Nat.le_of_lt_succ less)
    dsimp only
    rw [walked.marks]
    refine orphanCheck_ok_iff.mpr ⟨fun i less => inside i (Nat.le_of_lt_succ less),fun e less => ?_,
      fun p less => ?_,fun q less => ?_⟩
    · exact ((all.flatMap_right _).trans exact.edges).mem_iff.mpr (List.mem_range.mpr less)
    · exact ((all.flatMap_right _).trans exact.payloads).mem_iff.mpr (List.mem_range.mpr less)
    · exact ((all.flatMap_right _).trans exact.tables).mem_iff.mpr (List.mem_range.mpr less)

end Claims

/-- The checks in front of the arena's own. -/
structure RootSound (v : Value) : Prop where
  claimed : v.claimed = true
  scalar : v.container = .scalar → v.scalar.Sound
  scalarEmpty : v.container ≠ .scalar → v.scalar = emptyScalar
  vectorEmpty : v.container ≠ .vector → v.vector = emptyVector
  tupleEmpty : v.container ≠ .tuple → v.tuple = emptyTuple
  root : v.container = .tuple → v.tuple.rootIndex = v.tuple.nodes.length

theorem validateRoot_none_iff (v : Value) : validateRoot v = none ↔ RootSound v := by
  have whole : RootSound v ↔ v.claimed = true ∧ (v.container = .scalar → v.scalar.Sound) ∧
      (v.container ≠ .scalar → v.scalar = emptyScalar) ∧
      (v.container ≠ .vector → v.vector = emptyVector) ∧
      (v.container ≠ .tuple → v.tuple = emptyTuple) ∧
      (v.container = .tuple → v.tuple.rootIndex = v.tuple.nodes.length) :=
    ⟨fun ⟨a,b,c,d,e,f⟩ => ⟨a,b,c,d,e,f⟩,fun ⟨a,b,c,d,e,f⟩ => ⟨a,b,c,d,e,f⟩⟩
  have vectorFields : vectorFieldsEmpty v.vector = true ↔ v.vector = emptyVector := by
    simp [vectorFieldsEmpty]
  have tupleFields : tupleFieldsEmpty v.tuple = true ↔ v.tuple = emptyTuple := by
    simp [tupleFieldsEmpty]
  rw [whole,← vectorFields,← tupleFields,← isEmptyScalar_iff,← validateScalar_none]
  unfold validateRoot
  cases v.claimed with
  | false => simp
  | true =>
    cases v.container with
    | scalar =>
      cases vectorFieldsEmpty v.vector <;> cases tupleFieldsEmpty v.tuple <;> simp
    | vector =>
      cases isEmptyScalar v.scalar <;> cases tupleFieldsEmpty v.tuple <;> simp
    | tuple =>
      by_cases last : v.tuple.rootIndex = v.tuple.nodes.length
      · have inside : ¬v.tuple.nodes.length ≥ v.tuple.nodes.length + 1 := by omega
        dsimp only
        rw [last,if_neg inside]
        cases isEmptyScalar v.scalar <;> cases vectorFieldsEmpty v.vector <;> simp
      · have refused : ∀ c : Prop, [Decidable c] → ∀ a b : ValueInvariant × Nat,
            (if c then some a else some b) ≠ none := by
          intro c _ a b
          split <;> simp
        simp [last,refused]

/-- `validate_value` accepts exactly the sound values. -/
theorem invalidity_none_iff (h : Host) (v : Value) : invalidity h v = none ↔ v.Exact h := by
  unfold invalidity
  cases checked : validateRoot v with
  | some fault =>
    simp only [reduceCtorEq,false_iff]
    rintro ⟨claimed,scalar,vector,tuple,scalarEmpty,vectorEmpty,tupleEmpty⟩
    have sound : RootSound v := ⟨claimed,scalar,scalarEmpty,vectorEmpty,tupleEmpty,
      fun container => (tuple container).root⟩
    rw [(validateRoot_none_iff v).mpr sound] at checked
    cases checked
  | none =>
    obtain ⟨claimed,scalar,scalarEmpty,vectorEmpty,tupleEmpty,root⟩ := (validateRoot_none_iff v).mp checked
    dsimp only
    cases container : v.container with
    | scalar =>
      simp only [true_iff]
      exact ⟨claimed,scalar,by simp [container],by simp [container],scalarEmpty,vectorEmpty,tupleEmpty⟩
    | vector =>
      simp only [Option.map_eq_none_iff,vectorValidation_none]
      exact ⟨fun sound => ⟨claimed,scalar,fun _ => sound,by simp [container],scalarEmpty,vectorEmpty,
        tupleEmpty⟩,fun exact => exact.vector container⟩
    | tuple =>
      have arena := @validateArena_ok_iff v.tuple h v.scalar (root container)
      dsimp only
      cases accepted : validateArena h v.tuple v.scalar with
      | error fault =>
        simp only [reduceCtorEq,false_iff]
        intro exact
        rw [arena.mpr (exact.tuple container)] at accepted
        cases accepted
      | ok _ =>
        simp only [true_iff]
        exact ⟨claimed,scalar,by simp [container],fun _ => arena.mp accepted,scalarEmpty,vectorEmpty,
          tupleEmpty⟩

end Bennu
