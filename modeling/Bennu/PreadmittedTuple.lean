import Bennu.TupleConstruction

/-! The tuple of a fanout, built in steps: its table and its arrays are admitted before
the elements are evaluated, each element is transferred into a slot, and the last step
publishes the slots as one arena, or the whole is abandoned. -/
namespace Bennu

/-- `PreadmittedTupleAssembly`; the four sizes transferred so far are one record. -/
structure PreadmittedTupleAssembly where
  value : Value
  fixedSlots : List Value
  elementCount : Nat
  transferredCount : Nat
  transferred : TupleCounts
  deriving DecidableEq, Repr

def tupleRangeValid (first count edges : Nat) : Bool :=
  decide (first ≤ edges) && decide (count ≤ edges - first)

/-- `preadmitted_value_layout_safe`: no index leads out of its table and children come
before their parents. -/
def preadmittedValueLayoutSafe (v : Value) : Bool :=
  v.claimed && match v.container with
  | .scalar => vectorFieldsEmpty v.vector && tupleFieldsEmpty v.tuple
  | .vector => tupleFieldsEmpty v.tuple
  | .tuple =>
    vectorFieldsEmpty v.vector && v.tuple.rootIndex == v.tuple.nodes.length &&
      tupleRangeValid v.tuple.firstChild v.tuple.childCount v.tuple.childIndexes.length &&
      (List.range v.tuple.nodes.length).all (fun index =>
        match (v.tuple.node index).container with
        | .tuple =>
          tupleRangeValid (v.tuple.node index).firstChild (v.tuple.node index).childCount
              v.tuple.childIndexes.length &&
            decide ((v.tuple.node index).tupleReservationIndex < v.tuple.reservations.length) &&
            (List.range (v.tuple.node index).childCount).all fun offset =>
              decide (v.tuple.childAt ((v.tuple.node index).firstChild + offset) < index)
        | .vector => decide ((v.tuple.node index).vectorPayloadIndex < v.tuple.vectorPayloads.length)
        | .scalar => true) &&
      (List.range v.tuple.childCount).all fun offset =>
        decide (v.tuple.childAt (v.tuple.firstChild + offset) < v.tuple.nodes.length)

/-- What one element takes of the arrays: its own node and everything below it. -/
def Value.tableSizes (v : Value) : TupleCounts :=
  match v.container with
  | .scalar => ⟨1,0,0,0⟩
  | .vector => ⟨1,0,1,0⟩
  | .tuple => ⟨1 + v.tuple.nodes.length,v.tuple.childIndexes.length,v.tuple.vectorPayloads.length,
      v.tuple.reservations.length + 1⟩

/-- `preadmitted_value_counts`; `none` for an element that is not safe to move. -/
def preadmittedValueCounts (v : Value) : Option TupleCounts :=
  if !preadmittedValueLayoutSafe v then none
  else if v.container = .tuple ∧
      (v.tuple.nodes.length = sizeMax ∨ v.tuple.reservations.length = sizeMax) then none
  else some v.tableSizes

def TupleCounts.plus (c d : TupleCounts) : TupleCounts :=
  ⟨c.nodes + d.nodes,c.edges + d.edges,c.payloads + d.payloads,c.reservations + d.reservations⟩

/-- What is left of the arrays for `c` after `used`, compared in each of them. The last
edges are the root's. -/
def TupleCounts.fits (t : TupleValue) (count : Nat) (used c : TupleCounts) : Bool :=
  decide (c.nodes ≤ t.nodes.length - used.nodes) &&
    decide (c.edges ≤ t.childIndexes.length - count - used.edges) &&
    decide (c.payloads ≤ t.vectorPayloads.length - used.payloads) &&
    decide (c.reservations ≤ t.reservations.length - used.reservations)

/-- The arrays are used up exactly. -/
def TupleCounts.fills (t : TupleValue) (count : Nat) (used : TupleCounts) : Bool :=
  used.nodes == t.nodes.length && used.edges + count == t.childIndexes.length &&
    used.payloads == t.vectorPayloads.length && used.reservations == t.reservations.length

namespace PreadmittedTupleAssembly

/-- `preadmitted_assembly_storage_safe`. -/
def storageSafe (a : PreadmittedTupleAssembly) : Bool :=
  a.value.claimed && a.value.container == .tuple && decide (a.transferredCount ≤ a.elementCount) &&
    decide (a.transferredCount ≤ a.fixedSlots.length) && a.fixedSlots.length == a.elementCount &&
    decide (a.value.tuple.childIndexes.length ≥ a.elementCount) &&
    decide (a.transferred.nodes ≤ a.value.tuple.nodes.length) &&
    decide (a.transferred.edges ≤ a.value.tuple.childIndexes.length - a.elementCount) &&
    decide (a.transferred.payloads ≤ a.value.tuple.vectorPayloads.length) &&
    decide (a.transferred.reservations ≤ a.value.tuple.reservations.length)

/-- `transfer_preadmitted_tuple_element`: the element moves into the next slot. -/
def transfer (a : PreadmittedTupleAssembly) (element : Value) :
    PreadmittedTupleAssembly × Value × Except ValueInvariant Unit :=
  if !a.storageSafe || a.transferredCount == a.elementCount then
    (a,element,.error .invalidTupleRange)
  else match preadmittedValueCounts element with
    | none => (a,element,.error .invalidTupleRange)
    | some sizes =>
      if !TupleCounts.fits a.value.tuple a.elementCount a.transferred sizes then
        (a,element,.error .invalidTupleRange)
      else
        ({ a with
            fixedSlots := a.fixedSlots.set a.transferredCount element
            transferredCount := a.transferredCount + 1
            transferred := a.transferred.plus sizes },invalidConstructionValue,.ok ())

/-- The sizes of the slots together; `none` when one is not safe or does not fit. -/
def expectedCounts (t : TupleValue) (count : Nat) : TupleCounts → List Value → Option TupleCounts
  | expected,[] => some expected
  | expected,slot :: rest => match preadmittedValueCounts slot with
    | none => none
    | some sizes =>
      if !TupleCounts.fits t count expected sizes then none
      else expectedCounts t count (expected.plus sizes) rest

end PreadmittedTupleAssembly

/-- Write the items one after another from a cursor on. -/
def writeFrom {α : Type} : List α → Nat → List α → List α
  | array,_,[] => array
  | array,cursor,item :: rest => writeFrom (array.set cursor item) (cursor + 1) rest

/-- Move one slot into the arrays at the cursors; its root is the child at `edge`. -/
def publishElement (t : TupleValue) (cursors : TupleCounts) (edge : Nat) (moved : Value) : TupleValue :=
  match moved.container with
  | .scalar => { t with
      childIndexes := t.childIndexes.set edge cursors.nodes
      nodes := t.nodes.set cursors.nodes ⟨.scalar,moved.scalar,0,0,0,cursors.payloads⟩ }
  | .vector => { t with
      vectorPayloads := t.vectorPayloads.set cursors.payloads moved.vector
      childIndexes := t.childIndexes.set edge cursors.nodes
      nodes := t.nodes.set cursors.nodes ⟨.vector,moved.scalar,0,0,0,cursors.payloads⟩ }
  | .tuple => { t with
      nodes := writeFrom t.nodes cursors.nodes (moved.tuple.nodes.map (rebaseNode cursors.edges
        cursors.payloads cursors.reservations) ++
          [⟨.tuple,moved.scalar,moved.tuple.firstChild + cursors.edges,moved.tuple.childCount,
            cursors.reservations + moved.tuple.reservations.length,0⟩])
      childIndexes := (writeFrom t.childIndexes cursors.edges
        (moved.tuple.childIndexes.map (· + cursors.nodes))).set edge
          (cursors.nodes + moved.tuple.nodes.length)
      vectorPayloads := writeFrom t.vectorPayloads cursors.payloads moved.tuple.vectorPayloads
      reservations := writeFrom t.reservations cursors.reservations
        (moved.tuple.reservations ++ [moved.tuple.rootReservation]) }

/-- The loop over the slots; the cursors step by what a slot takes. -/
def publishElements (t : TupleValue) (cursors : TupleCounts) (edge : Nat) : List Value → TupleValue
  | [] => t
  | moved :: rest =>
    publishElements (publishElement t cursors edge moved) (cursors.plus moved.tableSizes) (edge + 1) rest

namespace PreadmittedTupleAssembly

/-- What `publish_preadmitted_tuple` leaves. -/
def published : PreadmittedTupleAssembly := ⟨invalidConstructionValue,[],0,0,⟨0,0,0,0⟩⟩

def publish (a : PreadmittedTupleAssembly) : PreadmittedTupleAssembly × Except ValueInvariant Value :=
  let t := a.value.tuple
  if !(a.storageSafe && a.transferredCount == a.elementCount &&
      TupleCounts.fills t a.elementCount a.transferred) then (a,.error .invalidTupleRange)
  else match expectedCounts t a.elementCount ⟨0,0,0,0⟩ a.fixedSlots with
    | none => (a,.error .invalidTupleRange)
    | some expected =>
      if !TupleCounts.fills t a.elementCount expected then (a,.error .invalidTupleRange)
      else
        let first := t.childIndexes.length - a.elementCount
        let result := publishElements t ⟨0,0,0,0⟩ first a.fixedSlots
        (published,.ok { a.value with tuple := { result with
          firstChild := first
          childCount := a.elementCount
          rootIndex := result.nodes.length } })

/-- What `release_preadmitted_tuple_assembly` leaves. -/
def abandoned : PreadmittedTupleAssembly := ⟨makeIntValue 0,[],0,0,⟨0,0,0,0⟩⟩

/-- The slots destroyed from the last transferred one to the first. -/
def destroySlots (h : Host) (slots : List Value) : Host :=
  slots.foldr (fun slot next => (next.destroyProvenValue slot).1) h

def release (h : Host) (r : EvaluationResources) (a : PreadmittedTupleAssembly) :
    Host × PreadmittedTupleAssembly × Except ReleaseFailure Unit :=
  let slots := a.fixedSlots.take a.transferredCount
  if !a.storageSafe || !slots.all preadmittedValueLayoutSafe then
    (h,a,.error (.invariant .invalidTupleRange))
  else
    let freed := (destroySlots h slots).releaseProven a.value.tuple.rootReservation.holding
    (freed,abandoned,
      if (freed.acquireValidated r).isNone then .error .resourceContextMismatch else .ok ())

end PreadmittedTupleAssembly

/-- An assembly over a fresh table, its arrays filled with empty entries. -/
def admittedAssembly (count : Nat) (c : TupleCounts) (reservation : TupleTableReservation) :
    PreadmittedTupleAssembly where
  value := ⟨.tuple,emptyScalar,emptyVector,
    { nodes := List.replicate c.nodes ⟨.scalar,emptyScalar,0,0,0,0⟩
      childIndexes := List.replicate c.edges 0
      rootIndex := 0
      vectorPayloads := List.replicate c.payloads emptyVector
      reservations := List.replicate c.reservations emptyReservation
      rootReservation := reservation
      firstChild := 0
      childCount := 0 },true⟩
  fixedSlots := List.replicate count (makeIntValue 0)
  elementCount := count
  transferredCount := 0
  transferred := ⟨0,0,0,0⟩

/-- `preadmit_tuple_assembly` with room for `c` in the arrays. -/
def preadmitTupleAssembly (h : Host) (r : EvaluationResources) (count : Nat) (c : TupleCounts) :
    Host × Except ResourceFault PreadmittedTupleAssembly :=
  match h.acquireValidated r with
  | none => (h,.error missingStateFault)
  | some state => match h.reserveTupleTable r count with
    | (refused,.error fault) => (refused,.error fault)
    | (admitted,.ok reservation) =>
      let capacities := [c.nodes,c.edges,c.payloads,c.reservations,count].filter (· ≠ 0)
      let (granted,reason) :=
        if c.edges < count then (admitted,.sizeOverflow)
        else admitted.allocateHostArrays capacities.length
      match reason with
      | .none => (granted,.ok (admittedAssembly count c reservation))
      | reason => ((granted.releaseTupleTable r reservation).1,
          .error (state.account.makeResourceFailure (hostReason reason) (some count)
            (some reservation.canonicalBytes) none
            (if count = 0 then none else reservation.allocationOrdinal)))

end Bennu
