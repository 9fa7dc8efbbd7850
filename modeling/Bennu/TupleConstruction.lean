import Bennu.Resources

/-! `make_tuple_value`: validation and alias checks of the elements, the table
reservation, the metadata arrays with their rollback, and the rebasing move of
every element into one arena. -/
namespace Bennu

/-- Every semantic buffer a value points to. -/
def Value.storages (v : Value) : List Nat :=
  match v.container with
  | .scalar => []
  | .vector => v.vector.storage.toList
  | .tuple =>
    v.tuple.vectorPayloads.filterMap (·.storage) ++ v.tuple.reservations.filterMap (·.payload) ++
      v.tuple.rootReservation.payload.toList

def physicalStorageOverlaps (left right : Value) : Bool :=
  left.storages.any (right.storages.contains ·)

/-- The table sizes of a tuple under construction. -/
structure TupleCounts where
  nodes : Nat
  edges : Nat
  payloads : Nat
  reservations : Nat
  deriving DecidableEq, Repr

/-- Add one element's own tables; `none` when a count would overflow. -/
def TupleCounts.add (c : TupleCounts) (v : Value) : Option TupleCounts :=
  match v.container with
  | .scalar => some c
  | .vector => some { c with payloads := c.payloads + 1 }
  | .tuple =>
    if v.tuple.nodes.length > sizeMax - c.nodes ∨ v.tuple.childIndexes.length > sizeMax - c.edges ∨
        v.tuple.vectorPayloads.length > sizeMax - c.payloads ∨
        v.tuple.reservations.length + 1 > sizeMax - c.reservations then none
    else some ⟨c.nodes + v.tuple.nodes.length,c.edges + v.tuple.childIndexes.length,
      c.payloads + v.tuple.vectorPayloads.length,c.reservations + (v.tuple.reservations.length + 1)⟩

def hostReason : HostResourceErrorReason → ResourceErrorReason
  | .sizeOverflow => .sizeOverflow
  | _ => .allocationUnavailable

/-- Validate the elements in order, each against the storages before it. -/
def surveyElements (profile : Account) (total : Nat) :
    HostFailureInjection → Host → List Value → TupleCounts → List Value →
      HostFailureInjection × Host × Except TupleFailure TupleCounts
  | f,h,_,counts,[] => (f,h,.ok counts)
  | f,h,before,counts,element :: rest => match validateValue f h element with
    | (used,next,some (.resource reason)) =>
      (used,next,.error (.fault (profile.makeResourceFailure (hostReason reason) (some total) none none none)))
    | (used,next,some (.invalid invalid)) => (used,next,.error (.invariant invalid.invariant))
    | (used,next,none) =>
      if before.any (physicalStorageOverlaps element) then
        (used,next,.error (.invariant .aliasedVectorPayload))
      else match counts.add element with
        | none =>
          (used,next,.error (.fault (profile.makeResourceFailure .sizeOverflow (some total) none none none)))
        | some added => surveyElements profile total used next (before ++ [element]) added rest

/-- The arena under construction and the roots of the elements moved so far. -/
structure TupleTables where
  nodes : List ValueNode
  childIndexes : List Nat
  vectorPayloads : List VectorValue
  reservations : List TupleTableReservation
  roots : List Nat
  deriving DecidableEq, Repr

def rebaseNode (edges payloads reservations : Nat) (node : ValueNode) : ValueNode :=
  match node.container with
  | .tuple => { node with
      firstChild := node.firstChild + edges
      tupleReservationIndex := node.tupleReservationIndex + reservations }
  | .vector => { node with vectorPayloadIndex := node.vectorPayloadIndex + payloads }
  | .scalar => node

/-- Move one element into the tables, rebasing a tuple's own indexes. -/
def TupleTables.append (t : TupleTables) (v : Value) : TupleTables :=
  match v.container with
  | .scalar => { t with
      nodes := t.nodes ++ [⟨.scalar,v.scalar,0,0,0,0⟩]
      roots := t.roots ++ [t.nodes.length] }
  | .vector => { t with
      nodes := t.nodes ++ [⟨.vector,v.scalar,0,0,0,t.vectorPayloads.length⟩]
      vectorPayloads := t.vectorPayloads ++ [v.vector]
      roots := t.roots ++ [t.nodes.length] }
  | .tuple =>
    { nodes := t.nodes ++ v.tuple.nodes.map (rebaseNode t.childIndexes.length
        t.vectorPayloads.length t.reservations.length) ++
        [⟨.tuple,v.scalar,v.tuple.firstChild + t.childIndexes.length,v.tuple.childCount,
          t.reservations.length + v.tuple.reservations.length,0⟩]
      childIndexes := t.childIndexes ++ v.tuple.childIndexes.map (· + t.nodes.length)
      vectorPayloads := t.vectorPayloads ++ v.tuple.vectorPayloads
      reservations := t.reservations ++ v.tuple.reservations ++ [v.tuple.rootReservation]
      roots := t.roots ++ [t.nodes.length + v.tuple.nodes.length] }

/-- The finished tuple: the root's edges follow all others. -/
def composeTuple (elements : List Value) (root : TupleTableReservation) : Value :=
  let tables := elements.foldl TupleTables.append ⟨[],[],[],[],[]⟩
  ⟨.tuple,emptyScalar,emptyVector,
    ⟨tables.nodes,tables.childIndexes ++ tables.roots,tables.nodes.length,tables.vectorPayloads,
      tables.reservations,root,tables.childIndexes.length,tables.roots.length⟩,true⟩

/-- The metadata arrays of the new tuple, in order: nodes, edges, payloads,
reservations and the scratch list of roots. -/
def tupleMetadata (f : HostFailureInjection) (h : Host) (count : Nat) (c : TupleCounts) :
    HostFailureInjection × Host × HostResourceErrorReason :=
  let capacities := [c.nodes,c.edges,c.payloads,c.reservations,count].filter (· ≠ 0)
  if capacities = [] then (f,h,.none)
  else match beginHostAllocation f with
    | (begun,.none) =>
      let fits := capacities.takeWhile fun capacity =>
        begun.maxContainerElements.all fun maximum => decide (capacity ≤ maximum)
      match h.allocateHostArrays fits.length with
      | (next,.none) => (begun,next,if fits.length = capacities.length then .none else .sizeOverflow)
      | (next,reason) => (begun,next,reason)
    | (begun,reason) => (begun,h,reason)

def makeTupleValue (f : HostFailureInjection) (h : Host) (r : EvaluationResources)
    (elements : List Value) :
    HostFailureInjection × Host × List Value × Except TupleFailure Value :=
  match h.acquireValidated r with
  | none => (f,h,elements,.error (.fault missingStateFault))
  | some state => match state.account.validateTupleProfile with
    | .error fault => (f,h,elements,.error (.fault fault))
    | .ok _ =>
      match surveyElements state.account elements.length f h [] ⟨elements.length,elements.length,0,0⟩
          elements with
      | (used,next,.error failure) => (used,next,elements,.error failure)
      | (used,next,.ok counts) => match next.reserveTupleTable r elements.length with
        | (refused,.error fault) => (used,refused,elements,.error (.fault fault))
        | (admitted,.ok reservation) => match tupleMetadata used admitted elements.length counts with
          | (begun,granted,.none) =>
            (begun,granted,elements.map fun _ => invalidConstructionValue,
              .ok (composeTuple elements reservation))
          | (begun,denied,reason) =>
            (begun,(denied.releaseTupleTable r reservation).1,elements,
              .error (.fault (state.account.makeResourceFailure (hostReason reason)
                (some elements.length) (some reservation.canonicalBytes) none
                (if elements = [] then none else reservation.allocationOrdinal))))

end Bennu
