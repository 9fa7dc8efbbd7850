import Bennu.Detachment
import Bennu.PreadmittedTuple

/-! Preadmitted construction against `make_tuple_value`: what a published assembly holds, when
it is the directly made tuple, and what an abandoned one gives back. -/
namespace Bennu

section Elements

variable {h : Host} {v : Value}

theorem tupleRangeValid_iff (first count edges : Nat) :
    tupleRangeValid first count edges = true ↔ first + count ≤ edges := by
  simp only [tupleRangeValid,Bool.and_eq_true,decide_eq_true_eq]
  omega

/-- An exact value is safe to move. -/
theorem Value.Exact.layoutSafe (exact : v.Exact h) : preadmittedValueLayoutSafe v = true := by
  unfold preadmittedValueLayoutSafe
  rw [exact.claimed,Bool.true_and]
  cases container : v.container with
  | scalar => simp [exact.vectorEmpty,exact.tupleEmpty,container,vectorFieldsEmpty,tupleFieldsEmpty]
  | vector => simp [exact.tupleEmpty,container,tupleFieldsEmpty]
  | tuple =>
    have arena := exact.tuple container
    have sound := arena.sound
    have rootKind : v.tuple.containerAt v.tuple.nodes.length = .tuple := if_pos arena.root.symm
    have children : ∀ i ≤ v.tuple.nodes.length, v.tuple.containerAt i = .tuple →
        ∀ k < v.tuple.childCountAt i, v.tuple.childOf i k < i := fun i bound kind k less =>
      arena.earlier i bound _ (TupleValue.mem_childrenAt.mpr ⟨bound,kind,k,less,rfl⟩)
    have rootRange : v.tuple.childRange v.tuple.nodes.length = (v.tuple.firstChild,v.tuple.childCount) :=
      if_pos arena.root.symm
    simp only [exact.vectorEmpty (by simp [container]),vectorFieldsEmpty,arena.root,beq_self_eq_true,
      Bool.true_and,Bool.and_eq_true,List.all_eq_true,List.mem_range,tupleRangeValid_iff,
      decide_eq_true_eq]
    refine ⟨⟨?_,fun i less => ?_⟩,fun k less => ?_⟩
    · have root := sound _ le_rfl
      rw [TupleValue.NodeSound,rootKind] at root
      have range := root.2.2.1
      rwa [TupleValue.childCountAt,rootRange] at range
    · have other : i ≠ v.tuple.rootIndex := by rw [arena.root]; omega
      have kind : v.tuple.containerAt i = (v.tuple.node i).container := if_neg other
      have range : v.tuple.childRange i = ((v.tuple.node i).firstChild,(v.tuple.node i).childCount) :=
        if_neg other
      have node := sound i (Nat.le_of_lt less)
      rw [TupleValue.NodeSound] at node
      have below := children i (Nat.le_of_lt less)
      rw [kind] at node below
      cases inner : (v.tuple.node i).container with
      | scalar => rfl
      | vector =>
        rw [inner] at node
        obtain ⟨-,-,-,-,payload,found,-⟩ := node
        exact decide_eq_true (List.getElem?_eq_some_iff.mp found).1
      | tuple =>
        rw [inner] at node below
        obtain ⟨-,-,inside,table,found,-⟩ := node
        rw [TupleValue.childCountAt,range] at inside
        simp only [Bool.and_eq_true,tupleRangeValid_iff,decide_eq_true_eq,List.all_eq_true,List.mem_range]
        refine ⟨⟨inside,?_⟩,fun k inRange => ?_⟩
        · have slot := reservationAt_some found
          have apart := (arena.wellFormed.seen.apart i _ (Nat.le_of_lt less) le_rfl
            (Nat.ne_of_lt less)).tables (kind.trans inner) rootKind
          rw [TupleValue.tableIndex,if_neg other] at slot apart
          rw [TupleValue.tableIndex,if_pos arena.root.symm] at apart
          omega
        · have child := below rfl k
          rw [TupleValue.childCountAt,TupleValue.childOf,range] at child
          exact child inRange
    · have child := children _ le_rfl rootKind k
      rw [TupleValue.childCountAt,TupleValue.childOf,rootRange] at child
      exact child less

theorem Value.Exact.counts (exact : v.Exact h) (nodes : v.tableSizes.nodes ≤ sizeMax)
    (reservations : v.tableSizes.reservations ≤ sizeMax) :
    preadmittedValueCounts v = some v.tableSizes := by
  unfold preadmittedValueCounts
  rw [exact.layoutSafe,if_neg (by simp),if_neg]
  rintro ⟨container,full⟩
  simp only [Value.tableSizes,container] at nodes reservations
  omega

theorem preadmittedValueCounts_some {c : TupleCounts} (counted : preadmittedValueCounts v = some c) :
    preadmittedValueLayoutSafe v = true ∧ c = v.tableSizes := by
  unfold preadmittedValueCounts at counted
  split at counted
  · cases counted
  · rename_i safe
    split at counted
    · cases counted
    · exact ⟨by simpa using safe,(Option.some.inj counted).symm⟩

end Elements

section Transfers

/-- What the elements take of the arrays together. -/
def totalSizes (elements : List Value) : TupleCounts :=
  elements.foldl (fun c v => c.plus v.tableSizes) ⟨0,0,0,0⟩

theorem totalSizes_concat (elements : List Value) (v : Value) :
    totalSizes (elements ++ [v]) = (totalSizes elements).plus v.tableSizes := by
  simp [totalSizes]

theorem TupleCounts.plus_assoc (a b c : TupleCounts) : (a.plus b).plus c = a.plus (b.plus c) := by
  simp [TupleCounts.plus,Nat.add_assoc]

theorem TupleCounts.plus_comm (a b : TupleCounts) : a.plus b = b.plus a := by
  simp [TupleCounts.plus,Nat.add_comm]

theorem foldl_sizes (elements : List Value) (c : TupleCounts) :
    elements.foldl (fun c v => c.plus v.tableSizes) c = c.plus (totalSizes elements) := by
  induction elements generalizing c with
  | nil => simp [totalSizes,TupleCounts.plus]
  | cons v rest ih =>
    rw [totalSizes,List.foldl_cons,List.foldl_cons,ih,ih,← TupleCounts.plus_assoc]
    simp [TupleCounts.plus]

theorem totalSizes_cons (v : Value) (elements : List Value) :
    totalSizes (v :: elements) = v.tableSizes.plus (totalSizes elements) := by
  rw [totalSizes,List.foldl_cons,foldl_sizes,TupleCounts.plus_comm ⟨0,0,0,0⟩]
  rfl

theorem totalSizes_append (before rest : List Value) :
    totalSizes (before ++ rest) = (totalSizes before).plus (totalSizes rest) := by
  rw [totalSizes,List.foldl_append,foldl_sizes]
  rfl

/-- The room that a tuple of these elements needs: the root has one edge for each. -/
def exactCounts (elements : List Value) : TupleCounts :=
  (totalSizes elements).plus ⟨0,elements.length,0,0⟩

/-- A run of transfers that were not refused. -/
inductive Transfers : PreadmittedTupleAssembly → List Value → PreadmittedTupleAssembly → Prop
  | nothing {a} : Transfers a [] a
  | moved {a b c moved v left} : Transfers a moved b → b.transfer v = (c,left,.ok ()) →
      Transfers a (moved ++ [v]) c

variable {count : Nat} {c : TupleCounts} {reservation : TupleTableReservation} {moved : List Value}
  {a : PreadmittedTupleAssembly}

/-- The assembly after a run of transfers: what was moved lies in the first slots, the
arrays are as they were admitted. -/
structure Assembling (count : Nat) (c : TupleCounts) (reservation : TupleTableReservation)
    (moved : List Value) (a : PreadmittedTupleAssembly) : Prop where
  assembly : a = { admittedAssembly count c reservation with
    fixedSlots := moved ++ List.replicate (count - moved.length) (makeIntValue 0)
    transferredCount := moved.length
    transferred := totalSizes moved }
  slots : moved.length ≤ count
  counted : ∀ v ∈ moved, preadmittedValueCounts v = some v.tableSizes
  rootEdges : count ≤ c.edges
  nodes : (totalSizes moved).nodes ≤ c.nodes
  edges : (totalSizes moved).edges + count ≤ c.edges
  payloads : (totalSizes moved).payloads ≤ c.payloads
  reservations : (totalSizes moved).reservations ≤ c.reservations

theorem Assembling.admitted (rootEdges : count ≤ c.edges) :
    Assembling count c reservation [] (admittedAssembly count c reservation) where
  assembly := rfl
  slots := Nat.zero_le _
  counted v member := by cases member
  rootEdges := rootEdges
  nodes := Nat.zero_le _
  edges := by simpa [totalSizes] using rootEdges
  payloads := Nat.zero_le _
  reservations := Nat.zero_le _

theorem Assembling.storageSafe (state : Assembling count c reservation moved a) :
    a.storageSafe = true := by
  obtain ⟨rfl,slots,-,rootEdges,nodes,edges,payloads,reservations⟩ := state
  simp [PreadmittedTupleAssembly.storageSafe,admittedAssembly,slots]
  omega

/-- Room for one more element. -/
structure RoomFor (count : Nat) (c : TupleCounts) (moved : List Value) (v : Value) : Prop where
  slot : moved.length < count
  counted : preadmittedValueCounts v = some v.tableSizes
  nodes : (totalSizes (moved ++ [v])).nodes ≤ c.nodes
  edges : (totalSizes (moved ++ [v])).edges + count ≤ c.edges
  payloads : (totalSizes (moved ++ [v])).payloads ≤ c.payloads
  reservations : (totalSizes (moved ++ [v])).reservations ≤ c.reservations

theorem Assembling.fits_iff (state : Assembling count c reservation moved a) (sizes : TupleCounts) :
    TupleCounts.fits a.value.tuple a.elementCount a.transferred sizes = true ↔
      ((totalSizes moved).plus sizes).nodes ≤ c.nodes ∧
        ((totalSizes moved).plus sizes).edges + count ≤ c.edges ∧
          ((totalSizes moved).plus sizes).payloads ≤ c.payloads ∧
            ((totalSizes moved).plus sizes).reservations ≤ c.reservations := by
  obtain ⟨rfl,slots,-,rootEdges,nodes,edges,payloads,reservations⟩ := state
  simp only [TupleCounts.fits,TupleCounts.plus,admittedAssembly,Bool.and_eq_true,decide_eq_true_eq,
    List.length_replicate]
  omega

/-- With room for it the element fills the next slot. -/
theorem Assembling.transfer (state : Assembling count c reservation moved a) {v : Value}
    (room : RoomFor count c moved v) : ∃ b, a.transfer v = (b,invalidConstructionValue,.ok ()) ∧
      Assembling count c reservation (moved ++ [v]) b := by
  obtain ⟨slot,counted,nodes,edges,payloads,reservations⟩ := room
  have more : (a.transferredCount == a.elementCount) = false := by
    rw [state.assembly]
    exact beq_false_of_ne (Nat.ne_of_lt slot)
  have fits := (state.fits_iff v.tableSizes).mpr (by
    rw [← totalSizes_concat]
    exact ⟨nodes,edges,payloads,reservations⟩)
  refine ⟨{ a with
    fixedSlots := a.fixedSlots.set a.transferredCount v
    transferredCount := a.transferredCount + 1
    transferred := a.transferred.plus v.tableSizes },by simp [PreadmittedTupleAssembly.transfer,
      state.storageSafe,more,counted,fits],?_⟩
  refine ⟨?_,by rwa [List.length_append],fun w member => ?_,state.rootEdges,nodes,edges,payloads,reservations⟩
  · rw [state.assembly,totalSizes_concat]
    have rest : count - moved.length = (count - (moved.length + 1)) + 1 := by omega
    simp [rest,List.replicate_succ]
  · rcases List.mem_append.mp member with earlier | last
    · exact state.counted w earlier
    · rwa [List.mem_singleton.mp last]

/-- A transfer is refused exactly without room, and then nothing has changed. -/
theorem Assembling.refused (state : Assembling count c reservation moved a) {v : Value}
    (none : ¬RoomFor count c moved v) : a.transfer v = (a,v,.error .invalidTupleRange) := by
  unfold PreadmittedTupleAssembly.transfer
  by_cases full : (a.transferredCount == a.elementCount) = true
  · simp [full]
  · simp only [full,state.storageSafe,Bool.not_true,Bool.or_self]
    cases counted : preadmittedValueCounts v with
    | none => rfl
    | some sizes =>
      obtain ⟨-,rfl⟩ := preadmittedValueCounts_some counted
      by_cases fits : TupleCounts.fits a.value.tuple a.elementCount a.transferred v.tableSizes = true
      · refine absurd ?_ none
        obtain ⟨nodes,edges,payloads,reservations⟩ := (state.fits_iff v.tableSizes).mp fits
        rw [← totalSizes_concat] at nodes edges payloads reservations
        refine ⟨?_,counted,nodes,edges,payloads,reservations⟩
        rw [state.assembly] at full
        have slots := state.slots
        simp only [admittedAssembly,beq_iff_eq] at full
        omega
      · simp [fits]

theorem Assembling.transfers {start : PreadmittedTupleAssembly}
    (admitted : Assembling count c reservation [] start) (run : Transfers start moved a) :
    Assembling count c reservation moved a := by
  induction run with
  | nothing => exact admitted
  | moved earlier step ih =>
    rename_i b d moved v left
    have state := ih
    by_cases room : RoomFor count c moved v
    · obtain ⟨next,stepped,after⟩ := state.transfer room
      rw [stepped] at step
      cases step
      exact after
    · rw [state.refused room] at step
      cases step

end Transfers

section Publishing

/-- Writing over a blank part leaves what stands around it. -/
theorem writeFrom_append {α : Type} (done items blank tail : List α)
    (same : blank.length = items.length) :
    writeFrom (done ++ (blank ++ tail)) done.length items = done ++ (items ++ tail) := by
  induction items generalizing done blank with
  | nil =>
    rw [List.length_eq_zero_iff.mp same]
    rfl
  | cons item rest ih =>
    cases blank with
    | nil => cases same
    | cons first blank =>
      have placed : (done ++ (first :: blank ++ tail)).set done.length item =
          (done ++ [item]) ++ (blank ++ tail) := by simp
      have next : done.length + 1 = (done ++ [item]).length := by simp
      rw [writeFrom,placed,next,ih _ _ (Nat.succ.inj same)]
      simp

/-- With enough room the items come behind what is written already. -/
theorem writeFrom_blank {α : Type} (done items : List α) {blank : List α} {free : Nat}
    (room : blank.length = free + items.length) :
    ∃ rest, writeFrom (done ++ blank) done.length items = done ++ items ++ rest ∧ rest.length = free := by
  refine ⟨blank.drop items.length,?_,by rw [List.length_drop]; omega⟩
  have split := (List.take_append_drop items.length blank).symm
  have size : (blank.take items.length).length = items.length := by
    rw [List.length_take]
    omega
  rw [List.append_assoc,← writeFrom_append done items _ (blank.drop items.length) size,← split]

theorem set_eq_writeFrom {α : Type} (array : List α) (cursor : Nat) (item : α) :
    array.set cursor item = writeFrom array cursor [item] := rfl

namespace TupleTables

def sizes (t : TupleTables) : TupleCounts :=
  ⟨t.nodes.length,t.childIndexes.length,t.vectorPayloads.length,t.reservations.length⟩

/-- What publishing makes of an element: the node of a scalar is given the next payload. -/
def publish (t : TupleTables) (v : Value) : TupleTables :=
  match v.container with
  | .scalar => { t with
      nodes := t.nodes ++ [⟨.scalar,v.scalar,0,0,0,t.vectorPayloads.length⟩]
      roots := t.roots ++ [t.nodes.length] }
  | .vector => t.append v
  | .tuple => t.append v

theorem publish_sizes (t : TupleTables) (v : Value) :
    (t.publish v).sizes = t.sizes.plus v.tableSizes := by
  unfold publish append sizes TupleCounts.plus Value.tableSizes
  cases v.container with
  | scalar => simp
  | vector => simp
  | tuple => simp [Nat.add_comm 1]

theorem publish_roots (t : TupleTables) (v : Value) :
    (t.publish v).roots.length = t.roots.length + 1 := by
  unfold publish append
  cases v.container <;> simp

end TupleTables

/-- The arrays while the slots are published: what is written so far, then what is free.
The edges of the root are written apart, behind all others. -/
structure LaidOut (t : TupleValue) (written : TupleTables) (free : TupleCounts) (slots : Nat) : Prop where
  nodes : ∃ blank, t.nodes = written.nodes ++ blank ∧ blank.length = free.nodes
  edges : ∃ nested roots, t.childIndexes = written.childIndexes ++ (nested ++ (written.roots ++ roots)) ∧
    nested.length = free.edges ∧ roots.length = slots
  payloads : ∃ blank, t.vectorPayloads = written.vectorPayloads ++ blank ∧ blank.length = free.payloads
  reservations : ∃ blank, t.reservations = written.reservations ++ blank ∧
    blank.length = free.reservations

section Step

variable {t : TupleValue} {written : TupleTables} {free : TupleCounts} {slots : Nat} {v : Value}

/-- The next root edge is written behind those already there. -/
theorem set_root (edges nested roots : List Nat) {tail : List Nat} (edge x : Nat)
    (here : edge = edges.length + nested.length + roots.length) (free : tail.length = slots + 1) :
    ∃ rest, (edges ++ (nested ++ (roots ++ tail))).set edge x =
      edges ++ (nested ++ ((roots ++ [x]) ++ rest)) ∧ rest.length = slots := by
  have whole : edges ++ (nested ++ (roots ++ tail)) = (edges ++ nested ++ roots) ++ tail := by simp
  have cursor : edge = (edges ++ nested ++ roots).length := by simp [here,Nat.add_assoc]
  obtain ⟨rest,placed,size⟩ := writeFrom_blank (edges ++ nested ++ roots) [x] free
  refine ⟨rest,?_,size⟩
  rw [whole,cursor,set_eq_writeFrom,placed]
  simp

theorem LaidOut.publish (laid : LaidOut t written (free.plus v.tableSizes) (slots + 1)) {edge : Nat}
    (here : edge = written.childIndexes.length + (free.plus v.tableSizes).edges + written.roots.length) :
    LaidOut (publishElement t written.sizes edge v) (written.publish v) free slots := by
  obtain ⟨⟨nodes,isNodes,nodeRoom⟩,⟨nested,roots,isEdges,edgeRoom,rootRoom⟩,⟨payloads,isPayloads,payloadRoom⟩,
    ⟨reservations,isReservations,reservationRoom⟩⟩ := laid
  rw [← edgeRoom] at here
  simp only [TupleCounts.plus] at nodeRoom edgeRoom payloadRoom reservationRoom
  cases container : v.container with
  | scalar =>
    have sizes : v.tableSizes = ⟨1,0,0,0⟩ := by simp [Value.tableSizes,container]
    rw [sizes] at nodeRoom edgeRoom payloadRoom reservationRoom
    obtain ⟨rest,placed,size⟩ := writeFrom_blank written.nodes
      [⟨.scalar,v.scalar,0,0,0,written.vectorPayloads.length⟩] nodeRoom
    obtain ⟨tail,rooted,left⟩ := set_root written.childIndexes nested written.roots edge
      written.nodes.length here rootRoom
    simp only [publishElement,TupleTables.publish,container,isNodes,isEdges]
    exact ⟨⟨rest,placed,size⟩,⟨nested,tail,rooted,edgeRoom,left⟩,⟨payloads,isPayloads,payloadRoom⟩,
      ⟨reservations,isReservations,reservationRoom⟩⟩
  | vector =>
    have sizes : v.tableSizes = ⟨1,0,1,0⟩ := by simp [Value.tableSizes,container]
    rw [sizes] at nodeRoom edgeRoom payloadRoom reservationRoom
    obtain ⟨rest,placed,size⟩ := writeFrom_blank written.nodes
      [⟨.vector,v.scalar,0,0,0,written.vectorPayloads.length⟩] nodeRoom
    obtain ⟨tail,rooted,left⟩ := set_root written.childIndexes nested written.roots edge
      written.nodes.length here rootRoom
    obtain ⟨vectors,stored,room⟩ := writeFrom_blank written.vectorPayloads [v.vector] payloadRoom
    simp only [publishElement,TupleTables.publish,TupleTables.append,container,isNodes,isEdges,isPayloads]
    exact ⟨⟨rest,placed,size⟩,⟨nested,tail,rooted,edgeRoom,left⟩,⟨vectors,stored,room⟩,
      ⟨reservations,isReservations,reservationRoom⟩⟩
  | tuple =>
    have sizes : v.tableSizes = ⟨1 + v.tuple.nodes.length,v.tuple.childIndexes.length,
      v.tuple.vectorPayloads.length,v.tuple.reservations.length + 1⟩ := by
      simp [Value.tableSizes,container]
    simp only [sizes] at nodeRoom edgeRoom payloadRoom reservationRoom
    obtain ⟨rest,placed,size⟩ := writeFrom_blank written.nodes (v.tuple.nodes.map
      (rebaseNode written.childIndexes.length written.vectorPayloads.length written.reservations.length) ++
        [⟨.tuple,v.scalar,v.tuple.firstChild + written.childIndexes.length,v.tuple.childCount,
          written.reservations.length + v.tuple.reservations.length,0⟩])
      (by rw [nodeRoom,List.length_append,List.length_map,List.length_singleton,Nat.add_comm 1])
    obtain ⟨vectors,stored,room⟩ := writeFrom_blank written.vectorPayloads v.tuple.vectorPayloads payloadRoom
    obtain ⟨tables,kept,left⟩ := writeFrom_blank written.reservations
      (v.tuple.reservations ++ [v.tuple.rootReservation])
      (by rw [reservationRoom,List.length_append,List.length_singleton])
    -- the nested edges take the front of their own part, the root's edge stays behind it
    have front : (nested.take v.tuple.childIndexes.length).length =
        (v.tuple.childIndexes.map (· + written.nodes.length)).length := by
      rw [List.length_take,List.length_map]
      omega
    have split := (List.take_append_drop v.tuple.childIndexes.length nested).symm
    have moved := writeFrom_append written.childIndexes (v.tuple.childIndexes.map (· + written.nodes.length))
      (nested.take v.tuple.childIndexes.length) (nested.drop v.tuple.childIndexes.length ++
        (written.roots ++ roots)) front
    rw [← List.append_assoc (nested.take _),← split,← List.append_assoc written.childIndexes
      (v.tuple.childIndexes.map (· + written.nodes.length))] at moved
    obtain ⟨tail,rooted,behind⟩ := set_root (written.childIndexes ++
      v.tuple.childIndexes.map (· + written.nodes.length)) (nested.drop v.tuple.childIndexes.length)
      written.roots edge (written.nodes.length + v.tuple.nodes.length)
      (by simp only [here,List.length_append,List.length_map,List.length_drop]; omega) rootRoom
    rw [← List.append_assoc] at placed kept
    simp only [publishElement,TupleTables.publish,TupleTables.append,container,isNodes,isEdges,isPayloads,
      isReservations,TupleTables.sizes,moved]
    refine ⟨⟨rest,placed,size⟩,⟨nested.drop v.tuple.childIndexes.length,tail,rooted,?_,behind⟩,
      ⟨vectors,stored,room⟩,⟨tables,kept,left⟩⟩
    rw [List.length_drop]
    omega

/-- The step lemma carried over all slots. -/
theorem LaidOut.publishAll {rest : List Value}
    (laid : LaidOut t written (free.plus (totalSizes rest)) (slots + rest.length)) {edge : Nat}
    (here : edge = written.childIndexes.length + (free.plus (totalSizes rest)).edges +
      written.roots.length) :
    LaidOut (publishElements t written.sizes edge rest) (rest.foldl TupleTables.publish written) free
      slots := by
  induction rest generalizing t written edge with
  | nil => exact laid
  | cons v rest ih =>
    have sizes : free.plus (totalSizes (v :: rest)) = (free.plus (totalSizes rest)).plus v.tableSizes := by
      rw [totalSizes_cons,TupleCounts.plus_assoc,TupleCounts.plus_comm v.tableSizes]
    rw [sizes] at laid here
    have next := LaidOut.publish laid here
    rw [publishElements,← TupleTables.publish_sizes]
    refine ih next ?_
    have edges := congrArg TupleCounts.edges (TupleTables.publish_sizes written v)
    have roots := TupleTables.publish_roots written v
    simp only [TupleTables.sizes,TupleCounts.plus] at edges here ⊢
    omega

theorem publishElements_root (cursors : TupleCounts) (edge : Nat) (elements : List Value) :
    (publishElements t cursors edge elements).rootReservation = t.rootReservation := by
  induction elements generalizing t cursors edge with
  | nil => rfl
  | cons v rest ih =>
    rw [publishElements,ih]
    unfold publishElement
    cases v.container <;> rfl

end Step

/-- The tuple that publishing makes of its slots. -/
def publishedTuple (elements : List Value) (root : TupleTableReservation) : Value :=
  ⟨.tuple,emptyScalar,emptyVector,(elements.foldl TupleTables.publish TupleTables.empty).close root,true⟩

section Publication

variable {count : Nat} {c : TupleCounts} {reservation : TupleTableReservation} {moved : List Value}
  {a : PreadmittedTupleAssembly}

theorem foldl_publish_sizes (elements : List Value) (t : TupleTables) :
    (elements.foldl TupleTables.publish t).sizes = t.sizes.plus (totalSizes elements) := by
  induction elements generalizing t with
  | nil => simp [totalSizes,TupleCounts.plus]
  | cons v rest ih =>
    rw [List.foldl_cons,ih,TupleTables.publish_sizes,TupleCounts.plus_assoc,← totalSizes_cons]

theorem foldl_publish_roots (elements : List Value) (t : TupleTables) :
    (elements.foldl TupleTables.publish t).roots.length = t.roots.length + elements.length := by
  induction elements generalizing t with
  | nil => rfl
  | cons v rest ih =>
    rw [List.foldl_cons,ih,TupleTables.publish_roots,List.length_cons]
    omega

/-- The slots of an assembly are counted again before they are published. -/
theorem Assembling.recounted (state : Assembling count c reservation moved a) {before rest : List Value}
    (slots : moved = before ++ rest) :
    PreadmittedTupleAssembly.expectedCounts a.value.tuple a.elementCount (totalSizes before) rest =
      some (totalSizes moved) := by
  induction rest generalizing before with
  | nil =>
    rw [slots,List.append_nil]
    rfl
  | cons v rest ih =>
    have next : moved = (before ++ [v]) ++ rest := by rw [slots,List.append_cons]
    have counted := state.counted v (by rw [slots]; exact List.mem_append_right _ (List.mem_cons_self ..))
    have all : totalSizes moved = ((totalSizes before).plus v.tableSizes).plus (totalSizes rest) := by
      rw [← totalSizes_concat,next,totalSizes_append]
    have fits : TupleCounts.fits a.value.tuple a.elementCount (totalSizes before) v.tableSizes = true := by
      obtain ⟨rfl,-,-,-,nodes,edges,payloads,reservations⟩ := state
      rw [all] at nodes edges payloads reservations
      simp only [TupleCounts.fits,TupleCounts.plus,admittedAssembly,Bool.and_eq_true,decide_eq_true_eq,
        List.length_replicate] at *
      omega
    rw [PreadmittedTupleAssembly.expectedCounts,counted]
    simp only [fits,Bool.not_true,Bool.false_eq_true,if_false]
    rw [← totalSizes_concat]
    exact ih next

theorem Assembling.fills_iff (state : Assembling count c reservation moved a) :
    (moved.length = count ∧ TupleCounts.fills a.value.tuple a.elementCount (totalSizes moved) = true) ↔
      moved.length = count ∧ exactCounts moved = c := by
  obtain ⟨rfl,-⟩ := state
  cases c
  simp only [TupleCounts.fills,admittedAssembly,List.length_replicate,Bool.and_eq_true,beq_iff_eq,
    exactCounts,TupleCounts.plus,TupleCounts.mk.injEq]
  omega

/-- Publishing is refused, and nothing changes, unless all slots and all room are used up. -/
theorem Assembling.unpublished (state : Assembling count c reservation moved a)
    (short : ¬(moved.length = count ∧ exactCounts moved = c)) :
    a.publish = (a,.error .invalidTupleRange) := by
  rw [← state.fills_iff] at short
  have open' : (a.storageSafe && a.transferredCount == a.elementCount &&
      TupleCounts.fills a.value.tuple a.elementCount a.transferred) = false := by
    rw [Bool.eq_false_iff,ne_eq,Bool.and_eq_true,Bool.and_eq_true,beq_iff_eq]
    rintro ⟨⟨-,full⟩,filled⟩
    refine short ⟨?_,?_⟩
    · rw [state.assembly] at full
      exact full
    · have used : a.transferred = totalSizes moved := by rw [state.assembly]
      rwa [used] at filled
  simp [PreadmittedTupleAssembly.publish,open']

/-- An admitted assembly is laid out for the slots that fill it. -/
theorem LaidOut.admitted (exactly : exactCounts moved = c) :
    LaidOut (admittedAssembly moved.length c reservation).value.tuple TupleTables.empty
      ((⟨0,0,0,0⟩ : TupleCounts).plus (totalSizes moved)) (0 + moved.length) := by
  subst exactly
  have edges : (exactCounts moved).edges = (totalSizes moved).edges + moved.length := rfl
  refine ⟨⟨_,rfl,?_⟩,⟨List.replicate (totalSizes moved).edges 0,List.replicate moved.length 0,?_,?_,?_⟩,
    ⟨_,rfl,?_⟩,⟨_,rfl,?_⟩⟩
  case refine_2 =>
    change List.replicate (exactCounts moved).edges 0 = _
    rw [edges,List.replicate_add]
    rfl
  all_goals simp [exactCounts,TupleCounts.plus]

/-- With nothing left free the arrays are the tables. -/
theorem LaidOut.close {t : TupleValue} {tables : TupleTables} (laid : LaidOut t tables ⟨0,0,0,0⟩ 0) :
    { t with
      firstChild := tables.childIndexes.length
      childCount := tables.roots.length
      rootIndex := t.nodes.length } = tables.close t.rootReservation := by
  obtain ⟨⟨nodes,isNodes,noNodes⟩,⟨nested,roots,isEdges,noEdges,noRoots⟩,⟨payloads,isPayloads,noPayloads⟩,
    ⟨reservations,isReservations,noReservations⟩⟩ := laid
  rw [List.length_eq_zero_iff.mp noNodes,List.append_nil] at isNodes
  rw [List.length_eq_zero_iff.mp noEdges,List.length_eq_zero_iff.mp noRoots,List.nil_append,
    List.append_nil] at isEdges
  rw [List.length_eq_zero_iff.mp noPayloads,List.append_nil] at isPayloads
  rw [List.length_eq_zero_iff.mp noReservations,List.append_nil] at isReservations
  rw [TupleTables.close,isNodes,isEdges,isPayloads,isReservations]

theorem publish_passed {expected : TupleCounts} (safe : a.storageSafe = true)
    (full : a.transferredCount = a.elementCount)
    (filled : TupleCounts.fills a.value.tuple a.elementCount a.transferred = true)
    (recounted : PreadmittedTupleAssembly.expectedCounts a.value.tuple a.elementCount ⟨0,0,0,0⟩
      a.fixedSlots = some expected)
    (again : TupleCounts.fills a.value.tuple a.elementCount expected = true)
    {result : TupleValue} (laid : publishElements a.value.tuple ⟨0,0,0,0⟩
      (a.value.tuple.childIndexes.length - a.elementCount) a.fixedSlots = result) :
    a.publish = (PreadmittedTupleAssembly.published,.ok { a.value with tuple := { result with
      firstChild := a.value.tuple.childIndexes.length - a.elementCount
      childCount := a.elementCount
      rootIndex := result.nodes.length } }) := by
  subst laid
  simp [PreadmittedTupleAssembly.publish,safe,full,filled,recounted,again]

/-- A full assembly is published as one tuple. -/
theorem Assembling.published (state : Assembling count c reservation moved a)
    (full : moved.length = count) (exactly : exactCounts moved = c) :
    a.publish = (PreadmittedTupleAssembly.published,.ok (publishedTuple moved reservation)) := by
  have filled := (state.fills_iff.mpr ⟨full,exactly⟩).2
  have recounted := state.recounted (List.nil_append moved).symm
  have safe := state.storageSafe
  subst full
  obtain ⟨tables,isTables⟩ : ∃ tables, tables = moved.foldl TupleTables.publish TupleTables.empty := ⟨_,rfl⟩
  have sizes : tables.sizes = totalSizes moved := by
    rw [isTables,foldl_publish_sizes]
    simp [TupleTables.sizes,TupleTables.empty,TupleCounts.plus]
  have roots : tables.roots.length = moved.length := by
    rw [isTables,foldl_publish_roots]
    simp [TupleTables.empty]
  have first : c.edges - moved.length = tables.childIndexes.length := by
    have edges := congrArg TupleCounts.edges sizes
    rw [← exactly]
    simp only [TupleTables.sizes,exactCounts,TupleCounts.plus] at edges ⊢
    omega
  have here : tables.childIndexes.length = TupleTables.empty.childIndexes.length +
      ((⟨0,0,0,0⟩ : TupleCounts).plus (totalSizes moved)).edges + TupleTables.empty.roots.length := by
    have edges := congrArg TupleCounts.edges sizes
    simp only [TupleTables.sizes,TupleTables.empty,TupleCounts.plus,List.length_nil] at edges ⊢
    omega
  have start : LaidOut (admittedAssembly moved.length c reservation).value.tuple TupleTables.empty
      ((⟨0,0,0,0⟩ : TupleCounts).plus (totalSizes moved)) (0 + moved.length) := .admitted exactly
  have laid := start.publishAll here
  rw [← isTables] at laid
  have closed := laid.close.trans (congrArg tables.close (publishElements_root _ _ moved))
  have used : a.transferred = totalSizes moved := by rw [state.assembly]
  have filled' := filled
  rw [← used] at filled'
  have slots : a.fixedSlots = moved := by
    rw [state.assembly,Nat.sub_self,List.replicate_zero,List.append_nil]
  have edge : a.value.tuple.childIndexes.length - a.elementCount = tables.childIndexes.length := by
    rw [← first,state.assembly]
    exact congrArg (· - moved.length) List.length_replicate
  have passed := publish_passed safe (by rw [state.assembly]; rfl) filled' (by rw [slots]; exact recounted)
    filled rfl
  rw [passed,edge,slots]
  have value : a.value = (admittedAssembly moved.length c reservation).value := by rw [state.assembly]
  have count : a.elementCount = tables.roots.length := by rw [state.assembly,roots]; rfl
  rw [value,count,publishedTuple,← isTables]
  exact congrArg (fun t => (PreadmittedTupleAssembly.published,
    (.ok ⟨.tuple,emptyScalar,emptyVector,t,true⟩ : Except ValueInvariant Value))) closed

end Publication
end Publishing

section Comparison

/-- No scalar stands behind an element that carries a vector. -/
def ScalarsFirst (elements : List Value) : Prop :=
  elements.Pairwise fun v w => w.container = .scalar → v.tableSizes.payloads = 0

instance (elements : List Value) : Decidable (ScalarsFirst elements) :=
  inferInstanceAs (Decidable (List.Pairwise _ elements))

theorem totalSizes_payloads (elements : List Value) :
    (totalSizes elements).payloads = 0 ↔ ∀ v ∈ elements, v.tableSizes.payloads = 0 := by
  induction elements with
  | nil => simp [totalSizes]
  | cons v rest ih =>
    rw [totalSizes_cons,List.forall_mem_cons,← ih]
    exact Nat.add_eq_zero_iff

/-- Tables that differ at most in what their nodes say. -/
structure Alike (t u : TupleTables) : Prop where
  nodes : t.nodes.length = u.nodes.length
  childIndexes : t.childIndexes = u.childIndexes
  vectorPayloads : t.vectorPayloads = u.vectorPayloads
  reservations : t.reservations = u.reservations
  roots : t.roots = u.roots

/-- Moving one element either way: only a scalar behind a payload makes a difference. -/
theorem Alike.publish {t u : TupleTables} (alike : Alike t u) (v : Value) :
    Alike (t.publish v) (u.append v) ∧ ((t.publish v).nodes = (u.append v).nodes ↔
      t.nodes = u.nodes ∧ (v.container = .scalar → t.vectorPayloads.length = 0)) := by
  obtain ⟨nodes,childIndexes,vectorPayloads,reservations,roots⟩ := alike
  unfold TupleTables.publish TupleTables.append
  cases v.container with
  | scalar =>
    refine ⟨⟨by simp [nodes],childIndexes,vectorPayloads,reservations,by simp [nodes,roots]⟩,?_⟩
    constructor
    · intro same
      obtain ⟨before,last⟩ := List.append_inj same nodes
      simp only [List.cons.injEq,ValueNode.mk.injEq] at last
      exact ⟨before,fun _ => last.1.2.2.2.2.2⟩
    · rintro ⟨before,empty⟩
      rw [before,empty rfl]
  | vector =>
    refine ⟨⟨by simp [nodes],childIndexes,by simp [vectorPayloads],reservations,by simp [nodes,roots]⟩,?_⟩
    simp [vectorPayloads]
  | tuple =>
    refine ⟨⟨by simp [nodes],by simp [nodes,childIndexes],by simp [vectorPayloads],
      by simp [reservations],by simp [nodes,roots]⟩,?_⟩
    simp [childIndexes,vectorPayloads,reservations]

theorem foldl_publish_alike (elements : List Value) :
    Alike (elements.foldl TupleTables.publish TupleTables.empty)
        (elements.foldl TupleTables.append TupleTables.empty) ∧
      ((elements.foldl TupleTables.publish TupleTables.empty).nodes =
        (elements.foldl TupleTables.append TupleTables.empty).nodes ↔ ScalarsFirst elements) := by
  induction elements using List.reverseRecOn with
  | nil => exact ⟨⟨rfl,rfl,rfl,rfl,rfl⟩,by simp [ScalarsFirst]⟩
  | append_singleton earlier v ih =>
    obtain ⟨alike,same⟩ := ih
    obtain ⟨after,step⟩ := alike.publish v
    have payloads : (earlier.foldl TupleTables.publish TupleTables.empty).vectorPayloads.length =
        (totalSizes earlier).payloads := by
      have sizes := congrArg TupleCounts.payloads (foldl_publish_sizes earlier TupleTables.empty)
      simpa [TupleTables.sizes,TupleTables.empty,TupleCounts.plus] using sizes
    rw [List.foldl_append,List.foldl_append]
    refine ⟨after,step.trans ?_⟩
    rw [same,payloads,totalSizes_payloads]
    unfold ScalarsFirst
    rw [List.pairwise_append]
    constructor
    · rintro ⟨first,behind⟩
      refine ⟨first,List.pairwise_singleton _ _,fun w member u only kind => ?_⟩
      rw [List.mem_singleton.mp only] at kind
      exact behind kind w member
    · rintro ⟨first,-,behind⟩
      exact ⟨first,fun kind w member => behind w member v (List.mem_singleton_self v) kind⟩

/-- A published tuple is the directly made one exactly when scalars come first. -/
theorem publishedTuple_eq_iff (elements : List Value) (root : TupleTableReservation) :
    publishedTuple elements root = composeTuple elements root ↔ ScalarsFirst elements := by
  obtain ⟨alike,nodes⟩ := foldl_publish_alike elements
  rw [← nodes,composeTuple_eq,publishedTuple]
  constructor
  · intro same
    exact congrArg (fun v : Value => v.tuple.nodes) same
  · intro same
    obtain ⟨-,childIndexes,vectorPayloads,reservations,roots⟩ := alike
    rw [TupleTables.close,TupleTables.close,same,childIndexes,vectorPayloads,reservations,roots]

/-- The node of a scalar belongs to no payload. -/
def TupleTables.Unpaid (t : TupleTables) : Prop :=
  ∀ node ∈ t.nodes, node.container = .scalar → node.vectorPayloadIndex = 0

theorem TupleTables.publish_prefix (t : TupleTables) (v : Value) {node : ValueNode}
    (member : node ∈ t.nodes) : node ∈ (t.publish v).nodes := by
  unfold TupleTables.publish TupleTables.append
  cases v.container <;> simp [member]

theorem publish_unpaid (elements : List Value)
    (unpaid : (elements.foldl TupleTables.publish TupleTables.empty).Unpaid) : ScalarsFirst elements := by
  rw [← (foldl_publish_alike elements).2]
  induction elements using List.reverseRecOn with
  | nil => rfl
  | append_singleton earlier v ih =>
    have alike := (foldl_publish_alike earlier).1
    rw [List.foldl_append,List.foldl_append] at *
    rw [List.foldl_cons,List.foldl_nil] at unpaid
    refine ((alike.publish v).2).mpr
      ⟨ih fun node member => unpaid node (TupleTables.publish_prefix _ v member),fun kind => ?_⟩
    · have last := unpaid ⟨.scalar,v.scalar,0,0,0,
        (earlier.foldl TupleTables.publish TupleTables.empty).vectorPayloads.length⟩
        (by simp [TupleTables.publish,kind]) rfl
      exact last

/-- With a scalar behind a payload the published tuple is not even valid. -/
theorem publishedTuple_valid {h : Host} {elements : List Value} {root : TupleTableReservation}
    (valid : Valid h (publishedTuple elements root)) : ScalarsFirst elements := by
  have exact := ((invalidity_none_iff h _).mp valid).tuple rfl
  refine publish_unpaid elements fun node member kind => ?_
  obtain ⟨i,inside,rfl⟩ := List.getElem_of_mem member
  have sound := exact.sound i (Nat.le_of_lt inside)
  have other : i ≠ (publishedTuple elements root).tuple.rootIndex := Nat.ne_of_lt inside
  have here : (publishedTuple elements root).tuple.node i =
      (elements.foldl TupleTables.publish TupleTables.empty).nodes[i] := TupleTables.node_arena inside
  have container : (publishedTuple elements root).tuple.containerAt i = .scalar := by
    rw [TupleValue.containerAt,if_neg other,here,kind]
  rw [TupleValue.NodeSound,container,here] at sound
  exact sound.2.2.2.1

end Comparison

section Admission

variable {h : Host} {r : EvaluationResources} {count : Nat} {c : TupleCounts}

/-- An admitted assembly has its table reserved; its arrays leave the registries alone. -/
theorem preadmitTupleAssembly_ok {granted : Host} {a : PreadmittedTupleAssembly}
    (ok : preadmitTupleAssembly h r count c = (granted,.ok a)) :
    ∃ admitted reservation, h.reserveTupleTable r count = (admitted,.ok reservation) ∧
      admitted.SameRegistries granted ∧ count ≤ c.edges ∧ a = admittedAssembly count c reservation := by
  unfold preadmitTupleAssembly at ok
  split at ok
  · cases ok
  · split at ok
    · cases ok
    · rename_i admitted reservation reserved
      dsimp only at ok
      by_cases short : c.edges < count
      · rw [if_pos short] at ok
        cases ok
      · rw [if_neg short] at ok
        have same := allocateHostArrays_same admitted
          ([c.nodes,c.edges,c.payloads,c.reservations,count].filter (· ≠ 0)).length
        split at ok
        · rename_i filled
          cases ok
          exact ⟨admitted,reservation,reserved,same,by omega,rfl⟩
        · cases ok

/-- The reservation of a table does not read the array requests. -/
theorem reserveTupleTable_requests (requests : Nat) :
    ({ h with arrayRequests := requests } : Host).reserveTupleTable r count =
      ({ (h.reserveTupleTable r count).1 with arrayRequests := requests },(h.reserveTupleTable r count).2) := by
  have modified : ∀ (g : Host) owner account, ({ g with arrayRequests := requests } : Host).setAccount owner
      account = { g.setAccount owner account with arrayRequests := requests } := by
    intro g owner account
    have found : ({ g with arrayRequests := requests } : Host).findState owner = g.findState owner := rfl
    unfold Host.setAccount Host.modifyAccount
    rw [found]
    cases g.findState owner <;> rfl
  have retained : ∀ (g : Host) owner, ({ g with arrayRequests := requests } : Host).retainAccountingOwner
      owner = { g.retainAccountingOwner owner with arrayRequests := requests } := by
    intro g owner
    have found : ({ g with arrayRequests := requests } : Host).findState owner = g.findState owner := rfl
    unfold Host.retainAccountingOwner
    rw [found]
    cases g.findState owner <;> rfl
  have acquired : ({ h with arrayRequests := requests } : Host).acquireValidated r = h.acquireValidated r := rfl
  unfold Host.reserveTupleTable
  rw [acquired]
  cases h.acquireValidated r with
  | none => rfl
  | some state =>
    dsimp only
    rcases state.account.reserveTupleTable (h.bufferPlan r.owner) count with ⟨account,fault | _ | ordinal⟩
    · exact congrArg (·,_) (modified h _ _)
    · exact congrArg (·,_) (modified h _ _)
    · dsimp only
      rw [modified]
      unfold Host.bindFreshBuffer
      rw [retained]

/-- Elements that passed the survey can each be counted. -/
theorem surveyElements_countable {profile : Account} {total : Nat} {f used : HostFailureInjection}
    {next : Host} {before elements : List Value} {counts added : TupleCounts}
    (ok : surveyElements profile total f h before counts elements = (used,next,.ok added))
    (started : counts.nodes ≠ 0) : ∀ v ∈ elements, preadmittedValueCounts v = some v.tableSizes := by
  induction elements generalizing f h before counts with
  | nil => intro v member; cases member
  | cons v rest ih =>
    unfold surveyElements at ok
    split at ok
    · cases ok
    · cases ok
    · rename_i begun later accepted
      have exact := (invalidity_none_iff h v).mp (validateValue_accepts accepted)
      split at ok
      · cases ok
      · split at ok
        · cases ok
        · rename_i more counted
          have sizes : more.nodes ≠ 0 ∧ v.tableSizes.nodes ≤ sizeMax ∧
              v.tableSizes.reservations ≤ sizeMax := by
            have one : 1 ≤ sizeMax := by decide
            unfold TupleCounts.add at counted
            unfold Value.tableSizes
            cases container : v.container with
            | scalar =>
              rw [container] at counted
              cases counted
              exact ⟨started,one,Nat.zero_le _⟩
            | vector =>
              rw [container] at counted
              cases counted
              exact ⟨started,one,Nat.zero_le _⟩
            | tuple =>
              rw [container] at counted
              dsimp only at counted
              split at counted
              · cases counted
              · cases counted
                refine ⟨?_,?_,?_⟩
                all_goals dsimp only; omega
          intro w member
          rcases List.mem_cons.mp member with rfl | later
          · exact exact.counts sizes.2.1 sizes.2.2
          · exact ih ok sizes.1 w later

/-- Countable elements all find room in an assembly admitted for exactly them. -/
theorem transfers_all {elements : List Value} {reservation : TupleTableReservation}
    (countable : ∀ v ∈ elements, preadmittedValueCounts v = some v.tableSizes) :
    ∃ a, Transfers (admittedAssembly elements.length (exactCounts elements) reservation) elements a := by
  have admitted : Assembling elements.length (exactCounts elements) reservation []
      (admittedAssembly elements.length (exactCounts elements) reservation) :=
    .admitted (by simp [exactCounts,TupleCounts.plus])
  have prefixes : ∀ moved rest, elements = moved ++ rest →
      ∃ a, Transfers (admittedAssembly elements.length (exactCounts elements) reservation) moved a := by
    intro moved
    induction moved using List.reverseRecOn with
    | nil => exact fun _ _ => ⟨_,.nothing⟩
    | append_singleton moved v ih =>
      intro rest split
      obtain ⟨a,run⟩ := ih (v :: rest) (by rw [split]; simp)
      have sizes : totalSizes elements = (totalSizes (moved ++ [v])).plus (totalSizes rest) := by
        rw [split,totalSizes_append]
      have length := congrArg List.length split
      have room : RoomFor elements.length (exactCounts elements) moved v := by
        refine ⟨?_,countable v (by rw [split]; simp),?_,?_,?_,?_⟩
        · simp only [List.length_append,List.length_singleton] at length
          omega
        all_goals
          simp only [exactCounts,sizes,TupleCounts.plus]
          omega
      obtain ⟨b,step,-⟩ := (admitted.transfers run).transfer room
      exact ⟨b,run.moved step⟩
  exact prefixes elements [] (List.append_nil _).symm

end Admission

end Bennu
