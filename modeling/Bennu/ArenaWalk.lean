import Mathlib.Algebra.Order.BigOperators.Group.List
import Mathlib.Algebra.Order.Group.Nat
import Mathlib.Data.List.Perm.Subperm
import Bennu.ArenaAccounting
import Bennu.ArenaValidity
import Bennu.StacklessWalk

/-! The walks over a tuple arena as stackless walks over its tree: linking the
parents, the step-by-step correspondence, and the end of a whole walk. -/
namespace Bennu

open StacklessWalk

namespace TupleValue

variable {t u : TupleValue}

/-- The parts of an arena that a walk reads and linking the parents leaves alone. -/
structure Shape (t u : TupleValue) : Prop where
  root : u.rootIndex = t.rootIndex
  size : u.nodes.length = t.nodes.length
  edges : u.childIndexes = t.childIndexes
  records : (u.vectorPayloads,u.reservations,u.rootReservation) =
    (t.vectorPayloads,t.reservations,t.rootReservation)
  rootRange : (u.firstChild,u.childCount) = (t.firstChild,t.childCount)
  container : ∀ i, (u.node i).container = (t.node i).container
  tuple : ∀ i, (t.node i).container = .tuple → (u.node i).firstChild = (t.node i).firstChild ∧
    (u.node i).childCount = (t.node i).childCount ∧
    (u.node i).tupleReservationIndex = (t.node i).tupleReservationIndex
  vector : ∀ i, (t.node i).container = .vector →
    (u.node i).vectorPayloadIndex = (t.node i).vectorPayloadIndex

theorem Shape.refl (t : TupleValue) : t.Shape t :=
  ⟨rfl,rfl,rfl,rfl,rfl,fun _ => rfl,fun _ _ => ⟨rfl,rfl,rfl⟩,fun _ _ => rfl⟩

theorem Shape.trans {v : TupleValue} (first : t.Shape u) (second : u.Shape v) : t.Shape v := by
  refine ⟨second.root.trans first.root,second.size.trans first.size,second.edges.trans first.edges,
    second.records.trans first.records,second.rootRange.trans first.rootRange,
    fun i => (second.container i).trans (first.container i),fun i tuple => ?_,fun i vector => ?_⟩
  · obtain ⟨a,b,c⟩ := first.tuple i tuple
    obtain ⟨a',b',c'⟩ := second.tuple i ((first.container i).trans tuple)
    exact ⟨a'.trans a,b'.trans b,c'.trans c⟩
  · exact (second.vector i ((first.container i).trans vector)).trans (first.vector i vector)

theorem Shape.containerAt (shape : t.Shape u) (i : Nat) : u.containerAt i = t.containerAt i := by
  unfold TupleValue.containerAt
  rw [shape.root,shape.container]

theorem Shape.childRange (shape : t.Shape u) {i : Nat} (tuple : t.containerAt i = .tuple) :
    u.childRange i = t.childRange i := by
  unfold TupleValue.childRange
  rw [shape.root]
  split
  · exact shape.rootRange
  · rename_i inner
    rw [TupleValue.containerAt,if_neg inner] at tuple
    obtain ⟨first,count,-⟩ := shape.tuple i tuple
    rw [first,count]

theorem Shape.childOf (shape : t.Shape u) {i : Nat} (tuple : t.containerAt i = .tuple) (k : Nat) :
    u.childOf i k = t.childOf i k := by
  unfold TupleValue.childOf TupleValue.childAt
  rw [shape.childRange tuple,shape.edges]

theorem Shape.childCountAt (shape : t.Shape u) {i : Nat} (tuple : t.containerAt i = .tuple) :
    u.childCountAt i = t.childCountAt i := by
  unfold TupleValue.childCountAt
  rw [shape.childRange tuple]

theorem node_modify (t : TupleValue) (c i : Nat) (f : ValueNode → ValueNode) :
    TupleValue.node { t with nodes := t.nodes.modify c f } i =
      if c = i ∧ i < t.nodes.length then f (t.node i) else t.node i := by
  simp only [TupleValue.node,List.getD_eq_getElem?_getD,List.getElem?_modify]
  by_cases same : c = i
  · subst same
    by_cases inside : c < t.nodes.length
    · simp [inside]
    · simp [inside]
  · simp [same]

theorem node_setParent (t : TupleValue) (c p i : Nat) :
    (t.setParent c p).node i = if c = i ∧ i < t.nodes.length then
      (if (t.node i).container = .tuple then { t.node i with vectorPayloadIndex := p }
        else { t.node i with firstChild := p }) else t.node i :=
  node_modify t c i _

theorem setParent_shape (t : TupleValue) (c p : Nat) : t.Shape (t.setParent c p) := by
  refine ⟨rfl,by simp [setParent],rfl,rfl,rfl,fun i => ?_,fun i tuple => ?_,fun i vector => ?_⟩
  · rw [node_setParent]
    split
    · split <;> rfl
    · rfl
  · rw [node_setParent,if_pos tuple]
    split <;> exact ⟨rfl,rfl,rfl⟩
  · have other : (t.node i).container ≠ .tuple := by simp [vector]
    rw [node_setParent,if_neg other]
    split <;> rfl

theorem parentOf_setParent (t : TupleValue) (c p i : Nat) :
    (t.setParent c p).parentOf i = if c = i ∧ i < t.nodes.length then p else t.parentOf i := by
  have container := (setParent_shape t c p).container i
  unfold parentOf
  rw [container,node_setParent]
  by_cases here : c = i ∧ i < t.nodes.length
  · simp only [if_pos here]
    by_cases tuple : (t.node i).container = .tuple
    · simp [tuple]
    · simp [tuple]
  · simp only [if_neg here]

/-- The parent links of one node's children. -/
def links (t : TupleValue) (i : Nat) : List (Nat × Nat) :=
  if t.containerAt i = .tuple then (List.range (t.childCountAt i)).map fun k => (t.childOf i k,i) else []

def setLinks (t : TupleValue) (links : List (Nat × Nat)) : TupleValue :=
  links.foldl (fun t link => t.setParent link.1 link.2) t

theorem setLinks_shape (t : TupleValue) (links : List (Nat × Nat)) : t.Shape (t.setLinks links) := by
  induction links generalizing t with
  | nil => exact .refl t
  | cons link rest ih => exact (setParent_shape t link.1 link.2).trans (ih _)

/-- A child whose links all name one parent ends with that parent. -/
theorem setLinks_parent {c p : Nat} (links : List (Nat × Nat)) (inside : c < t.nodes.length)
    (only : ∀ link ∈ links, link.1 = c → link.2 = p)
    (named : (c,p) ∈ links ∨ t.parentOf c = p) : (t.setLinks links).parentOf c = p := by
  induction links generalizing t with
  | nil => exact named.resolve_left (by simp)
  | cons link rest ih =>
    have size : (t.setParent link.1 link.2).nodes.length = t.nodes.length :=
      (setParent_shape t link.1 link.2).size
    refine ih (t := t.setParent link.1 link.2) (by rw [size]; exact inside)
      (fun other member => only other (List.mem_cons_of_mem _ member)) ?_
    rw [parentOf_setParent]
    by_cases here : link.1 = c
    · exact .inr (by rw [if_pos ⟨here,inside⟩]; exact only link (List.mem_cons_self ..) here)
    · rw [if_neg fun both => here both.1]
      rcases named with listed | already
      · rcases List.mem_cons.mp listed with rfl | later
        · exact absurd rfl here
        · exact .inl later
      · exact .inr already

theorem linkChildren_links (shape : t.Shape u) {i : Nat} (tuple : t.containerAt i = .tuple) :
    u.linkChildren i (t.childRange i).1 (t.childRange i).2 = u.setLinks (t.links i) := by
  unfold linkChildren links setLinks childCountAt childOf
  rw [if_pos tuple,List.foldl_map]
  generalize List.range (t.childRange i).2 = offsets
  induction offsets generalizing u with
  | nil => rfl
  | cons offset rest ih =>
    have child : u.childAt ((t.childRange i).1 + offset) = t.childAt ((t.childRange i).1 + offset) := by
      rw [childAt,childAt,shape.edges]
    simp only [List.foldl_cons]
    rw [child]
    exact ih (shape.trans (setParent_shape _ _ _))

/-- Linking sets exactly the links of all nodes, in order. -/
theorem linkParents_links (root : t.rootIndex = t.nodes.length) :
    t.linkParents = t.setLinks ((List.range (t.nodes.length + 1)).flatMap t.links) := by
  have inner : ∀ (indexes : List Nat) (u : TupleValue), t.Shape u →
      (∀ i ∈ indexes, i < t.nodes.length) →
      indexes.foldl (fun u index =>
        let node := u.node index
        if node.container = .tuple then u.linkChildren index node.firstChild node.childCount else u) u =
        u.setLinks (indexes.flatMap t.links) := by
    intro indexes
    induction indexes with
    | nil => exact fun u _ _ => rfl
    | cons i rest ih =>
      intro u shape bound
      have inside := bound i (List.mem_cons_self ..)
      have notRoot : i ≠ t.rootIndex := by omega
      have once : (if (u.node i).container = .tuple then
          u.linkChildren i (u.node i).firstChild (u.node i).childCount else u) = u.setLinks (t.links i) := by
        rw [shape.container]
        split
        · rename_i tuple
          have at' : t.containerAt i = .tuple := by rw [containerAt,if_neg notRoot]; exact tuple
          obtain ⟨first,count,-⟩ := shape.tuple i tuple
          have linked := linkChildren_links shape at'
          rw [childRange,if_neg notRoot] at linked
          rw [first,count]
          exact linked
        · rename_i other
          rw [links,if_neg (by rw [containerAt,if_neg notRoot]; exact other)]
          rfl
      simp only [List.foldl_cons,List.flatMap_cons]
      rw [once,setLinks,setLinks,List.foldl_append]
      exact ih _ (shape.trans (setLinks_shape _ _)) fun j member =>
        bound j (List.mem_cons_of_mem _ member)
  have nodes := inner (List.range t.nodes.length) t (.refl t) (by simp)
  have last := linkChildren_links (t := t) (i := t.rootIndex)
    (setLinks_shape t ((List.range t.nodes.length).flatMap t.links)) (by simp [containerAt])
  unfold linkParents
  dsimp only at nodes ⊢
  simp only [childRange,if_true] at last
  rw [nodes,last,root,List.range_succ,List.flatMap_append]
  simp [setLinks]

theorem linkParents_shape (root : t.rootIndex = t.nodes.length) : t.Shape t.linkParents := by
  rw [linkParents_links root]
  exact setLinks_shape _ _

/-- In a well-formed arena every child is linked to its parent. -/
theorem WellFormed.parent_linked {h : Host} (wf : t.WellFormed h) {i k : Nat} (bound : i ≤ t.nodes.length)
    (tuple : t.containerAt i = .tuple) (less : k < t.childCountAt i) :
    t.linkParents.parentOf (t.childOf i k) = i := by
  have earlier := (wf.seen.checked i bound).earlier tuple k less
  rw [linkParents_links wf.root]
  have member : ∀ link, link ∈ (List.range (t.nodes.length + 1)).flatMap t.links ↔
      ∃ j ≤ t.nodes.length, t.containerAt j = .tuple ∧ ∃ l < t.childCountAt j,
        (t.childOf j l,j) = link := by
    intro link
    simp only [List.mem_flatMap,List.mem_range,Nat.lt_succ_iff,links]
    constructor
    · rintro ⟨j,inside,listed⟩
      split at listed
      · rename_i container
        obtain ⟨l,within,same⟩ := List.mem_map.mp listed
        exact ⟨j,inside,container,l,List.mem_range.mp within,same⟩
      · cases listed
    · rintro ⟨j,inside,container,l,within,same⟩
      refine ⟨j,inside,?_⟩
      rw [if_pos container]
      exact List.mem_map.mpr ⟨l,List.mem_range.mpr within,same⟩
  refine setLinks_parent _ (by omega) (fun link listed same => ?_)
    (.inl ((member _).mpr ⟨i,bound,tuple,k,less,rfl⟩))
  obtain ⟨j,inside,container,l,within,rfl⟩ := (member link).mp listed
  by_contra different
  exact (wf.seen.apart j i inside bound different).children container tuple l within k less same

/-- The tree of a well-formed arena, with the parents that the walks link. -/
def WellFormed.forest {h : Host} (wf : t.WellFormed h) : Forest where
  children := t.childrenAt
  parent := t.linkParents.parentOf
  earlier := by
    intro i c child
    obtain ⟨bound,tuple,k,less,rfl⟩ := mem_childrenAt.mp child
    exact (wf.seen.checked i bound).earlier tuple k less
  linked := by
    intro i c child
    obtain ⟨bound,tuple,k,less,rfl⟩ := mem_childrenAt.mp child
    exact wf.parent_linked bound tuple less
  distinct := by
    intro i
    unfold childrenAt
    split
    · rename_i inside
      refine (List.nodup_range).map_on fun k inK l inL same => ?_
      exact (wf.seen.checked i inside.1).siblings inside.2 k (List.mem_range.mp inK) l
        (List.mem_range.mp inL) same
    · exact List.nodup_nil

/-- Every node of a well-formed arena is walked from its root. -/
theorem WellFormed.mem_order {h : Host} (wf : t.WellFormed h) {i : Nat} (bound : i ≤ t.nodes.length) :
    i ∈ wf.forest.order t.nodes.length := by
  refine Forest.mem_order_root (fun j inside => ?_) bound
  rcases wf.seen.reached j (Nat.le_of_lt inside) with top | ⟨p,within,tuple,k,less,child⟩
  · rw [wf.root] at top
    omega
  · exact ⟨p,within,mem_childrenAt.mpr ⟨within,tuple,k,less,child⟩⟩

/-- The arena in the middle of a walk, with the counts of the children still pending. -/
def withPending (t : TupleValue) (pending : Nat → Nat) : TupleValue :=
  { t with
    childCount := pending t.rootIndex
    nodes := t.nodes.mapIdx fun i node =>
      if node.container = .tuple then { node with childCount := pending i } else node }

theorem node_withPending (t : TupleValue) (pending : Nat → Nat) (i : Nat) :
    (t.withPending pending).node i = if (t.node i).container = .tuple then
      { t.node i with childCount := pending i } else t.node i := by
  simp only [node,withPending,List.getD_eq_getElem?_getD,List.getElem?_mapIdx]
  cases t.nodes[i]? with
  | none => simp
  | some node => simp

@[simp] theorem containerAt_withPending (t : TupleValue) (pending : Nat → Nat) (i : Nat) :
    (t.withPending pending).containerAt i = t.containerAt i := by
  have same : ((t.withPending pending).node i).container = (t.node i).container := by
    rw [node_withPending]
    split <;> rfl
  unfold containerAt
  rw [same]
  rfl

theorem childRange_withPending (t : TupleValue) (pending : Nat → Nat) {i : Nat}
    (tuple : t.containerAt i = .tuple) :
    (t.withPending pending).childRange i = ((t.childRange i).1,pending i) := by
  unfold childRange
  by_cases top : i = t.rootIndex
  · subst top
    simp [withPending]
  · rw [containerAt,if_neg top] at tuple
    rw [if_neg (show i ≠ (t.withPending pending).rootIndex from top),if_neg top,node_withPending,
      if_pos tuple]

@[simp] theorem reservationOf_withPending (t : TupleValue) (pending : Nat → Nat) (i : Nat) :
    (t.withPending pending).reservationOf i = t.reservationOf i := by
  unfold reservationOf
  rw [node_withPending]
  split
  · rename_i top
    rw [if_pos (show i = t.rootIndex from top)]
    rfl
  · rename_i inner
    rw [if_neg (show i ≠ t.rootIndex from inner)]
    split <;> rfl

@[simp] theorem setReservation_withPending (t : TupleValue) (pending : Nat → Nat) (i : Nat)
    (r : TupleTableReservation) :
    (t.withPending pending).setReservation i r = (t.setReservation i r).withPending pending := by
  unfold setReservation
  rw [node_withPending]
  split
  · rename_i top
    rw [if_pos (show i = t.rootIndex from top)]
    rfl
  · rename_i inner
    rw [if_neg (show i ≠ t.rootIndex from inner)]
    split <;> rfl

theorem payloadIndex_withPending (t : TupleValue) (pending : Nat → Nat) (i : Nat) :
    ((t.withPending pending).node i).vectorPayloadIndex = (t.node i).vectorPayloadIndex := by
  rw [node_withPending]
  split <;> rfl

@[simp] theorem parentOf_withPending (t : TupleValue) (pending : Nat → Nat) (i : Nat) :
    (t.withPending pending).parentOf i = t.parentOf i := by
  unfold parentOf
  rw [node_withPending]
  by_cases tuple : (t.node i).container = .tuple
  · simp [tuple]
  · simp [tuple]

/-- Taking a child is one less pending at its node. -/
theorem takeChild_withPending (t : TupleValue) (root : t.rootIndex = t.nodes.length)
    (pending : Nat → Nat) {i : Nat} (tuple : t.containerAt i = .tuple) :
    (t.withPending pending).takeChild i = t.withPending (take pending i) := by
  unfold takeChild
  by_cases top : i = t.rootIndex
  · have same : (t.nodes.mapIdx fun j node =>
        if node.container = .tuple then { node with childCount := take pending i j } else node) =
        t.nodes.mapIdx fun j node =>
          if node.container = .tuple then { node with childCount := pending j } else node := by
      refine List.ext_getElem? fun j => ?_
      simp only [List.getElem?_mapIdx]
      cases found : t.nodes[j]? with
      | none => rfl
      | some node =>
        obtain ⟨inside,-⟩ := List.getElem?_eq_some_iff.mp found
        have other : j ≠ i := by omega
        simp [take,other]
    rw [if_pos (show i = (t.withPending pending).rootIndex from top)]
    unfold withPending
    rw [same]
    simp [take,top]
  · rw [containerAt,if_neg top] at tuple
    have same : (t.nodes.mapIdx fun j node =>
        if node.container = .tuple then { node with childCount := take pending i j } else node) =
        (t.nodes.mapIdx fun j node =>
          if node.container = .tuple then { node with childCount := pending j } else node).modify i
          fun node => { node with childCount := node.childCount - 1 } := by
      refine List.ext_getElem? fun j => ?_
      simp only [List.getElem?_mapIdx,List.getElem?_modify]
      cases found : t.nodes[j]? with
      | none => simp
      | some node =>
        by_cases here : i = j
        · subst here
          have isTuple : node.container = .tuple := by
            simpa [TupleValue.node,List.getD_eq_getElem?_getD,found] using tuple
          simp [isTuple,take]
        · simp [here,take,Ne.symm here]
    rw [if_neg (show i ≠ (t.withPending pending).rootIndex from top)]
    unfold withPending
    rw [same]
    simp [take,Ne.symm top]

/-- The same arena with other records. -/
def Framed (t u : TupleValue) : Prop :=
  ∃ payloads reservations root, u = { t with
    vectorPayloads := payloads, reservations := reservations, rootReservation := root }

theorem Framed.refl (t : TupleValue) : t.Framed t := ⟨_,_,_,rfl⟩

theorem Framed.trans {v : TupleValue} (first : t.Framed u) (second : u.Framed v) : t.Framed v := by
  obtain ⟨_,_,_,rfl⟩ := first
  obtain ⟨_,_,_,rfl⟩ := second
  exact ⟨_,_,_,rfl⟩

theorem setReservation_framed (t : TupleValue) (i : Nat) (r : TupleTableReservation) :
    t.Framed (t.setReservation i r) := by
  unfold setReservation
  split <;> exact ⟨_,_,_,rfl⟩

end TupleValue

section Simulation

variable {visitor : WalkVisitor} {h : Host} {t : TupleValue}

/-- The visit of one node, over the registries and the arena's records. -/
def visitNode (visitor : WalkVisitor) (i : Nat) (d : Host × TupleValue) : Option (Host × TupleValue) :=
  match d.2.containerAt i with
  | .scalar => some d
  | .vector => (visitor.payload d.1 (d.2.payloadOf i)).map fun done =>
    (done.1,{ d.2 with
      vectorPayloads := d.2.vectorPayloads.set (d.2.node i).vectorPayloadIndex done.2 })
  | .tuple => (visitor.table d.1 (d.2.reservationOf i)).map fun done =>
    (done.1,d.2.setReservation i done.2)

theorem visitNode_framed {i : Nat} {d d' : Host × TupleValue} (ok : visitNode visitor i d = some d') :
    d.2.Framed d'.2 := by
  unfold visitNode at ok
  split at ok
  · cases ok
    exact .refl _
  · obtain ⟨done,-,rfl⟩ := Option.map_eq_some_iff.mp ok
    exact ⟨_,_,_,rfl⟩
  · obtain ⟨done,-,rfl⟩ := Option.map_eq_some_iff.mp ok
    exact TupleValue.setReservation_framed _ _ _

/-- What a walk reports when a visit fails. -/
def visitFailure (t : TupleValue) (i : Nat) : ValueInvariant :=
  match t.containerAt i with
  | .tuple => .invalidTupleReservationCount
  | _ => .invalidVectorPayloadHandle

def toState (c : Cursor (Host × TupleValue)) : WalkState :=
  ⟨c.data.1,c.data.2.withPending c.pending,c.node⟩

def toOutcome : Outcome (Host × TupleValue) → WalkOutcome
  | .advanced c => .advanced (toState c)
  | .finished c => .finished (toState c)
  | .failed c => .failed (visitFailure c.data.2 c.node) (toState c)

/-- What stays true of a cursor while the arena is walked. -/
structure Walking (t : TupleValue) (c : Cursor (Host × TupleValue)) : Prop where
  framed : t.linkParents.Framed c.data.2
  bound : c.node ≤ t.nodes.length
  pending : ∀ i, c.pending i ≤ (t.childrenAt i).length
  root : c.data.2.rootReservation = t.rootReservation

variable {c d : Cursor (Host × TupleValue)} (wf : t.WellFormed h)

include wf in
theorem Walking.containerAt (walking : Walking t c) (i : Nat) :
    c.data.2.containerAt i = t.containerAt i := by
  obtain ⟨payloads,reservations,root,same⟩ := walking.framed
  have shape := TupleValue.linkParents_shape wf.root
  rw [same]
  exact shape.containerAt i

include wf in
theorem Walking.size (walking : Walking t c) :
    c.data.2.rootIndex = t.nodes.length ∧ c.data.2.nodes.length = t.nodes.length := by
  obtain ⟨payloads,reservations,root,same⟩ := walking.framed
  have shape := TupleValue.linkParents_shape wf.root
  rw [same]
  exact ⟨shape.root.trans wf.root,shape.size⟩

/-- One iteration of the source's walk is one step of the stackless walk. -/
theorem walkStep_step (visitor : WalkVisitor) (walking : Walking t c) :
    walkStep visitor (toState c) =
      toOutcome (step wf.forest t.nodes.length (visitNode visitor) c) := by
  obtain ⟨⟨h,u⟩,pending,i⟩ := c
  have container := walking.containerAt wf i
  obtain ⟨root,size⟩ := walking.size wf
  have bound : i ≤ t.nodes.length := walking.bound
  have counted := walking.pending i
  obtain ⟨payloads,reservations,own,same⟩ := walking.framed
  have shape := TupleValue.linkParents_shape wf.root
  dsimp only at container root size bound counted same
  have parent : wf.forest.parent i = u.parentOf i := by
    rw [same]
    rfl
  -- Leaving a visited node, whichever records the visit replaced.
  have left : ∀ (next : Host) (v : TupleValue), v.rootIndex = u.rootIndex →
      v.parentOf i = u.parentOf i →
      leaveNode ⟨next,v.withPending pending,i⟩ = toOutcome (
        if i = t.nodes.length then .finished ⟨(next,v),pending,i⟩
        else .advanced ⟨(next,v),pending,wf.forest.parent i⟩) := by
    intro next v rootV parentV
    unfold leaveNode
    rw [show (v.withPending pending).rootIndex = v.rootIndex from rfl,rootV,root,
      TupleValue.parentOf_withPending,parentV,parent]
    split <;> rfl
  unfold walkStep step toState
  dsimp only
  rw [TupleValue.containerAt_withPending]
  cases kind : u.containerAt i with
  | tuple =>
    have tuple : t.containerAt i = .tuple := container.symm.trans kind
    have children : t.childrenAt i = (List.range (t.childCountAt i)).map (t.childOf i) := by
      rw [TupleValue.childrenAt,if_pos ⟨bound,tuple⟩]
    dsimp only
    rw [TupleValue.childRange_withPending _ _ kind]
    dsimp only
    by_cases more : pending i = 0
    · rw [if_neg (not_not.mpr more),if_neg (not_not.mpr more),TupleValue.reservationOf_withPending]
      unfold visitNode
      dsimp only
      rw [kind]
      dsimp only
      cases visited : visitor.table h (u.reservationOf i) with
      | none => simp [toOutcome,visitFailure,kind,toState]
      | some done =>
        obtain ⟨next,r⟩ := done
        dsimp only [Option.map_some]
        rw [TupleValue.setReservation_withPending]
        have frame := TupleValue.setReservation_framed u i r
        obtain ⟨_,_,_,framed⟩ := frame
        exact left next _ (by rw [framed]) (by rw [framed]; rfl)
    · rw [if_pos more,if_pos more,TupleValue.takeChild_withPending u (root.trans size.symm) pending kind]
      rw [children,List.length_map,List.length_range] at counted
      have less : pending i - 1 < t.childCountAt i := by omega
      have child : (wf.forest.children i).getD (pending i - 1) 0 = t.childOf i (pending i - 1) := by
        rw [show wf.forest.children i = t.childrenAt i from rfl,children,
          List.getD_eq_getElem _ _ (by simpa using less)]
        simp
      have edge : (u.withPending pending).childAt ((u.childRange i).1 + (pending i - 1)) =
          t.childOf i (pending i - 1) := by
        rw [← shape.childOf tuple,same]
        rfl
      rw [child,edge]
      rfl
  | vector =>
    have none : pending i = 0 := by
      have empty : t.childrenAt i = [] := by
        rw [TupleValue.childrenAt,if_neg (by simp [container.symm.trans kind])]
      rw [empty] at counted
      exact Nat.le_zero.mp counted
    rw [if_neg (not_not.mpr none)]
    unfold visitNode
    dsimp only
    rw [kind]
    dsimp only
    have payload : (u.withPending pending).payloadOf i = u.payloadOf i := by
      unfold TupleValue.payloadOf
      rw [TupleValue.payloadIndex_withPending]
      rfl
    rw [payload,TupleValue.payloadIndex_withPending]
    cases visited : visitor.payload h (u.payloadOf i) with
    | none => simp [toOutcome,visitFailure,kind,toState]
    | some done =>
      obtain ⟨next,v⟩ := done
      dsimp only [Option.map_some]
      exact left next { u with vectorPayloads := u.vectorPayloads.set (u.node i).vectorPayloadIndex v }
        rfl rfl
  | scalar =>
    have none : pending i = 0 := by
      have empty : t.childrenAt i = [] := by
        rw [TupleValue.childrenAt,if_neg (by simp [container.symm.trans kind])]
      rw [empty] at counted
      exact Nat.le_zero.mp counted
    rw [if_neg (not_not.mpr none)]
    unfold visitNode
    dsimp only
    rw [kind]
    exact left h u rfl rfl

include wf in
theorem Walking.advance (walking : Walking t c)
    (once : step wf.forest t.nodes.length (visitNode visitor) c = .advanced d) : Walking t d := by
  have counts := step_pending once
  have pending : ∀ i, d.pending i ≤ (t.childrenAt i).length := fun i =>
    Nat.le_trans (counts i) (walking.pending i)
  obtain ⟨root,size⟩ := walking.size wf
  unfold step at once
  split at once
  · rename_i more
    cases once
    have inside : c.pending c.node - 1 < (wf.forest.children c.node).length := by
      have bound := walking.pending c.node
      have same : wf.forest.children c.node = t.childrenAt c.node := rfl
      rw [same]
      omega
    refine ⟨walking.framed,?_,pending,walking.root⟩
    dsimp only
    rw [List.getD_eq_getElem _ _ inside]
    have before := wf.forest.earlier (List.getElem_mem inside)
    have bound := walking.bound
    omega
  · split at once
    · cases once
    · rename_i data visited
      split at once
      · cases once
      · rename_i inner
        cases once
        refine ⟨walking.framed.trans (visitNode_framed visited),?_,pending,?_⟩
        · rcases wf.seen.reached c.node walking.bound with top | ⟨p,within,tuple,k,less,child⟩
          · exact absurd (top.trans wf.root) inner
          · have linked := wf.parent_linked within tuple less
            rw [child] at linked
            exact Nat.le_trans (Nat.le_of_eq linked) within
        · refine Eq.trans ?_ walking.root
          unfold visitNode at visited
          split at visited
          · cases visited
            rfl
          · obtain ⟨done,-,rfl⟩ := Option.map_eq_some_iff.mp visited
            rfl
          · obtain ⟨done,-,rfl⟩ := Option.map_eq_some_iff.mp visited
            unfold TupleValue.setReservation
            rw [if_neg (by rw [root]; exact inner)]

/-- The source's loop follows any number of steps. -/
theorem walk_steps {n m : Nat} (steps : Steps wf.forest t.nodes.length (visitNode visitor) n c d)
    (walking : Walking t c) :
    walk visitor (n + m) (toState c) = walk visitor m (toState d) ∧ Walking t d := by
  induction steps with
  | refl c => exact ⟨by rw [Nat.zero_add],walking⟩
  | head once rest ih =>
    obtain ⟨follows,last⟩ := ih (walking.advance wf once)
    refine ⟨?_,last⟩
    rw [Nat.add_right_comm,walk,walkStep_step wf visitor walking,once]
    exact follows

/-- The children of each node, all still pending. -/
def allPending (t : TupleValue) (i : Nat) : Nat := (t.childrenAt i).length

include wf in
theorem withPending_all : t.linkParents.withPending (allPending t) = t.linkParents := by
  have shape := TupleValue.linkParents_shape wf.root
  have counts : ∀ i ≤ t.nodes.length, t.containerAt i = .tuple → allPending t i = t.childCountAt i := by
    intro i bound tuple
    rw [allPending,TupleValue.childrenAt,if_pos ⟨bound,tuple⟩]
    simp
  have range := shape.rootRange
  simp only [Prod.mk.injEq] at range
  have top : allPending t t.linkParents.rootIndex = t.linkParents.childCount := by
    rw [shape.root,range.2,counts t.rootIndex (Nat.le_of_eq wf.root) (by simp [TupleValue.containerAt])]
    simp [TupleValue.childCountAt,TupleValue.childRange]
  have nodes : (t.linkParents.nodes.mapIdx fun i node =>
      if node.container = .tuple then { node with childCount := allPending t i } else node) =
      t.linkParents.nodes := by
    refine List.ext_getElem? fun i => ?_
    simp only [List.getElem?_mapIdx]
    cases found : t.linkParents.nodes[i]? with
    | none => rfl
    | some node =>
      have isNode : t.linkParents.node i = node := by
        simp [TupleValue.node,List.getD_eq_getElem?_getD,found]
      obtain ⟨inside,-⟩ := List.getElem?_eq_some_iff.mp found
      rw [shape.size] at inside
      have notRoot : i ≠ t.rootIndex := by
        have root := wf.root
        omega
      simp only [Option.map_some,Option.some.injEq]
      split
      · rename_i tuple
        have inTree : t.containerAt i = .tuple := by
          rw [TupleValue.containerAt,if_neg notRoot,← shape.container,isNode]
          exact tuple
        have own := (shape.tuple i (by rw [← shape.container,isNode]; exact tuple)).2.1
        rw [counts i (Nat.le_of_lt inside) inTree,TupleValue.childCountAt,TupleValue.childRange,
          if_neg notRoot,← own,isNode]
      · rfl
  unfold TupleValue.withPending
  rw [nodes,top]

/-- The fuel of a walk covers every step. -/
theorem walkFuel_enough : 2 * (wf.forest.below t.nodes.length).length + 1 ≤ walkFuel t := by
  have small : (wf.forest.below t.nodes.length).length ≤ t.nodes.length := by
    have nodup := Forest.order_nodup (f := wf.forest) t.nodes.length
    have size := (List.Nodup.subperm nodup fun i member => List.mem_range.mpr
      (Nat.lt_succ_of_le (Forest.le_of_mem_order member))).length_le
    rw [Forest.order_eq,List.length_append,List.length_singleton,List.length_range] at size
    omega
  have edges : t.nodes.length ≠ 0 → 1 ≤ t.childCount + (t.nodes.map (·.childCount)).sum := by
    intro some
    rcases wf.seen.reached (t.nodes.length - 1) (Nat.sub_le _ _) with top | ⟨p,within,tuple,k,less,-⟩
    · rw [wf.root] at top
      omega
    · unfold TupleValue.childCountAt TupleValue.childRange at less
      split at less
      · dsimp only at less
        omega
      · rename_i inner
        have inside : p < t.nodes.length := by
          have root := wf.root
          omega
        have share : (t.node p).childCount ≤ (t.nodes.map (·.childCount)).sum := by
          rw [TupleValue.node,List.getD_eq_getElem _ _ inside]
          exact List.le_sum_of_mem (List.mem_map_of_mem (List.getElem_mem inside))
        dsimp only at less
        omega
  unfold walkFuel
  by_cases none : t.nodes.length = 0
  · rw [none] at small ⊢
    have size : (wf.forest.below 0).length = 0 := Nat.le_zero.mp (none ▸ small)
    rw [size]
    exact Nat.le_trans (by decide) (Nat.mul_le_mul (Nat.le_add_left 1 _) (Nat.le_refl 2))
  · have count := edges none
    have product : 2 * (t.nodes.length + 2) ≤
        (t.childCount + (t.nodes.map (·.childCount)).sum + 1) * (t.nodes.length + 2) :=
      Nat.mul_le_mul (by omega) (Nat.le_refl _)
    omega

/-- The walk's first state: every child pending, at the root. -/
def walkStart (h : Host) (t : TupleValue) : Cursor (Host × TupleValue) :=
  ⟨(h,t.linkParents),allPending t,t.nodes.length⟩

include wf in
theorem Walking.start (g : Host) : Walking t (walkStart g t) := by
  have records := (TupleValue.linkParents_shape wf.root).records
  simp only [Prod.mk.injEq] at records
  exact ⟨.refl _,Nat.le_refl _,fun i => Nat.le_refl _,records.2.2⟩

include wf in
theorem toState_start (g : Host) : toState (walkStart g t) = ⟨g,t.linkParents,t.rootIndex⟩ := by
  unfold toState walkStart
  dsimp only
  rw [withPending_all wf,wf.root]

/-- How a whole walk ends: every node visited in order, or stopped in front of the
first visit that fails, with the root's children already being counted down. -/
theorem walkArena_visits (visitor : WalkVisitor) :
    match visitAll (visitNode visitor) (wf.forest.order t.nodes.length) (h,t.linkParents) with
    | some data => ∃ pending, walkArena visitor h t = (data.1,data.2.withPending pending,none)
    | none => ∃ last tuple invariant, walkArena visitor h t = (last,tuple,some invariant) ∧
        tuple.rootReservation = t.rootReservation ∧ (t.childCount ≠ 0 → tuple.childCount < t.childCount) := by
  obtain ⟨start,isStart⟩ : ∃ start, start = walkStart h t := ⟨_,rfl⟩
  have walking : Walking t start := isStart ▸ .start wf h
  have begins : toState start = ⟨h,t.linkParents,t.rootIndex⟩ := isStart ▸ toState_start wf h
  have atRoot : start.node = t.nodes.length := by rw [isStart,walkStart]
  have full : ∀ j ∈ wf.forest.order t.nodes.length,
      start.pending j = (wf.forest.children j).length := fun j _ => by rw [isStart]; rfl
  obtain ⟨n,within,last,steps,ended⟩ := @walk_root _ _ _ (visitNode visitor) start atRoot full
  obtain ⟨m,isFuel⟩ : ∃ m, walkFuel t = n + (m + 1) := by
    have enough := walkFuel_enough wf
    exact ⟨walkFuel t - n - 1,by omega⟩
  obtain ⟨follows,lastWalking⟩ := walk_steps wf (m := m + 1) steps walking
  have once := walkStep_step wf visitor lastWalking
  have whole : walkArena visitor h t = ((walk visitor (m + 1) (toState last)).1.host,
      (walk visitor (m + 1) (toState last)).1.tuple,(walk visitor (m + 1) (toState last)).2) := by
    unfold walkArena
    rw [isFuel,← begins,follows]
  rw [show start.data = (h,t.linkParents) by rw [isStart,walkStart]] at ended
  cases result : visitAll (visitNode visitor) (wf.forest.order t.nodes.length) (h,t.linkParents) with
  | some data =>
    rw [result] at ended
    dsimp only at ended
    rw [ended] at once
    rw [walk,once] at whole
    exact ⟨_,whole⟩
  | none =>
    rw [result] at ended
    dsimp only at ended
    rw [ended] at once
    rw [walk,once] at whole
    refine ⟨_,_,_,whole,lastWalking.root,fun some => ?_⟩
    have pendingRoot : allPending t t.nodes.length = t.childCount := by
      have tuple : t.containerAt t.nodes.length = .tuple := by simp [TupleValue.containerAt,wf.root]
      rw [allPending,TupleValue.childrenAt,if_pos ⟨Nat.le_refl _,tuple⟩]
      simp [TupleValue.childCountAt,TupleValue.childRange,wf.root]
    obtain ⟨root,-⟩ := lastWalking.size wf
    change last.pending last.data.2.rootIndex < t.childCount
    rw [root,← pendingRoot]
    have moved : n ≠ 0 := by
      rintro rfl
      cases steps
      unfold step at ended
      rw [isStart,walkStart] at ended
      simp only [pendingRoot,some,ne_eq,not_false_eq_true,if_true] at ended
      cases ended
    have children : start.pending start.node ≠ 0 := by
      rw [isStart]
      exact fun zero => some (pendingRoot.symm.trans zero)
    have descended := steps.descended children moved
    rwa [isStart] at descended

end Simulation
end Bennu
