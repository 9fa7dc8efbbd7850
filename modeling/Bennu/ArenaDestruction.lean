import Bennu.ArenaVisits

/-! Destruction in place: the walk ends, leaves every node once, frees every buffer once,
and reads each field of the node table in the meaning that it has by then. -/
namespace Bennu

open StacklessWalk

/-- The node that a step is done with. -/
def WalkState.completes (s : WalkState) : Option Nat :=
  match s.tuple.containerAt s.node with
  | .tuple => if (s.tuple.childRange s.node).2 = 0 then some s.node else none
  | .vector => some s.node
  | .scalar => some s.node

/-- The tuple node whose counter a step counts down. -/
def WalkState.descends (s : WalkState) : Option Nat :=
  match s.tuple.containerAt s.node with
  | .tuple => if (s.tuple.childRange s.node).2 = 0 then none else some s.node
  | .vector => none
  | .scalar => none

/-- The storage of the record that a step ends. -/
def WalkState.frees (s : WalkState) : Option Nat :=
  match s.tuple.containerAt s.node with
  | .tuple => if (s.tuple.childRange s.node).2 = 0 then (s.tuple.reservationOf s.node).payload else none
  | .vector => (s.tuple.payloadOf s.node).storage
  | .scalar => none

/-- Every field that a step reads, in the meaning it has by then: the counter of a tuple
node counts the children not yet gone down to, the field that `parentOf` reads is a link,
and all others are as they were before the arena was linked. -/
structure ReadsInTurn (t : TupleValue) (before : List WalkState) (s : WalkState) : Prop where
  bound : s.node ≤ t.nodes.length
  root : s.tuple.rootIndex = t.rootIndex
  container : s.tuple.containerAt s.node = t.containerAt s.node
  first : t.containerAt s.node = .tuple → (s.tuple.childRange s.node).1 = (t.childRange s.node).1
  counter : t.containerAt s.node = .tuple →
    (s.tuple.childRange s.node).2 + (before.filterMap WalkState.descends).count s.node =
      t.childCountAt s.node
  edges : s.tuple.childIndexes = t.childIndexes
  table : t.containerAt s.node = .tuple → (s.tuple.childRange s.node).2 = 0 →
    s.tuple.reservationOf s.node = t.reservationOf s.node
  payload : t.containerAt s.node = .vector → s.tuple.payloadOf s.node = t.payloadOf s.node
  parent : s.node ≠ t.rootIndex → s.node ∈ t.childrenAt (s.tuple.parentOf s.node)

/-- A walk that frees: `links` are the links that the unlinked arena gives, the trace of the
loop ends however much fuel there is, and its steps leave every node once and free the
storage of every record once, each step no other. -/
structure DestroysOnce (visitor : WalkVisitor) (h : Host) (t : TupleValue) : Prop where
  links : t.linkParents = t.setLinks ((List.range (t.nodes.length + 1)).flatMap t.links)
  ends : ∃ before last after,
    (∀ more, walkTrace visitor (walkFuel t + more) ⟨h,t.linkParents,t.rootIndex⟩ = before ++ [last]) ∧
      walkStep visitor last = .finished after ∧ walkArena visitor h t = (after.host,after.tuple,none)
  nodes : ((walkTrace visitor (walkFuel t) ⟨h,t.linkParents,t.rootIndex⟩).filterMap
    WalkState.completes).Perm (List.range (t.nodes.length + 1))
  storage : ((walkTrace visitor (walkFuel t) ⟨h,t.linkParents,t.rootIndex⟩).filterMap
    WalkState.frees).Perm t.storages
  distinct : t.storages.Nodup
  registry : ∀ s ∈ walkTrace visitor (walkFuel t) ⟨h,t.linkParents,t.rootIndex⟩, ∀ q,
    (walkStep visitor s).state.host.findRecord q = if s.frees = some q then none else s.host.findRecord q
  reads : ∀ before s rest, walkTrace visitor (walkFuel t) ⟨h,t.linkParents,t.rootIndex⟩ =
    before ++ s :: rest → ReadsInTurn t before s

/-- What the destruction of a value gives back to the host. -/
inductive Freed where
  | buffer (payload : Nat)
  | nodes | childIndexes | vectorPayloads | reservations
  deriving DecidableEq, Repr

/-- The tables that an arena holds. -/
def TupleValue.tables (t : TupleValue) : List Freed :=
  (if t.nodes = [] then [] else [.nodes]) ++ (if t.childIndexes = [] then [] else [.childIndexes]) ++
    (if t.vectorPayloads = [] then [] else [.vectorPayloads]) ++
    (if t.reservations = [] then [] else [.reservations])

/-- What a value's destructor frees. -/
def Value.dropped (v : Value) : List Freed :=
  (v.holdings.filterMap (·.storage)).map .buffer ++ v.tuple.tables

/-- What a destruction frees: first what the visits free, then what the destructor finds. -/
def Value.destruction (visitor : WalkVisitor) (h : Host) (v : Value) : List Freed :=
  match v.container with
  | .scalar => v.dropped
  | .vector => v.vector.storage.toList.map .buffer ++ { v with vector := v.vector.released }.dropped
  | .tuple => ((walkTrace visitor (walkFuel v.tuple) ⟨h,v.tuple.linkParents,v.tuple.rootIndex⟩).filterMap
      WalkState.frees).map .buffer ++ { v with tuple := (walkArena visitor h v.tuple).2.1 }.dropped

/-- A value destroyed: all it held is freed, each thing once, no other buffer is touched and
nothing is left in the value. -/
structure Destroyed (visitor : WalkVisitor) (h : Host) (v : Value) (h' : Host) (v' : Value) : Prop where
  freed : (v.destruction visitor h).Perm v.dropped
  distinct : v.dropped.Nodup
  held : ∀ q, .buffer q ∈ v.dropped → (h.findRecord q).isSome = true
  registry : ∀ q, h'.findRecord q = if .buffer q ∈ v.dropped then none else h.findRecord q
  emptied : v'.dropped = []
  walk : v.container = .tuple → DestroysOnce visitor h v.tuple

section Steps

variable {visitor : WalkVisitor} {payload : VectorValue → VectorValue}
  {table : TupleTableReservation → TupleTableReservation} {h : Host} {t : TupleValue}
  {c : Cursor (Host × TupleValue)} (wf : t.WellFormed h)

omit wf in
theorem Walking.no_children (walking : Walking t c) (leaf : t.containerAt c.node ≠ .tuple) :
    c.pending c.node = 0 := by
  have counted := walking.pending c.node
  have empty : t.childrenAt c.node = [] := by
    rw [TupleValue.childrenAt,if_neg fun both => leaf both.2]
  rw [empty] at counted
  exact Nat.le_zero.mp counted

include wf in
/-- What a step does at the loop's state is what it does at the cursor. -/
theorem Walking.observed (walking : Walking t c) :
    (toState c).completes = c.visits ∧ (toState c).descends = c.descends ∧
      (toState c).frees = match t.containerAt c.node with
        | .tuple => if c.pending c.node = 0 then (c.data.2.reservationOf c.node).payload else none
        | .vector => (c.data.2.payloadOf c.node).storage
        | .scalar => none := by
  have container := walking.containerAt wf c.node
  have payloads : (c.data.2.withPending c.pending).payloadOf c.node = c.data.2.payloadOf c.node := by
    rw [TupleValue.payloadOf,TupleValue.payloadIndex_withPending]
    rfl
  unfold WalkState.completes WalkState.descends WalkState.frees Cursor.visits Cursor.descends toState
  dsimp only
  rw [TupleValue.containerAt_withPending,container]
  cases kind : t.containerAt c.node with
  | tuple =>
    dsimp only
    rw [TupleValue.childRange_withPending _ _ (container.trans kind),
      TupleValue.reservationOf_withPending]
    exact ⟨rfl,rfl,rfl⟩
  | vector =>
    have none := walking.no_children (by simp [kind])
    dsimp only
    rw [payloads,if_pos none,if_pos none]
    exact ⟨rfl,rfl,rfl⟩
  | scalar =>
    have none := walking.no_children (by simp [kind])
    dsimp only
    rw [if_pos none,if_pos none]
    exact ⟨rfl,rfl,rfl⟩

theorem observed_run {before : List (Cursor (Host × TupleValue))}
    (run : Run wf.forest t.nodes.length (visitNode visitor) before (walkStart h t) c) :
    ∀ e ∈ before, Walking t e := by
  intro e member
  obtain ⟨p,q,rfl⟩ := List.append_of_mem member
  exact (Walking.start wf h).run wf run.split.1

variable {before rest : List (Cursor (Host × TupleValue))}

/-- The records that are still to be visited when a step is taken are those of the arena. -/
theorem visited_run (maps : visitor.Maps payload table)
    (run : Run wf.forest t.nodes.length (visitNode visitor) before (walkStart h t) c)
    (whole : (before ++ c :: rest).filterMap Cursor.visits = wf.forest.order t.nodes.length) :
    Visited t payload table (before.filterMap Cursor.visits) c.data.2 ∧
      ∀ i, c.visits = some i → i ∉ before.filterMap Cursor.visits := by
  have nodup : ((before ++ c :: rest).filterMap Cursor.visits).Nodup := whole ▸ Forest.order_nodup _
  rw [List.filterMap_append,filterMap_head] at nodup
  obtain ⟨first,-,apart⟩ := List.nodup_append.mp nodup
  refine ⟨?_,fun i visits member => apart i member i (by simp [visits]) rfl⟩
  have started : Visited t payload table [] t.linkParents := .start wf
  have inside : ∀ i ∈ before.filterMap Cursor.visits, i ≤ t.nodes.length := by
    intro i member
    refine Forest.le_of_mem_order (f := wf.forest) ?_
    rw [← whole,List.filterMap_append]
    exact List.mem_append_left _ member
  exact started.visitAll wf maps (d := (h,t.linkParents)) inside first run.data

theorem frees_run (maps : visitor.Maps payload table)
    (run : Run wf.forest t.nodes.length (visitNode visitor) before (walkStart h t) c)
    (whole : (before ++ c :: rest).filterMap Cursor.visits = wf.forest.order t.nodes.length) :
    (toState c).frees = c.visits.bind t.bufferAt := by
  have walking := (Walking.start wf h).run wf run
  obtain ⟨visited,fresh⟩ := visited_run wf maps run whole
  have held := (wf.record walking.bound).2
  unfold TupleValue.recordAt at held
  rw [(walking.observed wf).2.2]
  by_cases done : c.pending c.node = 0
  · have visits : c.visits = some c.node := if_pos done
    rw [visits,Option.bind_some,← held]
    cases kind : t.containerAt c.node with
    | tuple =>
      dsimp only
      rw [if_pos done,visited.tables c.node walking.bound kind,if_neg (fresh _ visits)]
      rfl
    | vector =>
      dsimp only
      rw [visited.payloads c.node walking.bound kind,if_neg (fresh _ visits)]
      rfl
    | scalar => rfl
  · have tuple : t.containerAt c.node = .tuple := by
      by_contra leaf
      exact done (walking.no_children leaf)
    rw [tuple,Cursor.visits,if_neg done]
    dsimp only
    rw [if_neg done]
    rfl

/-- Every step of a run reads its fields in turn. -/
theorem reads_run (maps : visitor.Maps payload table)
    (run : Run wf.forest t.nodes.length (visitNode visitor) before (walkStart h t) c)
    (whole : (before ++ c :: rest).filterMap Cursor.visits = wf.forest.order t.nodes.length) :
    ReadsInTurn t (before.map toState) (toState c) := by
  have walking := (Walking.start wf h).run wf run
  have container := walking.containerAt wf c.node
  obtain ⟨visited,fresh⟩ := visited_run wf maps run whole
  obtain ⟨_,_,_,framed⟩ := walking.framed
  have shape := TupleValue.linkParents_shape wf.root
  have range : t.containerAt c.node = .tuple →
      ((toState c).tuple.childRange c.node) = ((t.childRange c.node).1,c.pending c.node) := by
    intro tuple
    refine (TupleValue.childRange_withPending _ _ (container.trans tuple)).trans ?_
    have same : c.data.2.childRange c.node = t.childRange c.node := by
      rw [framed]
      exact shape.childRange tuple
    rw [same]
  refine ⟨walking.bound,(walking.size wf).1.trans wf.root.symm,
    (TupleValue.containerAt_withPending _ _ _).trans container,fun tuple => by rw [show
      (toState c).node = c.node from rfl,range tuple],fun tuple => ?_,?_,fun tuple none => ?_,
    fun vector => ?_,fun inner => ?_⟩
  · have counted := run.pending c.node
    have noted : (before.map toState).filterMap WalkState.descends =
        before.filterMap Cursor.descends := by
      rw [List.filterMap_map]
      exact List.filterMap_congr fun e member => ((observed_run wf run e member).observed wf).2.1
    have all : allPending t c.node = t.childCountAt c.node := by
      rw [allPending,TupleValue.childrenAt,if_pos ⟨walking.bound,tuple⟩]
      simp
    rw [noted,show (toState c).node = c.node from rfl,range tuple,← all]
    exact counted
  · change c.data.2.childIndexes = t.childIndexes
    rw [framed]
    exact shape.edges
  · have done : c.pending c.node = 0 := by
      rw [show (toState c).node = c.node from rfl,range tuple] at none
      exact none
    have own := visited.tables c.node walking.bound tuple
    rw [if_neg (fresh _ (if_pos done))] at own
    exact (TupleValue.reservationOf_withPending _ _ _).trans own
  · have done := walking.no_children (by rw [show t.containerAt c.node = .vector from vector]; simp)
    have own := visited.payloads c.node walking.bound vector
    rw [if_neg (fresh _ (if_pos done))] at own
    refine Eq.trans ?_ own
    change (c.data.2.withPending c.pending).payloadOf c.node = _
    rw [TupleValue.payloadOf,TupleValue.payloadIndex_withPending]
    rfl
  · change c.node ∈ t.childrenAt ((c.data.2.withPending c.pending).parentOf c.node)
    rw [TupleValue.parentOf_withPending,framed]
    rcases wf.seen.reached c.node walking.bound with top | ⟨p,within,tuple,k,less,child⟩
    · exact absurd top inner
    · have linked := wf.parent_linked within tuple less
      rw [child] at linked
      change c.node ∈ t.childrenAt (t.linkParents.parentOf c.node)
      rw [linked]
      exact TupleValue.mem_childrenAt.mpr ⟨within,tuple,k,less,child⟩

/-- A step that does not fail edits the registration of what it frees and no other. -/
theorem registry_run (maps : visitor.Maps payload table) (edits : visitor.Edits fun _ => none)
    (run : Run wf.forest t.nodes.length (visitNode visitor) before (walkStart h t) c)
    (whole : (before ++ c :: rest).filterMap Cursor.visits = wf.forest.order t.nodes.length)
    (ok : step wf.forest t.nodes.length (visitNode visitor) c ≠ .failed c) (q : Nat) :
    (walkStep visitor (toState c)).state.host.findRecord q =
      if (toState c).frees = some q then none else (toState c).host.findRecord q := by
  have walking := (Walking.start wf h).run wf run
  obtain ⟨visited,fresh⟩ := visited_run wf maps run whole
  rw [walkStep_step wf visitor walking,frees_run wf maps run whole]
  unfold step at ok ⊢
  by_cases done : c.pending c.node = 0
  · have visits : c.visits = some c.node := if_pos done
    rw [if_neg (not_not.mpr done)] at ok ⊢
    rw [visits,Option.bind_some]
    cases replaced : visitNode visitor c.node c.data with
    | none =>
      rw [replaced] at ok
      exact absurd rfl ok
    | some data =>
      have edited := visited.visit_record wf edits walking.bound (fresh _ visits) replaced q
      rw [Option.bind_fun_none] at edited
      dsimp only
      split <;> exact edited
  · rw [if_pos done,Cursor.visits,if_neg done]
    simp [toOutcome,WalkOutcome.state,toState]

/-- A walk over an exact arena that fails nowhere destroys it once. -/
theorem destroys_once {scalar : ScalarValue} (exact : t.Exact h scalar)
    (maps : visitor.Maps payload table) (edits : visitor.Edits fun _ => none) {last : Host}
    {u : TupleValue} (ok : walkArena visitor h t = (last,u,none)) : DestroysOnce visitor h t := by
  have wf := exact.wellFormed
  obtain ⟨before,final,run,ended,whole,-,traced⟩ := walkArena_run wf ok
  have trace : walkTrace visitor (walkFuel t) ⟨h,t.linkParents,t.rootIndex⟩ =
      (before ++ [final]).map toState := traced 0
  -- Each state of the trace, with the run that leads to it and the step it takes.
  have states : ∀ p c q, before ++ [final] = p ++ c :: q →
      Run wf.forest t.nodes.length (visitNode visitor) p (walkStart h t) c ∧
      (p ++ c :: q).filterMap Cursor.visits = wf.forest.order t.nodes.length ∧
      step wf.forest t.nodes.length (visitNode visitor) c ≠ .failed c := by
    intro p c q split
    rcases List.eq_nil_or_concat q with rfl | ⟨q,e,rfl⟩
    · obtain ⟨rfl,rfl⟩ := List.concat_inj.mp (by simpa using split)
      refine ⟨run,whole,fun failed => ?_⟩
      have stepped := walkStep_step wf visitor ((Walking.start wf h).run wf run)
      rw [ended,failed] at stepped
      cases stepped
    · have parts : before = p ++ c :: q ∧ final = e := List.concat_inj.mp (by simpa using split)
      obtain ⟨rfl,rfl⟩ := parts
      obtain ⟨first,second⟩ := run.split
      refine ⟨first,split ▸ whole,fun failed => ?_⟩
      cases second with
      | head once _ =>
        rw [failed] at once
        cases once
  have every : ∀ c ∈ before ++ [final], (toState c).completes = c.visits ∧
      (toState c).frees = c.visits.bind t.bufferAt := by
    intro c member
    obtain ⟨p,q,split⟩ := List.append_of_mem member
    obtain ⟨leading,order,-⟩ := states p c q split
    exact ⟨(((Walking.start wf h).run wf leading).observed wf).1,frees_run wf maps leading order⟩
  refine ⟨TupleValue.linkParents_links wf.root,⟨before.map toState,toState final,_,fun more => ?_,
    ended,ok⟩,?_,?_,?_,?_,?_⟩
  · rw [traced more,List.map_append,List.map_singleton]
  · have noted : (before ++ [final]).filterMap (WalkState.completes ∘ toState) =
        wf.forest.order t.nodes.length :=
      (List.filterMap_congr fun c member => (every c member).1).trans whole
    rw [trace,List.filterMap_map,noted]
    exact wf.order_perm
  · have noted : (before ++ [final]).filterMap (WalkState.frees ∘ toState) =
        (wf.forest.order t.nodes.length).filterMap t.bufferAt := by
      rw [← whole,List.filterMap_filterMap]
      exact List.filterMap_congr fun c member => (every c member).2
    have listed : ∀ nodes : List Nat, nodes.filterMap t.bufferAt = nodes.flatMap t.buffersAt := by
      intro nodes
      induction nodes with
      | nil => rfl
      | cons i rest ih =>
        rw [filterMap_head,ih]
        rfl
    rw [trace,List.filterMap_map,noted,listed]
    exact (wf.order_perm.flatMap_right t.buffersAt).trans exact.storages_perm.symm
  · exact exact.storages_perm.nodup_iff.mpr exact.storage
  · intro s member q
    rw [trace] at member
    obtain ⟨c,listed,rfl⟩ := List.mem_map.mp member
    obtain ⟨p,rest,split⟩ := List.append_of_mem listed
    obtain ⟨leading,order,moves⟩ := states p c rest split
    exact registry_run wf maps edits leading order moves q
  · intro earlier s later split
    rw [trace] at split
    obtain ⟨p,q,parts,rfl,tail⟩ := List.map_eq_append_iff.mp split
    obtain ⟨c,rest,rfl,rfl,-⟩ := List.map_eq_cons_iff.mp tail
    obtain ⟨leading,order,-⟩ := states p c rest parts
    exact reads_run wf maps leading order

end Steps

section Operations

variable {h : Host} {v : Value}

theorem released_drop {w : VectorValue} (sound : w.Sound h) (g : Host) : g.dropVector w.released = g := by
  have inactive : w.released.booleans = none ∧ w.released.integers = none ∧ w.released.doubles = none := by
    have booleans := sound.booleansInactive
    have integers := sound.integersInactive
    have doubles := sound.doublesInactive
    rcases w with ⟨type,boolean,_,integer,_,double,_,_,_,_,_⟩
    dsimp only at booleans integers doubles
    unfold VectorValue.released VectorValue.resetStorage VectorValue.storage
    cases type with
    | boolean =>
      obtain ⟨rfl,-⟩ := integers (by simp)
      obtain ⟨rfl,-⟩ := doubles (by simp)
      cases boolean <;> exact ⟨rfl,rfl,rfl⟩
    | integer =>
      obtain ⟨rfl,-⟩ := booleans (by simp)
      obtain ⟨rfl,-⟩ := doubles (by simp)
      cases integer <;> exact ⟨rfl,rfl,rfl⟩
    | doublePrecision =>
      obtain ⟨rfl,-⟩ := booleans (by simp)
      obtain ⟨rfl,-⟩ := integers (by simp)
      cases double <;> exact ⟨rfl,rfl,rfl⟩
  obtain ⟨booleans,integers,doubles⟩ := inactive
  simp [Host.dropVector,booleans,integers,doubles,Host.releaseHostBuffer]

theorem dropVectors_none {vs : List VectorValue} {g : Host} (none : ∀ w ∈ vs, g.dropVector w = g) :
    vs.foldl Host.dropVector g = g := by
  induction vs with
  | nil => rfl
  | cons w rest ih =>
    rw [List.foldl_cons,none w (List.mem_cons_self ..)]
    exact ih fun x member => none x (List.mem_cons_of_mem _ member)

theorem dropReservations_none {rs : List TupleTableReservation} {g : Host}
    (none : ∀ r ∈ rs, r.payload = none) : rs.foldl Host.dropReservation g = g := by
  induction rs with
  | nil => rfl
  | cons r rest ih =>
    have first : g.dropReservation r = g := by
      rw [Host.dropReservation,none r (List.mem_cons_self ..)]
      rfl
    rw [List.foldl_cons,first]
    exact ih fun x member => none x (List.mem_cons_of_mem _ member)

theorem Value.Exact.dropped_scalar (exact : v.Exact h) (container : v.container = .scalar) :
    v.dropped = [] := by
  unfold Value.dropped Value.holdings
  rw [exact.vectorEmpty (by simp [container]),exact.tupleEmpty (by simp [container])]
  rfl

theorem Value.Exact.dropped_vector (exact : v.Exact h) (container : v.container = .vector) :
    v.dropped = v.vector.storage.toList.map .buffer := by
  unfold Value.dropped Value.holdings
  rw [exact.tupleEmpty (by simp [container]),filterMap_head]
  have none : emptyTuple.holdings.filterMap (·.storage) = [] := rfl
  have noTables : emptyTuple.tables = [] := rfl
  rw [none,noTables,List.append_nil,List.append_nil]
  rfl

theorem Value.Exact.dropped_tuple (exact : v.Exact h) (container : v.container = .tuple) :
    v.dropped = v.tuple.storages.map .buffer ++ v.tuple.tables := by
  unfold Value.dropped Value.holdings
  rw [exact.vectorEmpty (by simp [container])]
  rfl

theorem Registered.found {element : HostElement} {storage : Option Nat} {bytes q : Nat}
    (registered : Registered h element storage bytes) (own : storage = some q) :
    (h.findRecord q).isSome = true := by
  subst own
  obtain ⟨record,found,-⟩ := registered
  rw [found]
  rfl

/-- The storage of an exact arena is registered. -/
theorem TupleValue.Exact.storage_found {t : TupleValue} {scalar : ScalarValue} (exact : t.Exact h scalar)
    {q : Nat} (own : q ∈ t.storages) : (h.findRecord q).isSome = true := by
  have wf := exact.wellFormed
  obtain ⟨i,inside,buffer⟩ := List.mem_flatMap.mp (exact.storages_perm.mem_iff.mp own)
  have bound : i ≤ t.nodes.length := Nat.le_of_lt_succ (List.mem_range.mp inside)
  have held := (wf.record bound).2.trans (Option.mem_toList.mp buffer)
  unfold TupleValue.recordAt at held
  cases container : t.containerAt i with
  | scalar => simp [container,TupleTableReservation.holding,emptyReservation,TupleTableReservation.payload] at held
  | vector =>
    rw [container] at held
    exact ((vectorValidation_none h _).mp (wf.payload bound container).2).registered.found held
  | tuple =>
    rw [container] at held
    exact ((reservationValid_iff h _ _).mp (wf.table bound container)).registered.found held

theorem TupleValue.tables_nodup (t : TupleValue) : t.tables.Nodup := by
  unfold TupleValue.tables
  split <;> split <;> split <;> split <;> decide

theorem buffer_not_table {t : TupleValue} (q : Nat) : .buffer q ∉ t.tables := by
  unfold TupleValue.tables
  split <;> split <;> split <;> split <;> simp

theorem buffer_mem {t : TupleValue} {q : Nat} :
    .buffer q ∈ t.storages.map Freed.buffer ++ t.tables ↔ q ∈ t.storages := by
  simp [buffer_not_table]

/-- A walked arena holds no storage any more, and still has its tables. -/
theorem walked_drop {t : TupleValue} {scalar : ScalarValue} (exact : t.Exact h scalar)
    (pending : Nat → Nat) {u : TupleValue} (walked : u = (t.linkParents.mapRecords VectorValue.released
      TupleTableReservation.released).withPending pending) :
    u.storages = [] ∧ u.tables = t.tables ∧
      ∀ (g : Host) (w : Value), w.vector = emptyVector → w.tuple = u → g.dropValue w = g := by
  have shape := TupleValue.linkParents_shape exact.root
  have records := shape.records
  simp only [Prod.mk.injEq] at records
  obtain ⟨payloads,tables,root⟩ := records
  have vectors : u.vectorPayloads = t.vectorPayloads.map VectorValue.released := by
    rw [walked,← payloads]
    rfl
  have inner : u.reservations = t.reservations.map TupleTableReservation.released := by
    rw [walked,← tables]
    rfl
  have own : u.rootReservation = t.rootReservation.released := by
    rw [walked,← root]
    rfl
  have nodes : u.nodes = [] ↔ t.nodes = [] := by
    rw [walked,← List.length_eq_zero_iff,← List.length_eq_zero_iff,← shape.size]
    simp [TupleValue.withPending,TupleValue.mapRecords]
  have edges : u.childIndexes = t.childIndexes := by
    rw [walked]
    exact shape.edges
  have sound : ∀ w ∈ t.vectorPayloads, w.Sound h := by
    intro w member
    obtain ⟨p,inside,rfl⟩ := List.mem_iff_getElem.mp member
    obtain ⟨i,bound,vector,place⟩ := exact.wellFormed.payloads p inside
    obtain ⟨found,valid⟩ := exact.wellFormed.payload bound vector
    rw [place,List.getElem?_eq_getElem inside] at found
    rw [Option.some.inj found]
    exact (vectorValidation_none h _).mp valid
  refine ⟨?_,?_,fun g w vector tuple => ?_⟩
  · refine List.filterMap_eq_nil_iff.mpr fun x member => ?_
    unfold TupleValue.holdings at member
    rw [vectors,inner,own] at member
    simp only [List.mem_append,List.mem_map,List.mem_singleton,List.map_map,Function.comp_apply] at member
    rcases member with ⟨w,-,rfl⟩ | ⟨r,-,rfl⟩ | rfl
    · exact w.released_storage
    · rfl
    · rfl
  · unfold TupleValue.tables
    simp only [nodes,edges,vectors,inner,List.map_eq_nil_iff]
  · have dropped : u.vectorPayloads.foldl Host.dropVector g = g := by
      refine dropVectors_none fun w member => ?_
      rw [vectors] at member
      obtain ⟨x,listed,rfl⟩ := List.mem_map.mp member
      exact released_drop (sound x listed) g
    have freed : u.reservations.foldl Host.dropReservation g = g := by
      refine dropReservations_none fun r member => ?_
      rw [inner] at member
      obtain ⟨x,-,rfl⟩ := List.mem_map.mp member
      rfl
    have first : g.dropVector emptyVector = g := rfl
    unfold Host.dropValue
    dsimp only
    rw [vector,tuple,first,dropped,freed,own]
    rfl

/-- The destruction of a tuple whose walk fails nowhere. -/
theorem destroyed_tuple {visitor : WalkVisitor} (valid : Valid h v) (container : v.container = .tuple)
    (maps : visitor.Maps VectorValue.released TupleTableReservation.released)
    (edits : visitor.Edits fun _ => none) {last : Host} {u : TupleValue}
    (ok : walkArena visitor h v.tuple = (last,u,none)) {v' : Value} (emptied : v'.dropped = []) :
    Destroyed visitor h v (last.dropValue { v with tuple := u }) v' := by
  have exact := (invalidity_none_iff h v).mp valid
  have arena := exact.tuple container
  obtain ⟨⟨pending,walked⟩,registry⟩ := walkArena_done arena maps edits ok
  obtain ⟨storages,tables,kept⟩ := walked_drop arena pending walked
  have once := destroys_once arena maps edits ok
  have before := exact.dropped_tuple container
  have inactive := exact.vectorEmpty (by simp [container])
  have after : { v with tuple := u }.dropped = u.tables := by
    unfold Value.dropped Value.holdings
    dsimp only
    rw [inactive,filterMap_head]
    change (([] : List Nat) ++ u.storages).map Freed.buffer ++ u.tables = u.tables
    rw [storages]
    rfl
  refine ⟨?_,?_,fun q own => ?_,fun q => ?_,emptied,fun _ => once⟩
  · unfold Value.destruction
    rw [container]
    dsimp only
    rw [ok,before]
    dsimp only
    rw [container] at after
    rw [after,tables]
    exact (once.storage.map _).append_right _
  · rw [before]
    refine List.nodup_append.mpr ⟨once.distinct.map fun p q same => by simpa using same,
      TupleValue.tables_nodup _,fun x left y right same => ?_⟩
    obtain ⟨p,-,rfl⟩ := List.mem_map.mp left
    exact buffer_not_table p (same ▸ right)
  · rw [before,buffer_mem] at own
    exact arena.storage_found own
  · rw [kept last { v with tuple := u } inactive rfl,registry q,Option.bind_fun_none,before]
    simp only [buffer_mem]

theorem destroyed_vector {visitor : WalkVisitor} (valid : Valid h v) (container : v.container = .vector)
    {h' : Host} {v' : Value} (registry : ∀ q, h'.findRecord q =
      if v.vector.storage = some q then none else h.findRecord q) (emptied : v'.dropped = []) :
    Destroyed visitor h v (h'.dropValue { v with vector := v.vector.released }) v' := by
  have exact := (invalidity_none_iff h v).mp valid
  have before := exact.dropped_vector container
  have inactive := exact.tupleEmpty (by simp [container])
  have rest : { v with vector := v.vector.released }.dropped = [] := by
    unfold Value.dropped Value.holdings
    dsimp only
    rw [inactive,filterMap_head,show v.vector.released.holding.storage = none from
      v.vector.released_storage]
    rfl
  refine ⟨?_,?_,fun q own => ?_,fun q => ?_,emptied,fun tuple => ?_⟩
  · unfold Value.destruction
    rw [container]
    dsimp only
    rw [container] at rest
    rw [rest,before,List.append_nil]
  · rw [before]
    cases v.vector.storage <;> simp
  · rw [before] at own
    obtain ⟨p,member,same⟩ := List.mem_map.mp own
    cases same
    exact (exact.vector container).registered.found (Option.mem_toList.mp member)
  · have dropped : h'.dropValue { v with vector := v.vector.released } = h' := by
      unfold Host.dropValue
      dsimp only
      rw [released_drop (exact.vector container),inactive]
      rfl
    rw [dropped,registry q,before]
    cases v.vector.storage <;> simp [eq_comm]
  · rw [container] at tuple
    cases tuple

theorem destroyed_scalar {visitor : WalkVisitor} (valid : Valid h v) (container : v.container = .scalar)
    {v' : Value} (emptied : v'.dropped = []) : Destroyed visitor h v (h.dropValue v) v' := by
  have exact := (invalidity_none_iff h v).mp valid
  have before := exact.dropped_scalar container
  refine ⟨?_,by rw [before]; exact .nil,fun q own => by simp [before] at own,fun q => ?_,emptied,
    fun tuple => ?_⟩
  · unfold Value.destruction
    rw [container]
  · have dropped : h.dropValue v = h := by
      unfold Host.dropValue
      rw [exact.vectorEmpty (by simp [container]),exact.tupleEmpty (by simp [container])]
      rfl
    rw [dropped,before]
    simp
  · rw [container] at tuple
    cases tuple

/-- The destroying visitor never fails. -/
theorem walkArena_destroys {t : TupleValue} (wf : t.WellFormed h) :
    ∃ last u, walkArena destroyVisitor h t = (last,u,none) := by
  have every : ∀ (nodes : List Nat) (d : Host × TupleValue),
      ∃ d', visitAll (visitNode destroyVisitor) nodes d = some d' := by
    intro nodes
    induction nodes with
    | nil => exact fun d => ⟨d,rfl⟩
    | cons i rest ih =>
      intro d
      obtain ⟨middle,first⟩ : ∃ middle, visitNode destroyVisitor i d = some middle := by
        unfold visitNode
        cases d.2.containerAt i <;> exact ⟨_,rfl⟩
      obtain ⟨d',later⟩ := ih middle
      exact ⟨d',by rw [visitAll,first]; exact later⟩
  have visits := walkArena_visits wf destroyVisitor
  obtain ⟨data,walked⟩ := every (wf.forest.order t.nodes.length) (h,t.linkParents)
  rw [walked] at visits
  obtain ⟨pending,ok⟩ := visits
  exact ⟨_,_,ok⟩

theorem destroyParts_destroyed (valid : Valid h v) {v' : Value} (emptied : v'.dropped = []) :
    Destroyed destroyVisitor h v ((h.destroyParts v).1.dropValue (h.destroyParts v).2) v' := by
  cases container : v.container with
  | scalar =>
    simp only [Host.destroyParts,container]
    exact destroyed_scalar valid container emptied
  | vector =>
    have destroyed : Destroyed destroyVisitor h v ((h.releaseProven v.vector.holding).dropValue
        { v with vector := v.vector.released }) v' :=
      destroyed_vector valid container
        (fun q => (releaseProven_findRecord h v.vector.holding q).trans rfl) emptied
    rw [container] at destroyed
    simpa only [Host.destroyParts,container] using destroyed
  | tuple =>
    obtain ⟨last,u,ok⟩ := walkArena_destroys (valid.wellFormed container)
    have destroyed := destroyed_tuple valid container destroyVisitor_maps destroyVisitor_edits ok emptied
    rw [container] at destroyed
    simpa only [Host.destroyParts,container,ok] using destroyed

theorem destroyProvenValue_destroyed (valid : Valid h v) :
    Destroyed destroyVisitor h v (h.destroyProvenValue v).1 (h.destroyProvenValue v).2 := by
  have claimed := ((invalidity_none_iff h v).mp valid).claimed
  unfold Host.destroyProvenValue
  rw [if_pos claimed]
  have emptied : Value.dropped { makeIntValue 0 with claimed := false } = [] := by decide
  exact destroyParts_destroyed valid emptied

/-- `destroy_value` fails only when the scratch of its validation is refused, and then
changes nothing. -/
theorem destroyValue_destroyed (valid : Valid h v) {f used : HostFailureInjection} {h' : Host} {v' : Value}
    {result : Except ReleaseFailure Unit} (ended : h.destroyValue f v = (used,h',v',result)) :
    (result = .ok () ∧ (v.container = .tuple → ScratchGranted f h v.tuple) ∧
      ∃ next, h.SameRegistries next ∧ Destroyed destroyVisitor next v h' v') ∨
    (result ≠ .ok () ∧ ¬(v.container = .tuple → ScratchGranted f h v.tuple) ∧
      v' = v ∧ h.SameRegistries h') := by
  have claimed := ((invalidity_none_iff h v).mp valid).claimed
  have verdict : invalidity h v = none := valid
  have accepted : (validateValue f h v).2.2 = none ↔ (v.container = .tuple → ScratchGranted f h v.tuple) := by
    by_cases container : v.container = .tuple
    · rw [validateValue_granted valid container]
      simp [container]
    · unfold validateValue
      rw [verdict,if_neg fun both => container both.1]
      simp [container]
  unfold Host.destroyValue at ended
  rw [if_pos claimed] at ended
  rw [← accepted]
  split at ended
  · rename_i rejected
    cases ended
    rw [rejected]
    exact .inr ⟨by simp,by simp,rfl,validateValue_next rejected⟩
  · rename_i begun next granted
    cases ended
    rw [granted]
    have same := validateValue_next granted
    exact .inl ⟨rfl,rfl,next,same,destroyParts_destroyed (valid.sameRegistries same) (by decide)⟩

/-- A vector that is released leaves no buffer behind. -/
theorem releaseVectorParts_destroyed (valid : Valid h v) (container : v.container = .vector)
    {r : EvaluationResources} {visitor : WalkVisitor} {h' : Host} {v' : Value}
    (ok : h.releaseVectorParts r v = (h',v',.ok ())) : Destroyed visitor h v h' v' := by
  unfold Host.releaseVectorParts at ok
  dsimp only at ok
  split at ok
  · cases ok
  · split at ok
    · cases ok
    · rename_i next consumed
      cases ok
      refine destroyed_vector valid container (fun q => ?_) (by decide)
      refine (releaseHostBuffer_findRecord _ v.vector.storage q).trans ?_
      by_cases own : v.vector.storage = some q
      · rw [if_pos own,if_pos own]
      · rw [if_neg own,if_neg own]
        have kept : next.findRecord q = h.findRecord q := by
          split at consumed
          · exact (consumeHolding_findRecord consumed q).trans (if_neg own)
          · cases consumed
            rfl
        rw [← kept]
        split <;> simp [Host.findRecord,Host.refundOwner]

theorem releaseValueReservations_destroyed (valid : Valid h v) {f used : HostFailureInjection}
    {r : EvaluationResources} {h' : Host} {v' : Value}
    (ok : h.releaseValueReservations f r v = (used,h',v',.ok ())) :
    ∃ next, h.SameRegistries next ∧ Destroyed (releaseVisitor r) next v h' v' := by
  unfold Host.releaseValueReservations at ok
  split at ok
  · cases ok
  · rename_i begun next accepted
    have same := validateValue_next accepted
    have sound := valid.sameRegistries same
    split at ok
    · rename_i container
      cases ok
      exact ⟨next,same,destroyed_scalar sound container (by decide)⟩
    · rename_i container
      split at ok
      · cases ok
      · cases released : Host.releaseVectorReservation noHostFailure next r v with
        | mk begun' rest =>
          obtain ⟨freed,left,result⟩ := rest
          rw [released] at ok
          cases ok
          unfold Host.releaseVectorReservation at released
          rw [if_neg (by simp [container])] at released
          split at released
          · cases released
          · rename_i begun' later again
            have twice := validateValue_next again
            split at released
            · cases released
            · simp only [Prod.mk.injEq] at released
              exact ⟨later,same.trans twice,releaseVectorParts_destroyed (sound.sameRegistries twice)
                container released.2⟩
    · rename_i container
      split at ok
      · cases ok
      · split at ok
        · cases ok
        · rename_i last tuple walked
          cases ok
          exact ⟨next,same,destroyed_tuple sound container (releaseVisitor_maps r)
            (releaseVisitor_edits r) walked (by decide)⟩

/-- Every whole-value destruction of a valid value frees all it holds, each thing once.
`destroy_value` changes nothing exactly when its validation is refused its scratch tables. -/
theorem destruction_once (valid : Valid h v) :
    Destroyed destroyVisitor h v (h.destroyProvenValue v).1 (h.destroyProvenValue v).2 ∧
    (∀ f used h' v' result, h.destroyValue f v = (used,h',v',result) →
      (result = .ok () ∧ (v.container = .tuple → ScratchGranted f h v.tuple) ∧
        ∃ next, h.SameRegistries next ∧ Destroyed destroyVisitor next v h' v') ∨
      (result ≠ .ok () ∧ ¬(v.container = .tuple → ScratchGranted f h v.tuple) ∧
        v' = v ∧ h.SameRegistries h')) ∧
    ∀ f r used h' v', h.releaseValueReservations f r v = (used,h',v',.ok ()) →
      ∃ next, h.SameRegistries next ∧ Destroyed (releaseVisitor r) next v h' v' :=
  ⟨destroyProvenValue_destroyed valid,
    fun _ _ _ _ _ ended => destroyValue_destroyed valid ended,
    fun _ _ _ _ _ ok => releaseValueReservations_destroyed valid ok⟩

end Operations

/-- The tuple `[[[7]] (0 0) []]`: a chain of tuples, a vector and an empty tuple. -/
theorem destruction_once_nested :
    let s := (startSession (fun _ _ => .none) (fun _ => .none) [trustedLocalV2Account]).run
      [.makeScalar ⟨.integer,false,7,0⟩,.makeTuple 0 noHostFailure 0 1,.makeTuple 0 noHostFailure 1 1,
        .allocateVector 0 .integer 2 2,.makeTuple 0 noHostFailure 4 0,.makeTuple 0 noHostFailure 2 3]
    let v := s.values.getD 5 invalidConstructionValue
    v.tuple.nodes.length = 5 ∧
      Destroyed destroyVisitor s.host v (s.host.destroyProvenValue v).1 (s.host.destroyProvenValue v).2 :=
  ⟨by decide +kernel,(destruction_once (by decide +kernel)).1⟩

end Bennu
