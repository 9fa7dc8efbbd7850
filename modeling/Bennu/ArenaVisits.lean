import Bennu.ReleaseAtomicity

/-! The whole course of a walk whose visits all succeed: the states that its steps are
taken from, and the arena that it leaves. -/
namespace Bennu

open StacklessWalk

/-- A visitor that replaces each record by a function of that record. -/
structure WalkVisitor.Maps (visitor : WalkVisitor) (payload : VectorValue → VectorValue)
    (table : TupleTableReservation → TupleTableReservation) : Prop where
  table : ∀ {h r done}, visitor.table h r = some done → done.2 = table r
  payload : ∀ {h v done}, v.activeLength ≤ sizeMax / elementWidth v.elementType →
    visitor.payload h v = some done → done.2 = payload v

theorem destroyVisitor_maps : destroyVisitor.Maps VectorValue.released TupleTableReservation.released :=
  ⟨by rintro h r done ⟨⟩; rfl,by rintro h v done - ⟨⟩; rfl⟩

theorem releaseVisitor_maps (r : EvaluationResources) :
    (releaseVisitor r).Maps VectorValue.released TupleTableReservation.released where
  table := by
    intro h t done ok
    obtain ⟨next,-,rfl⟩ := Option.map_eq_some_iff.mp ok
    rfl
  payload := by
    intro h v done small ok
    simp only [releaseVisitor,if_pos small] at ok
    obtain ⟨next,-,rfl⟩ := Option.map_eq_some_iff.mp ok
    rfl

/-- A visitor that edits the registration of a record's own buffer and no other. -/
structure WalkVisitor.Edits (visitor : WalkVisitor)
    (edit : HostAllocationRecord → Option HostAllocationRecord) : Prop where
  table : ∀ {h r done}, (r.canonicalBytes = 0 → r.payload = none) → visitor.table h r = some done →
    ∀ q, done.1.findRecord q =
      if r.payload = some q then (h.findRecord q).bind edit else h.findRecord q
  payload : ∀ {h v done}, v.activeLength ≤ sizeMax / elementWidth v.elementType →
    (v.canonicalBytes = 0 → v.storage = none) → visitor.payload h v = some done →
    ∀ q, done.1.findRecord q =
      if v.storage = some q then (h.findRecord q).bind edit else h.findRecord q

theorem releaseProven_findRecord (h : Host) (x : Holding) (q : Nat) :
    (h.releaseProven x).findRecord q = if x.storage = some q then none else h.findRecord q := by
  unfold Host.releaseProven
  rw [releaseHostBuffer_findRecord]
  by_cases own : x.storage = some q
  · rw [if_pos own,if_pos own]
  · rw [if_neg own,if_neg own]
    have refunded : (h.refundHolding x).findRecord q = h.findRecord q := by
      unfold Host.refundHolding
      split
      · cases consumed : h.consumeHolding x with
        | none => rfl
        | some next =>
          have kept := consumeHolding_findRecord consumed q
          rw [if_neg own] at kept
          rw [← kept]
          simp [Host.findRecord,Host.refundOwner]
      · rfl
    rw [← refunded]
    simp [Host.findRecord]

theorem destroyVisitor_edits : destroyVisitor.Edits fun _ => none where
  table := by
    rintro h r done - ⟨⟩ q
    exact (releaseProven_findRecord h r.holding q).trans (by rw [Option.bind_fun_none]; rfl)
  payload := by
    rintro h v done - - ⟨⟩ q
    exact (releaseProven_findRecord h v.holding q).trans (by rw [Option.bind_fun_none]; rfl)

/-- A checked release whose buffer is then freed. -/
theorem releaseChecked_freed {h next : Host} {r : EvaluationResources} {x : Holding} {bytes : Nat}
    (ok : h.releaseChecked r x bytes = some next) (q : Nat) :
    (next.releaseHostBuffer x.storage).findRecord q =
      if x.storage = some q then none else h.findRecord q := by
  rw [releaseHostBuffer_findRecord]
  by_cases own : x.storage = some q
  · rw [if_pos own,if_pos own]
  · rw [if_neg own,if_neg own,releaseChecked_frame ok q own]

theorem releaseVisitor_edits (r : EvaluationResources) : (releaseVisitor r).Edits fun _ => none where
  table := by
    intro h t done _ ok q
    obtain ⟨next,checked,rfl⟩ := Option.map_eq_some_iff.mp ok
    exact (releaseChecked_freed checked q).trans (by rw [Option.bind_fun_none]; rfl)
  payload := by
    intro h v done small _ ok q
    simp only [releaseVisitor,if_pos small] at ok
    obtain ⟨next,checked,rfl⟩ := Option.map_eq_some_iff.mp ok
    exact (releaseChecked_freed checked q).trans (by rw [Option.bind_fun_none]; rfl)

/-- The arena with every record replaced. -/
def TupleValue.mapRecords (t : TupleValue) (payload : VectorValue → VectorValue)
    (table : TupleTableReservation → TupleTableReservation) : TupleValue :=
  { t with
    vectorPayloads := t.vectorPayloads.map payload
    reservations := t.reservations.map table
    rootReservation := table t.rootReservation }

section Records

variable {visitor : WalkVisitor} {payload : VectorValue → VectorValue}
  {table : TupleTableReservation → TupleTableReservation} {h : Host} {t u : TupleValue}

/-- The linked arena once the records of these nodes have been replaced. -/
structure Visited (t : TupleValue) (payload : VectorValue → VectorValue)
    (table : TupleTableReservation → TupleTableReservation) (done : List Nat) (u : TupleValue) : Prop where
  framed : t.linkParents.Framed u
  payloadCount : u.vectorPayloads.length = t.vectorPayloads.length
  tableCount : u.reservations.length = t.reservations.length
  payloads : ∀ j ≤ t.nodes.length, t.containerAt j = .vector →
    u.payloadOf j = if j ∈ done then payload (t.payloadOf j) else t.payloadOf j
  tables : ∀ j ≤ t.nodes.length, t.containerAt j = .tuple →
    u.reservationOf j = if j ∈ done then table (t.reservationOf j) else t.reservationOf j

theorem Visited.start (wf : t.WellFormed h) : Visited t payload table [] t.linkParents := by
  have records := (TupleValue.linkParents_shape wf.root).records
  simp only [Prod.mk.injEq] at records
  obtain ⟨payloads,tables,-⟩ := records
  exact ⟨.refl _,by rw [payloads],by rw [tables],
    fun j _ vector => (linkParents_untouched wf j).payload vector,
    fun j _ tuple => (linkParents_untouched wf j).table tuple⟩

theorem Visited.visit (wf : t.WellFormed h) (maps : visitor.Maps payload table) {done : List Nat}
    {d d' : Host × TupleValue} {i : Nat} (visited : Visited t payload table done d.2)
    (bound : i ≤ t.nodes.length) (fresh : i ∉ done) (ok : visitNode visitor i d = some d') :
    Visited t payload table (done ++ [i]) d'.2 := by
  have framed := visited.framed.trans (visitNode_framed ok)
  have late : ∀ j, j ≠ i → (j ∈ done ++ [i] ↔ j ∈ done) := fun j other => by simp [other]
  unfold visitNode at ok
  rw [framed_containerAt wf visited.framed] at ok
  cases container : t.containerAt i with
  | scalar =>
    rw [container] at ok
    cases ok
    refine ⟨framed,visited.payloadCount,visited.tableCount,fun j inside vector => ?_,
      fun j inside tuple => ?_⟩
    · have other : j ≠ i := fun same => by simp [← same,vector] at container
      simp only [late j other,visited.payloads j inside vector]
    · have other : j ≠ i := fun same => by simp [← same,tuple] at container
      simp only [late j other,visited.tables j inside tuple]
  | vector =>
    rw [container] at ok
    dsimp only at ok
    have own := visited.payloads i bound container
    rw [if_neg fresh] at own
    rw [own] at ok
    obtain ⟨result,replaced,rfl⟩ := Option.map_eq_some_iff.mp ok
    obtain ⟨found,valid⟩ := wf.payload bound container
    obtain ⟨-,small,-⟩ := vectorValidation_checked valid
    have same := maps.payload small replaced
    obtain ⟨slot,-⟩ := List.getElem?_eq_some_iff.mp found
    refine ⟨framed,by simp [visited.payloadCount],visited.tableCount,fun j inside vector => ?_,
      fun j inside tuple => ?_⟩
    · rw [payloadOf_set wf visited.framed bound container inside vector]
      by_cases here : i = j
      · subst here
        rw [if_pos ⟨rfl,by rw [visited.payloadCount]; exact slot⟩,if_pos (by simp),same]
      · rw [if_neg fun both => here both.1,visited.payloads j inside vector]
        simp only [late j (Ne.symm here)]
    · have other : j ≠ i := fun same => by simp [← same,tuple] at container
      simp only [late j other]
      exact visited.tables j inside tuple
  | tuple =>
    rw [container] at ok
    dsimp only at ok
    have own := visited.tables i bound container
    rw [if_neg fresh] at own
    rw [own] at ok
    obtain ⟨result,replaced,rfl⟩ := Option.map_eq_some_iff.mp ok
    have same := maps.table replaced
    have slot : i ≠ t.rootIndex → t.tableIndex i < t.reservations.length := by
      intro notRoot
      obtain ⟨r,found,-⟩ := (wf.seen.checked i bound).table container
      have inside := reservationAt_some found
      have apart := (wf.seen.apart i t.rootIndex bound (Nat.le_of_eq wf.root) notRoot).tables container
        (by simp [TupleValue.containerAt])
      simp only [TupleValue.tableIndex,if_true] at apart inside ⊢
      omega
    refine ⟨framed,?_,?_,fun j inside vector => ?_,fun j inside tuple => ?_⟩
    · rw [← visited.payloadCount]
      unfold TupleValue.setReservation
      split <;> rfl
    · rw [← visited.tableCount]
      unfold TupleValue.setReservation
      split <;> simp
    · have other : j ≠ i := fun same => by simp [← same,vector] at container
      simp only [late j other]
      rw [← visited.payloads j inside vector]
      unfold TupleValue.payloadOf TupleValue.setReservation
      split <;> rfl
    · rw [reservationOf_set wf visited.framed bound container inside tuple]
      by_cases here : i = j
      · subst here
        rw [if_pos ⟨rfl,fun notRoot => by rw [visited.tableCount]; exact slot notRoot⟩,
          if_pos (by simp),same]
      · rw [if_neg fun both => here both.1,visited.tables j inside tuple]
        simp only [late j (Ne.symm here)]

theorem Visited.visitAll (wf : t.WellFormed h) (maps : visitor.Maps payload table)
    {done nodes : List Nat} {d d' : Host × TupleValue} (visited : Visited t payload table done d.2)
    (inside : ∀ i ∈ nodes, i ≤ t.nodes.length) (nodup : (done ++ nodes).Nodup)
    (ok : StacklessWalk.visitAll (visitNode visitor) nodes d = some d') :
    Visited t payload table (done ++ nodes) d'.2 := by
  induction nodes generalizing done d with
  | nil =>
    cases ok
    rwa [List.append_nil]
  | cons i rest ih =>
    obtain ⟨middle,first,ok⟩ := Option.bind_eq_some_iff.mp ok
    have fresh : i ∉ done := fun member =>
      (List.nodup_append.mp nodup).2.2 i member i (List.mem_cons_self ..) rfl
    have split : done ++ i :: rest = done ++ [i] ++ rest := by simp
    rw [split] at nodup ⊢
    exact ih (visited.visit wf maps (inside i (List.mem_cons_self ..)) fresh first)
      (fun j member => inside j (List.mem_cons_of_mem _ member)) nodup ok

/-- Once every node has been visited, every record has been replaced. -/
theorem Visited.all (wf : t.WellFormed h) {done : List Nat} (visited : Visited t payload table done u)
    (every : ∀ i ≤ t.nodes.length, i ∈ done) : u = t.linkParents.mapRecords payload table := by
  have shape := TupleValue.linkParents_shape wf.root
  have records := shape.records
  simp only [Prod.mk.injEq] at records
  obtain ⟨payloads,tables,root⟩ := records
  obtain ⟨top,vectorSlot,tableSlot⟩ := framed_slots wf visited.framed
  have vectors : u.vectorPayloads = t.vectorPayloads.map payload := by
    refine List.ext_getElem (by simp [visited.payloadCount]) fun p left right => ?_
    have slot : p < t.vectorPayloads.length := by simpa using right
    obtain ⟨i,bound,vector,place⟩ := wf.payloads p slot
    have replaced := visited.payloads i bound vector
    rw [if_pos (every i bound),TupleValue.payloadOf,TupleValue.payloadOf,vectorSlot i vector,place,
      List.getD_eq_getElem _ _ left,List.getD_eq_getElem _ _ slot] at replaced
    rw [replaced,List.getElem_map]
  have rootTuple : t.containerAt t.rootIndex = .tuple := by simp [TupleValue.containerAt]
  have own : u.rootReservation = table t.rootReservation := by
    have replaced := visited.tables t.rootIndex (Nat.le_of_eq wf.root) rootTuple
    rw [if_pos (every _ (Nat.le_of_eq wf.root))] at replaced
    simpa [TupleValue.reservationOf,top] using replaced
  have inner : u.reservations = t.reservations.map table := by
    refine List.ext_getElem (by simp [visited.tableCount]) fun q left right => ?_
    have slot : q < t.reservations.length := by simpa using right
    obtain ⟨i,bound,tuple,place⟩ := wf.tables q (Nat.le_of_lt slot)
    have notRoot : i ≠ t.rootIndex := by
      intro same
      rw [TupleValue.tableIndex,if_pos same] at place
      omega
    have replaced := visited.tables i bound tuple
    have index : (t.node i).tupleReservationIndex = q := by
      rw [TupleValue.tableIndex,if_neg notRoot] at place
      exact place
    rw [if_pos (every i bound),TupleValue.reservationOf,TupleValue.reservationOf,top,if_neg notRoot,
      if_neg notRoot,tableSlot i notRoot tuple,place,index,List.getD_eq_getElem _ _ left,
      List.getD_eq_getElem _ _ slot] at replaced
    rw [replaced,List.getElem_map]
  obtain ⟨_,_,_,rfl⟩ := visited.framed
  dsimp only at vectors inner own
  unfold TupleValue.mapRecords
  rw [vectors,inner,own,payloads,tables,root]

theorem TupleValue.WellFormed.empty_table (wf : t.WellFormed h) {i : Nat} (bound : i ≤ t.nodes.length)
    (tuple : t.containerAt i = .tuple) (empty : (t.reservationOf i).canonicalBytes = 0) :
    (t.reservationOf i).payload = none := by
  have sound := (reservationValid_iff h _ _).mp (wf.table bound tuple)
  have counted : (t.reservationOf i).canonicalBytes = t.childCountAt i * 16 := sound.recorded.counted
  exact sound.held.mp (by omega)

theorem TupleValue.WellFormed.empty_payload (wf : t.WellFormed h) {i : Nat} (bound : i ≤ t.nodes.length)
    (vector : t.containerAt i = .vector) (empty : (t.payloadOf i).canonicalBytes = 0) :
    (t.payloadOf i).storage = none := by
  have sound := (vectorValidation_none h _).mp (wf.payload bound vector).2
  have counted : (t.payloadOf i).canonicalBytes = (t.payloadOf i).byteCount := sound.recorded.counted
  have positive := elementWidth_pos (t.payloadOf i).elementType
  rw [empty,VectorValue.byteCount,eq_comm,Nat.mul_eq_zero] at counted
  exact sound.held.mp (counted.resolve_right (by omega))

/-- A visit edits the registration of its node's buffer and no other. -/
theorem Visited.visit_record (wf : t.WellFormed h) {edit : HostAllocationRecord → Option HostAllocationRecord}
    (edits : visitor.Edits edit) {done : List Nat} {d d' : Host × TupleValue} {i : Nat}
    (visited : Visited t payload table done d.2) (bound : i ≤ t.nodes.length) (fresh : i ∉ done)
    (ok : visitNode visitor i d = some d') (q : Nat) : d'.1.findRecord q =
      if t.bufferAt i = some q then (d.1.findRecord q).bind edit else d.1.findRecord q := by
  have held := (wf.record bound).2
  unfold TupleValue.recordAt at held
  unfold visitNode at ok
  rw [framed_containerAt wf visited.framed] at ok
  rw [← held]
  cases container : t.containerAt i with
  | scalar =>
    rw [container] at ok
    cases ok
    simp [TupleTableReservation.holding,emptyReservation,TupleTableReservation.payload]
  | vector =>
    rw [container] at ok
    dsimp only at ok
    have own := visited.payloads i bound container
    rw [if_neg fresh] at own
    rw [own] at ok
    obtain ⟨result,replaced,rfl⟩ := Option.map_eq_some_iff.mp ok
    obtain ⟨-,small,-⟩ := vectorValidation_checked (wf.payload bound container).2
    exact edits.payload small (wf.empty_payload bound container) replaced q
  | tuple =>
    rw [container] at ok
    dsimp only at ok
    have own := visited.tables i bound container
    rw [if_neg fresh] at own
    rw [own] at ok
    obtain ⟨result,replaced,rfl⟩ := Option.map_eq_some_iff.mp ok
    exact edits.table (wf.empty_table bound container) replaced q

theorem Visited.visitAll_record (wf : t.WellFormed h) (maps : visitor.Maps payload table)
    {edit : HostAllocationRecord → Option HostAllocationRecord} (edits : visitor.Edits edit)
    {done nodes : List Nat} {d d' : Host × TupleValue} (visited : Visited t payload table done d.2)
    (inside : ∀ i ∈ nodes, i ≤ t.nodes.length) (nodup : (done ++ nodes).Nodup)
    (ok : StacklessWalk.visitAll (visitNode visitor) nodes d = some d') (q : Nat) :
    d'.1.findRecord q =
      if q ∈ nodes.flatMap t.buffersAt then (d.1.findRecord q).bind edit else d.1.findRecord q := by
  induction nodes generalizing done d with
  | nil =>
    cases ok
    simp
  | cons i rest ih =>
    obtain ⟨middle,first,ok⟩ := Option.bind_eq_some_iff.mp ok
    have bound := inside i (List.mem_cons_self ..)
    have fresh : i ∉ done := fun member =>
      (List.nodup_append.mp nodup).2.2 i member i (List.mem_cons_self ..) rfl
    have unique := (List.nodup_cons.mp (List.nodup_append.mp nodup).2.1).1
    have split : done ++ i :: rest = done ++ [i] ++ rest := by simp
    rw [split] at nodup
    have later := ih (visited.visit wf maps bound fresh first)
      (fun j member => inside j (List.mem_cons_of_mem _ member)) nodup ok
    rw [later,visited.visit_record wf edits bound fresh first,List.flatMap_cons]
    by_cases own : t.bufferAt i = some q
    · have apart : q ∉ rest.flatMap t.buffersAt := by
        intro member
        obtain ⟨j,listed,same⟩ := List.mem_flatMap.mp member
        have different : i ≠ j := fun same => unique (same ▸ listed)
        exact (wf.seen.apart i j bound (inside j (List.mem_cons_of_mem _ listed)) different).buffers q own
          (Option.mem_toList.mp same)
      rw [if_neg apart,if_pos own,if_pos (List.mem_append_left (rest.flatMap t.buffersAt) (show q ∈ t.buffersAt i from
          Option.mem_toList.mpr own))]
    · have other : q ∉ t.buffersAt i := fun member => own (Option.mem_toList.mp member)
      rw [if_neg own]
      simp only [List.mem_append,other,false_or]

end Records

/-- The states that the source's loop takes its steps from. -/
def walkTrace (visitor : WalkVisitor) : Nat → WalkState → List WalkState
  | 0,_ => []
  | fuel + 1,s => s :: match walkStep visitor s with
    | .advanced next => walkTrace visitor fuel next
    | .finished _ => []
    | .failed _ _ => []

section Trace

variable {visitor : WalkVisitor} {h : Host} {t : TupleValue} (wf : t.WellFormed h)
  {before : List (Cursor (Host × TupleValue))} {c d : Cursor (Host × TupleValue)}

theorem Walking.run (run : Run wf.forest t.nodes.length (visitNode visitor) before c d)
    (walking : Walking t c) : Walking t d :=
  (walk_steps wf (m := 0) run.steps walking).2

theorem walkTrace_run (m : Nat) (run : Run wf.forest t.nodes.length (visitNode visitor) before c d)
    (walking : Walking t c) : walkTrace visitor (before.length + m) (toState c) =
      before.map toState ++ walkTrace visitor m (toState d) := by
  induction run with
  | refl c => simp
  | head once rest ih =>
    rw [List.length_cons,Nat.add_right_comm,walkTrace,walkStep_step wf visitor walking,once]
    dsimp only [toOutcome]
    rw [ih (walking.advance wf once),List.map_cons,List.cons_append]

/-- A walk that fails nowhere: the run of the loop's states, with nothing left to do after
the last of them, and the nodes they leave are the nodes of the arena in order. -/
theorem walkArena_run {last : Host} {u : TupleValue} (ok : walkArena visitor h t = (last,u,none)) :
    ∃ before final, Run wf.forest t.nodes.length (visitNode visitor) before (walkStart h t) final ∧
      walkStep visitor (toState final) = .finished ⟨last,u,t.nodes.length⟩ ∧
      (before ++ [final]).filterMap Cursor.visits = wf.forest.order t.nodes.length ∧
      (∃ data pending, visitAll (visitNode visitor) (wf.forest.order t.nodes.length)
        (h,t.linkParents) = some data ∧ last = data.1 ∧ u = data.2.withPending pending) ∧
      ∀ more, walkTrace visitor (walkFuel t + more) ⟨h,t.linkParents,t.rootIndex⟩ =
        (before ++ [final]).map toState := by
  have visits := walkArena_visits wf visitor
  cases result : visitAll (visitNode visitor) (wf.forest.order t.nodes.length) (h,t.linkParents) with
  | none =>
    rw [result] at visits
    obtain ⟨_,_,_,failed,-⟩ := visits
    rw [failed] at ok
    cases ok
  | some data =>
    have started := Walking.start wf h
    obtain ⟨before,final,within,run,ended,visited⟩ := @walk_trace _ wf.forest t.nodes.length
      (visitNode visitor) (walkStart h t) rfl (fun j _ => rfl) data result
    have stepped := walkStep_step wf visitor (started.run wf run)
    rw [ended] at stepped
    have enough := walkFuel_enough wf
    have spent : ∀ more, ∃ m, walkFuel t + more = before.length + (m + 1) := fun more =>
      ⟨walkFuel t + more - before.length - 1,by omega⟩
    obtain ⟨m,isFuel⟩ := spent 0
    have walked : walkArena visitor h t = (data.1,
        data.2.withPending (settle (wf.forest.order t.nodes.length) (allPending t)),none) := by
      rw [Nat.add_zero] at isFuel
      unfold walkArena
      rw [isFuel,← toState_start wf h,(walk_steps wf (m := m + 1) run.steps started).1,walk,stepped]
      rfl
    rw [ok] at walked
    simp only [Prod.mk.injEq,and_true] at walked
    refine ⟨before,final,run,?_,visited,⟨data,_,rfl,walked.1,walked.2⟩,fun more => ?_⟩
    · rw [stepped,walked.1,walked.2]
      rfl
    · obtain ⟨m,isFuel⟩ := spent more
      rw [isFuel,← toState_start wf h,walkTrace_run wf (m + 1) run started,walkTrace,stepped]
      simp [toOutcome]

end Trace

/-- The storage that an arena's records hold. -/
def TupleValue.storages (t : TupleValue) : List Nat := t.holdings.filterMap (·.storage)

section Course

variable {h : Host} {t : TupleValue} {scalar : ScalarValue}

theorem flatMap_getElem? {α β : Type} (l : List α) (g : α → Option β) :
    ((List.range l.length).flatMap fun p => ((l[p]?).bind g).toList) = l.filterMap g := by
  induction l with
  | nil => rfl
  | cons a l ih =>
    rw [List.length_cons,List.range_succ_eq_map,List.flatMap_cons,List.flatMap_map,filterMap_head,← ih]
    simp

theorem TupleValue.storages_eq (t : TupleValue) : t.storages = t.vectorPayloads.filterMap (·.storage) ++
    (t.reservations.filterMap (·.payload) ++ t.rootReservation.payload.toList) := by
  unfold TupleValue.storages TupleValue.holdings
  simp only [List.filterMap_append,List.filterMap_map,filterMap_head,List.filterMap_nil,
    List.append_nil]
  rfl

theorem Value.storages_tuple {v : Value} (container : v.container = .tuple) :
    v.storages = v.tuple.storages := by
  rw [TupleValue.storages_eq,Value.storages,container]
  exact List.append_assoc _ _ _

/-- An exact arena's nodes hold its storage, each its own. -/
theorem TupleValue.Exact.storages_perm (exact : t.Exact h scalar) :
    t.storages.Perm ((List.range (t.nodes.length + 1)).flatMap t.buffersAt) := by
  obtain ⟨fromPayload,isPayload⟩ : ∃ g : Nat → List Nat,
      g = fun p => ((t.vectorPayloads[p]?).bind (·.storage)).toList := ⟨_,rfl⟩
  obtain ⟨fromTable,isTable⟩ : ∃ g : Nat → List Nat,
      g = fun q => ((t.reservationAt q).bind (·.payload)).toList := ⟨_,rfl⟩
  have slots : t.buffersAt = fun i => (t.payloadsAt i).flatMap fromPayload ++
      (t.tablesAt i).flatMap fromTable := by
    funext i
    unfold TupleValue.buffersAt TupleValue.bufferAt TupleValue.payloadsAt TupleValue.tablesAt
    cases t.containerAt i <;> simp [isPayload,isTable]
  have payloads : (List.range t.vectorPayloads.length).flatMap fromPayload =
      t.vectorPayloads.filterMap (·.storage) := by
    rw [isPayload]
    exact flatMap_getElem? _ _
  have tables : (List.range (t.reservations.length + 1)).flatMap fromTable =
      t.reservations.filterMap (·.payload) ++ t.rootReservation.payload.toList := by
    have inner : (List.range t.reservations.length).flatMap fromTable =
        t.reservations.filterMap (·.payload) := by
      rw [← flatMap_getElem?,isTable]
      refine List.flatMap_congr fun q member => ?_
      have less := List.mem_range.mp member
      rw [TupleValue.reservationAt,if_neg (Nat.ne_of_lt less)]
    rw [List.range_succ,List.flatMap_append,inner,List.flatMap_singleton,isTable]
    simp [TupleValue.reservationAt]
  rw [t.storages_eq,slots,← payloads,← tables]
  refine List.Perm.trans ?_ (List.flatMap_append_perm _ _ _)
  rw [← List.flatMap_assoc,← List.flatMap_assoc]
  exact (exact.payloads.symm.flatMap_right _).append (exact.tables.symm.flatMap_right _)

variable {visitor : WalkVisitor} {payload : VectorValue → VectorValue}
  {table : TupleTableReservation → TupleTableReservation}
  {edit : HostAllocationRecord → Option HostAllocationRecord}

theorem TupleValue.WellFormed.order_perm (wf : t.WellFormed h) :
    (wf.forest.order t.nodes.length).Perm (List.range (t.nodes.length + 1)) :=
  (List.perm_ext_iff_of_nodup (Forest.order_nodup _) List.nodup_range).mpr fun _ =>
    ⟨fun member => List.mem_range.mpr (Nat.lt_succ_of_le (Forest.le_of_mem_order member)),
      fun member => wf.mem_order (Nat.le_of_lt_succ (List.mem_range.mp member))⟩

/-- What a walk that fails nowhere leaves: every record replaced and the registration of
every record's storage edited. -/
theorem walkArena_done (exact : t.Exact h scalar) (maps : visitor.Maps payload table)
    (edits : visitor.Edits edit) {last : Host} {u : TupleValue}
    (ok : walkArena visitor h t = (last,u,none)) :
    (∃ pending, u = (t.linkParents.mapRecords payload table).withPending pending) ∧
      ∀ q, last.findRecord q =
        if q ∈ t.storages then (h.findRecord q).bind edit else h.findRecord q := by
  have wf := exact.wellFormed
  obtain ⟨_,_,-,-,-,⟨data,pending,walked,rfl,rfl⟩,-⟩ := walkArena_run wf ok
  have inside : ∀ i ∈ wf.forest.order t.nodes.length, i ≤ t.nodes.length :=
    fun _ member => Forest.le_of_mem_order member
  have started : Visited t payload table [] t.linkParents := .start wf
  have nodup : ([] ++ wf.forest.order t.nodes.length).Nodup := Forest.order_nodup _
  have visited := started.visitAll wf maps (d := (h,t.linkParents)) inside nodup walked
  refine ⟨⟨pending,by rw [visited.all wf fun _ bound => wf.mem_order bound]⟩,fun q => ?_⟩
  rw [started.visitAll_record wf maps edits (d := (h,t.linkParents)) inside nodup walked]
  have same : q ∈ (wf.forest.order t.nodes.length).flatMap t.buffersAt ↔ q ∈ t.storages :=
    ((wf.order_perm.flatMap_right _).trans exact.storages_perm.symm).mem_iff
  simp only [same]

end Course
end Bennu
