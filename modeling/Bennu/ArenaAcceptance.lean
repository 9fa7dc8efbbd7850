import Bennu.ArenaExactness

/-! Whole runs of the walk of `validate_value`: the work stack stays within its allocation, and
the walk and the path of a fault end. -/
namespace Bennu

open MarkTable

/-- `HostArray`: its pointer and sizes, with the capacity and the constructed count of the
registry's record of that pointer. -/
structure ArrayMetadata where
  storage : Option Nat
  size : Nat
  capacity : Nat
  record : Option (Nat × Nat)
  deriving DecidableEq, Repr

/-- `host_array_metadata_valid`. -/
def hostArrayMetadataValid (a : ArrayMetadata) : Bool :=
  match a.storage,a.record with
  | none,_ => a.size == 0 && a.capacity == 0
  | some _,none => false
  | some _,some (capacity,constructed) =>
    a.capacity == capacity && decide (a.size ≤ capacity) && decide (constructed ≤ capacity) &&
      decide (a.size ≤ constructed)

/-- `push_validation_work`: refused when the stack has reached its capacity. -/
def pushValidationWork (capacity : Nat) (work : ValidationWork) (stack : List ValidationWork) :
    Except HostResourceErrorReason (List ValidationWork) :=
  if stack.length ≥ capacity then .error .sizeOverflow else .ok (work :: stack)

/-- Push the children of a node from the last to the first. -/
def pushValidationChildren (t : TupleValue) (capacity index first : Nat) :
    Nat → List ValidationWork → Except HostResourceErrorReason (List ValidationWork)
  | 0,stack => .ok stack
  | offset + 1,stack =>
    match pushValidationWork capacity ⟨t.childAt (first + offset),some index,offset⟩ stack with
    | .error reason => .error reason
    | .ok pushed => pushValidationChildren t capacity index first offset pushed

/-- The scratch tables in front of each round of the walk. -/
inductive ValidationReaches (h : Host) (t : TupleValue) (scalar : ScalarValue) : ValidationTables → Prop
  | start : ValidationReaches h t scalar (initialTables t)
  | round {tables next : ValidationTables} {work : ValidationWork} {rest : List ValidationWork}
      (reached : ValidationReaches h t scalar tables) (top : tables.stack = work :: rest)
      (stepped : validationStep h t scalar work { tables with stack := rest } = .ok next) :
      ValidationReaches h t scalar next

section Runs

variable {h : Host} {t : TupleValue} {scalar : ScalarValue} {tables next : ValidationTables}
variable {work : ValidationWork} {rest : List ValidationWork}

theorem pushValidationChildren_ok {capacity index first : Nat} (count : Nat)
    (stack : List ValidationWork) (room : stack.length + count ≤ capacity) :
    pushValidationChildren t capacity index first count stack =
      .ok ((List.range count).map (fun k => ⟨t.childAt (first + k),some index,k⟩) ++ stack) := by
  induction count generalizing stack with
  | zero => rfl
  | succ offset ih =>
    have below : ¬stack.length ≥ capacity := by omega
    rw [pushValidationChildren,pushValidationWork,if_neg below]
    dsimp only
    rw [ih _ (by rw [List.length_cons]; omega),List.range_succ,List.map_append,List.append_assoc]
    rfl

theorem ValidationReaches.walked (reaches : ValidationReaches h t scalar tables)
    (root : t.rootIndex = t.nodes.length) : ∃ done, Walked h t scalar done tables := by
  induction reaches with
  | start => exact ⟨[],initialTables_walked h t scalar⟩
  | round _ top stepped ih =>
    obtain ⟨done,walked⟩ := ih
    exact ⟨_,walked.step root top stepped⟩

/-- The stack never holds more than was allocated for it. -/
theorem ValidationReaches.stack_le (reaches : ValidationReaches h t scalar tables)
    (root : t.rootIndex = t.nodes.length) : tables.stack.length ≤ t.childIndexes.length + 1 := by
  obtain ⟨done,walked⟩ := reaches.walked root
  have size := walked.size
  omega

/-- So no push of the walk is refused. -/
theorem ValidationReaches.pushes (reaches : ValidationReaches h t scalar tables)
    (root : t.rootIndex = t.nodes.length) (top : tables.stack = work :: rest)
    (stepped : validationStep h t scalar work { tables with stack := rest } = .ok next)
    (container : t.containerAt work.nodeIndex = .tuple) :
    pushValidationChildren t (t.childIndexes.length + 1) work.nodeIndex
      (t.childRange work.nodeIndex).1 (t.childRange work.nodeIndex).2 rest = .ok next.stack := by
  have fits := (ValidationReaches.round reaches top stepped).stack_le root
  obtain ⟨done,walked⟩ := reaches.walked root
  obtain ⟨-,-,-,isNext⟩ := (walked.step_iff root top).mp stepped
  have pushed : next.stack = (List.range (t.childRange work.nodeIndex).2).map
      (fun k => ⟨t.childAt ((t.childRange work.nodeIndex).1 + k),some work.nodeIndex,k⟩) ++ rest := by
    rw [isNext,ValidationTables.advance,TupleValue.pushedBy,if_pos container]
    rfl
  rw [pushed,List.length_append,List.length_map,List.length_range] at fits
  rw [pushed,pushValidationChildren_ok _ _ (by omega)]

/-- Parent links go up and stay in the table. -/
structure PathTable (t : TupleValue) (tables : ValidationTables) : Prop where
  size : tables.visited.length = t.nodes.length + 1
  linked : ∀ c p, tables.pathParents.getD c none = some p → c < p ∧ p ≤ t.nodes.length

/-- A path ends before the nodes above its start run out. -/
theorem PathTable.path (paths : PathTable t tables) {fuel cursor : Nat}
    (enough : t.nodes.length < cursor + fuel) (more : Nat) :
    nodePath tables (fuel + more) cursor = nodePath tables fuel cursor := by
  induction fuel generalizing cursor with
  | zero =>
    have ended : tables.pathParents.getD cursor none = none := by
      cases parent : tables.pathParents.getD cursor none with
      | none => rfl
      | some p =>
        obtain ⟨above,bound⟩ := paths.linked cursor p parent
        omega
    cases more with
    | zero => rfl
    | succ more =>
      rw [Nat.zero_add]
      unfold nodePath
      rw [ended]
  | succ fuel ih =>
    rw [Nat.add_right_comm,nodePath,nodePath]
    cases parent : tables.pathParents.getD cursor none with
    | none => rfl
    | some p =>
      obtain ⟨above,bound⟩ := paths.linked cursor p parent
      dsimp only
      rw [ih (by omega)]

theorem PathTable.set (paths : PathTable t tables) {c : Nat} {parent : Option Nat}
    (visited : next.visited.length = tables.visited.length)
    (placed : next.pathParents = tables.pathParents.set c parent)
    (up : ∀ p, parent = some p → c < p ∧ p ≤ t.nodes.length) : PathTable t next := by
  refine ⟨visited.trans paths.size,fun d p found => ?_⟩
  rw [placed,List.getD_eq_getElem?_getD,List.getElem?_set] at found
  split at found
  · rename_i same
    subst same
    split at found
    · exact up p (by simpa using found)
    · cases found
  · exact paths.linked d p (by rwa [List.getD_eq_getElem?_getD])

/-- What a check of node `i` does to the paths: nothing, or one link to the node itself. -/
def KeepsPaths (i : Nat) (before after : ValidationTables) : Prop :=
  after.visited = before.visited ∧ (after.pathParents = before.pathParents ∨
    ∃ c < i, after.pathParents = before.pathParents.set c (some i))

theorem KeepsPaths.pathTable {i : Nat} (keeps : KeepsPaths i tables next) (bound : i ≤ t.nodes.length)
    (paths : PathTable t tables) : PathTable t next := by
  obtain ⟨visited,same | ⟨c,below,placed⟩⟩ := keeps
  · refine ⟨(congrArg List.length visited).trans paths.size,fun c p found => ?_⟩
    exact paths.linked c p (same ▸ found)
  · refine paths.set (congrArg List.length visited) placed fun p same => ?_
    cases same
    exact ⟨below,bound⟩

theorem claimEdges_paths {i first : Nat} (offsets : List Nat) :
    (∀ claimed, claimEdges t i first offsets tables = .ok claimed →
      claimed.visited = tables.visited ∧ claimed.pathParents = tables.pathParents) ∧
    ∀ fault, claimEdges t i first offsets tables = .error fault → KeepsPaths i tables fault.tables := by
  induction offsets generalizing tables with
  | nil =>
    refine ⟨fun claimed ok => ?_,fun fault refused => by cases refused⟩
    cases ok
    exact ⟨rfl,rfl⟩
  | cons o rest ih =>
    rw [claimEdges]
    dsimp only
    split
    · refine ⟨(fun claimed ok => by cases ok),fun fault refused => ?_⟩
      cases refused
      exact ⟨rfl,.inl rfl⟩
    · split
      · refine ⟨(fun claimed ok => by cases ok),fun fault refused => ?_⟩
        cases refused
        exact ⟨rfl,.inl rfl⟩
      · split
        · refine ⟨(fun claimed ok => by cases ok),fun fault refused => ?_⟩
          cases refused
          exact ⟨rfl,.inl rfl⟩
        · rename_i below
          split
          · refine ⟨(fun claimed ok => by cases ok),fun fault refused => ?_⟩
            cases refused
            exact ⟨rfl,.inr ⟨_,by omega,rfl⟩⟩
          · exact ih

theorem validateTupleNode_paths {i : Nat} {fault : WalkFault}
    (refused : validateTupleNode h t scalar i tables = .error fault) : KeepsPaths i tables fault.tables := by
  unfold validateTupleNode at refused
  dsimp only at refused
  generalize (if i = t.rootIndex then scalar else (t.node i).scalar) = own at refused
  generalize (if i = t.rootIndex then t.reservations.length else
    (t.node i).tupleReservationIndex) = slot at refused
  split at refused
  · cases refused
    exact ⟨rfl,.inl rfl⟩
  · split at refused
    · cases refused
      exact ⟨rfl,.inl rfl⟩
    · split at refused
      · cases refused
        exact ⟨rfl,.inl rfl⟩
      · split at refused
        · rename_i found
          cases refused
          exact (claimEdges_paths _).2 _ found
        · rename_i claimed found
          obtain ⟨visited,parents⟩ := (claimEdges_paths _).1 _ found
          split at refused
          · cases refused
            exact ⟨visited,.inl parents⟩
          · split at refused
            · cases refused
              exact ⟨visited,.inl parents⟩
            · split at refused
              · cases refused
                exact ⟨visited,.inl parents⟩
              · split at refused
                · cases refused
                  exact ⟨visited,.inl parents⟩
                · cases refused

theorem validateVectorNode_paths {i : Nat} {fault : WalkFault}
    (refused : validateVectorNode h t i tables = .error fault) : KeepsPaths i tables fault.tables := by
  unfold validateVectorNode at refused
  dsimp only at refused
  split at refused
  · cases refused
    exact ⟨rfl,.inl rfl⟩
  · split at refused
    · cases refused
      exact ⟨rfl,.inl rfl⟩
    · split at refused
      · cases refused
        exact ⟨rfl,.inl rfl⟩
      · split at refused
        · cases refused
          exact ⟨rfl,.inl rfl⟩
        · split at refused
          · cases refused
            exact ⟨rfl,.inl rfl⟩
          · split at refused
            · cases refused
              exact ⟨rfl,.inl rfl⟩
            · cases refused

theorem validateScalarNode_paths {i : Nat} {fault : WalkFault}
    (refused : validateScalarNode t i tables = .error fault) : KeepsPaths i tables fault.tables := by
  unfold validateScalarNode at refused
  dsimp only at refused
  split at refused
  · cases refused
    exact ⟨rfl,.inl rfl⟩
  · split at refused
    · cases refused
      exact ⟨rfl,.inl rfl⟩
    · cases refused

/-- A node is on the stack with its parent, which is above it. -/
def StackLinked (t : TupleValue) (stack : List ValidationWork) : Prop :=
  ∀ w ∈ stack, ∀ p, w.parentIndex = some p → w.nodeIndex < p ∧ p ≤ t.nodes.length

/-- A round that fails leaves links that go up. -/
theorem validationStep_paths {fault : WalkFault} (paths : PathTable t tables)
    (bound : work.nodeIndex ≤ t.nodes.length)
    (up : ∀ p, work.parentIndex = some p → work.nodeIndex < p ∧ p ≤ t.nodes.length)
    (refused : validationStep h t scalar work tables = .error fault) : PathTable t fault.tables := by
  unfold validationStep at refused
  dsimp only at refused
  split at refused
  · cases refused
    exact paths.set rfl rfl up
  · generalize isVisited : (ValidationTables.mk _ _ _ _ _ _ _ _) = visited at refused
    have placed : PathTable t visited := by
      have size : visited.visited.length = tables.visited.length := by
        rw [← isVisited]
        simp
      have parents : visited.pathParents =
          tables.pathParents.set work.nodeIndex work.parentIndex := by rw [← isVisited]
      exact paths.set size parents up
    split at refused
    · exact (validateScalarNode_paths refused).pathTable bound placed
    · exact (validateVectorNode_paths refused).pathTable bound placed
    · exact (validateTupleNode_paths refused).pathTable bound placed

theorem ValidationReaches.paths (reaches : ValidationReaches h t scalar tables)
    (root : t.rootIndex = t.nodes.length) : PathTable t tables ∧ StackLinked t tables.stack := by
  induction reaches with
  | start =>
    refine ⟨⟨by simp [initialTables],fun c p found => ?_⟩,?_⟩
    · simp only [initialTables,List.getD_eq_getElem?_getD,List.getElem?_replicate] at found
      split at found <;> cases found
    · simp [StackLinked,initialTables]
  | round reached top stepped ih =>
    rename_i tables next work rest
    obtain ⟨paths,linked⟩ := ih
    obtain ⟨done,walked⟩ := reached.walked root
    have bound := walked.bound root (i := work.nodeIndex) (by simp [top])
    rw [top] at linked
    obtain ⟨up,others⟩ := List.forall_mem_cons.mp linked
    obtain ⟨-,earlier,-,rfl⟩ := (walked.step_iff root top).mp stepped
    refine ⟨paths.set ?_ rfl up,fun w member => ?_⟩
    · exact length_flags.trans paths.size.symm
    · rcases List.mem_append.mp member with pushed | old
      · unfold TupleValue.pushedBy at pushed
        split at pushed
        · rename_i container
          obtain ⟨k,inside,rfl⟩ := List.mem_map.mp pushed
          intro p same
          cases same
          refine ⟨earlier _ ?_,bound⟩
          rw [TupleValue.childrenAt,if_pos ⟨bound,container⟩]
          exact List.mem_map_of_mem inside
        · cases pushed
      · exact others w old

/-- Where a walk ends: at the round that fails, or at tables it has reached. -/
theorem ValidationReaches.loop {fuel : Nat} (reaches : ValidationReaches h t scalar tables) :
    (∀ after, validationLoop h t scalar fuel tables = .ok after → ValidationReaches h t scalar after) ∧
    ∀ fault, validationLoop h t scalar fuel tables = .error fault →
      ∃ last work rest, ValidationReaches h t scalar last ∧ last.stack = work :: rest ∧
        validationStep h t scalar work { last with stack := rest } = .error fault := by
  induction fuel generalizing tables with
  | zero => exact ⟨fun after ok => by cases ok; exact reaches,fun fault refused => by cases refused⟩
  | succ fuel ih =>
    unfold validationLoop
    split
    · exact ⟨fun after ok => by cases ok; exact reaches,fun fault refused => by cases refused⟩
    · rename_i work rest top
      split
      · rename_i fault refused
        refine ⟨(fun after ok => by cases ok),fun other same => ?_⟩
        cases same
        exact ⟨tables,work,rest,reaches,top,refused⟩
      · rename_i next stepped
        exact ih (.round reaches top stepped)

/-- The links of a reported fault go up, so its path is read to its end. -/
theorem validateArena_paths {fault : WalkFault} (root : t.rootIndex = t.nodes.length)
    (refused : validateArena h t scalar = .error fault) : PathTable t fault.tables := by
  have begins : ValidationReaches h t scalar (initialTables t) := .start
  unfold validateArena at refused
  split at refused
  · rename_i found failed
    cases refused
    obtain ⟨last,work,rest,reached,top,stepped⟩ := begins.loop.2 _ failed
    obtain ⟨paths,linked⟩ := reached.paths root
    obtain ⟨done,walked⟩ := reached.walked root
    have bound := walked.bound root (i := work.nodeIndex) (by simp [top])
    have same : PathTable t { last with stack := rest } := ⟨paths.size,paths.linked⟩
    exact validationStep_paths same bound (linked work (by rw [top]; exact List.mem_cons_self ..)) stepped
  · rename_i tables looped
    have paths := ((begins.loop.1 _ looped).paths root).1
    have same : fault.tables = tables := by
      unfold orphanCheck at refused
      split at refused
      · cases refused
        rfl
      · split at refused
        · cases refused
          rfl
        · split at refused
          · cases refused
            rfl
          · split at refused
            · cases refused
              rfl
            · cases refused
    rw [same]
    exact paths

end Runs

/-- A walk that ends: its rounds, with an empty stack when none fails, its stack within the
capacity allocated for it, every push granted, and the path of its fault. -/
structure WalkEnds (h : Host) (t : TupleValue) (scalar : ScalarValue) : Prop where
  rounds : ∀ more, validationLoop h t scalar (t.childIndexes.length + 2 + more) (initialTables t) =
    validationLoop h t scalar (t.childIndexes.length + 2) (initialTables t)
  emptied : ∀ after, validationLoop h t scalar (t.childIndexes.length + 2) (initialTables t) =
    .ok after → after.stack = []
  stack : ∀ tables, ValidationReaches h t scalar tables →
    tables.stack.length ≤ t.childIndexes.length + 1
  pushes : ∀ tables work rest next, ValidationReaches h t scalar tables → tables.stack = work :: rest →
    validationStep h t scalar work { tables with stack := rest } = .ok next →
    t.containerAt work.nodeIndex = .tuple →
    pushValidationChildren t (t.childIndexes.length + 1) work.nodeIndex
      (t.childRange work.nodeIndex).1 (t.childRange work.nodeIndex).2 rest = .ok next.stack
  path : ∀ fault, validateArena h t scalar = .error fault → ∀ more,
    nodePath fault.tables (fault.tables.visited.length + more) fault.nodeIndex =
      nodePath fault.tables fault.tables.visited.length fault.nodeIndex

theorem walkEnds (h : Host) {t : TupleValue} (scalar : ScalarValue)
    (root : t.rootIndex = t.nodes.length) : WalkEnds h t scalar := by
  have begins := initialTables_walked h t scalar
  refine ⟨fun more => validationLoop_more root begins (by simp) more,fun after ok => ?_,
    fun tables reached => reached.stack_le root,
    fun tables work rest next reached top stepped container => reached.pushes root top stepped container,
    fun fault refused more => ?_⟩
  · obtain ⟨done,-,empty⟩ := validationLoop_walked root begins (by simp) ok
    exact empty
  · have paths := validateArena_paths root refused
    have size := paths.size
    exact paths.path (by omega) more

/-- The verdict of `validate_value` on a value. -/
theorem validateValue_verdict (f : HostFailureInjection) (h : Host) (v : Value) :
    ((validateValue f h v).2.2 = none ↔ v.Exact h ∧
      (v.container = .tuple → (validationScratch f h v.tuple).2.2 = .none)) ∧
    ∀ fault, (validateValue f h v).2.2 = some (.invalid fault) → ¬v.Exact h := by
  rw [← invalidity_none_iff]
  unfold validateValue
  dsimp only
  split
  · rename_i arena
    obtain ⟨container,-⟩ := arena
    simp only [container,true_implies]
    obtain ⟨begun,next,reason⟩ := validationScratch f h v.tuple
    cases reason with
    | none =>
      dsimp only
      cases invalidity h v with
      | none => simp
      | some invalid =>
        dsimp only
        split
        · simp
        · split <;> simp
    | sizeOverflow => simp
    | allocationUnavailable => simp
  · rename_i other
    have passes : invalidity h v = none → v.container ≠ .tuple := by
      intro accepted container
      refine other ⟨container,?_⟩
      have root := ((invalidity_none_iff h v).mp accepted).tuple container
      cases checked : validateRoot v with
      | none => rfl
      | some fault => simp [invalidity,checked] at accepted
    cases verdict : invalidity h v with
    | none => simp [passes verdict]
    | some invalid => simp

end Bennu
