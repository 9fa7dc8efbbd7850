import Bennu.ValueContents

/-! The walk over stored records goes in step with the walk over the typed arena that they
show, and fails where a code is unknown. So `validate_value` is exact on any contents. -/
namespace Bennu

/-- The typed node stored, when its codes are enumerators. -/
def NodeContents.known (n : NodeContents) : Option ValueNode :=
  n.container.bind fun container => n.scalar.known.map fun scalar =>
    ⟨container,scalar,n.firstChild,n.childCount,n.tupleReservationIndex,n.vectorPayloadIndex⟩

/-- The tables store this arena: every code is an enumerator and every field is the same. -/
structure TupleContents.Stores (c : TupleContents) (t : TupleValue) : Prop where
  nodes : c.nodes.map (·.known) = t.nodes.map some
  childIndexes : c.childIndexes = t.childIndexes
  rootIndex : c.rootIndex = t.rootIndex
  vectorPayloads : c.vectorPayloads.map (·.known) = t.vectorPayloads.map some
  reservations : c.reservations.map (·.toTupleTableReservation) = t.reservations
  rootReservation : c.rootReservation.toTupleTableReservation = t.rootReservation
  firstChild : c.firstChild = t.firstChild
  childCount : c.childCount = t.childCount

/-- The record stores this value: every code is an enumerator, every field is the same, and
what its container leaves empty has no observer. -/
structure ValueContents.Stores (c : ValueContents) (v : Value) : Prop where
  container : c.container = some v.container
  scalar : c.scalar.known = some v.scalar
  vector : c.vector.known = some v.vector
  tuple : c.tuple.Stores v.tuple
  claimed : c.claimed = v.claimed
  vectorObserver : v.container ≠ .vector → c.vector.lifetimeObserver = noLifetimeObserver
  tableObserver : v.container ≠ .tuple →
    c.tuple.rootReservation.lifetimeObserver = noLifetimeObserver

section Shown

theorem ScalarContents.shown_of_known {c : ScalarContents} {s : ScalarValue} (known : c.known = some s) :
    c.shown = s := by
  rw [shown,known]
  rfl

theorem VectorContents.shown_of_known {c : VectorContents} {v : VectorValue} (known : c.known = some v) :
    c.shown = v := by
  rw [shown,known]
  rfl

theorem NodeContents.shown_of_known {c : NodeContents} {n : ValueNode} (known : c.known = some n) :
    c.shown = n := by
  unfold NodeContents.known at known
  obtain ⟨container,tag,rest⟩ := Option.bind_eq_some_iff.mp known
  obtain ⟨scalar,stored,rfl⟩ := Option.map_eq_some_iff.mp rest
  simp only [NodeContents.shown,tag,ScalarContents.shown_of_known stored]

/-- An unknown type is shown as a scalar that no check accepts. -/
theorem ScalarContents.known_of_sound {c : ScalarContents}
    (sound : c.shown.Sound ∨ c.shown = emptyScalar) : c.known = some c.shown := by
  cases known : c.known with
  | some s => rw [shown_of_known known]
  | none =>
    have unknown : c.shown = ⟨.boolean,false,1,0⟩ := by rw [shown,known]; rfl
    rw [unknown] at sound
    rcases sound with ⟨integer,-⟩ | same
    · exact absurd integer (by decide)
    · exact absurd same (by decide)

/-- An unknown element type is shown as a payload that no check accepts. -/
theorem VectorContents.known_of_sound {h : Host} {c : VectorContents}
    (sound : c.shown.Sound h ∨ c.shown = emptyVector) : c.known = some c.shown := by
  cases known : c.known with
  | some v => rw [shown_of_known known]
  | none =>
    have unknown : c.shown = { emptyVector with integerCount := 1 } := by rw [shown,known]; rfl
    rw [unknown] at sound
    rcases sound with sound | same
    · exact absurd (sound.integersInactive (by decide)).2 (by decide)
    · exact absurd same (by decide)

theorem ScalarContents.isEmpty_shown (c : ScalarContents) : c.isEmpty = isEmptyScalar c.shown := by
  cases known : c.known with
  | some s => rw [isEmpty,shown_of_known known,known,Option.any_some]
  | none =>
    rw [isEmpty,shown,known]
    rfl

theorem ScalarContents.validate_none (c : ScalarContents) : c.validate = none ↔ validateScalar c.shown = none := by
  cases known : c.known with
  | some s => simp only [validate,known,shown_of_known known]
  | none =>
    simp only [validate,shown,known]
    decide

theorem VectorContents.validate_none (h : Host) (c : VectorContents) :
    c.validate h = none ↔ vectorValidation h c.shown = none := by
  cases known : c.known with
  | some v => simp only [validate,known,shown_of_known known]
  | none =>
    simp only [validate,shown,known]
    simp [vectorValidation,emptyVector,emptyVectorOf]

theorem VectorContents.storage_shown (c : VectorContents) : c.shown.storage = c.storage := by
  cases known : c.known with
  | some v => rw [shown_of_known known,storage,known,Option.bind_some]
  | none =>
    rw [storage,shown,known]
    rfl

theorem VectorContents.fieldsEmpty_shown (c : VectorContents) :
    c.fieldsEmpty = (vectorFieldsEmpty c.shown && c.lifetimeObserver == noLifetimeObserver) := by
  cases known : c.known with
  | some v => rw [fieldsEmpty,shown_of_known known,known,Option.any_some]
  | none =>
    have other : vectorFieldsEmpty c.shown = false := by rw [shown,known]; decide
    rw [fieldsEmpty,known,other]
    rfl

end Shown

namespace TupleContents

variable {h : Host} (t : TupleContents) (scalar : ScalarContents)

theorem outline_length : t.outline.nodes.length = t.nodes.length := List.length_map ..

theorem outline_node (i : Nat) : t.outline.node i = (t.node i).shown := by
  unfold TupleValue.node node outline
  rw [List.getD_eq_getElem?_getD,List.getD_eq_getElem?_getD,List.getElem?_map]
  cases t.nodes[i]? <;> rfl

theorem outline_payload (i : Nat) :
    t.outline.vectorPayloads[i]? = (t.vectorPayloads[i]?).map (·.shown) := List.getElem?_map ..

theorem outline_containerAt (i : Nat) : t.outline.containerAt i = (t.containerAt i).getD .scalar := by
  unfold TupleValue.containerAt containerAt
  rw [outline_node]
  have same : t.outline.rootIndex = t.rootIndex := rfl
  rw [same]
  split
  · rfl
  · unfold NodeContents.shown
    cases (t.node i).container <;> rfl

theorem fieldsEmpty_outline : t.fieldsEmpty = (tupleFieldsEmpty t.outline &&
    t.rootReservation.lifetimeObserver == noLifetimeObserver) := by
  rw [Bool.eq_iff_iff]
  simp only [fieldsEmpty,tupleFieldsEmpty,outline,emptyTuple,Bool.and_eq_true,beq_iff_eq,
    TupleValue.mk.injEq,List.length_eq_zero_iff,List.map_eq_nil_iff]
  tauto

end TupleContents

/-- Two walks in step: the same tables, or a failure at the same place. -/
inductive InStep {α : Type} : Except WalkFault α → Except WalkFault α → Prop
  | passed (value : α) : InStep (.ok value) (.ok value)
  | failed (found shown : ValueInvariant) (node : Nat) (edge : Option Nat) (tables : ValidationTables) :
      InStep (.error ⟨found,node,edge,tables⟩) (.error ⟨shown,node,edge,tables⟩)

theorem InStep.refl {α : Type} (outcome : Except WalkFault α) : InStep outcome outcome := by
  cases outcome with
  | ok value => exact .passed value
  | error fault => exact .failed fault.invariant fault.invariant fault.nodeIndex fault.edgeIndex fault.tables

theorem InStep.ok {α : Type} {stored typed : Except WalkFault α} (step : InStep stored typed) (value : α) :
    stored = .ok value ↔ typed = .ok value := by
  cases step <;> simp

namespace TupleContents

variable (h : Host) (t : TupleContents) (scalar : ScalarContents) (tables : ValidationTables) (i : Nat)

theorem validateScalarNode_inStep (container : (t.node i).container = some .scalar) :
    InStep (t.validateScalarNode i tables) (Bennu.validateScalarNode t.outline i tables) := by
  have shown : t.outline.node i = ⟨.scalar,(t.node i).scalar.shown,(t.node i).firstChild,
      (t.node i).childCount,(t.node i).tupleReservationIndex,(t.node i).vectorPayloadIndex⟩ := by
    rw [outline_node,NodeContents.shown,container]
  unfold validateScalarNode Bennu.validateScalarNode
  rw [shown]
  dsimp only
  have verdict := (t.node i).scalar.validate_none
  split
  · exact .refl _
  · cases found : (t.node i).scalar.validate with
    | none =>
      rw [verdict.mp found]
      exact .passed _
    | some invariant =>
      cases typed : validateScalar (t.node i).scalar.shown with
      | none =>
        rw [verdict.mpr typed] at found
        cases found
      | some other => exact .failed ..

theorem validateVectorNode_inStep (container : (t.node i).container = some .vector) :
    InStep (t.validateVectorNode h i tables) (Bennu.validateVectorNode h t.outline i tables) := by
  have shown : t.outline.node i = ⟨.vector,(t.node i).scalar.shown,(t.node i).firstChild,
      (t.node i).childCount,(t.node i).tupleReservationIndex,(t.node i).vectorPayloadIndex⟩ := by
    rw [outline_node,NodeContents.shown,container]
  unfold validateVectorNode Bennu.validateVectorNode
  rw [shown]
  dsimp only
  rw [ScalarContents.isEmpty_shown,outline_payload]
  split
  · exact .refl _
  split
  · exact .refl _
  cases t.vectorPayloads[(t.node i).vectorPayloadIndex]? with
  | none => exact .refl _
  | some payload =>
    dsimp only [Option.map_some]
    rw [VectorContents.storage_shown]
    split
    · exact .refl _
    split
    · exact .refl _
    have verdict := payload.validate_none h
    cases found : payload.validate h with
    | none =>
      rw [verdict.mp found]
      exact .passed _
    | some invariant =>
      cases typed : vectorValidation h payload.shown with
      | none =>
        rw [verdict.mpr typed] at found
        cases found
      | some other => exact .failed ..

theorem validateTupleNode_inStep :
    InStep (t.validateTupleNode h scalar i tables) (Bennu.validateTupleNode h t.outline scalar.shown i tables) := by
  unfold validateTupleNode
  by_cases occupied : (!(if i = t.rootIndex then scalar else (t.node i).scalar).isEmpty) = true
  · have inner : (t.node i).shown.scalar = (t.node i).scalar.shown := by
      unfold NodeContents.shown
      cases (t.node i).container <;> rfl
    have shown : (!isEmptyScalar (if i = t.outline.rootIndex then scalar.shown
        else (t.outline.node i).scalar)) = true := by
      rw [outline_node,inner,← apply_ite ScalarContents.shown,← ScalarContents.isEmpty_shown]
      exact occupied
    rw [if_pos occupied]
    unfold Bennu.validateTupleNode
    dsimp only
    rw [if_pos shown]
    exact .refl _
  · rw [if_neg occupied]
    exact .refl _

theorem validationStep_inStep (work : ValidationWork) :
    InStep (t.validationStep h scalar work tables)
      (Bennu.validationStep h t.outline scalar.shown work tables) := by
  unfold validationStep Bennu.validationStep
  dsimp only
  rw [outline_containerAt]
  split
  · exact .refl _
  have inner {kind : Option ContainerKind} (other : kind ≠ some .tuple)
      (found : t.containerAt work.nodeIndex = kind) : (t.node work.nodeIndex).container = kind := by
    unfold containerAt at found
    split at found
    · exact absurd found.symm other
    · exact found
  cases found : t.containerAt work.nodeIndex with
  | some kind => cases kind with
    | scalar => exact validateScalarNode_inStep t _ _ (inner (by decide) found)
    | vector => exact validateVectorNode_inStep h t _ _ (inner (by decide) found)
    | tuple => exact validateTupleNode_inStep h t scalar _ _
  | none =>
    -- the node shows a scalar with a payload
    have shown : (t.outline.node work.nodeIndex).vectorPayloadIndex ≠ 0 := by
      rw [outline_node,NodeContents.shown,inner (by decide) found]
      exact Nat.one_ne_zero
    dsimp only [Option.getD_none]
    unfold Bennu.validateScalarNode
    dsimp only
    rw [if_pos (.inr (.inr (.inr shown)))]
    exact .failed ..

theorem validationLoop_inStep (fuel : Nat) :
    InStep (t.validationLoop h scalar fuel tables)
      (Bennu.validationLoop h t.outline scalar.shown fuel tables) := by
  induction fuel generalizing tables with
  | zero => exact .refl _
  | succ fuel ih =>
    unfold validationLoop Bennu.validationLoop
    cases tables.stack with
    | nil => exact .refl _
    | cons work rest =>
      dsimp only
      have step := validationStep_inStep h t scalar { tables with stack := rest } work
      generalize t.validationStep h scalar work { tables with stack := rest } = stored at step ⊢
      generalize Bennu.validationStep h t.outline scalar.shown work { tables with stack := rest } =
        typed at step ⊢
      cases step with
      | passed next => exact ih next
      | failed => exact .failed ..

theorem validateArena_inStep :
    InStep (t.validateArena h scalar) (Bennu.validateArena h t.outline scalar.shown) := by
  unfold validateArena Bennu.validateArena
  have edges : t.outline.childIndexes = t.childIndexes := rfl
  rw [edges]
  have loop := validationLoop_inStep h t scalar (initialTables t.outline) (t.childIndexes.length + 2)
  generalize t.validationLoop h scalar (t.childIndexes.length + 2) (initialTables t.outline) =
    stored at loop ⊢
  generalize Bennu.validationLoop h t.outline scalar.shown (t.childIndexes.length + 2)
    (initialTables t.outline) = typed at loop ⊢
  cases loop with
  | passed after => exact .refl _
  | failed => exact .failed ..

/-- The scratch tables in front of each round of the walk. -/
inductive Reaches : ValidationTables → Prop
  | start : Reaches (initialTables t.outline)
  | round {tables next : ValidationTables} {work : ValidationWork} {rest : List ValidationWork}
      (reached : Reaches tables) (top : tables.stack = work :: rest)
      (stepped : t.validationStep h scalar work { tables with stack := rest } = .ok next) :
      Reaches next

variable {h t scalar tables}

theorem Reaches.typed (reaches : t.Reaches h scalar tables) :
    ValidationReaches h t.outline scalar.shown tables := by
  induction reaches with
  | start => exact .start
  | round _ top stepped ih => exact .round ih top (((validationStep_inStep ..).ok _).mp stepped)

/-- A walk that has ended stays where it is. -/
theorem validationLoop_more {fuel : Nat}
    (ends : ∀ after, t.validationLoop h scalar fuel tables = .ok after → after.stack = []) (more : Nat) :
    t.validationLoop h scalar (fuel + more) tables = t.validationLoop h scalar fuel tables := by
  induction fuel generalizing tables with
  | zero =>
    have done : tables.stack = [] := ends tables rfl
    cases more with
    | zero => rfl
    | succ more => simp only [validationLoop,done]
  | succ fuel ih =>
    rw [Nat.succ_add]
    unfold validationLoop at ends ⊢
    cases stack : tables.stack with
    | nil => rfl
    | cons work rest =>
      rw [stack] at ends
      dsimp only at ends ⊢
      cases stepped : t.validationStep h scalar work { tables with stack := rest } with
      | error fault => rfl
      | ok next =>
        rw [stepped] at ends
        exact ih ends

variable (h t scalar)

/-- A walk that ends: its rounds, with an empty stack when none fails, its stack within the
capacity allocated for it, every push granted, and the path of its fault. -/
structure WalkEnds : Prop where
  rounds : ∀ more, t.validationLoop h scalar (t.childIndexes.length + 2 + more) (initialTables t.outline) =
    t.validationLoop h scalar (t.childIndexes.length + 2) (initialTables t.outline)
  emptied : ∀ after, t.validationLoop h scalar (t.childIndexes.length + 2) (initialTables t.outline) =
    .ok after → after.stack = []
  stack : ∀ tables, t.Reaches h scalar tables → tables.stack.length ≤ t.childIndexes.length + 1
  pushes : ∀ tables work rest next, t.Reaches h scalar tables → tables.stack = work :: rest →
    t.validationStep h scalar work { tables with stack := rest } = .ok next →
    t.containerAt work.nodeIndex = some .tuple →
    pushValidationChildren t.outline (t.childIndexes.length + 1) work.nodeIndex
      (t.outline.childRange work.nodeIndex).1 (t.outline.childRange work.nodeIndex).2 rest = .ok next.stack
  path : ∀ fault, t.validateArena h scalar = .error fault → ∀ more,
    nodePath fault.tables (fault.tables.visited.length + more) fault.nodeIndex =
      nodePath fault.tables fault.tables.visited.length fault.nodeIndex

theorem walkEnds (root : t.rootIndex = t.nodes.length) : t.WalkEnds h scalar := by
  have shownRoot : t.outline.rootIndex = t.outline.nodes.length := by rw [outline_length]; exact root
  have typed := Bennu.walkEnds h scalar.shown shownRoot
  have emptied : ∀ after, t.validationLoop h scalar (t.childIndexes.length + 2) (initialTables t.outline) =
      .ok after → after.stack = [] :=
    fun after ok => typed.emptied after (((validationLoop_inStep ..).ok _).mp ok)
  refine ⟨validationLoop_more emptied,emptied,fun tables reached => typed.stack _ reached.typed,
    fun tables work rest next reached top stepped container => ?_,fun fault refused more => ?_⟩
  · refine typed.pushes tables work rest next reached.typed top
      (((validationStep_inStep ..).ok _).mp stepped) ?_
    rw [outline_containerAt,container]
    rfl
  · have step := validateArena_inStep h t scalar
    rw [refused] at step
    generalize shown : Bennu.validateArena h t.outline scalar.shown = outcome at step
    cases step with
    | failed found other node edge tables => exact typed.path _ shown more

end TupleContents

/-- Records that all store something store what they show. -/
theorem map_known {α β : Type} {known : α → Option β} {shown : α → β} {records : List α}
    (each : ∀ i (inside : i < records.length), known records[i] = some (shown records[i])) :
    records.map known = (records.map shown).map some := by
  rw [List.map_map]
  refine List.map_congr_left fun record member => ?_
  obtain ⟨i,inside,rfl⟩ := List.getElem_of_mem member
  exact each i inside

theorem map_shown {α β : Type} {known : α → Option β} {shown : α → β} {records : List α} {values : List β}
    (stored : records.map known = values.map some)
    (same : ∀ record value, known record = some value → shown record = value) :
    records.map shown = values := by
  induction records generalizing values with
  | nil => cases values with
    | nil => rfl
    | cons value rest => cases stored
  | cons record rest ih => cases values with
    | nil => cases stored
    | cons value values =>
      rw [List.map_cons,List.map_cons,List.cons.injEq] at stored
      rw [List.map_cons,same _ _ stored.1,ih stored.2]

theorem NodeContents.known_of_shown {n : NodeContents} {container : ContainerKind}
    (tag : n.container = some container) (scalar : n.scalar.known = some n.scalar.shown) :
    n.known = some n.shown := by
  rw [NodeContents.known,NodeContents.shown,tag,Option.bind_some,scalar,Option.map_some]

namespace TupleContents

variable {h : Host} {t : TupleContents} {scalar : ScalarValue}

theorem Stores.outline_eq {v : TupleValue} (stores : t.Stores v) : t.outline = v := by
  unfold outline
  rw [map_shown stores.nodes fun _ _ => NodeContents.shown_of_known,
    map_shown stores.vectorPayloads fun _ _ => VectorContents.shown_of_known,stores.childIndexes,
    stores.rootIndex,stores.reservations,stores.rootReservation,stores.firstChild,stores.childCount]

/-- Every node of a sound arena has a container that is known and a scalar of a known type. -/
theorem node_known (exact : t.outline.Exact h scalar) {i : Nat} (inside : i < t.nodes.length) :
    (t.nodes[i]).known = some (t.nodes[i]).shown := by
  have size := t.outline_length
  have inner : i ≠ t.outline.rootIndex := by
    rw [exact.root,size]
    omega
  have here : t.node i = t.nodes[i] := by rw [node,List.getD_eq_getElem _ _ inside]
  have sound := exact.sound i (by omega)
  unfold TupleValue.NodeSound TupleValue.scalarAt at sound
  rw [TupleValue.containerAt,if_neg inner,if_neg inner,outline_node,here] at sound
  cases tag : (t.nodes[i]).container with
  | none =>
    have shown : (t.nodes[i]).shown.container = .scalar ∧ (t.nodes[i]).shown.vectorPayloadIndex = 1 := by
      rw [NodeContents.shown,tag]
      exact ⟨rfl,rfl⟩
    rw [shown.1] at sound
    dsimp only at sound
    rw [shown.2] at sound
    exact absurd sound.2.2.2.1 Nat.one_ne_zero
  | some container =>
    refine NodeContents.known_of_shown tag (ScalarContents.known_of_sound ?_)
    have shown : (t.nodes[i]).shown.container = container ∧
        (t.nodes[i]).shown.scalar = (t.nodes[i]).scalar.shown := by
      rw [NodeContents.shown,tag]
      exact ⟨rfl,rfl⟩
    rw [shown.1] at sound
    rw [← shown.2]
    cases container with
    | scalar => exact .inl sound.2.2.2.2
    | vector => exact .inr sound.1
    | tuple => exact .inr sound.1

/-- Every payload of a sound arena is used by a vector node, which checks its element type. -/
theorem payload_known (exact : t.outline.Exact h scalar) {i : Nat} (inside : i < t.vectorPayloads.length) :
    (t.vectorPayloads[i]).known = some (t.vectorPayloads[i]).shown := by
  have used : i ∈ (List.range (t.outline.nodes.length + 1)).flatMap t.outline.payloadsAt := by
    rw [exact.payloads.mem_iff,List.mem_range]
    exact inside.trans_eq (List.length_map ..).symm
  obtain ⟨j,among,here⟩ := List.mem_flatMap.mp used
  unfold TupleValue.payloadsAt at here
  split at here
  · rename_i container
    have sound := exact.sound j (by rw [List.mem_range] at among; omega)
    unfold TupleValue.NodeSound at sound
    rw [container] at sound
    obtain ⟨-,-,-,-,payload,found,sound⟩ := sound
    rw [← List.mem_singleton.mp here,outline_payload,List.getElem?_eq_getElem inside,Option.map_some,
      Option.some.injEq] at found
    subst found
    exact VectorContents.known_of_sound (.inl sound)
  · cases here

theorem stores_outline (exact : t.outline.Exact h scalar) : t.Stores t.outline where
  nodes := map_known fun _ inside => node_known exact inside
  childIndexes := rfl
  rootIndex := rfl
  vectorPayloads := map_known fun _ inside => payload_known exact inside
  reservations := rfl
  rootReservation := rfl
  firstChild := rfl
  childCount := rfl

theorem stores_empty (empty : t.outline = emptyTuple) : t.Stores t.outline where
  nodes := map_known fun i inside => by
    have size := t.outline_length
    rw [empty] at size
    exact absurd inside (by rw [← size]; exact Nat.not_lt_zero i)
  childIndexes := rfl
  rootIndex := rfl
  vectorPayloads := map_known fun i inside => by
    have size : t.outline.vectorPayloads.length = t.vectorPayloads.length := List.length_map ..
    rw [empty] at size
    exact absurd inside (by rw [← size]; exact Nat.not_lt_zero i)
  reservations := rfl
  rootReservation := rfl
  firstChild := rfl
  childCount := rfl

end TupleContents

namespace ValueContents

variable (h : Host) (c : ValueContents)

/-- The value that a record shows, of whatever container an unknown code is taken for. -/
def shown : Value :=
  ⟨c.container.getD .scalar,c.scalar.shown,c.vector.shown,c.tuple.outline,c.claimed⟩

theorem Stores.shown_eq {c : ValueContents} {v : Value} (stores : c.Stores v) : c.shown = v := by
  unfold shown
  rw [stores.container,ScalarContents.shown_of_known stores.scalar,
    VectorContents.shown_of_known stores.vector,stores.tuple.outline_eq,stores.claimed]
  rfl

/-- No observer where the container leaves a record empty. -/
def Unobserved : Prop :=
  (c.container ≠ some .vector → c.vector.lifetimeObserver = noLifetimeObserver) ∧
  (c.container ≠ some .tuple → c.tuple.rootReservation.lifetimeObserver = noLifetimeObserver)

theorem validateRoot_none_iff : c.validateRoot = none ↔
    c.container.isSome ∧ c.Unobserved ∧ Bennu.validateRoot c.shown = none := by
  have scalar := c.scalar.validate_none
  unfold validateRoot Bennu.validateRoot Unobserved shown
  cases c.claimed with
  | false => simp
  | true =>
    cases c.container with
    | none => simp
    | some container =>
      simp only [VectorContents.fieldsEmpty_shown,TupleContents.fieldsEmpty_outline,
        ScalarContents.isEmpty_shown,TupleContents.outline_length,Option.getD_some]
      have root : c.tuple.outline.rootIndex = c.tuple.rootIndex := rfl
      cases container with
      | scalar =>
        cases vectorFieldsEmpty c.vector.shown <;> cases tupleFieldsEmpty c.tuple.outline <;>
          by_cases vector : c.vector.lifetimeObserver = noLifetimeObserver <;>
          by_cases table : c.tuple.rootReservation.lifetimeObserver = noLifetimeObserver <;>
          simp [vector,table,scalar]
      | vector =>
        cases isEmptyScalar c.scalar.shown <;> cases tupleFieldsEmpty c.tuple.outline <;>
          by_cases table : c.tuple.rootReservation.lifetimeObserver = noLifetimeObserver <;>
          simp [table]
      | tuple =>
        simp only [Bool.not_true,Bool.false_eq_true,if_false,root]
        split
        · simp
        split
        · simp
        cases isEmptyScalar c.scalar.shown <;> cases vectorFieldsEmpty c.vector.shown <;>
          by_cases vector : c.vector.lifetimeObserver = noLifetimeObserver <;> simp [vector]

/-- The verdict on a record: every code of its container is known, no observer is left where it
is empty, and the value shown is accepted. -/
theorem invalidity_none_iff : c.invalidity h = none ↔
    c.container.isSome ∧ c.Unobserved ∧ c.shown.Exact h := by
  rw [← Bennu.invalidity_none_iff]
  have root := c.validateRoot_none_iff
  unfold invalidity Bennu.invalidity
  cases checked : c.validateRoot with
  | some fault =>
    simp only [reduceCtorEq,false_iff]
    rintro ⟨known,unobserved,accepted⟩
    cases typed : Bennu.validateRoot c.shown with
    | none =>
      rw [root.mpr ⟨known,unobserved,typed⟩] at checked
      cases checked
    | some other =>
      rw [typed] at accepted
      cases accepted
  | none =>
    obtain ⟨known,unobserved,typed⟩ := root.mp checked
    rw [typed]
    simp only [known,unobserved,true_and]
    have container : c.shown.container = c.container.getD .scalar := rfl
    cases tag : c.container with
    | none =>
      rw [tag] at known
      cases known
    | some kind =>
      rw [container,tag]
      cases kind with
      | scalar => exact Iff.rfl
      | vector =>
        exact Option.map_eq_none_iff.trans
          ((c.vector.validate_none h).trans Option.map_eq_none_iff.symm)
      | tuple =>
        have step := TupleContents.validateArena_inStep h c.tuple c.scalar
        dsimp only [Option.getD_some]
        have typedArena : Bennu.validateArena h c.shown.tuple c.shown.scalar =
            Bennu.validateArena h c.tuple.outline c.scalar.shown := rfl
        rw [typedArena]
        generalize c.tuple.validateArena h c.scalar = stored at step ⊢
        generalize Bennu.validateArena h c.tuple.outline c.scalar.shown = other at step ⊢
        cases step <;> simp

/-- What `validate_value` accepts of a record is that it stores a sound value. -/
theorem stores_iff : (c.container.isSome ∧ c.Unobserved ∧ c.shown.Exact h) ↔
    ∃ v, c.Stores v ∧ v.Exact h := by
  constructor
  · rintro ⟨known,⟨vector,table⟩,exact⟩
    obtain ⟨container,tag⟩ := Option.isSome_iff_exists.mp known
    have here : c.shown.container = container := by
      change c.container.getD .scalar = container
      rw [tag]
      rfl
    refine ⟨c.shown,⟨by rw [here,tag],ScalarContents.known_of_sound ?_,VectorContents.known_of_sound (h := h) ?_,
      ?_,rfl,fun other => vector ?_,fun other => table ?_⟩,exact⟩
    · by_cases scalar : c.shown.container = .scalar
      · exact .inl (exact.scalar scalar)
      · exact .inr (exact.scalarEmpty scalar)
    · by_cases vector : c.shown.container = .vector
      · exact .inl (exact.vector vector)
      · exact .inr (exact.vectorEmpty vector)
    · by_cases tuple : c.shown.container = .tuple
      · exact TupleContents.stores_outline (exact.tuple tuple)
      · exact TupleContents.stores_empty (exact.tupleEmpty tuple)
    · intro same
      exact other (by rw [here]; exact Option.some.inj (tag.symm.trans same))
    · intro same
      exact other (by rw [here]; exact Option.some.inj (tag.symm.trans same))
  · rintro ⟨v,stores,exact⟩
    rw [stores.shown_eq,stores.container]
    refine ⟨rfl,⟨fun other => stores.vectorObserver ?_,fun other => stores.tableObserver ?_⟩,exact⟩
    · rintro same
      exact other (by rw [stores.container,same])
    · rintro same
      exact other (by rw [stores.container,same])

theorem checked_of_accepted (accepted : c.invalidity h = none) : c.validateRoot = none := by
  unfold invalidity at accepted
  cases checked : c.validateRoot with
  | none => rfl
  | some fault =>
    rw [checked] at accepted
    cases accepted

theorem claimed_of_accepted (accepted : c.invalidity h = none) : c.claimed = true := by
  have checked := c.checked_of_accepted h accepted
  unfold validateRoot at checked
  cases claimed : c.claimed with
  | true => rfl
  | false => simp [claimed] at checked

/-- The answer of `validate_value` from its verdict and the host's. -/
theorem validateValue_verdict (m : TableMetadata) (f : HostFailureInjection) :
    ((c.validateValue m f h).2.2 = none ↔ m.valid = true ∧ c.invalidity h = none ∧
      (c.container = some .tuple → (validationScratch f h c.tuple.outline).2.2 = .none)) ∧
    ∀ fault, (c.validateValue m f h).2.2 = some (.invalid fault) →
      ¬(m.valid = true ∧ c.invalidity h = none) := by
  unfold validateValue
  split
  · rename_i damaged
    simp only [Bool.and_eq_true,Bool.not_eq_true'] at damaged
    simp [damaged.2]
  rename_i owned
  have registered : c.invalidity h = none → m.valid = true := by
    intro accepted
    simpa [c.claimed_of_accepted h accepted] using owned
  have checked := c.checked_of_accepted h
  dsimp only
  split
  · rename_i arena
    obtain ⟨container,-⟩ := arena
    simp only [container,true_implies]
    obtain ⟨begun,next,reason⟩ := validationScratch f h c.tuple.outline
    cases reason with
    | none =>
      dsimp only
      cases verdict : c.invalidity h with
      | none => simp [registered verdict]
      | some invalid =>
        dsimp only
        split
        · simp
        · split <;> simp
    | sizeOverflow => simp
    | allocationUnavailable => simp
  · rename_i other
    cases verdict : c.invalidity h with
    | none =>
      have leaf : c.container ≠ some .tuple := by
        intro container
        exact other ⟨container,by rw [checked verdict]; rfl⟩
      simp [leaf,registered verdict]
    | some invalid => simp

/-- Of a record that stores a value `validate_value` accepts what it accepts of the value. -/
theorem Stores.accepted_iff {c : ValueContents} {v : Value} (stores : c.Stores v) {m : TableMetadata}
    (owned : m.valid = true) (f : HostFailureInjection) :
    (c.validateValue m f h).2.2 = none ↔ (Bennu.validateValue f h v).2.2 = none := by
  have sound : c.invalidity h = none ↔ v.Exact h := by
    rw [c.invalidity_none_iff,c.stores_iff]
    constructor
    · rintro ⟨other,same,exact⟩
      rwa [← stores.shown_eq,same.shown_eq]
    · exact fun exact => ⟨v,stores,exact⟩
  rw [(c.validateValue_verdict h m f).1,(Bennu.validateValue_verdict f h v).1,sound,stores.container,
    stores.tuple.outline_eq]
  simp [owned]

/-- `validate_value` is exact, whatever the record holds and whichever host request fails: it
accepts exactly the records that store a sound value and own their tables, when the scratch
tables are granted; it never calls such a record invalid; and its walk over an arena ends
within its stack. -/
theorem validation_exact (m : TableMetadata) (f : HostFailureInjection) :
    ((c.validateValue m f h).2.2 = none ↔ m.valid = true ∧ (∃ v, c.Stores v ∧ v.Exact h) ∧
      (c.container = some .tuple → (validationScratch f h c.tuple.outline).2.2 = .none)) ∧
    (∀ fault, (c.validateValue m f h).2.2 = some (.invalid fault) →
      ¬(m.valid = true ∧ ∃ v, c.Stores v ∧ v.Exact h)) ∧
    (c.container = some .tuple → c.validateRoot = none → c.tuple.WalkEnds h c.scalar) := by
  rw [← (c.invalidity_none_iff h).trans (c.stores_iff h)]
  obtain ⟨accepts,refuses⟩ := c.validateValue_verdict h m f
  refine ⟨accepts,refuses,fun container checked => c.tuple.walkEnds h c.scalar ?_⟩
  obtain ⟨-,-,typed⟩ := c.validateRoot_none_iff.mp checked
  have sound := (Bennu.validateRoot_none_iff c.shown).mp typed
  have shown : c.shown.container = .tuple := by
    change c.container.getD .scalar = .tuple
    rw [container]
    rfl
  have root : c.tuple.rootIndex = c.tuple.outline.nodes.length := sound.root shown
  rwa [TupleContents.outline_length] at root

end ValueContents

end Bennu
