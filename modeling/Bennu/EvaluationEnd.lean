import Bennu.ProgramEvaluation
import Bennu.PreadmittedTuple
import Bennu.ResourceSession

/-! How evaluation of a lowered program ends: of the guards in the loop those of ownership never fire,
and when it succeeds every value has been moved or released. -/
namespace Bennu
open Forest

section evaluation

variable {R V A E : Type} {operations : EvaluationOperations R V A E} {program resolved : RewriteProgram}
  {lowered lowering : RewriteLoweringProgram} {state after : EvaluationState R V A} {ids : List Nat} {values : List V}
  {parser : RewriteDoubleParser} {leaves : Bool} {abstract : AbstractProgram} {host : TypeHost} {index root : Nat} {value : V}

/-! ### Live assemblies -/

theorem releaseRewriteNodeValue_live : (releaseRewriteNodeValue operations index state).assemblyLive = state.assemblyLive := by
  rw [releaseRewriteNodeValue]
  split <;> rfl

theorem settleValue_live : (settleValue operations index value state).assemblyLive = state.assemblyLive := by
  rw [settleValue]
  dsimp only
  split
  · exact releaseRewriteNodeValue_live
  · rfl

theorem takeElements_live {before : List V} {found : List V × EvaluationState R V A}
    (taken : takeElements ids state before = .ok found) : found.2.assemblyLive = state.assemblyLive := by
  induction ids generalizing state before with
  | nil =>
    cases taken
    rfl
  | cons id rest ih =>
    rw [takeElements] at taken
    split at taken
    · cases taken
    · split at taken
      · cases taken
      · have kept := ih taken
        exact kept

theorem releaseConsumed_live (ids : List Nat) (state : EvaluationState R V A) :
    (releaseConsumed operations lowering ids state).assemblyLive = state.assemblyLive := by
  induction ids with
  | nil => rfl
  | cons id rest ih =>
    rw [releaseConsumed]
    split
    · exact releaseRewriteNodeValue_live.trans ih
    · exact ih

theorem completeConsumerAttempt_live (completed : completeConsumerAttempt operations lowering ids state = some after) :
    after.assemblyLive = state.assemblyLive := by
  rw [completeConsumerAttempt] at completed
  split at completed
  · cases completed
  · cases completed
    exact releaseConsumed_live ids _

theorem placeResult_live (placed : placeResult operations program index value state = .ok after) :
    after.assemblyLive = state.assemblyLive := by
  rw [placeResult] at placed
  dsimp only at placed
  split at placed
  · cases placed
    exact settleValue_live
  · split at placed
    · cases placed
    · split at placed
      · cases placed
      · cases placed
        split
        · exact releaseRewriteNodeValue_live
        · rfl

theorem evaluateCall_live {node : RewriteNode}
    (ran : evaluateCall operations program lowering index node state = .ok after) :
    after.assemblyLive = state.assemblyLive := by
  rw [evaluateCall] at ran
  dsimp only at ran
  split at ran
  · cases ran
  · split at ran
    · cases ran
    · split at ran
      · cases ran
      · split at ran
        · cases ran
        · cases ran
        · cases ran
        · rename_i completed _
          have kept := completeConsumerAttempt_live completed
          exact (placeResult_live ran).trans kept

/-- A node ends no assembly but its own. -/
theorem evaluateNode_live (ran : evaluateNode operations program lowering state index = .ok after) :
    after.assemblyLive =
      if (program.nodeAt index).kind = .fanout then
        Function.update state.assemblyLive (program.nodeAt index).callIndex false
      else state.assemblyLive := by
  rw [evaluateNode] at ran
  cases kind : (program.nodeAt index).kind <;> rw [kind] at ran
  case scalarLiteral =>
    cases ran
    exact settleValue_live
  case parameterReference =>
    cases ran
    exact settleValue_live
  case placeholder =>
    cases ran
    rfl
  case vectorLiteral =>
    dsimp only at ran
    rw [evaluateVector] at ran
    split at ran
    · cases ran
    · cases ran
      exact settleValue_live
  case tupleLiteral =>
    dsimp only at ran
    rw [evaluateTuple] at ran
    split at ran
    · cases ran
    · rename_i taken
      split at ran
      · cases ran
      · cases ran
        exact settleValue_live.trans (takeElements_live taken)
  case fanout =>
    dsimp only at ran
    rw [evaluateFanout] at ran
    dsimp only at ran
    split at ran
    · cases ran
    · split at ran
      · cases ran
      · cases ran
        rw [settleValue_live]
        exact releaseRewriteNodeValue_live
  all_goals exact evaluateCall_live ran

theorem admitFanout_live {fanout other : Nat} (ran : admitFanout operations program lowering index state fanout = .ok after)
    (elsewhere : (program.fanoutAt other).operand + 1 ≠ index) : after.assemblyLive other = state.assemblyLive other := by
  rw [admitFanout] at ran
  split at ran
  · cases ran
    rfl
  · rename_i here
    split at ran
    · cases ran
    · split at ran
      · cases ran
      · cases ran
        refine Function.update_of_ne ?_ _ _
        rintro rfl
        exact here elsewhere

theorem admitFanouts_live {other : Nat} (ran : admitFanouts operations program lowering index state = .ok after)
    (elsewhere : (program.fanoutAt other).operand + 1 ≠ index) : after.assemblyLive other = state.assemblyLive other := by
  rw [admitFanouts] at ran
  generalize List.range program.fanouts.length = fanouts at ran
  induction fanouts generalizing state with
  | nil =>
    cases ran
    rfl
  | cons fanout rest ih =>
    rw [List.foldlM_cons] at ran
    cases first : admitFanout operations program lowering index state fanout with
    | error failure =>
      rw [first] at ran
      cases ran
    | ok admitted =>
      rw [first] at ran
      exact (ih ran).trans (admitFanout_live first elsewhere)

/-- The fanouts whose nodes come before have no live assembly. -/
def Closed (program : RewriteProgram) (count : Nat) (state : EvaluationState R V A) : Prop :=
  ∀ index < count, index < program.nodes.length → (program.nodeAt index).kind = .fanout →
    state.assemblyLive (program.nodeAt index).callIndex = false

/-- A round keeps the assemblies closed, and closes its own. -/
theorem Closed.round (forested : program.Forested) (closed : Closed program index state)
    (ran : evaluateRound operations program lowering state index = .ok after) : Closed program (index + 1) after := by
  intro node earlier inside kind
  rw [evaluateRound] at ran
  cases admission : admitFanouts operations program lowering index state with
  | error failure =>
    rw [admission] at ran
    cases ran
  | ok admitted =>
    rw [admission] at ran
    have live := evaluateNode_live ran
    rw [live]
    rcases Nat.lt_succ_iff_lt_or_eq.mp earlier with before | rfl
    · have listed : (program.nodeAt node).callIndex ∈
          (program.nodes.filter (·.kind == .fanout)).map (·.callIndex) :=
        List.mem_map.mpr ⟨_,List.mem_filter.mpr ⟨List.mem_of_getElem? (nodes_nodeAt inside),by simp [kind]⟩,rfl⟩
      rw [forested.fanoutNodes,List.mem_range] at listed
      have operand := forested.forest.descends node _ (by
        rw [children_fanout inside kind listed]
        exact List.mem_cons_self)
      have kept := (admitFanouts_live admission (by omega)).trans (closed node before inside kind)
      split
      · rw [Function.update_apply,kept,ite_self]
      · exact kept
    · rw [if_pos kind,Function.update_self]

/-- When the loop has ended no assembly is live. -/
theorem rounds_closed (forested : program.Forested) (count first : Nat) : ∀ {state : EvaluationState R V A},
    Closed program first state →
      (List.range' first count).foldlM (evaluateRound operations program lowering) state = .ok after →
      Closed program (first + count) after := by
  induction count generalizing first with
  | zero =>
    intro state closed ran
    cases ran
    exact closed
  | succ count ih =>
    intro state closed ran
    rw [List.range'_succ,List.foldlM_cons] at ran
    cases round : evaluateRound operations program lowering state first with
    | error failure =>
      rw [round] at ran
      cases ran
    | ok next =>
      rw [round] at ran
      have rest := ih (first + 1) (closed.round forested round) ran
      rwa [Nat.add_right_comm] at rest

/-! ### The end of a run -/

/-- When evaluation succeeds every value that was made has been released or is in the result: no
node is live or has a use left, and no assembly is live. -/
theorem evaluate_spends (inLanguage : abstract.InLanguage parser leaves) (compiled : program.shape = abstract.compile parser)
    (resolution : resolveRewritePrimitives program = .ok resolved) (lowers : lowerRewriteProgram host resolved = .ok lowered)
    (operations : EvaluationOperations R V A E) (resources : R)
    (ran : ((List.range resolved.nodes.length).foldlM (evaluateRound operations resolved lowered)
      (initialState operations lowered resources)).bind (fun state => takeRoots operations resolved.roots state []) =
        .ok (values,after)) :
    (∀ node < resolved.nodes.length, after.nodeValues node = none ∧ after.remainingUses node = 0) ∧
      ∀ fanout < resolved.fanouts.length, after.assemblyLive fanout = false := by
  have evaluable := evaluable_of_lowered inLanguage compiled resolution lowers
  have runs := lowered_runs inLanguage compiled resolution lowers operations resources
  have distinct : resolved.roots.Nodup := evaluable.forested.ordered.imp Nat.ne_of_lt
  cases loop : (List.range resolved.nodes.length).foldlM (evaluateRound operations resolved lowered)
      (initialState operations lowered resources) with
  | error failure =>
    rw [loop] at ran
    cases ran
  | ok last =>
    rw [loop] at runs ran
    cases result : Expr.values operations resolved lowered none abstract.roots 0 resources with
    | error failure =>
      rw [result] at runs
      obtain ⟨state,same⟩ := runs
      cases same
    | ok found =>
      rw [result] at runs
      obtain ⟨state,same,-,holding,spent⟩ := runs
      cases same
      have taken : takeRoots operations resolved.roots last [] = .ok (found.1,last.consumed resolved.roots) :=
        takeRoots_of_taken (takeElements_holds distinct holding [])
      have same : takeRoots operations resolved.roots last [] = .ok (values,after) := ran
      rw [taken] at same
      cases same
      refine ⟨fun node inside => spent.consumed last.resources node (Nat.zero_le node) inside List.not_mem_nil,
        fun fanout inside => ?_⟩
      obtain ⟨node,below,kind,rfl⟩ := fanout_node evaluable.forested inside
      rw [List.range_eq_range'] at loop
      have closed := rounds_closed evaluable.forested resolved.nodes.length 0
        (fun index before => absurd before (Nat.not_lt_zero index)) loop
      exact closed node (by omega) below kind

theorem evaluate_spends_spreading : ∃ resolved lowered values after,
    ((List.range resolved.nodes.length).foldlM (evaluateRound typeOperations resolved lowered)
      (initialState typeOperations lowered ())).bind
        (fun state => takeRoots typeOperations resolved.roots state []) = .ok (values,after) ∧
      ∀ node < resolved.nodes.length, after.nodeValues node = none ∧ after.remainingUses node = 0 := by
  obtain ⟨program,resolved,lowered,values,after,-,shape,resolution,lowers,ran⟩ := spreading_runs
  exact ⟨resolved,lowered,values,after,ran,
    (evaluate_spends spreadingProgram_inLanguage shape resolution lowers typeOperations () ran).1⟩

/-! ### Guards -/

/-- A failure that evaluation of a lowered program may have: none of the guards on ownership, but the
one of a call that spreads a tuple. -/
def EvaluationFailure.Expected (lowering : RewriteLoweringProgram) : EvaluationFailure E → Prop
  | .invalidForwardUse index => (loweringNodeAt lowering.nodes index).spreadsTuple = true
  | .missingFanout _ => False
  | .unknownPrimitive _ => False
  | .branchOrder _ _ => False
  | .deadRoot _ => False
  | _ => True

/-- An assembly counts what has moved into it. -/
structure Counting (operations : EvaluationOperations R V A E) : Prop where
  begins : ∀ {resources fanout admission after assembly},
    operations.preadmit resources fanout admission = (after,.ok assembly) → operations.transferredCount assembly = 0
  moves : ∀ {assembly value grown}, operations.transfer assembly value = some grown →
    operations.transferredCount grown = operations.transferredCount assembly + 1

theorem callValue_expected {arguments : Option (List (TypedPrimitiveArgument V))} {resources : R}
    {failure : EvaluationFailure E}
    (described : (callDescriptor (program.callAt (program.nodeAt index).callIndex)).isSome = true)
    (spreads : arguments = none → (loweringNodeAt lowering.nodes index).spreadsTuple = true)
    (fails : callValue operations program lowering index arguments values resources = .error failure) :
    failure.Expected lowering := by
  obtain ⟨descriptor,found⟩ := Option.isSome_iff_exists.mp described
  rw [callValue,found] at fails
  dsimp only at fails
  cases arguments with
  | none =>
    cases fails
    exact spreads rfl
  | some arguments =>
    dsimp only at fails
    split at fails
    · cases fails
      trivial
    · split at fails
      · cases fails
      · cases fails
        trivial

theorem bind_fails {α β : Type} {run : Evaluated E α} {next : α → Evaluated E β} {failure : EvaluationFailure E}
    (fails : run >>= next = .error failure) : run = .error failure ∨ ∃ found, run = .ok found ∧ next found = .error failure := by
  cases run with
  | error other =>
    cases fails
    exact .inl rfl
  | ok found => exact .inr ⟨found,rfl,fails⟩

section trees

variable {layout : Layout}

mutual

theorem value_expected (evaluable : Evaluable program lowering) (calls : Resolved program) (counting : Counting operations) :
    (tree : Expr) → ∀ {operand owner first} {resources : R} {failure : EvaluationFailure E},
    LaidFrom layout program.shape operand tree first →
      tree.value operations program lowering owner first resources = .error failure → failure.Expected lowering
  | .scalar _,_,_,_,_,_,_,fails => by
    rw [Expr.value] at fails
    cases fails
  | .vector _ _,_,_,_,_,_,_,fails => by
    rw [Expr.value] at fails
    split at fails
    · cases fails
    · cases fails
      trivial
  | .parameter _,_,_,_,_,_,_,fails => by
    rw [Expr.value] at fails
    cases fails
  | .unresolved name,_,_,_,_,_,laid,_ => by
    obtain ⟨inside,kind⟩ := laid_kind _ laid
    exact absurd kind (evaluable.bound _ inside)
  | .placeholder,_,_,_,_,_,_,fails => by
    rw [Expr.value] at fails
    cases fails
  | .bracketCall name arguments,_,_,first,_,_,⟨call,start,node,entry,table,laid⟩,fails => by
    rw [← rootsFrom_length arguments first] at entry table
    obtain ⟨inside,kind,-⟩ := laid_call evaluable node entry table rfl
    rw [Expr.value] at fails
    rcases bind_fails fails with fails | ⟨found,-,fails⟩
    · exact values_expected evaluable calls counting arguments laid fails
    · exact callValue_expected (calls _ inside kind) (by intro same; cases same) fails
  | .prefixCall name argument,_,_,first,_,_,⟨call,start,node,entry,table,laid⟩,fails => by
    obtain ⟨inside,kind,-⟩ := laid_call evaluable node entry table rfl
    rw [Expr.value] at fails
    rcases bind_fails fails with fails | ⟨found,-,fails⟩
    · exact value_expected evaluable calls counting argument laid fails
    · refine callValue_expected (calls _ inside kind) (fun none => ?_) fails
      rw [prefixArguments] at none
      split at none
      · assumption
      · cases none
  | .tuple elements,_,_,_,_,_,⟨start,node,table,laid⟩,fails => by
    rw [Expr.value] at fails
    rcases bind_fails fails with fails | ⟨found,-,fails⟩
    · exact values_expected evaluable calls counting elements laid fails
    · dsimp only at fails
      split at fails
      · cases fails
      · cases fails
        trivial
  | .fanout source branches,_,_,_,_,_,⟨fanout,start,node,entry,table,laid,branchesLaid⟩,fails => by
    rw [Expr.value] at fails
    rcases bind_fails fails with fails | ⟨found,-,fails⟩
    · exact value_expected evaluable calls counting source laid fails
    · dsimp only at fails
      split at fails
      · cases fails
        trivial
      · rename_i admitted
        rcases bind_fails fails with fails | ⟨moved,-,fails⟩
        · exact branches_expected evaluable calls counting branches branchesLaid (counting.begins admitted) fails
        · split at fails
          · cases fails
            trivial
          · cases fails

theorem values_expected (evaluable : Evaluable program lowering) (calls : Resolved program) (counting : Counting operations) :
    (trees : List Expr) → ∀ {operand owner first} {resources : R} {failure : EvaluationFailure E},
    LaidAllFrom layout program.shape operand trees first →
      Expr.values operations program lowering owner trees first resources = .error failure → failure.Expected lowering
  | [],_,_,_,_,_,_,fails => by
    rw [Expr.values] at fails
    cases fails
  | tree :: rest,_,_,_,_,_,⟨laid,laidRest⟩,fails => by
    rw [Expr.values] at fails
    rcases bind_fails fails with fails | ⟨found,-,fails⟩
    · exact value_expected evaluable calls counting tree laid fails
    · rcases bind_fails fails with fails | ⟨later,-,fails⟩
      · exact values_expected evaluable calls counting rest laidRest fails
      · cases fails

theorem branches_expected (evaluable : Evaluable program lowering) (calls : Resolved program) (counting : Counting operations) :
    (branches : List Expr) → ∀ {operand value fanout position first assembly} {resources : R}
    {failure : EvaluationFailure E}, LaidAllFrom layout program.shape operand branches first →
      operations.transferredCount assembly = position →
      Expr.branchValues operations program lowering value fanout branches position first assembly resources = .error failure →
        failure.Expected lowering
  | [],_,_,_,_,_,_,_,_,_,_,fails => by
    rw [Expr.branchValues] at fails
    cases fails
  | branch :: rest,_,_,_,_,_,_,_,_,⟨laid,laidRest⟩,count,fails => by
    rw [Expr.branchValues] at fails
    rcases bind_fails fails with fails | ⟨found,-,fails⟩
    · exact value_expected evaluable calls counting branch laid fails
    · dsimp only at fails
      rw [if_neg (not_not.mpr count.symm)] at fails
      split at fails
      · cases fails
        trivial
      · rename_i grown
        exact branches_expected evaluable calls counting rest laidRest ((counting.moves grown).trans (congrArg (· + 1) count)) fails

end

end trees

theorem formatRoots_expected {failure : EvaluationFailure E} (position : Nat)
    (fails : formatRoots operations position values = .error failure) : failure.Expected lowering := by
  induction values generalizing position with
  | nil => cases fails
  | cons value rest ih =>
    rw [formatRoots] at fails
    split at fails
    · cases fails
      trivial
    · cases later : formatRoots operations (position + 1) rest with
      | error other =>
        rw [later] at fails
        cases fails
        exact ih (position + 1) later
      | ok texts =>
        rw [later] at fails
        cases fails

/-! ### Assemblies of the host -/

/-- Storage with the host and the context that an evaluation has. -/
structure HostStorage (R : Type) where
  host : R → Host
  context : R → EvaluationResources
  keep : R → Host → R

/-- The operations with assemblies that the host preadmits. -/
def EvaluationOperations.assembling (operations : EvaluationOperations R Value PreadmittedTupleAssembly E)
    (storage : HostStorage R) (fault : ResourceFault → E) : EvaluationOperations R Value PreadmittedTupleAssembly E :=
  { operations with
    emptyAssembly := .abandoned
    preadmit := fun resources _ admission =>
      let (host,admitted) := preadmitTupleAssembly (storage.host resources) (storage.context resources)
        admission.elementCount
        ⟨admission.nodeCount,admission.edgeCount,admission.vectorPayloadCount,admission.nestedReservationCount⟩
      (storage.keep resources host,admitted.mapError fault)
    transferredCount := PreadmittedTupleAssembly.transferredCount
    transfer := fun assembly value =>
      let (grown,_,moved) := assembly.transfer value
      if moved.isOk then some grown else none
    publish := fun assembly => assembly.publish.2.toOption
    releaseAssembly := fun resources assembly =>
      storage.keep resources (assembly.release (storage.host resources) (storage.context resources)).1 }

theorem preadmitted_fresh {h granted : Host} {r : EvaluationResources} {count : Nat} {c : TupleCounts}
    {assembly : PreadmittedTupleAssembly} (admitted : preadmitTupleAssembly h r count c = (granted,.ok assembly)) :
    assembly.transferredCount = 0 := by
  rw [preadmitTupleAssembly] at admitted
  split at admitted
  · cases admitted
  · split at admitted
    · cases admitted
    · dsimp only at admitted
      split at admitted
      · cases admitted
        rfl
      · cases admitted

theorem transferred_counted {assembly grown : PreadmittedTupleAssembly} {element left : Value}
    (moved : assembly.transfer element = (grown,left,.ok ())) :
    grown.transferredCount = assembly.transferredCount + 1 := by
  rw [PreadmittedTupleAssembly.transfer] at moved
  split at moved
  · cases moved
  · split at moved
    · cases moved
    · split at moved
      · cases moved
      · cases moved
        rfl

/-- A preadmitted assembly counts what has moved into it. -/
theorem assembling_counting (operations : EvaluationOperations R Value PreadmittedTupleAssembly E)
    (storage : HostStorage R) (fault : ResourceFault → E) : Counting (operations.assembling storage fault) where
  begins := by
    intro resources fanout admission after assembly same
    dsimp only [EvaluationOperations.assembling] at same ⊢
    generalize admission : preadmitTupleAssembly _ _ _ _ = answer at same
    obtain ⟨host,admitted⟩ := answer
    cases admitted with
    | error found => cases same
    | ok found =>
      cases same
      exact preadmitted_fresh admission
  moves := by
    intro assembly value grown same
    dsimp only [EvaluationOperations.assembling] at same ⊢
    generalize transfer : assembly.transfer value = answer at same
    obtain ⟨next,left,moved⟩ := answer
    cases moved with
    | error found => cases same
    | ok found =>
      cases same
      exact transferred_counted transfer

/-- Evaluation of what has been parsed, resolved and lowered never fails by its own guards, whatever it
calls but the host's assemblies: every operand has its fanout, every primitive is known, branches
move in their order, and the values of arguments and roots are live when they are used. Only a call
that spreads a tuple may find an invalid one. -/
theorem evaluate_expected (inLanguage : abstract.InLanguage parser leaves) (compiled : program.shape = abstract.compile parser)
    (resolution : resolveRewritePrimitives program = .ok resolved) (lowers : lowerRewriteProgram host resolved = .ok lowered)
    (operations : EvaluationOperations R Value PreadmittedTupleAssembly E) (storage : HostStorage R)
    (fault : ResourceFault → E) (resources : R) {failure : EvaluationFailure E}
    (fails : (evaluateProgram (operations.assembling storage fault) resolved lowered resources).2 = .error failure) :
    failure.Expected lowered := by
  have counting := assembling_counting operations storage fault
  generalize operations.assembling storage fault = operations at fails counting
  have evaluable := evaluable_of_lowered inLanguage compiled resolution lowers
  have calls := resolved_calls evaluable.forested resolution
  have tables := (resolved_shape resolution).trans compiled
  obtain ⟨laid,-⟩ := emitRoots_laidFrom (abstract.layout parser) abstract.roots emptyShape inLanguage.2 (.refl _)
  rw [← AbstractProgram.compile,← tables] at laid
  have ends := endsAs_of_runs (evaluable.forested.ordered.imp Nat.ne_of_lt)
    (lowered_runs inLanguage compiled resolution lowers operations resources)
  cases result : treesValue operations resolved lowered abstract.roots resources with
  | ok found =>
    rw [result] at ends
    have same : evaluateProgram operations resolved lowered resources = (found.2,.ok found.1) := ends
    rw [same] at fails
    cases fails
  | error other =>
    rw [result] at ends
    cases Except.error.inj (fails.symm.trans ends)
    rw [treesValue] at result
    rcases bind_fails result with unmade | ⟨made,-,unformatted⟩
    · exact values_expected evaluable calls counting abstract.roots laid unmade
    · rcases bind_fails unformatted with unformatted | ⟨texts,-,ends⟩
      · exact formatRoots_expected 0 unformatted
      · cases ends

/-- Scalars and the assemblies of a host; every vector, tuple and call is refused. -/
def refusingOperations : EvaluationOperations Host Value PreadmittedTupleAssembly Unit where
  scalarLiteral node := makeIntValue node.integer
  parameter _ := makeIntValue 0
  zero := makeIntValue 0
  vectorLiteral resources _ := (resources,.error ())
  makeTuple resources _ _ := (resources,.error ())
  tupleElements _ := none
  valueLength _ := none
  emptyAssembly := .abandoned
  preadmit resources _ _ := (resources,.error ())
  transferredCount := PreadmittedTupleAssembly.transferredCount
  transfer _ _ := none
  publish _ := none
  applyPrimitive resources _ _ _ := (resources,.error ())
  spreadError := id
  release resources _ := resources
  releaseAssembly resources _ := resources
  refresh := id
  formatValue _ := .ok []

/-- A host without registries, and no context. -/
def refusingStorage : HostStorage Host := ⟨id,fun _ => closedResources,fun _ host => host⟩

def refusedEvaluation (resolved : RewriteProgram) (lowered : RewriteLoweringProgram) :
    Except (EvaluationFailure Unit) (List Value × List Text) :=
  (evaluateProgram (refusingOperations.assembling refusingStorage fun _ => ()) resolved lowered
    (emptyHost (fun _ _ => .none) fun _ => .none)).2

theorem evaluate_expected_spreading : ∃ resolved lowered failure,
    refusedEvaluation resolved lowered = .error failure ∧ failure.Expected lowered := by
  have refused : ((parseRewrite refusingParser spreadingProgram.render).map fun result =>
      (result.toOption.bind fun program => (resolveRewritePrimitives program).toOption.bind fun resolved =>
        (lowerRewriteProgram grantingHost resolved).toOption.map fun lowered =>
          (refusedEvaluation resolved lowered).isOk)) = some (some false) := by decide +kernel
  obtain ⟨program,resolved,lowered,parsed,shape,resolution,lowers⟩ := spreading_lowers
  rw [parsed] at refused
  simp only [Option.map_some,Except.toOption,Option.bind_some,Option.some.injEq,resolution,lowers] at refused
  cases outcome : refusedEvaluation resolved lowered with
  | error failure =>
    exact ⟨resolved,lowered,failure,outcome,
      evaluate_expected spreadingProgram_inLanguage shape resolution lowers refusingOperations refusingStorage _ _ outcome⟩
  | ok found =>
    rw [outcome] at refused
    cases refused

end evaluation

end Bennu
