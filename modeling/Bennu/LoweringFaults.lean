import Bennu.Lowering

/-! Which fault lowering reports: arities and types that the host refuses, before types before
lengths, and of one kind that of the first node. A node's type is known when it and what it
depends on are free of faults. -/
namespace Bennu

variable {program : RewriteProgram} {state : LoweringTyping} {typed : TypedNodes} {index count : Nat}
  {found : RewriteEvaluationDiagnostic} {failure : ArityFailure} {host : TypeHost}

/-! ### Faults -/

def knownStep (program : RewriteProgram) (typed : TypedNodes) (index : Nat) : TypedNodes :=
  match typeVerdict program typed index with
  | .settles node => typed.settle index node
  | _ => typed

/-- The types of the first nodes, whatever faults there are. -/
def knownTypes (program : RewriteProgram) (count : Nat) : TypedNodes :=
  (List.range count).foldl (knownStep program) (firstTypes program)

def TypeVerdict.arityFault : TypeVerdict → Option RewriteEvaluationDiagnostic
  | .arity _ diagnostic => some diagnostic
  | _ => none

def TypeVerdict.typeFault : TypeVerdict → Option RewriteEvaluationDiagnostic
  | .mismatch diagnostic => some diagnostic
  | _ => none

/-- A call of a number of arguments that no signature has; of a spread the operand has a type. -/
def arityFault (program : RewriteProgram) (index : Nat) : Option RewriteEvaluationDiagnostic :=
  (typeVerdict program (knownTypes program index) index).arityFault

/-- A call whose arguments have types that no signature takes. -/
def typeFault (program : RewriteProgram) (index : Nat) : Option RewriteEvaluationDiagnostic :=
  (typeVerdict program (knownTypes program index) index).typeFault

/-- A node whose type the host refuses to construct. -/
def hostFault (host : TypeHost) (program : RewriteProgram) (index : Nat) : Option RewriteEvaluationDiagnostic :=
  (typeVerdict program (knownTypes program index) index).refusal host program index

/-- What ends phase 5 at a node: its type is refused, or it is a call with a fault of arity. -/
def endingFault (host : TypeHost) (program : RewriteProgram) (index : Nat) : Option RewriteEvaluationDiagnostic :=
  (hostFault host program index).or (arityFault program index)

/-- A fault of types as it is reported, with the types of the arguments that the host grants. -/
def reportedFault (host : TypeHost) (program : RewriteProgram) (index : Nat) : Option RewriteEvaluationDiagnostic :=
  (typeFault program index).map (grantedArguments host index)

def shapedStep (program : RewriteProgram) (nodes : List RewriteLoweringNode) (index : Nat) :
    List RewriteLoweringNode :=
  match shapeStep program nodes index with
  | .ok nodes => nodes
  | .error _ => nodes

/-- The nodes with the cardinalities of the first ones. -/
def shapedNodes (program : RewriteProgram) (count : Nat) : List RewriteLoweringNode :=
  (List.range count).foldl (shapedStep program) (knownTypes program program.nodes.length).nodes

/-- A call with arguments of two known lengths. -/
def shapeFault (program : RewriteProgram) (index : Nat) : Option RewriteEvaluationDiagnostic :=
  match shapeStep program (shapedNodes program index) index with
  | .ok _ => none
  | .error diagnostic => some diagnostic

/-- The fault of the first faulty node. -/
def LeastFault (fault : Nat → Option RewriteEvaluationDiagnostic) (count : Nat)
    (found : RewriteEvaluationDiagnostic) : Prop :=
  ∃ index < count, fault index = some found ∧ ∀ earlier < index, fault earlier = none

/-- No node has a fault. -/
def Faultless (fault : Nat → Option RewriteEvaluationDiagnostic) (count : Nat) : Prop :=
  ∀ index < count, fault index = none

/-- Every call has a primitive. -/
def Resolved (program : RewriteProgram) : Prop :=
  ∀ index < program.nodes.length, (program.nodeAt index).kind = .primitiveCall →
    (callDescriptor (program.callAt (program.nodeAt index).callIndex)).isSome = true

theorem Faultless.succ {fault : Nat → Option RewriteEvaluationDiagnostic} (free : Faultless fault count)
    (next : fault count = none) : Faultless fault (count + 1) := by
  intro index inside
  rcases Nat.lt_succ_iff_lt_or_eq.mp inside with before | rfl
  · exact free index before
  · exact next

/-! ### Phase 4 -/

/-- The fault that phase 4 finds at a node. -/
def directFault (program : RewriteProgram) (index : Nat) : Option RewriteEvaluationDiagnostic :=
  let node := program.nodeAt index
  let call := program.callAt node.callIndex
  if node.kind ≠ .primitiveCall ∨ (prefixTupleOperand program call).isSome = true then none
  else (callDescriptor call).bind fun descriptor =>
    if arityExists descriptor (semanticArgumentCount program call) then none
    else some (arityDiagnostic program call descriptor)

/-- What phase 4 has found after some nodes: its first fault. -/
def DirectFirst (program : RewriteProgram) (count : Nat) : ArityFailure → Prop
  | none => Faultless (directFault program) count
  | some (index,found) =>
    index < count ∧ directFault program index = some found ∧ Faultless (directFault program) index

theorem arityStep_eq (resolved : Resolved program) (inside : index < program.nodes.length) :
    arityStep program failure index = .ok (failure.or ((directFault program index).map fun found => (index,found))) := by
  have calls := resolved index inside
  rw [arityStep,directFault]
  dsimp only
  by_cases kind : (program.nodeAt index).kind = .primitiveCall
  · obtain ⟨descriptor,described⟩ := Option.isSome_iff_exists.mp (calls kind)
    rw [if_neg (not_not.mpr kind),described]
    dsimp only
    by_cases spread : (prefixTupleOperand program (program.callAt (program.nodeAt index).callIndex)).isSome = true
    · rw [if_pos spread,if_pos (.inr spread)]
      simp
    · rw [if_neg spread,if_neg (not_or.mpr ⟨not_not.mpr kind,spread⟩),Option.bind_some]
      split <;> simp
  · rw [if_pos kind,if_pos (.inl kind)]
    simp

theorem DirectFirst.step (first : DirectFirst program count failure) :
    DirectFirst program (count + 1) (failure.or ((directFault program count).map fun found => (count,found))) := by
  cases failure with
  | some found => exact ⟨Nat.lt_succ_of_lt first.1,first.2⟩
  | none =>
    cases here : directFault program count with
    | none => exact Faultless.succ first here
    | some found => exact ⟨Nat.lt_succ_self _,here,first⟩

theorem arityPhase_first (resolved : Resolved program) :
    ∃ failure, arityPhase program = .ok failure ∧ DirectFirst program program.nodes.length failure := by
  suffices run : ∀ count ≤ program.nodes.length, ∃ failure,
      (List.range count).foldlM (arityStep program) none = .ok failure ∧ DirectFirst program count failure by
    exact run _ (Nat.le_refl _)
  intro count
  induction count with
  | zero => exact fun _ => ⟨none,rfl,fun _ outside => absurd outside (Nat.not_lt_zero _)⟩
  | succ count ih =>
    intro inside
    obtain ⟨failure,run,first⟩ := ih (Nat.le_of_succ_le inside)
    refine ⟨_,?_,first.step⟩
    rw [List.range_succ,List.foldlM_append,run]
    show (arityStep program failure count >>= fun state => pure state) = _
    rw [bind_pure,arityStep_eq resolved inside]

/-! ### Phase 5 -/

/-- A direct call has its fault of arity whatever types are known. -/
theorem typeVerdict_direct (typed : TypedNodes) (direct : directFault program index = some found) :
    typeVerdict program typed index = .arity false found := by
  rw [directFault] at direct
  split at direct
  · cases direct
  · rename_i call
    obtain ⟨kind,spread⟩ := not_or.mp call
    obtain ⟨descriptor,described,fault⟩ := Option.bind_eq_some_iff.mp direct
    have none : prefixTupleOperand program (program.callAt (program.nodeAt index).callIndex) = none := by
      simpa using spread
    split at fault
    · cases fault
    · rename_i arity
      cases fault
      rw [typeVerdict]
      simp only [not_not.mp kind,callVerdict,described,none,Option.any_none,Option.isSome_none,semanticArguments,
        List.length_map,List.length_range,arity]
      rfl

theorem typeVerdict_arity {spread : Bool} (verdict : typeVerdict program typed index = .arity spread found) :
    directFault program index = if spread then none else some found := by
  rw [typeVerdict] at verdict
  have call : (program.nodeAt index).kind = .primitiveCall := by
    cases kind : (program.nodeAt index).kind
    case primitiveCall => rfl
    all_goals simp only [kind,placeholderVerdict,tupleVerdict] at verdict
    all_goals first
      | (split at verdict <;> cases verdict)
      | cases verdict
  simp only [call,callVerdict] at verdict
  cases described : callDescriptor (program.callAt (program.nodeAt index).callIndex) with
  | none => simp [described] at verdict
  | some descriptor =>
    simp only [described] at verdict
    split at verdict
    · cases verdict
    · split at verdict
      · rename_i arity
        obtain ⟨rfl,rfl⟩ := TypeVerdict.arity.inj verdict
        rw [directFault]
        simp only [semanticArguments,List.length_map,List.length_range,Bool.not_eq_true'] at arity
        cases operand : prefixTupleOperand program (program.callAt (program.nodeAt index).callIndex) with
        | none => simp [call,described,arity]
        | some operand => simp
      · split at verdict
        · cases verdict
        · split at verdict <;> cases verdict

theorem arityFault_of_direct (direct : directFault program index = some found) :
    arityFault program index = some found := by
  rw [arityFault,typeVerdict_direct _ direct]
  rfl

theorem knownTypes_succ (program : RewriteProgram) (count : Nat) :
    knownTypes program (count + 1) = knownStep program (knownTypes program count) count := by
  rw [knownTypes,List.range_succ,List.foldl_append]
  rfl

theorem Faultless.ending (free : Faultless (endingFault host program) count) :
    Faultless (hostFault host program) count ∧ Faultless (arityFault program) count :=
  ⟨fun index inside => (Option.or_eq_none_iff.mp (free index inside)).1,
    fun index inside => (Option.or_eq_none_iff.mp (free index inside)).2⟩

theorem faultless_reported : Faultless (reportedFault host program) count ↔ Faultless (typeFault program) count :=
  ⟨fun free index inside => Option.map_eq_none_iff.mp (free index inside),
    fun free index inside => Option.map_eq_none_iff.mpr (free index inside)⟩

theorem LeastFault.not_faultless {fault : Nat → Option RewriteEvaluationDiagnostic} (least : LeastFault fault count found) :
    ¬Faultless fault count := by
  intro free
  obtain ⟨index,inside,here,-⟩ := least
  rw [free index inside] at here
  cases here

/-- Without faults of arity phase 5 ends where a type is refused. -/
theorem LeastFault.refused (least : LeastFault (endingFault host program) count found)
    (arities : Faultless (arityFault program) count) : LeastFault (hostFault host program) count found := by
  have same (index : Nat) (inside : index < count) : endingFault host program index = hostFault host program index := by
    rw [endingFault,arities index inside,Option.or_none]
  obtain ⟨index,inside,here,earlier⟩ := least
  refine ⟨index,inside,(same index inside).symm.trans here,fun other before => ?_⟩
  exact (same other (Nat.lt_trans before inside)).symm.trans (earlier other before)

/-- A call with a fault of arity asks for no type. -/
theorem endingFault_of_arity (fault : arityFault program index = some found) :
    endingFault host program index = some found := by
  rw [endingFault,fault]
  have granted : hostFault host program index = none := by
    rw [arityFault] at fault
    rw [hostFault]
    cases verdict : typeVerdict program (knownTypes program index) index with
    | arity => rfl
    | waits => rfl
    | mismatch => rfl
    | settles => rw [verdict] at fault; cases fault
  rw [granted]
  rfl

/-- Where phase 5 stands after some nodes: it has met nothing that ends it, knows all types
there are and the first fault of types, or it has stopped at the first fault of arity. -/
inductive TypingReached (host : TypeHost) (program : RewriteProgram) (failure : ArityFailure) (count : Nat) :
    LoweringTyping → Prop
  | running {mismatch : Option RewriteEvaluationDiagnostic} (free : Faultless (endingFault host program) count)
      (first : ∀ found, mismatch = some found → LeastFault (reportedFault host program) count found)
      (fits : mismatch = none → Faultless (reportedFault host program) count) :
      TypingReached host program failure count ⟨knownTypes program count,failure,mismatch⟩
  | stopped {typed : TypedNodes} {mismatch : Option RewriteEvaluationDiagnostic} (index : Nat)
      (found : RewriteEvaluationDiagnostic) (inside : index < count) (fault : arityFault program index = some found)
      (free : Faultless (endingFault host program) index) :
      TypingReached host program failure count ⟨typed,some (index,found),mismatch⟩

/-- Phase 5 after some nodes: the first type refused, or where it stands. -/
def PhaseReached (host : TypeHost) (program : RewriteProgram) (failure : ArityFailure) (count : Nat) :
    Except RewriteEvaluationDiagnostic LoweringTyping → Prop
  | .error found => LeastFault (endingFault host program) count found
  | .ok state => TypingReached host program failure count state

theorem LeastFault.succ {fault : Nat → Option RewriteEvaluationDiagnostic} (least : LeastFault fault count found) :
    LeastFault fault (count + 1) found := by
  obtain ⟨index,inside,rest⟩ := least
  exact ⟨index,Nat.lt_succ_of_lt inside,rest⟩

/-- While phase 5 runs, the fault that phase 4 has found lies ahead. -/
theorem DirectFirst.ahead (first : DirectFirst program program.nodes.length failure)
    (free : Faultless (arityFault program) count) : failure.all (fun failure => decide (count ≤ failure.1)) = true := by
  cases failure with
  | none => rfl
  | some failure =>
    obtain ⟨-,direct,-⟩ := first
    by_contra behind
    have before : failure.1 < count := by simpa using behind
    have fault := arityFault_of_direct direct
    rw [free _ before] at fault
    cases fault

theorem TypingReached.step (first : DirectFirst program program.nodes.length failure) (inside : count < program.nodes.length)
    (reached : TypingReached host program failure count state) :
    PhaseReached host program failure (count + 1) (typeStep host program state count) := by
  cases reached with
  | stopped index found before fault free =>
    rw [typeStep,if_pos (by simpa using before)]
    exact TypingReached.stopped index found (Nat.lt_succ_of_lt before) fault free
  | @running mismatch free least fits =>
    have ahead := first.ahead free.ending.2
    have running : failure.any (fun failure => decide (failure.1 < count)) = false := by
      cases failure with
      | none => rfl
      | some failure => simpa using ahead
    rw [typeStep,if_neg (by simp [running])]
    dsimp only
    have known := knownTypes_succ program count
    -- what the node does not ask for, and what it does not report
    have quiet (verdict : TypeVerdict) (here : typeVerdict program (knownTypes program count) count = verdict)
        (granted : verdict.refusal host program count = none) (arity : verdict.arityFault = none) :
        Faultless (endingFault host program) (count + 1) := by
      refine free.succ ?_
      rw [endingFault,hostFault,arityFault,here,granted,arity]
      rfl
    cases verdict : typeVerdict program (knownTypes program count) count with
    | waits =>
      have same : knownTypes program (count + 1) = knownTypes program count := by rw [known,knownStep,verdict]
      show TypingReached host program failure (count + 1) ⟨knownTypes program count,failure,mismatch⟩
      rw [← same]
      exact .running (quiet _ verdict rfl rfl) (fun found given => (least found given).succ)
        fun given => (fits given).succ (by rw [reportedFault,typeFault,verdict]; rfl)
    | settles node =>
      have settled : knownTypes program (count + 1) = (knownTypes program count).settle count node := by
        rw [known,knownStep,verdict]
      dsimp only [TypeVerdict.refusal]
      cases asked : typeRefusal host (program.nodeAt count) count with
      | some found =>
        refine ⟨count,Nat.lt_succ_self _,?_,free⟩
        rw [endingFault,hostFault,verdict,TypeVerdict.refusal,asked]
        rfl
      | none =>
        show TypingReached host program failure (count + 1) ⟨(knownTypes program count).settle count node,failure,mismatch⟩
        rw [← settled]
        exact .running (quiet _ verdict asked rfl) (fun found given => (least found given).succ)
          fun given => (fits given).succ (by rw [reportedFault,typeFault,verdict]; rfl)
    | mismatch found =>
      have same : knownTypes program (count + 1) = knownTypes program count := by rw [known,knownStep,verdict]
      have here : reportedFault host program count = some (grantedArguments host count found) := by
        rw [reportedFault,typeFault,verdict]
        rfl
      show TypingReached host program failure (count + 1)
        ⟨knownTypes program count,failure,mismatch.or (some (grantedArguments host count found))⟩
      rw [← same]
      refine .running (quiet _ verdict rfl rfl) ?_ ?_
      · intro other given
        cases mismatch with
        | some earlier => exact (least other given).succ
        | none =>
          cases given
          exact ⟨count,Nat.lt_succ_self _,here,fits rfl⟩
      · intro given
        cases mismatch <;> cases given
    | arity spread found =>
      have here : arityFault program count = some found := by rw [arityFault,verdict]; rfl
      have direct := typeVerdict_arity verdict
      dsimp only [TypeVerdict.refusal,TypeVerdict.granted]
      rw [LoweringTyping.record]
      dsimp only
      cases spread with
      | true =>
        -- No direct fault is at a spread: the one of phase 4 is at a later node.
        have later : failure.all (fun failure => decide (count < failure.1)) = true := by
          cases failure with
          | none => rfl
          | some failure =>
            have notBefore : count ≤ failure.1 := by simpa using ahead
            have apart : count ≠ failure.1 := by
              rintro rfl
              rw [first.2.1] at direct
              cases direct
            simpa using Nat.lt_of_le_of_ne notBefore apart
        rw [later]
        exact TypingReached.stopped count found (Nat.lt_succ_self _) here free
      | false =>
        -- Phase 4 has found this fault, and none before it.
        obtain rfl : failure = some (count,found) := by
          cases failure with
          | none => rw [first count inside] at direct; cases direct
          | some failure =>
            have notBefore : count ≤ failure.1 := by simpa using ahead
            rcases Nat.lt_or_eq_of_le notBefore with after | same
            · rw [first.2.2 count after] at direct
              cases direct
            · obtain ⟨place,diagnostic⟩ := failure
              cases same
              rw [first.2.1] at direct
              cases direct
              rfl
        exact TypingReached.stopped count found (Nat.lt_succ_self _) here free

theorem typePhase_reached (first : DirectFirst program program.nodes.length failure) :
    PhaseReached host program failure program.nodes.length (typePhase host program failure) := by
  suffices run : ∀ count ≤ program.nodes.length, PhaseReached host program failure count
      ((List.range count).foldlM (typeStep host program) ⟨firstTypes program,failure,none⟩) by
    rw [typePhase]
    exact run _ (Nat.le_refl _)
  intro count
  induction count with
  | zero =>
    intro _
    refine TypingReached.running (fun _ outside => absurd outside (Nat.not_lt_zero _)) ?_
      fun _ _ outside => absurd outside (Nat.not_lt_zero _)
    intro found given
    cases given
  | succ count ih =>
    intro inside
    rw [List.range_succ,List.foldlM_append]
    have before := ih (Nat.le_of_succ_le inside)
    generalize (List.range count).foldlM (typeStep host program) ⟨firstTypes program,failure,none⟩ = outcome at before
    cases outcome with
    | error found => exact LeastFault.succ before
    | ok state =>
      show PhaseReached host program failure (count + 1) (typeStep host program state count >>= fun state => pure state)
      rw [bind_pure]
      exact TypingReached.step first inside before

/-! ### Phase 6 -/

theorem shapedNodes_succ (program : RewriteProgram) (count : Nat) :
    shapedNodes program (count + 1) = shapedStep program (shapedNodes program count) count := by
  rw [shapedNodes,List.range_succ,List.foldl_append]
  rfl

/-- What phase 6 comes to after some nodes: their first fault, or their lengths. -/
def ShapesReached (program : RewriteProgram) (count : Nat) :
    Except RewriteEvaluationDiagnostic (List RewriteLoweringNode) → Prop
  | .error found => LeastFault (shapeFault program) count found
  | .ok nodes => Faultless (shapeFault program) count ∧ nodes = shapedNodes program count

theorem ShapesReached.step {result : Except RewriteEvaluationDiagnostic (List RewriteLoweringNode)}
    (reached : ShapesReached program count result) :
    ShapesReached program (count + 1) (result >>= fun nodes => shapeStep program nodes count) := by
  cases result with
  | error found => exact LeastFault.succ reached
  | ok nodes =>
    obtain ⟨free,rfl⟩ := reached
    show ShapesReached program (count + 1) (shapeStep program (shapedNodes program count) count)
    cases here : shapeStep program (shapedNodes program count) count with
    | error found => exact ⟨count,Nat.lt_succ_self _,by rw [shapeFault,here],free⟩
    | ok nodes => exact ⟨free.succ (by rw [shapeFault,here]),by rw [shapedNodes_succ,shapedStep,here]⟩

/-- Phase 6 ends at its first fault. -/
theorem shapePhase_reached (program : RewriteProgram) : ShapesReached program program.nodes.length
    (shapePhase program (knownTypes program program.nodes.length).nodes) := by
  suffices run : ∀ count, ShapesReached program count
      ((List.range count).foldlM (shapeStep program) (knownTypes program program.nodes.length).nodes) from run _
  intro count
  induction count with
  | zero => exact ⟨fun _ outside => absurd outside (Nat.not_lt_zero _),rfl⟩
  | succ count ih =>
    rw [List.range_succ,List.foldlM_append]
    simpa using ih.step

/-! ### The order of the faults -/

/-- The lowered program of a program without faults. -/
def loweredProgram (program : RewriteProgram) : RewriteLoweringProgram where
  nodes := shapedNodes program program.nodes.length
  arguments := program.arguments
  roots := program.roots
  booleanElements := program.booleanElements
  integerElements := program.integerElements
  doubleElements := program.doubleElements
  tupleElements := program.tupleElements
  tupleElementSpans := program.tupleElementSpans
  fanoutOperands := program.fanouts.map (·.operand)
  fanoutBranchRoots := program.fanoutBranches.map (·.root)
  fanoutBranchSpans := program.fanoutBranches.map (·.span)

/-- Lowering reports the first node whose type is refused or that is a call with a fault of arity,
without one the first fault of types, without either the first fault of lengths; without any it
gives the table of all types and lengths. -/
theorem lower_faults (host : TypeHost) (resolved : Resolved program) (roots : checkRoots program [] program.roots = none) :
    match lowerRewriteProgram host program with
    | .error found =>
      LeastFault (endingFault host program) program.nodes.length found ∨
      Faultless (endingFault host program) program.nodes.length ∧
        (LeastFault (reportedFault host program) program.nodes.length found ∨
        Faultless (reportedFault host program) program.nodes.length ∧
          LeastFault (shapeFault program) program.nodes.length found)
    | .ok lowered =>
      Faultless (endingFault host program) program.nodes.length ∧
        Faultless (reportedFault host program) program.nodes.length ∧
        Faultless (shapeFault program) program.nodes.length ∧ lowered = loweredProgram program := by
  obtain ⟨failure,arities,first⟩ := arityPhase_first resolved
  have typing := @typePhase_reached _ _ host first
  have shapes := shapePhase_reached program
  rw [lowerRewriteProgram,roots]
  dsimp only
  rw [arities]
  simp only [bind,Except.bind]
  generalize typePhase host program failure = outcome at typing
  cases outcome with
  | error found => exact .inl typing
  | ok state =>
  cases typing with
  | stopped index found inside fault free => exact .inl ⟨index,inside,endingFault_of_arity fault,free⟩
  | @running mismatch free least fits =>
    obtain rfl : failure = none := by
      cases failure with
      | none => rfl
      | some failure =>
        have fault := arityFault_of_direct first.2.1
        rw [free.ending.2 _ first.1] at fault
        cases fault
    cases mismatch with
    | some found => exact .inr ⟨free,.inl (least found rfl)⟩
    | none =>
      dsimp only
      cases run : shapePhase program (knownTypes program program.nodes.length).nodes with
      | error found =>
        rw [run] at shapes
        exact .inr ⟨free,.inr ⟨fits rfl,shapes⟩⟩
      | ok nodes =>
        rw [run] at shapes
        obtain ⟨lengths,rfl⟩ := shapes
        exact ⟨free,fits rfl,lengths,rfl⟩

end Bennu
