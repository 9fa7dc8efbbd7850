import Bennu.EvaluationRefinement
import Bennu.TypeFormatting

/-! Evaluation of what has been parsed, resolved and lowered comes to what the trees of the syntax
come to. -/
namespace Bennu
open Forest

section evaluation

variable {R V A E : Type} {operations : EvaluationOperations R V A E} {program resolved : RewriteProgram}
  {lowered lowering : RewriteLoweringProgram} {state : EvaluationState R V A} {ids : List Nat} {values : List V}
  {parser : RewriteDoubleParser} {leaves : Bool} {abstract : AbstractProgram} {host : TypeHost} {index : Nat}

/-! ### What lowering leaves -/

theorem emitRoots_rootsFrom (layout : Layout) (roots : List Expr) : ∀ shape,
    (layout.emitRoots roots shape).roots = shape.roots ++ rootsFrom roots shape.nodes.length := by
  induction roots with
  | nil =>
    intro shape
    rw [rootsFrom,List.append_nil]
    rfl
  | cons root rest ih =>
    intro shape
    have nodes : ((layout.emit none root shape).addRoot (layout.emit none root shape).last).nodes.length =
        shape.nodes.length + root.nodeCount := emit_nodeCount layout root none shape
    have added : ((layout.emit none root shape).addRoot (layout.emit none root shape).last).roots =
        shape.roots ++ [root.rootFrom shape.nodes.length] := by
      rw [← emit_rootFrom layout none root shape,← emit_roots layout root none shape]
      rfl
    rw [Layout.emitRoots]
    rw [ih,added,nodes,List.append_assoc]
    rfl

/-- A lowered call spreads the tuple that its syntax spreads. -/
theorem shapedNodes_spreads (calls : Resolved program) (forested : program.Forested) (typed : WellTyped program)
    (inside : index < program.nodes.length) (kind : (program.nodeAt index).kind = .primitiveCall) :
    ((loweringNodeAt (shapedNodes program program.nodes.length) index).spreadsTuple,
      (loweringNodeAt (shapedNodes program program.nodes.length) index).spreadOperand) =
      ((prefixTupleOperand program (program.callAt (program.nodeAt index).callIndex)).isSome,
        (prefixTupleOperand program (program.callAt (program.nodeAt index).callIndex)).getD 0) := by
  have available := (wellTyped_iff calls forested).mp typed index inside
  obtain ⟨node,settles⟩ := settles_of_known inside available
  obtain ⟨-,known⟩ := known_of_settles inside settles
  rw [typeVerdict,kind] at settles
  obtain ⟨descriptor,-,-,-,-,signature,-,rfl⟩ := callVerdict_settles.mp settles
  rw [@shapedNodes_view program index _ (fun node => (node.spreadsTuple,node.spreadOperand)) (fun _ _ _ _ => rfl) inside,known]
  rfl

theorem evaluable_of_lowered (inLanguage : abstract.InLanguage parser leaves) (compiled : program.shape = abstract.compile parser)
    (resolution : resolveRewritePrimitives program = .ok resolved) (lowers : lowerRewriteProgram host resolved = .ok lowered) :
    Evaluable resolved lowered := by
  have forested := resolved_forested inLanguage compiled resolution
  have calls := resolved_calls forested resolution
  have faults := lower_faults host calls (forested_roots forested)
  rw [lowers] at faults
  obtain ⟨free,types,-,rfl⟩ := faults
  refine ⟨forested,shapedNodes_length,fun index inside unresolved => ?_,
    fun index inside => (shapedNodes_uses forested inside).1,fun index inside => (shapedNodes_uses forested inside).2,
    fun index inside kind => shapedNodes_spreads calls forested ⟨free.ending.2,faultless_reported.mp types⟩ inside kind⟩
  have member := List.mem_of_getElem? (nodes_nodeAt inside)
  generalize resolved.nodeAt index = node at member unresolved
  obtain ⟨known,rfl⟩ := resolved_eq resolution
  have names := List.filter_eq_nil_iff.mp (List.map_eq_nil_iff.mp (List.append_eq_nil_iff.mp known).2) node member
  rw [unresolved] at names
  exact names rfl

/-! ### The whole run -/

theorem takeRoots_of_taken {before : List V} {found : List V × EvaluationState R V A}
    (taken : takeElements ids state before = .ok found) : takeRoots operations ids state before = .ok found := by
  induction ids generalizing state before with
  | nil =>
    cases taken
    rfl
  | cons id rest ih =>
    rw [takeElements] at taken
    rw [takeRoots]
    cases live : state.nodeValues id with
    | none =>
      rw [live] at taken
      cases taken
    | some value =>
      rw [live] at taken
      dsimp only at taken ⊢
      split at taken
      · cases taken
      · rename_i used
        rw [if_neg used]
        exact ih taken

theorem initialState_fresh (evaluable : Evaluable program lowering) (resources : R) :
    Fresh program 0 (initialState operations lowering resources) :=
  ⟨fun _ _ => rfl,fun index _ inside => evaluable.once index inside⟩

/-- The loop over all nodes comes to the values of the roots. -/
theorem rounds_runs {layout : Layout} {vocabulary : Vocabulary} {roots : List Expr} (evaluable : Evaluable program lowering)
    (allowed : vocabulary.AllowsRoots roots) (laid : LaidAllFrom layout program.shape none roots 0)
    (size : program.nodes.length = Expr.nodeCounts roots) (places : program.roots = rootsFrom roots 0) (resources : R) :
    Runs ((List.range program.nodes.length).foldlM (evaluateRound operations program lowering)
        (initialState operations lowering resources))
      (Expr.values operations program lowering none roots 0 resources)
      (fun values after => List.Forall₂ (Holds after) program.roots values ∧
        Spent 0 program.nodes.length program.roots after) := by
  have idle (count : Nat) (bound : count = 0 ∨ count = program.nodes.length) (state : EvaluationState R V A) :
      admitFanouts operations program lowering count state = .ok state := by
    refine admitFanouts_idle (fun fanout inside same => ?_) state
    obtain ⟨index,below,-,-,child⟩ := concerned evaluable.forested inside (.inl rfl)
    have before := evaluable.forested.forest.descends index _ child
    omega
  have same : (List.range program.nodes.length).foldlM (evaluateRound operations program lowering)
      (initialState operations lowering resources) = evaluateFrom operations program lowering 0 (Expr.nodeCounts roots)
        (initialState operations lowering resources) := by
    have rounds := @rounds_steps R V A E operations program lowering 0 program.nodes.length
      (initialState operations lowering resources)
    rw [Nat.zero_add,bind_idle (idle _ (.inr rfl)),idle 0 (.inl rfl)] at rounds
    rw [List.range_eq_range',rounds,← size]
    rfl
  have plain : ∀ root ∈ rootsFrom roots 0, Unfanned program root := fun root member =>
    plain_of_root evaluable.forested (places ▸ member)
  rw [same,places,size]
  exact (trees_runs evaluable roots (fun root member => ⟨true,allowed root member⟩) laid
    (by intro inside; cases inside) (initialState_fresh evaluable resources) plain).mono
      fun values after ⟨_,holding,spent⟩ => ⟨holding,by rwa [Nat.zero_add] at spent⟩

theorem lowered_runs (inLanguage : abstract.InLanguage parser leaves) (compiled : program.shape = abstract.compile parser)
    (resolution : resolveRewritePrimitives program = .ok resolved) (lowers : lowerRewriteProgram host resolved = .ok lowered)
    (operations : EvaluationOperations R V A E) (resources : R) :
    Runs ((List.range resolved.nodes.length).foldlM (evaluateRound operations resolved lowered)
        (initialState operations lowered resources))
      (Expr.values operations resolved lowered none abstract.roots 0 resources)
      (fun values after => List.Forall₂ (Holds after) resolved.roots values ∧
        Spent 0 resolved.nodes.length resolved.roots after) := by
  have evaluable := evaluable_of_lowered inLanguage compiled resolution lowers
  have tables := (resolved_shape resolution).trans compiled
  obtain ⟨laid,size⟩ := emitRoots_laidFrom (abstract.layout parser) abstract.roots emptyShape inLanguage.2 (.refl _)
  have places := emitRoots_rootsFrom (abstract.layout parser) abstract.roots emptyShape
  rw [← AbstractProgram.compile,← tables] at laid size places
  have size : resolved.nodes.length = Expr.nodeCounts abstract.roots := by
    simpa [RewriteProgram.shape,emptyShape] using size
  have places : resolved.roots = rootsFrom abstract.roots 0 := places
  exact rounds_runs evaluable inLanguage.2 laid size places resources

/-- A run ends as the trees do: with the same failure, or with what they come to and their storage. -/
def EndsAs {α : Type} (run : R × Except (EvaluationFailure E) α) (result : Evaluated E (α × R)) : Prop :=
  match result with
  | .error failure => run.2 = .error failure
  | .ok (found,storage) => run = (storage,.ok found)

/-- A run whose loop comes to what the trees come to ends as they do. -/
theorem endsAs_of_runs {roots : List Expr} {resources : R} (distinct : resolved.roots.Nodup)
    (runs : Runs ((List.range resolved.nodes.length).foldlM (evaluateRound operations resolved lowered)
        (initialState operations lowered resources))
      (Expr.values operations resolved lowered none roots 0 resources)
      (fun values after => List.Forall₂ (Holds after) resolved.roots values ∧
        Spent 0 resolved.nodes.length resolved.roots after)) :
    EndsAs (evaluateProgram operations resolved lowered resources)
      (treesValue operations resolved lowered roots resources) := by
  cases result : Expr.values operations resolved lowered none roots 0 resources with
  | error failure =>
    rw [result] at runs
    obtain ⟨state,ran⟩ := runs
    have fails : treesValue operations resolved lowered roots resources = .error failure := by
      rw [treesValue,result]
      rfl
    rw [fails,evaluateProgram,ran]
    rfl
  | ok found =>
    obtain ⟨values,storage⟩ := found
    rw [result] at runs
    obtain ⟨state,ran,stored,holding,-⟩ := runs
    have taken : takeRoots operations resolved.roots state [] = .ok (values,state.consumed resolved.roots) :=
      takeRoots_of_taken (takeElements_holds distinct holding [])
    have outcome : (Except.ok state).bind (fun state => takeRoots operations resolved.roots state []) =
        Except.ok (values,state.consumed resolved.roots) := taken
    cases formatted : formatRoots operations 0 values with
    | error failure =>
      have fails : treesValue operations resolved lowered roots resources = .error failure := by
        rw [treesValue,result]
        show (formatRoots operations 0 values >>= _) = _
        rw [formatted]
        rfl
      rw [fails,evaluateProgram,ran]
      dsimp only
      rw [outcome]
      dsimp only
      rw [formatted]
      rfl
    | ok texts =>
      have comes : treesValue operations resolved lowered roots resources = .ok ((values,texts),storage) := by
        rw [treesValue,result]
        show (formatRoots operations 0 values >>= _) = _
        rw [formatted]
        rfl
      rw [comes,evaluateProgram,ran]
      dsimp only
      rw [outcome]
      dsimp only
      rw [formatted,← stored]
      rfl

/-- Evaluation of a lowered program comes to the values and the texts that its trees come to, or
fails as they do. -/
theorem evaluate_trees (inLanguage : abstract.InLanguage parser leaves) (compiled : program.shape = abstract.compile parser)
    (resolution : resolveRewritePrimitives program = .ok resolved) (lowers : lowerRewriteProgram host resolved = .ok lowered)
    (operations : EvaluationOperations R V A E) (resources : R) :
    EndsAs (evaluateProgram operations resolved lowered resources)
      (treesValue operations resolved lowered abstract.roots resources) := by
  have evaluable := evaluable_of_lowered inLanguage compiled resolution lowers
  exact endsAs_of_runs (evaluable.forested.ordered.imp Nat.ne_of_lt)
    (lowered_runs inLanguage compiled resolution lowers operations resources)

/-- Evaluation to types: each literal has its own, each call that of its lowering. -/
def typeOperations : EvaluationOperations Unit TypeTree (List TypeTree) Unit where
  scalarLiteral node := .scalar node.elementType
  parameter _ := .scalar .integer
  zero := .scalar .integer
  vectorLiteral resources node := (resources,.ok (.vector node.elementType))
  makeTuple resources _ values := (resources,.ok (.tuple values))
  tupleElements
    | .tuple elements => some (List.range elements.length)
    | _ => none
  valueLength _ := none
  emptyAssembly := []
  preadmit resources _ _ := (resources,.ok [])
  transferredCount := List.length
  transfer assembly value := some (assembly ++ [value])
  publish assembly := some (.tuple assembly)
  applyPrimitive resources lowered _ _ := (resources,.ok lowered.structuralType)
  spreadError := id
  release resources _ := resources
  releaseAssembly resources _ := resources
  refresh := id
  formatValue type := .ok type.render

theorem spreading_runs : ∃ program resolved lowered values after,
    parseRewrite refusingParser spreadingProgram.render = some (.ok program) ∧
      program.shape = spreadingProgram.compile refusingParser ∧ resolveRewritePrimitives program = .ok resolved ∧
      lowerRewriteProgram grantingHost resolved = .ok lowered ∧
      ((List.range resolved.nodes.length).foldlM (evaluateRound typeOperations resolved lowered)
        (initialState typeOperations lowered ())).bind
          (fun state => takeRoots typeOperations resolved.roots state []) = .ok (values,after) := by
  have runs : ((parseRewrite refusingParser spreadingProgram.render).map fun result =>
      (result.toOption.bind fun program => (resolveRewritePrimitives program).toOption.bind fun resolved =>
        (lowerRewriteProgram grantingHost resolved).toOption.bind fun lowered =>
          (((List.range resolved.nodes.length).foldlM (evaluateRound typeOperations resolved lowered)
            (initialState typeOperations lowered ())).bind
              (fun state => takeRoots typeOperations resolved.roots state [])).toOption).isSome) =
                some true := by decide +kernel
  obtain ⟨program,resolved,lowered,parsed,shape,resolution,lowers⟩ := spreading_lowers
  rw [parsed] at runs
  simp only [Option.map_some,Except.toOption,Option.bind_some,Option.some.injEq,resolution,lowers] at runs
  generalize ended : Except.bind _ _ = outcome at runs
  cases outcome with
  | error failure => cases runs
  | ok found => exact ⟨program,resolved,lowered,found.1,found.2,parsed,shape,resolution,lowers,ended⟩

theorem evaluate_trees_spreading : ∃ program resolved lowered,
    parseRewrite refusingParser spreadingProgram.render = some (.ok program) ∧
      resolveRewritePrimitives program = .ok resolved ∧ lowerRewriteProgram grantingHost resolved = .ok lowered ∧
      EndsAs (evaluateProgram typeOperations resolved lowered ())
        (treesValue typeOperations resolved lowered spreadingProgram.roots ()) := by
  obtain ⟨program,resolved,lowered,parsed,shape,resolution,lowers⟩ := spreading_lowers
  exact ⟨program,resolved,lowered,parsed,resolution,lowers,
    evaluate_trees spreadingProgram_inLanguage shape resolution lowers typeOperations ()⟩

end evaluation

end Bennu
