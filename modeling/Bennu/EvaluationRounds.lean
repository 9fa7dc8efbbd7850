import Bennu.EvaluationPlaces

/-! Rounds of the loop over the nodes: what calls do to the table of owners, when fanouts are
admitted, and where the values of branches go. -/
namespace Bennu
open Forest

section evaluation

variable {R V A E : Type} {operations : EvaluationOperations R V A E} {program : RewriteProgram}
  {lowering : RewriteLoweringProgram} {layout : Layout} {vocabulary : Vocabulary}
  {state after : EvaluationState R V A} {bound first last index root : Nat} {ids : List Nat} {values owners : List V}
  {value : V} {place : Place} {atRoot : Bool} {operand : Option Nat} {owner : Option V}

/-! ### Rounds -/

section rounds

variable (operations : EvaluationOperations R V A E) (program : RewriteProgram) (lowering : RewriteLoweringProgram)

/-- A node is evaluated, and the fanouts behind it are admitted. -/
def evaluateStep (state : EvaluationState R V A) (index : Nat) : EvaluationRun R V A E (EvaluationState R V A) :=
  evaluateNode operations program lowering state index >>= admitFanouts operations program lowering (index + 1)

def evaluateFrom (first count : Nat) (state : EvaluationState R V A) : EvaluationRun R V A E (EvaluationState R V A) :=
  (List.range' first count).foldlM (evaluateStep operations program lowering) state

/-- The nodes of a tree up to the last, behind which nothing is admitted yet. -/
def treeRun (tree : Expr) (first : Nat) (state : EvaluationState R V A) : EvaluationRun R V A E (EvaluationState R V A) :=
  evaluateFrom operations program lowering first (tree.nodeCount - 1) state >>= fun state =>
    evaluateNode operations program lowering state (tree.rootFrom first)

end rounds

theorem bind_idle {S F : Type} {next : S → Except F S} (idle : ∀ state, next state = .ok state) (run : Except F S) :
    run >>= next = run := by
  cases run with
  | error failure => rfl
  | ok state => exact idle state

theorem evaluateFrom_add (first count more : Nat) (state : EvaluationState R V A) :
    evaluateFrom operations program lowering first (count + more) state =
      evaluateFrom operations program lowering first count state >>=
        evaluateFrom operations program lowering (first + count) more := by
  rw [evaluateFrom,← List.range'_append_1,List.foldlM_append]
  rfl

theorem evaluateFrom_one (first : Nat) (state : EvaluationState R V A) :
    evaluateFrom operations program lowering first 1 state = evaluateStep operations program lowering state first := by
  rw [evaluateFrom,List.range'_one,List.foldlM_cons]
  exact bind_idle (fun _ => rfl) _

theorem evaluateFrom_tree (tree : Expr) (first : Nat) (state : EvaluationState R V A) :
    evaluateFrom operations program lowering first tree.nodeCount state =
      treeRun operations program lowering tree first state >>=
        admitFanouts operations program lowering (tree.rootFrom first + 1) := by
  have some := tree.nodeCount_pos
  have split : tree.nodeCount = tree.nodeCount - 1 + 1 := by omega
  have root : first + (tree.nodeCount - 1) = tree.rootFrom first := by
    rw [Expr.rootFrom]
    omega
  rw [split,evaluateFrom_add,root,treeRun,bind_assoc]
  congr 1
  funext state
  rw [evaluateFrom_one]
  rfl

/-- Rounds admit before a node what the steps admit behind the one before. -/
theorem rounds_steps (first count : Nat) (state : EvaluationState R V A) :
    ((List.range' first count).foldlM (evaluateRound operations program lowering) state >>=
      admitFanouts operations program lowering (first + count)) =
      admitFanouts operations program lowering first state >>= evaluateFrom operations program lowering first count := by
  induction count generalizing first state with
  | zero =>
    exact (bind_idle (fun _ => rfl) (admitFanouts operations program lowering first state)).symm
  | succ count ih =>
    have shifted : first + (count + 1) = first + 1 + count := by omega
    rw [List.range'_succ,List.foldlM_cons,shifted,bind_assoc]
    have rest : (fun state => (List.range' (first + 1) count).foldlM (evaluateRound operations program lowering) state >>=
        admitFanouts operations program lowering (first + 1 + count)) = fun state =>
          admitFanouts operations program lowering (first + 1) state >>=
            evaluateFrom operations program lowering (first + 1) count := funext fun state => ih (first + 1) state
    rw [rest,evaluateRound,bind_assoc]
    congr 1
    funext state
    rw [Nat.add_comm count 1,evaluateFrom_add]
    rw [← bind_assoc]
    congr 1
    rw [evaluateFrom_one]
    rfl

/-! ### Owners -/

/-- Inside of a branch the operand of its fanout is live. -/
def OperandLive (place : Place) (operand : Option Nat) (owner : Option V) (first : Nat) (state : EvaluationState R V A) : Prop :=
  place = .branch → ∃ node value, operand = some node ∧ owner = some value ∧ node < first ∧
    state.nodeValues node = some value

theorem OperandLive.keeps (standing : OperandLive place operand owner first state) (keeps : Keeps program bound first last state after)
    (order : first ≤ last) : OperandLive place operand owner last after := by
  intro inside
  obtain ⟨node,value,same,same',before,live⟩ := standing inside
  exact ⟨node,value,same,same',Nat.lt_of_lt_of_le before order,(keeps.values node (.inl before)).trans live⟩

/-- What an argument stands for is live, and the argument has its use. -/
def Owned (program : RewriteProgram) (state : EvaluationState R V A) (id : Nat) (owner : V) : Prop :=
  state.nodeValues (ownerNode program id) = some owner ∧ state.remainingUses id = 1

theorem tree_owned (tree : Expr) (allowed : vocabulary.Allows place atRoot tree)
    (laid : LaidFrom layout program.shape operand tree first) (standing : OperandLive place operand owner index state)
    (holds : Holds state (tree.rootFrom first) value) :
    Owned program state (tree.rootFrom first) (tree.owner owner value) := by
  refine ⟨?_,holds.2⟩
  rw [laid_owner tree laid]
  cases tree with
  | placeholder =>
    obtain ⟨node,found,rfl,rfl,-,live⟩ := standing allowed
    exact live
  | _ => exact holds.1

theorem trees_owned (trees : List Expr) : ∀ {first values}, vocabulary.AllowsAll place trees →
    LaidAllFrom layout program.shape operand trees first → OperandLive place operand owner index state →
      List.Forall₂ (Holds state) (rootsFrom trees first) values →
        List.Forall₂ (Owned program state) (rootsFrom trees first)
          ((trees.zip values).map fun argument => argument.1.owner owner argument.2) := by
  induction trees with
  | nil =>
    intro first values _ _ _ holding
    cases holding
    exact .nil
  | cons tree rest ih =>
    intro first values allowed laid standing holding
    obtain ⟨value,values,here,later,rfl⟩ := List.forall₂_cons_left_iff.mp holding
    exact .cons (tree_owned tree allowed.1 laid.1 standing here) (ih allowed.2 laid.2 standing later)

/-! ### Calls -/

theorem callArguments_owned {lowered : RewriteLoweringNode} {call : RewriteCall}
    (owned : List.Forall₂ (Owned program state) (argumentNodes program call) owners) :
    callArguments operations program lowered call state =
      if lowered.spreadsTuple then
        (state.nodeValues (ownerNode program lowered.spreadOperand)).bind fun operand =>
          (operations.tupleElements operand).bind fun elements =>
            if elements.length = lowered.argumentCount then some (elements.map fun element => ⟨operand,some element⟩)
            else none
      else some (owners.map fun owner => ⟨owner,none⟩) := by
  rw [callArguments]
  generalize argumentNodes program call = ids at owned
  have live : ids.any (fun argument => (state.nodeValues (ownerNode program argument)).isNone ||
      state.remainingUses argument == 0) = false := by
    induction owned with
    | nil => rfl
    | cons first _ ih =>
      rw [List.any_cons,ih,first.1,first.2]
      rfl
  have named : ids.mapM (fun argument => (state.nodeValues (ownerNode program argument)).map fun owner =>
      (⟨owner,none⟩ : TypedPrimitiveArgument V)) = some (owners.map fun owner => ⟨owner,none⟩) := by
    clear live
    induction owned with
    | nil => rfl
    | cons first _ ih =>
      rw [List.mapM_cons,ih,first.1]
      rfl
  rw [live,named]
  rfl

/-- A call whose arguments are live is applied, uses them up, and places what comes out. -/
theorem evaluateCall_goes (evaluable : Evaluable program lowering) (inside : index < program.nodes.length)
    (children : program.children index = ids)
    (arguments : argumentNodes program (program.callAt (program.nodeAt index).callIndex) = ids)
    (holding : List.Forall₂ (Holds state) ids values) (distinct : ids.Nodup) :
    Goes (evaluateCall operations program lowering index (program.nodeAt index) state)
      (callValue operations program lowering index
        (callArguments operations program (loweringNodeAt lowering.nodes index)
          (program.callAt (program.nodeAt index).callIndex) state) values state.resources)
      (fun _ after => ∃ resources, after = { state.consumed ids with resources })
      (placeResult operations program index) := by
  have within : ∀ id ∈ ids, id < lowering.nodes.length := by
    intro id member
    rw [evaluable.nodes]
    exact Nat.lt_trans (evaluable.forested.forest.descends index id (children ▸ member)) inside
  have passing : ∀ id ∈ ids, (loweringNodeAt lowering.nodes id).retainedRoot = false := by
    intro id member
    rw [evaluable.retained id (evaluable.nodes ▸ within id member)]
    exact decide_eq_false fun rooted => evaluable.forested.forest.unparented rooted inside (children ▸ member)
  have completes (resources : R) : completeConsumerAttempt operations lowering ids { state with resources } =
      some { state.consumed ids with
        resources := values.foldr (fun value resources => operations.release resources value) resources } :=
    completeConsumerAttempt_holds distinct holding within passing
  rw [evaluateCall,callValue]
  generalize operations.applyPrimitive = apply
  dsimp only
  cases callDescriptor (program.callAt (program.nodeAt index).callIndex) with
  | none => exact ⟨state,rfl⟩
  | some descriptor =>
    dsimp only
    cases callArguments operations program (loweringNodeAt lowering.nodes index)
        (program.callAt (program.nodeAt index).callIndex) state with
    | none => exact ⟨state,rfl⟩
    | some found =>
      dsimp only
      cases runtimeShapeError operations lowering (loweringNodeAt lowering.nodes index) found with
      | some error => exact ⟨_,rfl⟩
      | none =>
        rcases apply state.resources (loweringNodeAt lowering.nodes index) descriptor found with ⟨resources,outcome⟩
        dsimp only
        rw [arguments,completes resources]
        cases outcome with
        | error error => exact ⟨_,rfl⟩
        | ok value => exact ⟨_,rfl,rfl,_,rfl⟩

/-! ### Fanouts -/

/-- A fanout has been admitted. -/
def EvaluationState.admitted (state : EvaluationState R V A) (fanout : Nat) (resources : R) (assembly : A) :
    EvaluationState R V A :=
  { state with
    resources
    assemblies := Function.update state.assemblies fanout assembly
    assemblyLive := Function.update state.assemblyLive fanout true }

section fanouts

variable (evaluable : Evaluable program lowering) (inside : index < program.nodes.length)
  (kind : (program.nodeAt index).kind = .fanout) (below : (program.nodeAt index).callIndex < program.fanouts.length)
include evaluable inside kind below

/-- Behind the operand its fanout is admitted, and no other. -/
theorem admitFanouts_operand (state : EvaluationState R V A) :
    admitFanouts operations program lowering ((program.fanoutAt (program.nodeAt index).callIndex).operand + 1) state =
      match operations.preadmit state.resources (program.fanoutAt (program.nodeAt index).callIndex)
        (fanoutAdmission program lowering (program.fanoutAt (program.nodeAt index).callIndex)) with
      | (resources,.error error) => .error (.admission (program.nodeAt index).callIndex error,{ state with resources })
      | (resources,.ok assembly) => .ok (state.admitted (program.nodeAt index).callIndex resources assembly) := by
  have children := children_fanout inside kind below
  have child : (program.fanoutAt (program.nodeAt index).callIndex).operand ∈ program.children index := by
    rw [children]
    exact List.mem_cons_self
  have before := evaluable.forested.forest.descends index _ child
  rw [admitFanouts,foldlM_single List.nodup_range (List.mem_range.mpr below),admitFanout]
  · rw [if_neg (not_not.mpr rfl)]
    cases found : fanoutNodeFrom program ((program.fanoutAt (program.nodeAt index).callIndex).operand + 1)
        (program.nodeAt index).callIndex with
    | some node => rfl
    | none =>
      have listed : index ∈ (List.range program.nodes.length).drop
          ((program.fanoutAt (program.nodeAt index).callIndex).operand + 1) := by
        rw [List.mem_drop_iff_getElem]
        refine ⟨index - ((program.fanoutAt (program.nodeAt index).callIndex).operand + 1),?_,?_⟩
        · rw [List.length_range]
          omega
        · rw [List.getElem_range]
          omega
      have absent := List.find?_eq_none.mp found index listed
      simp [kind] at absent
  · intro other listed apart state
    rw [admitFanout]
    rw [if_pos]
    intro same
    exact apart (concerns_one evaluable.forested inside child (List.mem_range.mp listed) (.inl (Nat.succ.inj same)))

/-- The root of a branch is the branch of no other fanout, and no other branch of this one. -/
theorem branchOfNode_branch {position : Nat}
    (listed : position < (program.fanoutAt (program.nodeAt index).callIndex).branchCount)
    (same : (program.branchAt ((program.fanoutAt (program.nodeAt index).callIndex).firstBranch + position)).root = root) :
    branchOfNode program root = some ((program.nodeAt index).callIndex,position) := by
  have children := children_fanout inside kind below
  have distinct := evaluable.forested.forest.children_nodup inside
  rw [children,← branch_roots evaluable.forested below] at distinct
  have roots := (List.nodup_cons.mp distinct).2
  have child : root ∈ program.children index := by
    rw [children,← branch_roots evaluable.forested below]
    exact List.mem_cons_of_mem _ (List.mem_map.mpr ⟨position,List.mem_range.mpr listed,same⟩)
  have here : ((List.range (program.fanoutAt (program.nodeAt index).callIndex).branchCount).find? fun position =>
      (program.branchAt ((program.fanoutAt (program.nodeAt index).callIndex).firstBranch + position)).root == root) =
        some position := by
    rw [List.find?_range_eq_some]
    refine ⟨by simpa using same,List.mem_range.mpr listed,fun other earlier => ?_⟩
    rw [Bool.not_eq_true',beq_eq_false_iff_ne]
    intro again
    have equal := List.inj_on_of_nodup_map roots (List.mem_range.mpr (Nat.lt_trans earlier listed))
      (List.mem_range.mpr listed) (again.trans same.symm)
    exact Nat.ne_of_lt earlier equal
  obtain ⟨before,behind,split⟩ := List.append_of_mem (List.mem_range.mpr below)
  have fresh : (List.range program.fanouts.length).Nodup := List.nodup_range
  rw [split] at fresh
  have apart := (List.nodup_append.mp fresh).2.2
  have skipped : before.findSome? (fun fanout =>
      ((List.range (program.fanoutAt fanout).branchCount).find? fun position =>
        (program.branchAt ((program.fanoutAt fanout).firstBranch + position)).root == root).map fun position =>
          (fanout,position)) = none := by
    rw [List.findSome?_eq_none_iff]
    intro fanout member
    have bound : fanout < program.fanouts.length := by
      rw [← List.mem_range,split]
      exact List.mem_append_left _ member
    rw [Option.map_eq_none_iff,List.find?_eq_none]
    intro position listed found
    have other := concerns_one evaluable.forested inside child bound
      (.inr ⟨position,List.mem_range.mp listed,by simpa using found⟩)
    exact apart fanout member _ List.mem_cons_self other
  rw [branchOfNode,split,List.findSome?_append]
  dsimp only
  rw [skipped,Option.none_or,List.findSome?_cons,here]
  rfl

/-- The operand of a fanout is the root of no branch. -/
theorem operand_unbranched : branchOfNode program (program.fanoutAt (program.nodeAt index).callIndex).operand = none := by
  have children := children_fanout inside kind below
  have distinct := evaluable.forested.forest.children_nodup inside
  rw [children,← branch_roots evaluable.forested below] at distinct
  have child : (program.fanoutAt (program.nodeAt index).callIndex).operand ∈ program.children index := by
    rw [children]
    exact List.mem_cons_self
  rw [branchOfNode,List.findSome?_eq_none_iff]
  intro fanout member
  rw [Option.map_eq_none_iff,List.find?_eq_none]
  intro position listed found
  have same : (program.branchAt ((program.fanoutAt fanout).firstBranch + position)).root =
      (program.fanoutAt (program.nodeAt index).callIndex).operand := by simpa using found
  have here := concerns_one evaluable.forested inside child (List.mem_range.mp member)
    (.inr ⟨position,List.mem_range.mp listed,same⟩)
  rw [here] at listed same
  exact (List.nodup_cons.mp distinct).1 (List.mem_map.mpr ⟨position,listed,same⟩)

/-- The root of a branch is the operand of no fanout. -/
theorem branch_idle {position : Nat}
    (listed : position < (program.fanoutAt (program.nodeAt index).callIndex).branchCount)
    (same : (program.branchAt ((program.fanoutAt (program.nodeAt index).callIndex).firstBranch + position)).root = root)
    (state : EvaluationState R V A) : admitFanouts operations program lowering (root + 1) state = .ok state := by
  have children := children_fanout inside kind below
  rw [← branch_roots evaluable.forested below] at children
  have member : root ∈ (List.range (program.fanoutAt (program.nodeAt index).callIndex).branchCount).map fun position =>
      (program.branchAt ((program.fanoutAt (program.nodeAt index).callIndex).firstBranch + position)).root :=
    List.mem_map.mpr ⟨position,List.mem_range.mpr listed,same⟩
  have distinct := evaluable.forested.forest.children_nodup inside
  rw [children] at distinct
  have child : root ∈ program.children index := by
    rw [children]
    exact List.mem_cons_of_mem _ member
  refine admitFanouts_idle (fun fanout bound again => ?_) state
  have operand := Nat.succ.inj again
  have here := concerns_one evaluable.forested inside child bound (.inl operand)
  rw [here] at operand
  exact (List.nodup_cons.mp distinct).1 (operand ▸ member)

end fanouts

/-- The value of a branch moves into its fanout. -/
theorem placeResult_branch {fanout position : Nat} (known : branchOfNode program root = some (fanout,position))
    (dead : state.nodeValues root = none) (unused : state.remainingUses root = 1) :
    placeResult operations program root value state =
      if position ≠ operations.transferredCount (state.assemblies fanout) then
        .error (.branchOrder fanout position,{ state with resources := releaseRewriteValues operations state.resources [value] })
      else
        match operations.transfer (state.assemblies fanout) value with
        | none =>
          .error (.branchSlot fanout position,{ state with resources := releaseRewriteValues operations state.resources [value] })
        | some assembly =>
          .ok { state with
            assemblies := Function.update state.assemblies fanout assembly
            remainingUses := Function.update state.remainingUses root 0 } := by
  rw [placeResult]
  dsimp only
  rw [known,unused]
  dsimp only
  by_cases order : position ≠ operations.transferredCount (state.assemblies fanout)
  · rw [if_pos (.inl order),if_pos order]
  · rw [if_neg (by simpa using order),if_neg order]
    cases operations.transfer (state.assemblies fanout) value with
    | none => rfl
    | some assembly =>
      dsimp only
      rw [if_pos (Function.update_self ..),releaseRewriteNodeValue]
      dsimp only
      rw [dead]

end evaluation

end Bennu
