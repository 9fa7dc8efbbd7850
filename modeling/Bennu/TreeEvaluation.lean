import Bennu.Evaluation
import Bennu.LoweringUses
import Bennu.TreePlaces

/-! What the trees of a program evaluate to: the same operations in the order of the syntax, with
no table of owners. The tables say only what is at a node. -/
namespace Bennu

section evaluation

variable {R V A E : Type} (operations : EvaluationOperations R V A E) (program : RewriteProgram)
  (lowering : RewriteLoweringProgram)

/-- What there is to a tree, with the storage, or a failure. -/
abbrev Evaluated (E α : Type) := Except (EvaluationFailure E) α

/-- The value an argument refers to: a placeholder is the operand of its fanout. -/
def Expr.owner (operand : Option V) (tree : Expr) (value : V) : V :=
  match tree with
  | .placeholder => operand.getD value
  | _ => value

/-- The call at a node; its arguments' values are released behind it, the last first. -/
def callValue (index : Nat) (arguments : Option (List (TypedPrimitiveArgument V))) (values : List V) (resources : R) :
    Evaluated E (V × R) :=
  let lowered := loweringNodeAt lowering.nodes index
  match callDescriptor (program.callAt (program.nodeAt index).callIndex) with
  | none => .error (.unknownPrimitive index)
  | some descriptor =>
    match arguments with
    | none => .error (.invalidForwardUse index)
    | some arguments =>
      match runtimeShapeError operations lowering lowered arguments with
      | some (position,expected,actual) => .error (.shape index position expected actual)
      | none =>
        match operations.applyPrimitive resources lowered descriptor arguments with
        | (resources,.ok value) => .ok (value,values.foldr (fun value resources => operations.release resources value) resources)
        | (_,.error error) =>
          .error (.application index
            (if lowered.spreadsTuple ∧ lowered.argumentCount = 1 then operations.spreadError error else error))

/-- The arguments of a prefix call: a tuple's elements, if it has as many as lowering says. -/
def prefixArguments (index : Nat) (owner : V) : Option (List (TypedPrimitiveArgument V)) :=
  let lowered := loweringNodeAt lowering.nodes index
  if lowered.spreadsTuple then
    (operations.tupleElements owner).bind fun elements =>
      if elements.length = lowered.argumentCount then some (elements.map fun element => ⟨owner,some element⟩) else none
  else some [⟨owner,none⟩]

mutual

/-- The value of a tree whose nodes stand from `first` on. -/
def Expr.value (operand : Option V) : Expr → Nat → R → Evaluated E (V × R)
  | .scalar _,first,resources => .ok (operations.scalarLiteral (program.nodeAt first),resources)
  | .vector _ _,first,resources =>
    match operations.vectorLiteral resources (program.nodeAt first) with
    | (resources,.ok value) => .ok (value,resources)
    | (_,.error error) => .error (.literal first error)
  | .parameter index,_,resources => .ok (operations.parameter index,resources)
  | .unresolved _,first,_ => .error (.unknownPrimitive first)
  | .placeholder,_,resources => .ok (operations.zero,resources)
  | .bracketCall _ arguments,first,resources => do
    let (values,resources) ← Expr.values operand arguments first resources
    callValue operations program lowering (first + Expr.nodeCounts arguments)
      (some ((arguments.zip values).map fun argument => ⟨argument.1.owner operand argument.2,none⟩)) values resources
  | .prefixCall _ argument,first,resources => do
    let (value,resources) ← argument.value operand first resources
    callValue operations program lowering (first + argument.nodeCount)
      (prefixArguments operations lowering (first + argument.nodeCount) (argument.owner operand value)) [value] resources
  | .tuple elements,first,resources => do
    let (values,resources) ← Expr.values operand elements first resources
    match operations.makeTuple resources (program.nodeAt (first + Expr.nodeCounts elements)) values with
    | (resources,.ok value) => .ok (value,resources)
    | (_,.error error) => .error (.literal (first + Expr.nodeCounts elements) error)
  | .fanout source branches,first,resources => do
    let (value,resources) ← source.value none first resources
    let index := first + source.nodeCount + Expr.nodeCounts branches
    let fanout := (program.nodeAt index).callIndex
    let record := program.fanoutAt fanout
    match operations.preadmit resources record (fanoutAdmission program lowering record) with
    | (_,.error error) => .error (.admission fanout error)
    | (resources,.ok assembly) =>
      let (assembly,resources) ← Expr.branchValues value fanout branches 0 (first + source.nodeCount) assembly resources
      match operations.publish assembly with
      | none => .error (.incompleteAssembly index)
      | some result => .ok (result,operations.release resources value)

/-- The values of trees, one behind the other. -/
def Expr.values (operand : Option V) : List Expr → Nat → R → Evaluated E (List V × R)
  | [],_,resources => .ok ([],resources)
  | tree :: rest,first,resources => do
    let (value,resources) ← tree.value operand first resources
    let (values,resources) ← Expr.values operand rest (first + tree.nodeCount) resources
    return (value :: values,resources)

/-- The branches of a fanout move their values into its assembly. -/
def Expr.branchValues (operand : V) (fanout : Nat) :
    List Expr → Nat → Nat → A → R → Evaluated E (A × R)
  | [],_,_,assembly,resources => .ok (assembly,resources)
  | branch :: rest,position,first,assembly,resources => do
    let (value,resources) ← branch.value (some operand) first resources
    if position ≠ operations.transferredCount assembly then .error (.branchOrder fanout position)
    else
      match operations.transfer assembly value with
      | none => .error (.branchSlot fanout position)
      | some assembly => Expr.branchValues operand fanout rest (position + 1) (first + branch.nodeCount) assembly resources

end

/-- The values of a program's roots with their texts. -/
def treesValue (roots : List Expr) (resources : R) : Evaluated E ((List V × List Text) × R) := do
  let (values,resources) ← Expr.values operations program lowering none roots 0 resources
  let texts ← formatRoots operations 0 values
  return ((values,texts),resources)

end evaluation

end Bennu
