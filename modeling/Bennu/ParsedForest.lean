import Bennu.ParserLanguage
import Bennu.PostorderTables

/-! The tables of parsed programs are forests in postorder. -/
namespace Bennu
open Forest

variable {layout : Layout} {vocabulary : Vocabulary} {shape after : ProgramShape} {node : NodeShape}
  {operand : Option Nat}

/-! ### Placeholders stand behind their operands -/

def PlaceholdersBehind (shape : ProgramShape) : Prop :=
  ∀ (index : Nat) (node : NodeShape), shape.nodes[index]? = some node → node.kind = .placeholder → node.firstElement < index

theorem PlaceholdersBehind.snoc (behind : PlaceholdersBehind shape) (nodes : after.nodes = shape.nodes ++ [node])
    (fits : node.kind = .placeholder → node.firstElement < shape.nodes.length) : PlaceholdersBehind after := by
  intro index other found kind
  rw [nodes] at found
  rcases Nat.lt_trichotomy index shape.nodes.length with before | rfl | beyond
  · rw [List.getElem?_append_left before] at found
    exact behind index other found kind
  · rw [List.getElem?_concat_length] at found
    cases found
    exact fits kind
  · rw [List.getElem?_eq_none (by simpa using beyond)] at found
    cases found

theorem PlaceholdersBehind.same (behind : PlaceholdersBehind shape) (nodes : after.nodes = shape.nodes) :
    PlaceholdersBehind after := by
  intro index node found
  rw [nodes] at found
  exact behind index node found

/-- Inside of a branch the operand is a node that there is. -/
def OperandKnown (place : Place) (operand : Option Nat) (shape : ProgramShape) : Prop :=
  place = .branch → ∃ index, operand = some index ∧ index < shape.nodes.length

theorem OperandKnown.extend {place : Place} (known : OperandKnown place operand shape) (grown : Extends shape after) :
    OperandKnown place operand after := by
  intro inside
  obtain ⟨index,same,bound⟩ := known inside
  exact ⟨index,same,Nat.lt_of_lt_of_le bound grown.nodes.length_le⟩

mutual

theorem emit_behind (layout : Layout) : (tree : Expr) → ∀ {place atRoot operand shape},
    vocabulary.Allows place atRoot tree → OperandKnown place operand shape → PlaceholdersBehind shape →
      PlaceholdersBehind (layout.emit operand tree shape)
  | .scalar _,_,_,_,_,_,_,behind => behind.snoc rfl (by intro same; cases same)
  | .vector type elements,_,_,_,shape,_,_,behind =>
    (behind.same (addElements_nodes layout.parser type elements shape)).snoc rfl (by intro same; cases same)
  | .parameter _,_,_,_,_,_,_,behind => behind.snoc rfl (by intro same; cases same)
  | .unresolved _,_,_,_,_,_,_,behind => behind.snoc rfl (by intro same; cases same)
  | .bracketCall _ arguments,_,_,_,_,⟨_,_,allowed⟩,known,behind =>
    (emitAll_behind layout arguments allowed known behind).snoc rfl (by intro same; cases same)
  | .prefixCall _ argument,_,_,_,_,⟨_,_,_,allowed⟩,known,behind =>
    (emit_behind layout argument allowed known behind).snoc rfl (by intro same; cases same)
  | .tuple elements,_,_,_,_,allowed,known,behind =>
    (emitAll_behind layout elements allowed known behind).snoc rfl (by intro same; cases same)
  | .placeholder,_,_,operand,shape,inside,known,behind => by
    obtain ⟨index,rfl,bound⟩ := known inside
    exact behind.snoc rfl fun _ => bound
  | .fanout source branches,_,_,_,shape,⟨_,sourceAllowed,_,allowed⟩,_,behind =>
    have operand := emit_behind layout source sourceAllowed (by intro same; cases same) behind
    have known := (emit_last layout none source shape).1
    (emitBranches_behind layout branches _ allowed known operand).snoc rfl (by intro same; cases same)

theorem emitAll_behind (layout : Layout) : (trees : List Expr) → ∀ {place operand shape},
    vocabulary.AllowsAll place trees → OperandKnown place operand shape → PlaceholdersBehind shape →
      PlaceholdersBehind (layout.emitAll operand trees shape).1
  | [],_,_,_,_,_,behind => behind
  | tree :: rest,_,operand,shape,⟨first,later⟩,known,behind =>
    emitAll_behind layout rest later (known.extend (emit_extends layout tree operand shape))
      (emit_behind layout tree first known behind)

theorem emitBranches_behind (layout : Layout) : (branches : List Expr) → ∀ operand {shape},
    vocabulary.AllowsBranches branches → operand < shape.nodes.length → PlaceholdersBehind shape →
      PlaceholdersBehind (layout.emitBranches operand branches shape).1
  | [],_,_,_,_,behind => behind
  | branch :: rest,operand,shape,⟨⟨first,_⟩,later⟩,known,behind =>
    have emitted := emit_behind layout branch first (fun _ => ⟨operand,rfl,known⟩) behind
    have more := (emit_extends layout branch (some operand) shape).nodes.length_le
    emitBranches_behind layout rest operand later (Nat.lt_of_lt_of_le known more) (emitted.same rfl)

end

theorem emitRoots_behind (layout : Layout) (roots : List Expr) :
    ∀ shape, vocabulary.AllowsRoots roots → PlaceholdersBehind shape → PlaceholdersBehind (layout.emitRoots roots shape) := by
  induction roots with
  | nil => exact fun _ _ behind => behind
  | cons root rest ih =>
    intro shape allowed behind
    have emitted : PlaceholdersBehind (layout.emit none root shape) :=
      emit_behind layout root (allowed root List.mem_cons_self) (by intro same; cases same) behind
    exact ih _ (fun other member => allowed other (List.mem_cons_of_mem _ member)) (emitted.same rfl)

/-! ### The tables of a program -/

/-- The nodes below a node. -/
def RewriteProgram.children (program : RewriteProgram) (index : Nat) : List Nat :=
  match program.nodes[index]? with
  | none => []
  | some node =>
    match node.kind with
    | .primitiveCall =>
      match program.calls[node.callIndex]? with
      | none => []
      | some call => slice program.arguments call.firstArgument call.argumentCount
    | .tupleLiteral => slice program.tupleElements node.firstElement node.elementCount
    | .fanout =>
      match program.fanouts[node.callIndex]? with
      | none => []
      | some fanout =>
        fanout.operand :: slice (program.fanoutBranches.map (·.root)) fanout.firstBranch fanout.branchCount
    | _ => []

theorem shape_children (program : RewriteProgram) : program.shape.children = program.children := by
  funext index
  rw [ProgramShape.children,RewriteProgram.children,RewriteProgram.shape,List.getElem?_map]
  cases program.nodes[index]? with
  | none => rfl
  | some node =>
    dsimp only [Option.map_some,RewriteNode.shape]
    cases node.kind <;> try rfl
    · dsimp only
      rw [List.getElem?_map]
      cases program.calls[node.callIndex]? <;> rfl
    · dsimp only
      rw [List.getElem?_map]
      cases program.fanouts[node.callIndex]? <;> rfl

/-- The tables hold a forest in postorder. Call and fanout nodes stand for the records of calls and
fanouts in their order; the ranges of calls, tuples and fanouts tile their tables, those of vector
literals lie inside of theirs; a placeholder stands behind its operand, and every branch has one. -/
structure RewriteProgram.Forested (program : RewriteProgram) : Prop where
  forest : Postorder program.nodes.length program.children program.roots
  ordered : program.roots.Pairwise (· < ·)
  callNodes : (program.nodes.filter (·.kind == .primitiveCall)).map (·.callIndex) = List.range program.calls.length
  fanoutNodes : (program.nodes.filter (·.kind == .fanout)).map (·.callIndex) = List.range program.fanouts.length
  argumentRanges : Covers (program.calls.map fun call => (call.firstArgument,call.argumentCount)) 0
    program.arguments.length
  tupleRanges : Covers ((program.nodes.filter (·.kind == .tupleLiteral)).map fun node =>
    (node.firstElement,node.elementCount)) 0 program.tupleElements.length
  branchRanges : Covers (program.fanouts.map fun fanout => (fanout.firstBranch,fanout.branchCount)) 0
    program.fanoutBranches.length
  vectors : ∀ node ∈ program.nodes, node.kind = .vectorLiteral →
    node.firstElementSpan + node.elementCount ≤ program.vectorElementSpans.length ∧
      node.firstElement + node.elementCount ≤ vectorPayloadSize program node.elementType
  fanoutRanges : ∀ node ∈ program.nodes, node.kind = .fanout → ∃ fanout, program.fanouts[node.callIndex]? = some fanout ∧
    node.firstElement = fanout.firstBranch ∧ node.elementCount = fanout.branchCount
  behind : ∀ (index : Nat) (node : RewriteNode), program.nodes[index]? = some node → node.kind = .placeholder → node.firstElement < index
  branches : ∀ fanout ∈ program.fanouts, 0 < fanout.branchCount ∧
    ∀ root ∈ slice (program.fanoutBranches.map (·.root)) fanout.firstBranch fanout.branchCount,
      ∃ index, (∀ other, Reaches program.children root other ∧
          program.nodes[other]?.map (·.kind) = some .placeholder ↔ other = index) ∧
        program.nodes[index]?.map (·.firstElement) = some fanout.operand

theorem slice_nonempty {α : Type} {table : List α} {first count : Nat} (nonempty : slice table first count ≠ []) :
    0 < count := by
  rw [Nat.pos_iff_ne_zero]
  rintro rfl
  simp [slice] at nonempty

/-- Tables that are those of a program of the grammar hold a forest. -/
theorem forested_of_compile {parser : RewriteDoubleParser} {leaves : Bool} {program : RewriteProgram}
    {abstract : AbstractProgram} (inLanguage : abstract.InLanguage parser leaves)
    (compiled : program.shape = abstract.compile parser) : program.Forested := by
  have tabled := emitRoots_tabled (abstract.layout parser) abstract.roots emptyShape inLanguage.2
    (emptyShape_tabled (abstract.layout parser) _)
  have behind := emitRoots_behind (abstract.layout parser) abstract.roots emptyShape inLanguage.2
    fun _ _ found => absurd found (by simp [emptyShape])
  rw [← AbstractProgram.compile,← compiled] at tabled behind
  have forest := tabled.forest
  have branches := tabled.branches
  rw [List.append_nil,shape_children] at forest
  have kinds : ∀ index : Nat, program.shape.nodes[index]?.map (·.kind) = program.nodes[index]?.map (·.kind) := by
    intro index
    rw [RewriteProgram.shape,List.getElem?_map,Option.map_map]
    rfl
  have elements : ∀ index : Nat, program.shape.nodes[index]?.map (·.firstElement) =
      program.nodes[index]?.map (·.firstElement) := by
    intro index
    rw [RewriteProgram.shape,List.getElem?_map,Option.map_map]
    rfl
  exact {
    forest := by simpa [RewriteProgram.shape] using forest
    ordered := by simpa [RewriteProgram.shape] using tabled.ordered
    callNodes := by simpa [RewriteProgram.shape,List.filter_map,Function.comp_def,RewriteNode.shape] using tabled.callNodes
    fanoutNodes := by
      simpa [RewriteProgram.shape,List.filter_map,Function.comp_def,RewriteNode.shape] using tabled.fanoutNodes
    argumentRanges := by
      simpa [RewriteProgram.shape,Function.comp_def,RewriteCall.shape] using tabled.argumentRanges
    tupleRanges := by
      simpa [RewriteProgram.shape,List.filter_map,Function.comp_def,RewriteNode.shape] using tabled.tupleRanges
    branchRanges := by
      simpa [RewriteProgram.shape,Function.comp_def,RewriteFanout.shape] using tabled.branchRanges
    vectors := by
      intro node member kind
      have vector := tabled.vectors node.shape (List.mem_map_of_mem member) kind
      refine ⟨vector.1,Nat.le_trans vector.2 (Nat.le_of_eq ?_)⟩
      show program.shape.payloadSize node.elementType = vectorPayloadSize program node.elementType
      cases node.elementType <;> rfl
    fanoutRanges := by
      intro node member kind
      obtain ⟨fanout,found,range⟩ := tabled.fanoutRanges node.shape (List.mem_map_of_mem member) kind
      rw [RewriteProgram.shape,List.getElem?_map,Option.map_eq_some_iff] at found
      obtain ⟨written,found,rfl⟩ := found
      exact ⟨written,found,range⟩
    behind := by
      intro index node found kind
      exact behind index node.shape (by rw [RewriteProgram.shape,List.getElem?_map,found]; rfl) kind
    branches := by
      intro fanout member
      obtain ⟨trees,bound,nonempty,allowed,laid⟩ := branches fanout.shape (List.mem_map_of_mem member)
      have length := laid.length
      refine ⟨?_,fun root listed => ?_⟩
      · refine @slice_nonempty _ program.shape.branchRoots fanout.firstBranch _ fun empty => nonempty ?_
        rw [← List.length_eq_zero_iff,← length]
        exact List.length_eq_zero_iff.mpr empty
      · have only := branch_placeholder allowed laid listed
        rw [shape_children] at only
        simp only [kinds,elements] at only
        exact only }

theorem parseRewrite_forested {parser : RewriteDoubleParser} {source : Text} {program : RewriteProgram}
    (parsed : parseRewrite parser source = some (.ok program)) : program.Forested := by
  obtain ⟨abstract,inLanguage,compiled,-⟩ := parseRewrite_sound parser source program parsed
  exact forested_of_compile inLanguage compiled

/-- Whatever the parser accepts is a forest in postorder: every node that is no root is the child of
one node, and every node lies in the tree of one root. -/
theorem parsed_forest {parser : RewriteDoubleParser} {source : Text} {program : RewriteProgram}
    (parsed : parseRewrite parser source = some (.ok program)) :
    program.Forested ∧
    (∀ node < program.nodes.length, node ∉ program.roots →
      ∃! parent, parent < program.nodes.length ∧ node ∈ program.children parent) ∧
    ∀ node < program.nodes.length, ∃! root, root ∈ program.roots ∧ Reaches program.children root node := by
  have forested := parseRewrite_forested parsed
  exact ⟨forested,fun node inside child => forested.forest.existsUnique_parent inside child,
    fun node inside => forested.forest.existsUnique_root inside⟩

theorem parsed_forest_fanout :
    ∃ program, parseRewrite refusingParser fanoutProgram.render = some (.ok program) ∧ program.Forested := by
  obtain ⟨program,parsed,-⟩ := parseRewrite_render refusingParser fanoutProgram fanoutProgram_inLanguage
  exact ⟨program,parsed,(parsed_forest parsed).1⟩

end Bennu
