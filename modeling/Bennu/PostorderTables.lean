import Bennu.Forest
import Bennu.TableLayout

/-! The tables of laid out trees hold a forest in postorder, and the ranges of its calls,
tuples and fanouts tile their tables. -/
namespace Bennu
open Forest

variable {layout : Layout} {vocabulary : Vocabulary} {shape after : ProgramShape} {node : NodeShape}
  {entered index : Nat} {pending ids : List Nat} {place : Place}

theorem slice_length {α : Type} {table : List α} {first count : Nat} (inside : first + count ≤ table.length) :
    (slice table first count).length = count := by
  rw [slice,List.length_take,List.length_drop]
  omega

/-- The nodes below a node: the arguments of its call, its elements, or its operand and the
roots of its branches. -/
def ProgramShape.children (shape : ProgramShape) (index : Nat) : List Nat :=
  match shape.nodes[index]? with
  | none => []
  | some node =>
    match node.kind with
    | .primitiveCall =>
      match shape.calls[node.callIndex]? with
      | none => []
      | some call => slice shape.arguments call.firstArgument call.argumentCount
    | .tupleLiteral => slice shape.tupleElements node.firstElement node.elementCount
    | .fanout =>
      match shape.fanouts[node.callIndex]? with
      | none => []
      | some fanout => fanout.operand :: slice shape.branchRoots fanout.firstBranch fanout.branchCount
    | _ => []

/-- The tables while trees are laid out: `pending` are the roots of trees that have no place
yet, `entered` the branches that belong to finished fanouts. -/
structure Tabled (layout : Layout) (vocabulary : Vocabulary) (shape : ProgramShape) (entered : Nat)
    (pending : List Nat) : Prop where
  callNodes : (shape.nodes.filter (·.kind == .primitiveCall)).map (·.callIndex) = List.range shape.calls.length
  fanoutNodes : (shape.nodes.filter (·.kind == .fanout)).map (·.callIndex) = List.range shape.fanouts.length
  argumentRanges : Covers (shape.calls.map fun call => (call.firstArgument,call.argumentCount)) 0
    shape.arguments.length
  tupleRanges : Covers ((shape.nodes.filter (·.kind == .tupleLiteral)).map fun node =>
    (node.firstElement,node.elementCount)) 0 shape.tupleElements.length
  branchRanges : Covers (shape.fanouts.map fun fanout => (fanout.firstBranch,fanout.branchCount)) 0 entered
  branchesEntered : entered ≤ shape.branchRoots.length
  vectors : ∀ node ∈ shape.nodes, node.kind = .vectorLiteral →
    node.firstElementSpan + node.elementCount ≤ shape.elementTotal ∧
      node.firstElement + node.elementCount ≤ shape.payloadSize node.elementType
  fanoutRanges : ∀ node ∈ shape.nodes, node.kind = .fanout → ∃ fanout, shape.fanouts[node.callIndex]? = some fanout ∧
    node.firstElement = fanout.firstBranch ∧ node.elementCount = fanout.branchCount
  forest : Postorder shape.nodes.length shape.children (shape.roots ++ pending)
  ordered : (shape.roots ++ pending).Pairwise (· < ·)
  branches : ∀ fanout ∈ shape.fanouts, ∃ branches bound, branches ≠ [] ∧ vocabulary.AllowsBranches branches ∧
    LaidAll layout shape (some fanout.operand) branches
      (slice shape.branchRoots fanout.firstBranch fanout.branchCount) bound

namespace Tabled

theorem callIndex_lt (tabled : Tabled layout vocabulary shape entered pending) (member : node ∈ shape.nodes)
    (kind : node.kind = .primitiveCall) : node.callIndex < shape.calls.length := by
  have listed : node.callIndex ∈ (shape.nodes.filter (·.kind == .primitiveCall)).map (·.callIndex) :=
    List.mem_map_of_mem (List.mem_filter.mpr ⟨member,by simp [kind]⟩)
  rw [tabled.callNodes] at listed
  exact List.mem_range.mp listed

theorem fanoutIndex_lt (tabled : Tabled layout vocabulary shape entered pending) (member : node ∈ shape.nodes)
    (kind : node.kind = .fanout) : node.callIndex < shape.fanouts.length := by
  have listed : node.callIndex ∈ (shape.nodes.filter (·.kind == .fanout)).map (·.callIndex) :=
    List.mem_map_of_mem (List.mem_filter.mpr ⟨member,by simp [kind]⟩)
  rw [tabled.fanoutNodes] at listed
  exact List.mem_range.mp listed

theorem branches_grown (tabled : Tabled layout vocabulary shape entered pending) {fanout : FanoutShape}
    (member : fanout ∈ shape.fanouts) (grown : shape.branchRoots <+: after.branchRoots) :
    slice after.branchRoots fanout.firstBranch fanout.branchCount =
      slice shape.branchRoots fanout.firstBranch fanout.branchCount := by
  have within := (tabled.branchRanges.within (List.mem_map_of_mem member)).2
  exact slice_grown grown (slice_length (Nat.le_trans within tabled.branchesEntered))

/-- A node keeps its children while the tables grow. -/
theorem children_grown (tabled : Tabled layout vocabulary shape entered pending) (grown : Extends shape after)
    (inside : index < shape.nodes.length) : after.children index = shape.children index := by
  have found := List.getElem?_eq_getElem inside
  have member := List.getElem_mem inside
  generalize shape.nodes[index] = node at found member
  rw [ProgramShape.children,ProgramShape.children,found,getElem?_grown grown.nodes found]
  dsimp only
  cases kind : node.kind with
  | primitiveCall =>
    obtain ⟨written,call⟩ : ∃ written, shape.calls[node.callIndex]? = some written :=
      ⟨_,List.getElem?_eq_getElem (tabled.callIndex_lt member kind)⟩
    have listed := List.mem_of_getElem? call
    dsimp only
    rw [call,getElem?_grown grown.calls call]
    exact slice_grown grown.arguments
      (slice_length (tabled.argumentRanges.within (List.mem_map_of_mem listed)).2)
  | tupleLiteral =>
    have listed : (node.firstElement,node.elementCount) ∈
        (shape.nodes.filter (·.kind == .tupleLiteral)).map fun node => (node.firstElement,node.elementCount) :=
      List.mem_map.mpr ⟨node,List.mem_filter.mpr ⟨member,by simp [kind]⟩,rfl⟩
    exact slice_grown grown.tupleElements (slice_length (tabled.tupleRanges.within listed).2)
  | fanout =>
    obtain ⟨written,fanout⟩ : ∃ written, shape.fanouts[node.callIndex]? = some written :=
      ⟨_,List.getElem?_eq_getElem (tabled.fanoutIndex_lt member kind)⟩
    have listed := List.mem_of_getElem? fanout
    dsimp only
    rw [fanout,getElem?_grown grown.fanouts fanout]
    dsimp only
    rw [tabled.branches_grown listed grown.branchRoots]
  | _ => rfl

theorem children_beyond (beyond : shape.nodes.length ≤ index) : shape.children index = [] := by
  rw [ProgramShape.children,List.getElem?_eq_none beyond]

theorem laid_grown (tabled : Tabled layout vocabulary shape entered pending) (grown : Extends shape after)
    {fanout : FanoutShape} (member : fanout ∈ shape.fanouts) :
    ∃ branches bound, branches ≠ [] ∧ vocabulary.AllowsBranches branches ∧
      LaidAll layout after (some fanout.operand) branches
        (slice after.branchRoots fanout.firstBranch fanout.branchCount) bound := by
  obtain ⟨branches,bound,nonempty,allowed,laid⟩ := tabled.branches fanout member
  rw [tabled.branches_grown member grown.branchRoots]
  exact ⟨branches,bound,nonempty,allowed,LaidAll.extend grown branches laid⟩

theorem ranges_grown (tabled : Tabled layout vocabulary shape entered pending) (grown : Extends shape after)
    (member : node ∈ shape.nodes) (kind : node.kind = .fanout) :
    ∃ fanout, after.fanouts[node.callIndex]? = some fanout ∧
      node.firstElement = fanout.firstBranch ∧ node.elementCount = fanout.branchCount := by
  obtain ⟨fanout,found,range⟩ := tabled.fanoutRanges node member kind
  exact ⟨fanout,getElem?_grown grown.fanouts found,range⟩

/-- The forest after a node has taken the last trees as its children. -/
theorem forest_adopt (tabled : Tabled layout vocabulary shape entered (pending ++ ids)) (grown : Extends shape after)
    (one : after.nodes.length = shape.nodes.length + 1) (roots : after.roots = shape.roots)
    (taken : after.children shape.nodes.length = ids) :
    Postorder after.nodes.length after.children (after.roots ++ (pending ++ [shape.nodes.length])) := by
  have before := tabled.forest
  rw [← List.append_assoc] at before
  rw [one,roots,← List.append_assoc]
  exact before.adopt (fun index inside => tabled.children_grown grown inside) taken
    fun index beyond => children_beyond (by rw [one]; exact beyond)

theorem ordered_adopt (tabled : Tabled layout vocabulary shape entered (pending ++ ids)) (roots : after.roots = shape.roots) :
    (after.roots ++ (pending ++ [shape.nodes.length])).Pairwise (· < ·) := by
  have before := tabled.ordered
  rw [roots,← List.append_assoc]
  rw [← List.append_assoc] at before
  refine List.pairwise_append.mpr ⟨(List.pairwise_append.mp before).1,List.pairwise_singleton _ _,?_⟩
  intro root member other last
  rw [List.mem_singleton.mp last]
  refine tabled.forest.root_lt ?_
  rw [← List.append_assoc]
  exact List.mem_append_left _ member

/-- A node without children, and without entries in the other tables. -/
theorem add (tabled : Tabled layout vocabulary shape entered pending)
    (plain : node.kind ≠ .primitiveCall ∧ node.kind ≠ .tupleLiteral ∧ node.kind ≠ .fanout)
    (vector : node.kind = .vectorLiteral → node.firstElementSpan + node.elementCount ≤ shape.elementTotal ∧
      node.firstElement + node.elementCount ≤ shape.payloadSize node.elementType) :
    Tabled layout vocabulary (shape.add node) entered (pending ++ [(shape.add node).last]) := by
  obtain ⟨notCall,notTuple,notFanout⟩ := plain
  have last : (shape.add node).last = shape.nodes.length := by simp [ProgramShape.last,ProgramShape.add]
  have grown := shape.extends_add node
  have whole : Tabled layout vocabulary shape entered (pending ++ []) := by rwa [List.append_nil]
  have taken : (shape.add node).children shape.nodes.length = [] := by
    have found : (shape.add node).nodes[shape.nodes.length]? = some node := by simp [ProgramShape.add]
    rw [ProgramShape.children,found]
    cases kind : node.kind
    case primitiveCall => exact absurd kind notCall
    case tupleLiteral => exact absurd kind notTuple
    case fanout => exact absurd kind notFanout
    all_goals simp only [kind]
  rw [last]
  exact {
    callNodes := by simpa [ProgramShape.add,notCall] using tabled.callNodes
    fanoutNodes := by simpa [ProgramShape.add,notFanout] using tabled.fanoutNodes
    argumentRanges := tabled.argumentRanges
    tupleRanges := by simpa [ProgramShape.add,notTuple] using tabled.tupleRanges
    branchRanges := tabled.branchRanges
    branchesEntered := tabled.branchesEntered
    vectors := by
      intro other member
      rcases List.mem_append.mp member with member | member
      · exact tabled.vectors other member
      · rw [List.mem_singleton.mp member]
        exact vector
    fanoutRanges := by
      intro other member kind
      rcases List.mem_append.mp member with member | member
      · exact tabled.ranges_grown grown member kind
      · rw [List.mem_singleton.mp member] at kind
        exact absurd kind notFanout
    forest := whole.forest_adopt grown (by simp [ProgramShape.add]) rfl taken
    ordered := whole.ordered_adopt rfl
    branches := fun fanout member => tabled.laid_grown grown member }

theorem addElement (tabled : Tabled layout vocabulary shape entered pending) (type : ScalarType) (literal : Literal) :
    Tabled layout vocabulary (ProgramShape.addElement layout.parser type shape literal) entered pending := by
  have grown := shape.extends_addElement layout.parser type literal
  have larger : ∀ other, shape.payloadSize other ≤
      (ProgramShape.addElement layout.parser type shape literal).payloadSize other := by
    intro other
    cases other
    · exact grown.booleanElements.length_le
    · exact grown.integerElements.length_le
    · exact grown.doubleElements.length_le
  have vectors : ∀ node ∈ shape.nodes, node.kind = .vectorLiteral →
      node.firstElementSpan + node.elementCount ≤ shape.elementTotal + 1 ∧
        node.firstElement + node.elementCount ≤
          (ProgramShape.addElement layout.parser type shape literal).payloadSize node.elementType := by
    intro node member kind
    obtain ⟨spans,elements⟩ := tabled.vectors node member kind
    exact ⟨Nat.le_succ_of_le spans,Nat.le_trans elements (larger _)⟩
  have branches := fun fanout member => @laid_grown _ _ _ _ _ _ tabled grown fanout member
  cases type <;> exact { tabled with vectors, branches }

theorem addElements (type : ScalarType) (elements : List Literal) :
    ∀ {shape}, Tabled layout vocabulary shape entered pending →
      Tabled layout vocabulary (elements.foldl (ProgramShape.addElement layout.parser type) shape) entered pending := by
  induction elements with
  | nil => exact fun tabled => tabled
  | cons literal rest ih => exact fun tabled => ih (tabled.addElement type literal)

theorem addCall (tabled : Tabled layout vocabulary shape entered (pending ++ ids)) (callSyntax : RewriteCallSyntax)
    (name : Text) : Tabled layout vocabulary (shape.addCall callSyntax name ids) entered
      (pending ++ [(shape.addCall callSyntax name ids).last]) := by
  have last : (shape.addCall callSyntax name ids).last = shape.nodes.length := by
    simp [ProgramShape.last,ProgramShape.addCall]
  have grown := shape.extends_addCall callSyntax name ids
  have taken : (shape.addCall callSyntax name ids).children shape.nodes.length = ids := by
    simp [ProgramShape.children,ProgramShape.addCall,ProgramShape.callNode,ProgramShape.blank,slice]
  rw [last]
  exact {
    callNodes := by
      simp only [ProgramShape.addCall,List.filter_append,List.map_append,List.length_append,List.length_singleton,
        List.range_succ,tabled.callNodes]
      rfl
    fanoutNodes := by
      simpa [ProgramShape.addCall,ProgramShape.callNode,ProgramShape.blank] using tabled.fanoutNodes
    argumentRanges := by
      simp only [ProgramShape.addCall,List.map_append,List.length_append]
      exact tabled.argumentRanges.snoc ids.length
    tupleRanges := by
      simpa [ProgramShape.addCall,ProgramShape.callNode,ProgramShape.blank] using tabled.tupleRanges
    branchRanges := tabled.branchRanges
    branchesEntered := tabled.branchesEntered
    vectors := by
      intro other member
      rcases List.mem_append.mp member with member | member
      · exact tabled.vectors other member
      · rw [List.mem_singleton.mp member]
        intro kind
        cases kind
    fanoutRanges := by
      intro other member kind
      rcases List.mem_append.mp member with member | member
      · exact tabled.ranges_grown grown member kind
      · rw [List.mem_singleton.mp member] at kind
        cases kind
    forest := tabled.forest_adopt grown (by simp [ProgramShape.addCall]) rfl taken
    ordered := tabled.ordered_adopt rfl
    branches := fun fanout member => tabled.laid_grown grown member }

theorem addTuple (tabled : Tabled layout vocabulary shape entered (pending ++ ids)) :
    Tabled layout vocabulary (shape.addTuple ids) entered (pending ++ [(shape.addTuple ids).last]) := by
  have last : (shape.addTuple ids).last = shape.nodes.length := by simp [ProgramShape.last,ProgramShape.addTuple]
  have grown := shape.extends_addTuple ids
  have taken : (shape.addTuple ids).children shape.nodes.length = ids := by
    simp [ProgramShape.children,ProgramShape.addTuple,ProgramShape.tupleNode,ProgramShape.blank,slice]
  rw [last]
  exact {
    callNodes := by
      simpa [ProgramShape.addTuple,ProgramShape.tupleNode,ProgramShape.blank] using tabled.callNodes
    fanoutNodes := by
      simpa [ProgramShape.addTuple,ProgramShape.tupleNode,ProgramShape.blank] using tabled.fanoutNodes
    argumentRanges := tabled.argumentRanges
    tupleRanges := by
      simp only [ProgramShape.addTuple,List.filter_append,List.map_append,List.length_append]
      exact tabled.tupleRanges.snoc ids.length
    branchRanges := tabled.branchRanges
    branchesEntered := tabled.branchesEntered
    vectors := by
      intro other member
      rcases List.mem_append.mp member with member | member
      · exact tabled.vectors other member
      · rw [List.mem_singleton.mp member]
        intro kind
        cases kind
    fanoutRanges := by
      intro other member kind
      rcases List.mem_append.mp member with member | member
      · exact tabled.ranges_grown grown member kind
      · rw [List.mem_singleton.mp member] at kind
        cases kind
    forest := tabled.forest_adopt grown (by simp [ProgramShape.addTuple]) rfl taken
    ordered := tabled.ordered_adopt rfl
    branches := fun fanout member => tabled.laid_grown grown member }

theorem addBranch (tabled : Tabled layout vocabulary shape entered pending) (root : Nat) :
    Tabled layout vocabulary (shape.addBranch root) entered pending := by
  have grown := shape.extends_addBranch root
  have same : (shape.addBranch root).children = shape.children := by
    funext index
    by_cases inside : index < shape.nodes.length
    · exact tabled.children_grown grown inside
    · rw [children_beyond (Nat.le_of_not_lt inside)]
      exact children_beyond (Nat.le_of_not_lt inside)
  exact { tabled with
    fanoutRanges := fun node member kind => tabled.ranges_grown grown member kind
    branchesEntered := Nat.le_trans tabled.branchesEntered grown.branchRoots.length_le
    forest := by rw [same]; exact tabled.forest
    branches := fun fanout member => tabled.laid_grown grown member }

/-- A fanout takes its operand and the branches entered since the last one. -/
theorem addFanout {operand bound : Nat} {branches : List Expr}
    (tabled : Tabled layout vocabulary shape entered (pending ++ operand :: ids))
    (since : slice shape.branchRoots entered ids.length = ids) (total : shape.branchRoots.length = entered + ids.length)
    (nonempty : branches ≠ []) (allowed : vocabulary.AllowsBranches branches)
    (laid : LaidAll layout shape (some operand) branches ids bound) :
    Tabled layout vocabulary (shape.addFanout operand ids.length) shape.branchRoots.length
      (pending ++ [(shape.addFanout operand ids.length).last]) := by
  have last : (shape.addFanout operand ids.length).last = shape.nodes.length := by
    simp [ProgramShape.last,ProgramShape.addFanout]
  have first : shape.branchRoots.length - ids.length = entered := by omega
  have grown := shape.extends_addFanout operand ids.length
  have taken : (shape.addFanout operand ids.length).children shape.nodes.length = operand :: ids := by
    simp [ProgramShape.children,ProgramShape.addFanout,ProgramShape.fanoutNode,ProgramShape.blank,first,since]
  rw [last]
  exact {
    callNodes := by
      simpa [ProgramShape.addFanout,ProgramShape.fanoutNode,ProgramShape.blank] using tabled.callNodes
    fanoutNodes := by
      simp only [ProgramShape.addFanout,List.filter_append,List.map_append,List.length_append,List.length_singleton,
        List.range_succ,tabled.fanoutNodes]
      rfl
    argumentRanges := tabled.argumentRanges
    tupleRanges := by
      simpa [ProgramShape.addFanout,ProgramShape.fanoutNode,ProgramShape.blank] using tabled.tupleRanges
    branchRanges := by
      simp only [ProgramShape.addFanout,List.map_append,first]
      rw [total]
      exact tabled.branchRanges.snoc ids.length
    branchesEntered := Nat.le_refl _
    vectors := by
      intro other member
      rcases List.mem_append.mp member with member | member
      · exact tabled.vectors other member
      · rw [List.mem_singleton.mp member]
        intro kind
        cases kind
    fanoutRanges := by
      intro other member kind
      rcases List.mem_append.mp member with member | member
      · exact tabled.ranges_grown grown member kind
      · rw [List.mem_singleton.mp member]
        exact ⟨⟨operand,entered,ids.length⟩,by simp [ProgramShape.addFanout,ProgramShape.fanoutNode,first],
          first,rfl⟩
    forest := tabled.forest_adopt grown (by simp [ProgramShape.addFanout]) rfl taken
    ordered := tabled.ordered_adopt rfl
    branches := by
      intro fanout member
      rcases List.mem_append.mp member with member | member
      · exact tabled.laid_grown grown member
      · rw [List.mem_singleton.mp member]
        refine ⟨branches,bound,nonempty,allowed,?_⟩
        dsimp only
        rw [first]
        exact since.symm ▸ LaidAll.extend grown branches laid }

theorem addRoot {root : Nat} (tabled : Tabled layout vocabulary shape entered [root]) :
    Tabled layout vocabulary (shape.addRoot root) entered [] := by
  have grown := shape.extends_addRoot root
  exact { tabled with
    forest := by rw [List.append_nil]; exact tabled.forest
    ordered := by rw [List.append_nil]; exact tabled.ordered
    branches := fun fanout member => tabled.laid_grown grown member }

end Tabled

/-! ### Laying trees out -/

theorem addElements_grown (parser : RewriteDoubleParser) (type : ScalarType) (elements : List Literal) :
    ∀ shape : ProgramShape,
      (elements.foldl (ProgramShape.addElement parser type) shape).elementTotal =
          shape.elementTotal + elements.length ∧
        (elements.foldl (ProgramShape.addElement parser type) shape).payloadSize type =
          shape.payloadSize type + elements.length := by
  induction elements with
  | nil => exact fun _ => ⟨rfl,rfl⟩
  | cons literal rest ih =>
    intro shape
    obtain ⟨total,size⟩ := ih (ProgramShape.addElement parser type shape literal)
    rw [List.foldl_cons,total,size,List.length_cons]
    cases type <;> simp only [ProgramShape.addElement,ProgramShape.payloadSize,List.length_append,
      List.length_singleton] <;> omega

/-- The branches of finished fanouts: outside of fanouts all, inside those before. -/
def enteredAt (place : Place) (entered : Nat) (shape : ProgramShape) : Nat :=
  if place = .outside then shape.branchRoots.length else entered

mutual

theorem emit_tabled (layout : Layout) : (tree : Expr) → ∀ {place atRoot operand shape entered pending},
    vocabulary.Allows place atRoot tree → Tabled layout vocabulary shape (enteredAt place entered shape) pending →
      Tabled layout vocabulary (layout.emit operand tree shape) (enteredAt place entered (layout.emit operand tree shape))
        (pending ++ [(layout.emit operand tree shape).last])
  | .scalar _,_,_,_,_,_,_,_,tabled =>
    tabled.add (by simp [ProgramShape.scalarNode,ProgramShape.blank]) (by intro same; cases same)
  | .vector type elements,place,_,operand,shape,entered,_,_,tabled => by
    have filled := tabled.addElements type elements
    obtain ⟨total,size⟩ := addElements_grown layout.parser type elements shape
    have same : enteredAt place entered (layout.emit operand (.vector type elements) shape) =
        enteredAt place entered shape := by
      unfold enteredAt
      rw [show (layout.emit operand (.vector type elements) shape).branchRoots = shape.branchRoots from
        addElements_branches _ _ _ _]
    rw [same]
    refine filled.add (by simp [ProgramShape.vectorNode,ProgramShape.blank]) fun _ => ⟨?_,?_⟩
    · exact Nat.le_of_eq total.symm
    · exact Nat.le_of_eq size.symm
  | .parameter _,_,_,_,_,_,_,_,tabled =>
    tabled.add (by simp [ProgramShape.parameterNode,ProgramShape.blank]) (by intro same; cases same)
  | .unresolved _,_,_,_,_,_,_,_,tabled => tabled.add (by simp [ProgramShape.blank]) (by intro same; cases same)
  | .bracketCall name arguments,_,_,_,_,_,_,⟨_,_,allowed⟩,tabled =>
    (emitAll_tabled layout arguments allowed tabled).addCall .bracketed name
  | .prefixCall name argument,_,_,_,_,_,_,⟨_,_,_,allowed⟩,tabled =>
    (emit_tabled layout argument allowed tabled).addCall .prefixed name
  | .tuple elements,_,_,_,_,_,_,allowed,tabled => (emitAll_tabled layout elements allowed tabled).addTuple
  | .placeholder,_,_,_,_,_,_,_,tabled =>
    tabled.add (by simp [ProgramShape.placeholderNode,ProgramShape.blank]) (by intro same; cases same)
  | .fanout source branches,_,_,_,shape,_,pending,⟨rfl,sourceAllowed,nonempty,allowed⟩,tabled => by
    have before : Tabled layout vocabulary shape (enteredAt .operand shape.branchRoots.length shape) pending := tabled
    have operand : Tabled layout vocabulary (layout.emit none source shape) shape.branchRoots.length
        (pending ++ [(layout.emit none source shape).last]) := emit_tabled layout source sourceAllowed before
    have kept := emit_branchRoots layout (by decide) source none shape false sourceAllowed
    have laid := emitBranches_laid layout branches (layout.emit none source shape).last
      (layout.emit none source shape) allowed
    have filled := emitBranches_tabled layout branches (layout.emit none source shape).last allowed operand
    have grown := emitBranches_branchRoots layout (layout.emit none source shape).last branches
      (layout.emit none source shape) allowed
    have count := emitBranches_length layout (layout.emit none source shape).last branches
      (layout.emit none source shape)
    rw [kept] at grown
    rw [List.append_assoc,List.singleton_append] at filled
    have total : (layout.emitBranches (layout.emit none source shape).last branches
        (layout.emit none source shape)).1.branchRoots.length = shape.branchRoots.length +
          (layout.emitBranches (layout.emit none source shape).last branches (layout.emit none source shape)).2.length := by
      rw [grown,List.length_append]
    have since := slice_append_self shape.branchRoots (layout.emitBranches (layout.emit none source shape).last branches
      (layout.emit none source shape)).2
    rw [← grown] at since
    have closed := filled.addFanout since total nonempty allowed laid
    rw [count] at closed
    exact closed

theorem emitAll_tabled (layout : Layout) : (trees : List Expr) → ∀ {place operand shape entered pending},
    vocabulary.AllowsAll place trees → Tabled layout vocabulary shape (enteredAt place entered shape) pending →
      Tabled layout vocabulary (layout.emitAll operand trees shape).1
        (enteredAt place entered (layout.emitAll operand trees shape).1) (pending ++ (layout.emitAll operand trees shape).2)
  | [],_,_,_,_,_,_,tabled => by rw [Layout.emitAll,List.append_nil]; exact tabled
  | tree :: rest,_,operand,shape,_,_,⟨first,later⟩,tabled => by
    have emitted : Tabled layout vocabulary (layout.emit operand tree shape) _ _ :=
      emit_tabled layout tree first tabled
    have laid := @emitAll_tabled layout rest _ operand _ _ _ later emitted
    rw [List.append_assoc] at laid
    exact laid

theorem emitBranches_tabled (layout : Layout) : (branches : List Expr) → ∀ operand {shape entered pending},
    vocabulary.AllowsBranches branches → Tabled layout vocabulary shape entered pending →
      Tabled layout vocabulary (layout.emitBranches operand branches shape).1 entered
        (pending ++ (layout.emitBranches operand branches shape).2)
  | [],_,_,_,_,_,tabled => by rw [Layout.emitBranches,List.append_nil]; exact tabled
  | branch :: rest,operand,shape,entered,pending,⟨⟨first,_⟩,later⟩,tabled => by
    have before : Tabled layout vocabulary shape (enteredAt .branch entered shape) pending := tabled
    have emitted : Tabled layout vocabulary (layout.emit (some operand) branch shape) entered
        (pending ++ [(layout.emit (some operand) branch shape).last]) := emit_tabled layout branch first before
    have laid := emitBranches_tabled layout rest operand later
      (emitted.addBranch (layout.emit (some operand) branch shape).last)
    rw [List.append_assoc] at laid
    exact laid

end

theorem emitRoots_tabled (layout : Layout) (roots : List Expr) :
    ∀ shape, vocabulary.AllowsRoots roots → Tabled layout vocabulary shape shape.branchRoots.length [] →
      Tabled layout vocabulary (layout.emitRoots roots shape) (layout.emitRoots roots shape).branchRoots.length [] := by
  induction roots with
  | nil => exact fun _ _ tabled => tabled
  | cons root rest ih =>
    intro shape allowed tabled
    have before : Tabled layout vocabulary shape (enteredAt .outside 0 shape) [] := tabled
    have emitted : Tabled layout vocabulary (layout.emit none root shape)
        (layout.emit none root shape).branchRoots.length [(layout.emit none root shape).last] :=
      emit_tabled layout root (allowed root List.mem_cons_self) before
    exact ih _ (fun other member => allowed other (List.mem_cons_of_mem _ member)) emitted.addRoot

theorem emptyShape_tabled (layout : Layout) (vocabulary : Vocabulary) : Tabled layout vocabulary emptyShape 0 [] where
  callNodes := rfl
  fanoutNodes := rfl
  argumentRanges := rfl
  tupleRanges := rfl
  branchRanges := rfl
  branchesEntered := Nat.le_refl _
  vectors := fun _ member => absurd member List.not_mem_nil
  fanoutRanges := fun _ member => absurd member List.not_mem_nil
  forest := ⟨fun _ _ member => absurd member List.not_mem_nil,.refl _⟩
  ordered := .nil
  branches := fun _ member => absurd member List.not_mem_nil

/-! ### The placeholders of a branch -/

/-- Below the nodes `starts` there are `count` placeholders, for the node `operand`. -/
def Placeholders (shape : ProgramShape) (starts : List Nat) (operand count : Nat) : Prop :=
  ∃ found : List Nat, found.length = count ∧
    (∀ index, (∃ start ∈ starts, Reaches shape.children start index) ∧
      shape.nodes[index]?.map (·.kind) = some .placeholder ↔ index ∈ found) ∧
    ∀ index ∈ found, shape.nodes[index]?.map (·.firstElement) = some operand

section placeholders

variable {starts : List Nat} {operand count more start : Nat}

theorem Placeholders.nil (shape : ProgramShape) (operand : Nat) : Placeholders shape [] operand 0 :=
  ⟨[],rfl,by simp,fun _ member => absurd member List.not_mem_nil⟩

theorem Placeholders.cons (first : Placeholders shape [start] operand count)
    (later : Placeholders shape starts operand more) : Placeholders shape (start :: starts) operand (count + more) := by
  obtain ⟨found,length,exactly,named⟩ := first
  obtain ⟨others,lengthOthers,exactlyOthers,namedOthers⟩ := later
  refine ⟨found ++ others,by rw [List.length_append,length,lengthOthers],fun index => ?_,fun index member => ?_⟩
  · rw [List.mem_append,← exactly,← exactlyOthers]
    simp only [List.mem_cons,List.not_mem_nil,or_false,exists_eq_or_imp,exists_eq_left]
    tauto
  · rcases List.mem_append.mp member with member | member
    · exact named index member
    · exact namedOthers index member

/-- A node that is none has the placeholders below it. -/
theorem Placeholders.above (below : Placeholders shape ids operand count) (found : shape.nodes[index]? = some node)
    (other : node.kind ≠ .placeholder) (children : shape.children index = ids) :
    Placeholders shape [index] operand count := by
  obtain ⟨places,length,exactly,named⟩ := below
  refine ⟨places,length,fun place => ?_,named⟩
  rw [← exactly]
  simp only [List.mem_singleton,exists_eq_left]
  refine and_congr_left fun kind => ?_
  rw [Reaches,Relation.ReflTransGen.cases_head_iff,children]
  constructor
  · rintro (rfl | below)
    · rw [found] at kind
      exact absurd (Option.some.inj kind) other
    · exact below
  · exact .inr

theorem Placeholders.leaf (found : shape.nodes[index]? = some node)
    (plain : node.kind ≠ .primitiveCall ∧ node.kind ≠ .tupleLiteral ∧ node.kind ≠ .fanout ∧ node.kind ≠ .placeholder)
    (operand : Nat) : Placeholders shape [index] operand 0 := by
  obtain ⟨notCall,notTuple,notFanout,other⟩ := plain
  refine (Placeholders.nil shape operand).above found other ?_
  rw [ProgramShape.children,found]
  cases kind : node.kind
  case primitiveCall => exact absurd kind notCall
  case tupleLiteral => exact absurd kind notTuple
  case fanout => exact absurd kind notFanout
  all_goals simp only [kind]

mutual

theorem laid_placeholders : (tree : Expr) → ∀ {operand atRoot index}, vocabulary.Allows .branch atRoot tree →
    Laid layout shape operand tree index → Placeholders shape [index] (operand.getD 0) tree.placeholders
  | .scalar _,_,_,_,_,laid => .leaf laid (by simp [ProgramShape.scalarNode,ProgramShape.blank]) _
  | .vector _ _,_,_,_,_,⟨_,_,laid,_⟩ => .leaf laid (by simp [ProgramShape.vectorNode,ProgramShape.blank]) _
  | .parameter _,_,_,_,_,laid => .leaf laid (by simp [ProgramShape.parameterNode,ProgramShape.blank]) _
  | .unresolved _,_,_,_,_,laid => .leaf laid (by simp [ProgramShape.blank]) _
  | .placeholder,operand,_,index,_,laid => by
    have laid : shape.nodes[index]? = some (ProgramShape.placeholderNode (operand.getD 0)) := laid
    refine ⟨[index],rfl,fun place => ?_,fun place member => ?_⟩
    · simp only [List.mem_singleton,exists_eq_left]
      constructor
      · rintro ⟨reaches,-⟩
        rcases Relation.ReflTransGen.cases_head reaches with same | ⟨child,below,-⟩
        · exact same.symm
        · simp [ProgramShape.children,laid,ProgramShape.placeholderNode,ProgramShape.blank] at below
      · rintro rfl
        exact ⟨.refl,by rw [laid]; rfl⟩
    · rw [List.mem_singleton.mp member,laid]
      rfl
  | .bracketCall _ arguments,_,_,_,⟨_,_,allowed⟩,⟨_,_,_,laid,calls,children,argumentsLaid⟩ =>
    (laidAll_placeholders arguments allowed argumentsLaid).above laid
      (by simp [ProgramShape.callNode,ProgramShape.blank])
      (by simp [ProgramShape.children,laid,ProgramShape.callNode,ProgramShape.blank,calls,children])
  | .prefixCall _ argument,_,_,_,⟨_,_,_,allowed⟩,⟨_,_,_,laid,calls,children,_,argumentLaid⟩ =>
    (laid_placeholders argument allowed argumentLaid).above laid
      (by simp [ProgramShape.callNode,ProgramShape.blank])
      (by simp [ProgramShape.children,laid,ProgramShape.callNode,ProgramShape.blank,calls,children])
  | .tuple elements,_,_,_,allowed,⟨_,_,laid,children,elementsLaid⟩ =>
    (laidAll_placeholders elements allowed elementsLaid).above laid
      (by simp [ProgramShape.tupleNode,ProgramShape.blank])
      (by simp [ProgramShape.children,laid,ProgramShape.tupleNode,ProgramShape.blank,children])
  | .fanout _ _,_,_,_,⟨outside,_⟩,_ => Place.noConfusion outside

theorem laidAll_placeholders : (trees : List Expr) → ∀ {operand indexes bound},
    vocabulary.AllowsAll .branch trees → LaidAll layout shape operand trees indexes bound →
      Placeholders shape indexes (operand.getD 0) (Expr.placeholdersIn trees)
  | [],_,[],_,_,_ => .nil _ _
  | [],_,_ :: _,_,_,laid => absurd laid (by simp [LaidAll])
  | _ :: _,_,[],_,_,laid => absurd laid (by simp [LaidAll])
  | tree :: rest,_,_ :: _,_,⟨first,later⟩,laid => by
    simp only [LaidAll] at laid
    exact (laid_placeholders tree first laid.1.2).cons (laidAll_placeholders rest later laid.2)

end

/-- Each branch of a laid out fanout has one placeholder below its root, for the operand. -/
theorem branch_placeholder {branches : List Expr} {bound root : Nat} (allowed : vocabulary.AllowsBranches branches)
    (laid : LaidAll layout shape (some operand) branches ids bound) (member : root ∈ ids) :
    ∃ index, (∀ other, Reaches shape.children root other ∧
        shape.nodes[other]?.map (·.kind) = some .placeholder ↔ other = index) ∧
      shape.nodes[index]?.map (·.firstElement) = some operand := by
  induction branches generalizing ids with
  | nil =>
    cases ids with
    | nil => cases member
    | cons => simp [LaidAll] at laid
  | cons branch rest ih =>
    cases ids with
    | nil => cases member
    | cons first ids =>
      simp only [LaidAll] at laid
      obtain ⟨⟨-,firstLaid⟩,restLaid⟩ := laid
      obtain ⟨⟨branchAllowed,isBranch⟩,restAllowed⟩ := allowed
      rcases List.mem_cons.mp member with rfl | member
      · have one : branch.placeholders = 1 := by
          simp only [Expr.isBranch,Bool.and_eq_true,beq_iff_eq] at isBranch
          exact isBranch.1.2
        obtain ⟨found,length,exactly,named⟩ := laid_placeholders branch branchAllowed firstLaid
        rw [one] at length
        obtain ⟨index,rfl⟩ := List.length_eq_one_iff.mp length
        simp only [List.mem_singleton,exists_eq_left] at exactly
        exact ⟨index,exactly,named index (List.mem_singleton.mpr rfl)⟩
      · exact ih restAllowed restLaid member

end placeholders

end Bennu
