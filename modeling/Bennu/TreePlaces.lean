import Bennu.TableLayout

/-! Where the nodes of a tree are: from its first node on without gap, in postorder, so that
every root stands at a place that only the trees determine. -/
namespace Bennu

variable {layout : Layout} {vocabulary : Vocabulary} {shape after : ProgramShape}

mutual

/-- How many nodes a tree has. -/
def Expr.nodeCount : Expr → Nat
  | .bracketCall _ arguments => Expr.nodeCounts arguments + 1
  | .prefixCall _ argument => argument.nodeCount + 1
  | .tuple elements => Expr.nodeCounts elements + 1
  | .fanout source branches => source.nodeCount + Expr.nodeCounts branches + 1
  | _ => 1

def Expr.nodeCounts : List Expr → Nat
  | [] => 0
  | tree :: rest => tree.nodeCount + Expr.nodeCounts rest

end

/-- The last node of a tree that begins at `first`. -/
def Expr.rootFrom (tree : Expr) (first : Nat) : Nat := first + tree.nodeCount - 1

/-- The roots of trees, one behind the other. -/
def rootsFrom : List Expr → Nat → List Nat
  | [],_ => []
  | tree :: rest,first => tree.rootFrom first :: rootsFrom rest (first + tree.nodeCount)

theorem Expr.nodeCount_pos (tree : Expr) : 0 < tree.nodeCount := by
  cases tree <;> simp [Expr.nodeCount]

theorem rootsFrom_length (trees : List Expr) (first : Nat) : (rootsFrom trees first).length = trees.length := by
  induction trees generalizing first with
  | nil => rfl
  | cons tree rest ih => rw [rootsFrom,List.length_cons,List.length_cons,ih]

theorem rootsFrom_within (trees : List Expr) (first : Nat) :
    ∀ root ∈ rootsFrom trees first, first ≤ root ∧ root < first + Expr.nodeCounts trees := by
  induction trees generalizing first with
  | nil =>
    intro root member
    cases member
  | cons tree rest ih =>
    intro root member
    have some := tree.nodeCount_pos
    rw [Expr.nodeCounts]
    rcases List.mem_cons.mp member with rfl | member
    · rw [Expr.rootFrom]
      omega
    · have within := ih _ root member
      omega

mutual

theorem emit_nodeCount (layout : Layout) : (tree : Expr) → ∀ operand shape,
    (layout.emit operand tree shape).nodes.length = shape.nodes.length + tree.nodeCount
  | .scalar _,_,_ => List.length_append
  | .vector type elements,_,shape => by
    simp [Layout.emit,ProgramShape.addVector,ProgramShape.add,addElements_nodes,Expr.nodeCount]
  | .parameter _,_,_ => List.length_append
  | .unresolved _,_,_ => List.length_append
  | .bracketCall _ arguments,operand,shape => by
    have counted := emitAll_nodeCount layout arguments operand shape
    simp [Layout.emit,ProgramShape.addCall,Expr.nodeCount,counted,Nat.add_assoc]
  | .prefixCall _ argument,operand,shape => by
    have counted := emit_nodeCount layout argument operand shape
    simp [Layout.emit,ProgramShape.addCall,Expr.nodeCount,counted,Nat.add_assoc]
  | .tuple elements,operand,shape => by
    have counted := emitAll_nodeCount layout elements operand shape
    simp [Layout.emit,ProgramShape.addTuple,Expr.nodeCount,counted,Nat.add_assoc]
  | .placeholder,_,_ => List.length_append
  | .fanout source branches,_,shape => by
    have operand := emit_nodeCount layout source none shape
    have counted := emitBranches_nodeCount layout branches (layout.emit none source shape).last
      (layout.emit none source shape)
    simp [Layout.emit,ProgramShape.addFanout,Expr.nodeCount,counted,operand,Nat.add_assoc]

theorem emitAll_nodeCount (layout : Layout) : (trees : List Expr) → ∀ operand shape,
    (layout.emitAll operand trees shape).1.nodes.length = shape.nodes.length + Expr.nodeCounts trees
  | [],_,_ => rfl
  | tree :: rest,operand,shape => by
    rw [Layout.emitAll,Expr.nodeCounts,← Nat.add_assoc,← emit_nodeCount layout tree operand shape]
    exact emitAll_nodeCount layout rest operand _

theorem emitBranches_nodeCount (layout : Layout) : (branches : List Expr) → ∀ operand shape,
    (layout.emitBranches operand branches shape).1.nodes.length = shape.nodes.length + Expr.nodeCounts branches
  | [],_,_ => rfl
  | branch :: rest,operand,shape => by
    rw [Layout.emitBranches,Expr.nodeCounts,← Nat.add_assoc,← emit_nodeCount layout branch (some operand) shape]
    exact emitBranches_nodeCount layout rest operand _

end

theorem emit_rootFrom (layout : Layout) (operand : Option Nat) (tree : Expr) (shape : ProgramShape) :
    (layout.emit operand tree shape).last = tree.rootFrom shape.nodes.length := by
  rw [ProgramShape.last,emit_nodeCount,Expr.rootFrom]

theorem emitAll_rootsFrom (layout : Layout) (operand : Option Nat) (trees : List Expr) (shape : ProgramShape) :
    (layout.emitAll operand trees shape).2 = rootsFrom trees shape.nodes.length := by
  induction trees generalizing shape with
  | nil => rfl
  | cons tree rest ih => simp only [Layout.emitAll,rootsFrom,ih,emit_rootFrom,emit_nodeCount]

theorem emitBranches_rootsFrom (layout : Layout) (operand : Nat) (branches : List Expr) (shape : ProgramShape) :
    (layout.emitBranches operand branches shape).2 = rootsFrom branches shape.nodes.length := by
  induction branches generalizing shape with
  | nil => rfl
  | cons branch rest ih =>
    simp only [Layout.emitBranches,rootsFrom,ih,ProgramShape.addBranch,emit_rootFrom,emit_nodeCount]

mutual

/-- The nodes of a tree stand from `first` on. -/
def LaidFrom (layout : Layout) (shape : ProgramShape) : Option Nat → Expr → Nat → Prop
  | _,.scalar literal,first => shape.nodes[first]? = some (ProgramShape.scalarNode layout.parser literal)
  | _,.vector type elements,first =>
    ∃ element spans, shape.nodes[first]? = some (ProgramShape.vectorNode type element elements.length spans)
  | _,.parameter parameter,first => shape.nodes[first]? = some (ProgramShape.parameterNode layout.types parameter)
  | _,.unresolved _,first => shape.nodes[first]? = some (ProgramShape.blank .unresolvedName)
  | operand,.bracketCall name arguments,first =>
    ∃ call start, shape.nodes[first + Expr.nodeCounts arguments]? = some (ProgramShape.callNode call) ∧
      shape.calls[call]? = some ⟨.bracketed,name,start,arguments.length⟩ ∧
      slice shape.arguments start arguments.length = rootsFrom arguments first ∧
      LaidAllFrom layout shape operand arguments first
  | operand,.prefixCall name argument,first =>
    ∃ call start, shape.nodes[first + argument.nodeCount]? = some (ProgramShape.callNode call) ∧
      shape.calls[call]? = some ⟨.prefixed,name,start,1⟩ ∧
      slice shape.arguments start 1 = [argument.rootFrom first] ∧ LaidFrom layout shape operand argument first
  | operand,.tuple elements,first =>
    ∃ start, shape.nodes[first + Expr.nodeCounts elements]? = some (ProgramShape.tupleNode start elements.length) ∧
      slice shape.tupleElements start elements.length = rootsFrom elements first ∧
      LaidAllFrom layout shape operand elements first
  | operand,.placeholder,first => shape.nodes[first]? = some (ProgramShape.placeholderNode (operand.getD 0))
  | _,.fanout source branches,first =>
    ∃ fanout start, shape.nodes[first + source.nodeCount + Expr.nodeCounts branches]? =
        some (ProgramShape.fanoutNode start branches.length fanout) ∧
      shape.fanouts[fanout]? = some ⟨source.rootFrom first,start,branches.length⟩ ∧
      slice shape.branchRoots start branches.length = rootsFrom branches (first + source.nodeCount) ∧
      LaidFrom layout shape none source first ∧
      LaidAllFrom layout shape (some (source.rootFrom first)) branches (first + source.nodeCount)

def LaidAllFrom (layout : Layout) (shape : ProgramShape) : Option Nat → List Expr → Nat → Prop
  | _,[],_ => True
  | operand,tree :: rest,first =>
    LaidFrom layout shape operand tree first ∧ LaidAllFrom layout shape operand rest (first + tree.nodeCount)

end

theorem slice_snoc {α : Type} {before whole entries : List α} (grown : before ++ entries <+: whole) :
    slice whole before.length entries.length = entries :=
  (slice_grown grown (by rw [slice_append_self])).trans (slice_append_self _ _)

theorem snoc_grown {α : Type} {before whole : List α} {entry : α} (grown : before ++ [entry] <+: whole) :
    whole[before.length]? = some entry :=
  getElem?_grown grown List.getElem?_concat_length

mutual

/-- Laying a tree out puts its nodes behind those that there are. -/
theorem emit_laidFrom (layout : Layout) : (tree : Expr) → ∀ {place atRoot} operand shape,
    vocabulary.Allows place atRoot tree → Extends (layout.emit operand tree shape) after →
      LaidFrom layout after operand tree shape.nodes.length
  | .scalar _,_,_,_,_,_,grown => snoc_grown grown.nodes
  | .vector type elements,_,_,_,shape,_,grown => by
    have node := grown.nodes
    simp only [Layout.emit,ProgramShape.addVector,ProgramShape.add,addElements_nodes] at node
    exact ⟨_,_,snoc_grown node⟩
  | .parameter _,_,_,_,_,_,grown => snoc_grown grown.nodes
  | .unresolved _,_,_,_,_,_,grown => snoc_grown grown.nodes
  | .bracketCall name arguments,_,_,operand,shape,⟨_,_,allowed⟩,grown => by
    have counted := emitAll_nodeCount layout arguments operand shape
    have roots := emitAll_rootsFrom layout operand arguments shape
    have length := rootsFrom_length arguments shape.nodes.length
    have below := (ProgramShape.extends_addCall _ .bracketed name _).trans grown
    have node := snoc_grown grown.nodes
    have entry := snoc_grown grown.calls
    have table := slice_snoc grown.arguments
    rw [counted] at node
    rw [roots,length] at entry table
    exact ⟨_,_,node,entry,table,emitAll_laidFrom layout arguments operand shape allowed below⟩
  | .prefixCall name argument,_,_,operand,shape,⟨_,_,_,allowed⟩,grown => by
    have counted := emit_nodeCount layout argument operand shape
    have root := emit_rootFrom layout operand argument shape
    have below := (ProgramShape.extends_addCall _ .prefixed name _).trans grown
    have node := snoc_grown grown.nodes
    have entry := snoc_grown grown.calls
    have table := slice_snoc grown.arguments
    rw [counted] at node
    rw [root] at entry table
    exact ⟨_,_,node,entry,table,emit_laidFrom layout argument operand shape allowed below⟩
  | .tuple elements,_,_,operand,shape,allowed,grown => by
    have counted := emitAll_nodeCount layout elements operand shape
    have roots := emitAll_rootsFrom layout operand elements shape
    have length := rootsFrom_length elements shape.nodes.length
    have below := (ProgramShape.extends_addTuple _ _).trans grown
    have node := snoc_grown grown.nodes
    have table := slice_snoc grown.tupleElements
    rw [counted,roots,length] at node
    rw [roots,length] at table
    exact ⟨_,node,table,emitAll_laidFrom layout elements operand shape allowed below⟩
  | .placeholder,_,_,_,_,_,grown => snoc_grown grown.nodes
  | .fanout source branches,_,_,_,shape,⟨_,sourceAllowed,_,allowed⟩,grown => by
    have operand := emit_nodeCount layout source none shape
    have root := emit_rootFrom layout none source shape
    have counted := emitBranches_nodeCount layout branches (layout.emit none source shape).last
      (layout.emit none source shape)
    have roots := emitBranches_rootsFrom layout (layout.emit none source shape).last branches
      (layout.emit none source shape)
    have entered := emitBranches_branchRoots layout (layout.emit none source shape).last branches
      (layout.emit none source shape) allowed
    have length := rootsFrom_length branches (layout.emit none source shape).nodes.length
    have below := (ProgramShape.extends_addFanout _ (layout.emit none source shape).last branches.length).trans grown
    have earlier := (emitBranches_extends layout branches _ (layout.emit none source shape)).trans below
    have first : (layout.emitBranches (layout.emit none source shape).last branches
        (layout.emit none source shape)).1.branchRoots.length - branches.length =
          (layout.emit none source shape).branchRoots.length := by
      rw [entered,roots,List.length_append,length,Nat.add_sub_cancel]
    have node := snoc_grown grown.nodes
    have entry : after.fanouts[(layout.emitBranches (layout.emit none source shape).last branches
        (layout.emit none source shape)).1.fanouts.length]? = some ⟨source.rootFrom shape.nodes.length,
          (layout.emit none source shape).branchRoots.length,branches.length⟩ := by
      rw [← root,← first]
      exact snoc_grown grown.fanouts
    have table := below.branchRoots
    rw [counted,operand,first] at node
    rw [entered,roots] at table
    have slices := slice_snoc table
    rw [length,operand] at slices
    have branchesLaid := emitBranches_laidFrom layout branches (layout.emit none source shape).last
      (layout.emit none source shape) allowed below
    rw [root,operand] at branchesLaid
    exact ⟨_,_,node,entry,slices,emit_laidFrom layout source none shape sourceAllowed earlier,branchesLaid⟩

theorem emitAll_laidFrom (layout : Layout) : (trees : List Expr) → ∀ {place} operand shape,
    vocabulary.AllowsAll place trees → Extends (layout.emitAll operand trees shape).1 after →
      LaidAllFrom layout after operand trees shape.nodes.length
  | [],_,_,_,_,_ => trivial
  | tree :: rest,_,operand,shape,⟨first,later⟩,grown => by
    have laid := emitAll_laidFrom layout rest operand _ later grown
    rw [emit_nodeCount] at laid
    exact ⟨emit_laidFrom layout tree operand shape first
      ((emitAll_extends layout rest operand _).trans grown),laid⟩

theorem emitBranches_laidFrom (layout : Layout) : (branches : List Expr) → ∀ operand shape,
    vocabulary.AllowsBranches branches → Extends (layout.emitBranches operand branches shape).1 after →
      LaidAllFrom layout after (some operand) branches shape.nodes.length
  | [],_,_,_,_ => trivial
  | branch :: rest,operand,shape,⟨⟨first,_⟩,later⟩,grown => by
    have laid := emitBranches_laidFrom layout rest operand _ later grown
    have nodes : ((layout.emit (some operand) branch shape).addBranch
        (layout.emit (some operand) branch shape).last).nodes.length = shape.nodes.length + branch.nodeCount :=
      emit_nodeCount layout branch (some operand) shape
    rw [nodes] at laid
    have below := (emitBranches_extends layout rest operand _).trans grown
    exact ⟨emit_laidFrom layout branch (some operand) shape first
      ((ProgramShape.extends_addBranch _ _).trans below),laid⟩

end

/-- The trees of a program stand one behind the other, from the first node to the last. -/
theorem emitRoots_laidFrom (layout : Layout) (roots : List Expr) : ∀ shape, vocabulary.AllowsRoots roots →
    Extends (layout.emitRoots roots shape) after →
      LaidAllFrom layout after none roots shape.nodes.length ∧
        (layout.emitRoots roots shape).nodes.length = shape.nodes.length + Expr.nodeCounts roots := by
  induction roots with
  | nil => exact fun _ _ _ => ⟨trivial,rfl⟩
  | cons root rest ih =>
    intro shape allowed grown
    have nodes : ((layout.emit none root shape).addRoot (layout.emit none root shape).last).nodes.length =
        shape.nodes.length + root.nodeCount := emit_nodeCount layout root none shape
    obtain ⟨laid,total⟩ := ih _ (fun other member => allowed other (List.mem_cons_of_mem _ member)) grown
    rw [nodes] at laid
    have below := (emitRoots_extends layout rest _).trans grown
    refine ⟨⟨emit_laidFrom layout root none shape (allowed root List.mem_cons_self)
      ((ProgramShape.extends_addRoot _ _).trans below),laid⟩,?_⟩
    rw [Layout.emitRoots]
    rw [total,nodes,Expr.nodeCounts,Nat.add_assoc]

end Bennu
