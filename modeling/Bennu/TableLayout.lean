import Bennu.AbstractSyntax

/-! Trees in tables: which node of the tables is the root of a copy of a tree, and that
laying a tree out puts one there and leaves every earlier one in place. -/
namespace Bennu

/-- `count` entries of a table from `first` on. -/
def slice {α : Type} (table : List α) (first count : Nat) : List α :=
  (table.drop first).take count

theorem slice_append_self {α : Type} (table entries : List α) :
    slice (table ++ entries) table.length entries.length = entries := by
  simp [slice]

theorem slice_grown {α : Type} {before after : List α} (grown : before <+: after)
    (full : (slice before first count).length = count) :
    slice after first count = slice before first count := by
  obtain ⟨more,rfl⟩ := grown
  simp only [slice,List.length_take,List.length_drop] at full ⊢
  rw [List.drop_append,List.take_append,List.length_drop]
  have none : count - (before.length - first) = 0 := by omega
  rw [none,List.take_zero,List.append_nil]

theorem getElem?_grown {α : Type} {before after : List α} {index : Nat} {entry : α} (grown : before <+: after)
    (found : before[index]? = some entry) : after[index]? = some entry := by
  obtain ⟨more,rfl⟩ := grown
  have bound : index < before.length := (List.getElem?_eq_some_iff.mp found).1
  rw [List.getElem?_append_left bound,found]

/-- Every table of `before` is the start of that of `after`. -/
structure Extends (before after : ProgramShape) : Prop where
  nodes : before.nodes <+: after.nodes
  arguments : before.arguments <+: after.arguments
  calls : before.calls <+: after.calls
  booleanElements : before.booleanElements <+: after.booleanElements
  integerElements : before.integerElements <+: after.integerElements
  doubleElements : before.doubleElements <+: after.doubleElements
  tupleElements : before.tupleElements <+: after.tupleElements
  fanouts : before.fanouts <+: after.fanouts
  branchRoots : before.branchRoots <+: after.branchRoots

theorem Extends.refl (shape : ProgramShape) : Extends shape shape := by
  constructor <;> exact List.prefix_rfl

theorem Extends.trans (first : Extends before middle) (second : Extends middle after) :
    Extends before after where
  nodes := first.nodes.trans second.nodes
  arguments := first.arguments.trans second.arguments
  calls := first.calls.trans second.calls
  booleanElements := first.booleanElements.trans second.booleanElements
  integerElements := first.integerElements.trans second.integerElements
  doubleElements := first.doubleElements.trans second.doubleElements
  tupleElements := first.tupleElements.trans second.tupleElements
  fanouts := first.fanouts.trans second.fanouts
  branchRoots := first.branchRoots.trans second.branchRoots

namespace ProgramShape

variable (shape : ProgramShape)

theorem extends_add (node : NodeShape) : Extends shape (shape.add node) := by
  constructor <;> simp [add]

theorem extends_addElement (parser : RewriteDoubleParser) (type : ScalarType)
    (literal : Literal) : Extends shape (addElement parser type shape literal) := by
  cases type <;> constructor <;> simp [addElement]

theorem extends_addElements (parser : RewriteDoubleParser) (type : ScalarType)
    (literals : List Literal) :
    Extends shape (literals.foldl (addElement parser type) shape) := by
  induction literals generalizing shape with
  | nil => exact .refl shape
  | cons literal rest ih =>
    exact (shape.extends_addElement parser type literal).trans (ih _)

theorem extends_addVector (parser : RewriteDoubleParser) (type : ScalarType)
    (elements : List Literal) : Extends shape (shape.addVector parser type elements) :=
  (shape.extends_addElements parser type elements).trans (extends_add _ _)

theorem extends_addCall (callSyntax : RewriteCallSyntax) (name : Text)
    (arguments : List Nat) : Extends shape (shape.addCall callSyntax name arguments) := by
  constructor <;> simp [addCall]

theorem extends_addTuple (elements : List Nat) : Extends shape (shape.addTuple elements) := by
  constructor <;> simp [addTuple]

theorem extends_addBranch (root : Nat) : Extends shape (shape.addBranch root) := by
  constructor <;> simp [addBranch]

theorem extends_addFanout (operand branchCount : Nat) :
    Extends shape (shape.addFanout operand branchCount) := by
  constructor <;> simp [addFanout]

theorem extends_addRoot (root : Nat) : Extends shape (shape.addRoot root) := by
  constructor <;> simp [addRoot]

end ProgramShape

/-! ### Laying out only appends -/

mutual

theorem emit_extends (layout : Layout) : (tree : Expr) → ∀ operand shape,
    Extends shape (layout.emit operand tree shape)
  | .scalar _,_,shape => shape.extends_add _
  | .vector type elements,_,shape => shape.extends_addVector _ type elements
  | .parameter _,_,shape => shape.extends_add _
  | .unresolved _,_,shape => shape.extends_add _
  | .bracketCall _ arguments,operand,shape =>
    (emitAll_extends layout arguments operand shape).trans (ProgramShape.extends_addCall _ _ _ _)
  | .prefixCall _ argument,operand,shape =>
    (emit_extends layout argument operand shape).trans (ProgramShape.extends_addCall _ _ _ _)
  | .tuple elements,operand,shape =>
    (emitAll_extends layout elements operand shape).trans (ProgramShape.extends_addTuple _ _)
  | .placeholder,_,shape => shape.extends_add _
  | .fanout source branches,_,shape =>
    ((emit_extends layout source none shape).trans
      (emitBranches_extends layout branches _ _)).trans (ProgramShape.extends_addFanout _ _ _)

theorem emitAll_extends (layout : Layout) : (trees : List Expr) → ∀ operand shape,
    Extends shape (layout.emitAll operand trees shape).1
  | [],_,shape => .refl shape
  | tree :: rest,operand,shape =>
    (emit_extends layout tree operand shape).trans (emitAll_extends layout rest operand _)

theorem emitBranches_extends (layout : Layout) : (branches : List Expr) → ∀ operand shape,
    Extends shape (layout.emitBranches operand branches shape).1
  | [],_,shape => .refl shape
  | branch :: rest,operand,shape =>
    ((emit_extends layout branch (some operand) shape).trans
      (ProgramShape.extends_addBranch _ _)).trans (emitBranches_extends layout rest operand _)

end

theorem emitRoots_extends (layout : Layout) (roots : List Expr) (shape : ProgramShape) :
    Extends shape (layout.emitRoots roots shape) := by
  induction roots generalizing shape with
  | nil => exact .refl shape
  | cons root rest ih =>
    exact ((emit_extends layout root none shape).trans (ProgramShape.extends_addRoot _ _)).trans
      (ih _)

theorem addElements_nodes (parser : RewriteDoubleParser) (type : ScalarType)
    (literals : List Literal) (shape : ProgramShape) :
    (literals.foldl (ProgramShape.addElement parser type) shape).nodes = shape.nodes := by
  induction literals generalizing shape with
  | nil => rfl
  | cons literal rest ih => rw [List.foldl_cons,ih]; cases type <;> rfl

/-- A tree takes at least one node, and its root is the last one. -/
theorem emit_nodes (layout : Layout) (operand : Option Nat) (tree : Expr)
    (shape : ProgramShape) :
    shape.nodes.length < (layout.emit operand tree shape).nodes.length := by
  cases tree with
  | scalar | parameter | unresolved | placeholder =>
    simp [Layout.emit,ProgramShape.add]
  | vector =>
    simp [Layout.emit,ProgramShape.addVector,ProgramShape.add,addElements_nodes]
  | bracketCall name arguments =>
    have := (emitAll_extends layout arguments operand shape).nodes.length_le
    simp only [Layout.emit,ProgramShape.addCall,List.length_append,List.length_cons]
    omega
  | prefixCall name argument =>
    have := (emit_extends layout argument operand shape).nodes.length_le
    simp only [Layout.emit,ProgramShape.addCall,List.length_append,List.length_cons]
    omega
  | tuple elements =>
    have := (emitAll_extends layout elements operand shape).nodes.length_le
    simp only [Layout.emit,ProgramShape.addTuple,List.length_append,List.length_cons]
    omega
  | fanout source branches =>
    have := ((emit_extends layout source none shape).trans
      (emitBranches_extends layout branches
        (layout.emit none source shape).last _)).nodes.length_le
    simp only [Layout.emit,ProgramShape.addFanout,List.length_append,List.length_cons]
    omega

theorem emit_last (layout : Layout) (operand : Option Nat) (tree : Expr)
    (shape : ProgramShape) :
    (layout.emit operand tree shape).last < (layout.emit operand tree shape).nodes.length ∧
      shape.nodes.length ≤ (layout.emit operand tree shape).last := by
  have := emit_nodes layout operand tree shape
  simp only [ProgramShape.last]
  omega

theorem emitAll_length (layout : Layout) (operand : Option Nat) (trees : List Expr)
    (shape : ProgramShape) : (layout.emitAll operand trees shape).2.length = trees.length := by
  induction trees generalizing shape with
  | nil => rfl
  | cons tree rest ih => simp only [Layout.emitAll,List.length_cons,ih]

theorem emitBranches_length (layout : Layout) (operand : Nat) (branches : List Expr)
    (shape : ProgramShape) :
    (layout.emitBranches operand branches shape).2.length = branches.length := by
  induction branches generalizing shape with
  | nil => rfl
  | cons branch rest ih => simp only [Layout.emitBranches,List.length_cons,ih]

theorem emitAll_append (layout : Layout) (operand : Option Nat) (trees : List Expr)
    (tree : Expr) (shape : ProgramShape) :
    layout.emitAll operand (trees ++ [tree]) shape =
      let emitted := layout.emitAll operand trees shape
      let later := layout.emit operand tree emitted.1
      (later,emitted.2 ++ [later.last]) := by
  induction trees generalizing shape with
  | nil => rfl
  | cons first rest ih => simp only [List.cons_append,Layout.emitAll,ih]

theorem emitBranches_append (layout : Layout) (operand : Nat) (branches : List Expr)
    (branch : Expr) (shape : ProgramShape) :
    layout.emitBranches operand (branches ++ [branch]) shape =
      let emitted := layout.emitBranches operand branches shape
      let later := layout.emit (some operand) branch emitted.1
      (later.addBranch later.last,emitted.2 ++ [later.last]) := by
  induction branches generalizing shape with
  | nil => rfl
  | cons first rest ih => simp only [List.cons_append,Layout.emitBranches,ih]

theorem emitRoots_append (layout : Layout) (roots : List Expr) (root : Expr)
    (shape : ProgramShape) :
    layout.emitRoots (roots ++ [root]) shape =
      let later := layout.emit none root (layout.emitRoots roots shape)
      later.addRoot later.last := by
  induction roots generalizing shape with
  | nil => rfl
  | cons first rest ih => simp only [List.cons_append,Layout.emitRoots,ih]

/-! ### Outside of fanouts no branch is entered -/

theorem addElements_branches (parser : RewriteDoubleParser) (type : ScalarType)
    (literals : List Literal) (shape : ProgramShape) :
    (literals.foldl (ProgramShape.addElement parser type) shape).branchRoots =
      shape.branchRoots := by
  induction literals generalizing shape with
  | nil => rfl
  | cons literal rest ih => rw [List.foldl_cons,ih]; cases type <;> rfl

mutual

theorem emit_branchRoots {place : Place} (layout : Layout) (inside : place ≠ .outside) :
    (tree : Expr) → ∀ operand shape atRoot, Vocabulary.Allows vocabulary place atRoot tree →
      (layout.emit operand tree shape).branchRoots = shape.branchRoots
  | .scalar _,_,_,_,_ => rfl
  | .vector _ _,_,_,_,_ => addElements_branches _ _ _ _
  | .parameter _,_,_,_,_ => rfl
  | .unresolved _,_,_,_,_ => rfl
  | .bracketCall _ arguments,operand,shape,_,allowed =>
    emitAll_branchRoots layout inside arguments operand shape allowed.2.2
  | .prefixCall _ argument,operand,shape,_,allowed =>
    emit_branchRoots layout inside argument operand shape false allowed.2.2.2
  | .tuple elements,operand,shape,_,allowed =>
    emitAll_branchRoots layout inside elements operand shape allowed
  | .placeholder,_,_,_,_ => rfl
  | .fanout _ _,_,_,_,allowed => absurd allowed.1 inside

theorem emitAll_branchRoots {place : Place} (layout : Layout) (inside : place ≠ .outside) :
    (trees : List Expr) → ∀ operand shape, Vocabulary.AllowsAll vocabulary place trees →
      (layout.emitAll operand trees shape).1.branchRoots = shape.branchRoots
  | [],_,_,_ => rfl
  | tree :: rest,operand,shape,allowed =>
    (emitAll_branchRoots layout inside rest operand _ allowed.2).trans
      (emit_branchRoots layout inside tree operand shape false allowed.1)

end

theorem emitBranches_branchRoots (layout : Layout) (operand : Nat) (branches : List Expr)
    (shape : ProgramShape) (allowed : Vocabulary.AllowsBranches vocabulary branches) :
    (layout.emitBranches operand branches shape).1.branchRoots =
      shape.branchRoots ++ (layout.emitBranches operand branches shape).2 := by
  induction branches generalizing shape with
  | nil => simp [Layout.emitBranches]
  | cons branch rest ih =>
    have same := emit_branchRoots layout (by decide) branch (some operand) shape false allowed.1.1
    simp only [Layout.emitBranches,ih _ allowed.2,ProgramShape.addBranch,same,
      List.append_assoc,List.singleton_append]

/-! ### Copies of trees -/

/-- The elements of a vector literal, in the table of their type. -/
def ElementsAt (parser : RewriteDoubleParser) (shape : ProgramShape) (type : ScalarType)
    (first : Nat) (elements : List Literal) : Prop :=
  match type with
  | .boolean => slice shape.booleanElements first elements.length =
      elements.map fun literal => if literal.booleanValue then 1 else 0
  | .integer => slice shape.integerElements first elements.length =
      elements.map Literal.integerValue
  | .doublePrecision => slice shape.doubleElements first elements.length =
      elements.map (Literal.doubleValue parser)

mutual

/-- Node `index` is the root of a copy of the tree; its subtrees stand at lower indices. -/
def Laid (layout : Layout) (shape : ProgramShape) : Option Nat → Expr → Nat → Prop
  | _,.scalar literal,index =>
    shape.nodes[index]? = some (ProgramShape.scalarNode layout.parser literal)
  | _,.vector type elements,index =>
    ∃ first spans,
      shape.nodes[index]? = some (ProgramShape.vectorNode type first elements.length spans) ∧
      ElementsAt layout.parser shape type first elements
  | _,.parameter parameter,index =>
    shape.nodes[index]? = some (ProgramShape.parameterNode layout.types parameter)
  | _,.unresolved _,index =>
    shape.nodes[index]? = some (ProgramShape.blank .unresolvedName)
  | operand,.bracketCall name arguments,index =>
    ∃ call first children, shape.nodes[index]? = some (ProgramShape.callNode call) ∧
      shape.calls[call]? = some ⟨.bracketed,name,first,arguments.length⟩ ∧
      slice shape.arguments first arguments.length = children ∧
      LaidAll layout shape operand arguments children index
  | operand,.prefixCall name argument,index =>
    ∃ call first child, shape.nodes[index]? = some (ProgramShape.callNode call) ∧
      shape.calls[call]? = some ⟨.prefixed,name,first,1⟩ ∧
      slice shape.arguments first 1 = [child] ∧
      child < index ∧ Laid layout shape operand argument child
  | operand,.tuple elements,index =>
    ∃ first children,
      shape.nodes[index]? = some (ProgramShape.tupleNode first elements.length) ∧
      slice shape.tupleElements first elements.length = children ∧
      LaidAll layout shape operand elements children index
  | operand,.placeholder,index =>
    shape.nodes[index]? = some (ProgramShape.placeholderNode (operand.getD 0))
  | _,.fanout source branches,index =>
    ∃ fanout first operand roots,
      shape.nodes[index]? = some (ProgramShape.fanoutNode first branches.length fanout) ∧
      shape.fanouts[fanout]? = some ⟨operand,first,branches.length⟩ ∧
      operand < index ∧ Laid layout shape none source operand ∧
      slice shape.branchRoots first branches.length = roots ∧
      LaidAll layout shape (some operand) branches roots index

/-- Copies of several trees, all below `bound`. -/
def LaidAll (layout : Layout) (shape : ProgramShape) :
    Option Nat → List Expr → List Nat → Nat → Prop
  | _,[],[],_ => True
  | operand,tree :: rest,index :: indexes,bound =>
    (index < bound ∧ Laid layout shape operand tree index) ∧
      LaidAll layout shape operand rest indexes bound
  | _,_,_,_ => False

end

theorem LaidAll.length {layout : Layout} {shape : ProgramShape} {operand : Option Nat}
    {trees : List Expr} {indexes : List Nat} {bound : Nat}
    (laid : LaidAll layout shape operand trees indexes bound) :
    indexes.length = trees.length := by
  induction trees generalizing indexes with
  | nil => cases indexes with
    | nil => rfl
    | cons => simp [LaidAll] at laid
  | cons tree rest ih => cases indexes with
    | nil => simp [LaidAll] at laid
    | cons index indexes => simp only [LaidAll] at laid; simp [ih laid.2]

theorem ElementsAt.extend (grown : Extends before after)
    (at_ : ElementsAt parser before type first elements) :
    ElementsAt parser after type first elements := by
  cases type <;> simp only [ElementsAt] at at_ ⊢
  · rw [slice_grown grown.booleanElements (by rw [at_,List.length_map]),at_]
  · rw [slice_grown grown.integerElements (by rw [at_,List.length_map]),at_]
  · rw [slice_grown grown.doubleElements (by rw [at_,List.length_map]),at_]

mutual

/-- A copy stays where it is while the tables grow. -/
theorem Laid.extend {layout : Layout} {before after : ProgramShape}
    (grown : Extends before after) : (tree : Expr) → ∀ {operand index},
      Laid layout before operand tree index → Laid layout after operand tree index
  | .scalar _,_,_,laid => getElem?_grown grown.nodes laid
  | .vector _ _,_,_,⟨first,spans,node,elements⟩ =>
    ⟨first,spans,getElem?_grown grown.nodes node,elements.extend grown⟩
  | .parameter _,_,_,laid => getElem?_grown grown.nodes laid
  | .unresolved _,_,_,laid => getElem?_grown grown.nodes laid
  | .bracketCall _ arguments,_,_,⟨call,first,children,node,calls,children_,laid⟩ =>
    ⟨call,first,children,getElem?_grown grown.nodes node,getElem?_grown grown.calls calls,
      (slice_grown grown.arguments (by rw [children_,laid.length])).trans children_,
      LaidAll.extend grown arguments laid⟩
  | .prefixCall _ argument,_,_,⟨call,first,child,node,calls,children,less,laid⟩ =>
    ⟨call,first,child,getElem?_grown grown.nodes node,getElem?_grown grown.calls calls,
      (slice_grown grown.arguments (by rw [children]; rfl)).trans children,less,
      Laid.extend grown argument laid⟩
  | .tuple elements,_,_,⟨first,children,node,children_,laid⟩ =>
    ⟨first,children,getElem?_grown grown.nodes node,
      (slice_grown grown.tupleElements (by rw [children_,laid.length])).trans children_,
      LaidAll.extend grown elements laid⟩
  | .placeholder,_,_,laid => getElem?_grown grown.nodes laid
  | .fanout source branches,_,_,
      ⟨fanout,first,operand,roots,node,fanouts,less,sourceLaid,roots_,laid⟩ =>
    ⟨fanout,first,operand,roots,getElem?_grown grown.nodes node,
      getElem?_grown grown.fanouts fanouts,less,Laid.extend grown source sourceLaid,
      (slice_grown grown.branchRoots (by rw [roots_,laid.length])).trans roots_,
      LaidAll.extend grown branches laid⟩

theorem LaidAll.extend {layout : Layout} {before after : ProgramShape}
    (grown : Extends before after) : (trees : List Expr) → ∀ {operand indexes bound},
      LaidAll layout before operand trees indexes bound →
        LaidAll layout after operand trees indexes bound
  | [],_,[],_,_ => trivial
  | [],_,_ :: _,_,laid => absurd laid (by simp [LaidAll])
  | _ :: _,_,[],_,laid => absurd laid (by simp [LaidAll])
  | tree :: rest,_,_ :: _,_,laid => by
    simp only [LaidAll] at laid ⊢
    exact ⟨⟨laid.1.1,Laid.extend grown tree laid.1.2⟩,LaidAll.extend grown rest laid.2⟩

end

theorem LaidAll.widen {layout : Layout} {shape : ProgramShape} {operand : Option Nat}
    {trees : List Expr} {indexes : List Nat} {bound : Nat}
    (laid : LaidAll layout shape operand trees indexes bound) (wider : bound ≤ bound') :
    LaidAll layout shape operand trees indexes bound' := by
  induction trees generalizing indexes with
  | nil => cases indexes with
    | nil => trivial
    | cons => simp [LaidAll] at laid
  | cons tree rest ih => cases indexes with
    | nil => simp [LaidAll] at laid
    | cons index indexes =>
      simp only [LaidAll] at laid ⊢
      exact ⟨⟨Nat.lt_of_lt_of_le laid.1.1 wider,laid.1.2⟩,ih laid.2⟩

theorem getElem?_snoc {α : Type} (table : List α) (entry : α) :
    (table ++ [entry])[(table ++ [entry]).length - 1]? = some entry := by
  simp

theorem addElements_elements (parser : RewriteDoubleParser) (type : ScalarType)
    (literals : List Literal) (shape : ProgramShape) :
    ElementsAt parser (literals.foldl (ProgramShape.addElement parser type) shape) type
      (shape.payloadSize type) literals := by
  have tables : ∀ shape : ProgramShape,
      match type with
      | .boolean =>
        (literals.foldl (ProgramShape.addElement parser type) shape).booleanElements =
          shape.booleanElements ++
            literals.map fun literal => if literal.booleanValue then 1 else 0
      | .integer =>
        (literals.foldl (ProgramShape.addElement parser type) shape).integerElements =
          shape.integerElements ++ literals.map Literal.integerValue
      | .doublePrecision =>
        (literals.foldl (ProgramShape.addElement parser type) shape).doubleElements =
          shape.doubleElements ++ literals.map (Literal.doubleValue parser) := by
    induction literals with
    | nil => intro shape; cases type <;> simp
    | cons literal rest ih =>
      intro shape
      have later := ih (ProgramShape.addElement parser type shape literal)
      cases type <;> simp_all [ProgramShape.addElement]
  have table := tables shape
  cases type <;> simp only [ElementsAt,ProgramShape.payloadSize] at table ⊢ <;>
    rw [table,slice,List.drop_left] <;> exact List.take_of_length_le (by simp)

mutual

/-- Laying a tree out puts a copy of it at the last node. -/
theorem emit_laid {vocabulary : Vocabulary} (layout : Layout) :
    (tree : Expr) → ∀ {place atRoot} operand shape, vocabulary.Allows place atRoot tree →
      Laid layout (layout.emit operand tree shape) operand tree
        (layout.emit operand tree shape).last
  | .scalar _,_,_,_,_,_ => getElem?_snoc _ _
  | .vector type elements,_,_,_,shape,_ => by
    refine ⟨shape.payloadSize type,shape.elementTotal,getElem?_snoc _ _,?_⟩
    exact (addElements_elements layout.parser type elements shape).extend
      (ProgramShape.extends_add _ _)
  | .parameter _,_,_,_,_,_ => getElem?_snoc _ _
  | .unresolved _,_,_,_,_,_ => getElem?_snoc _ _
  | .bracketCall name arguments,_,_,operand,shape,allowed => by
    have laid := emitAll_laid layout arguments operand shape allowed.2.2
    have grown := ProgramShape.extends_addCall (layout.emitAll operand arguments shape).1
      .bracketed name (layout.emitAll operand arguments shape).2
    have length := emitAll_length layout operand arguments shape
    refine ⟨_,(layout.emitAll operand arguments shape).1.arguments.length,
      (layout.emitAll operand arguments shape).2,getElem?_snoc _ _,?_,?_,?_⟩
    · simp [Layout.emit,ProgramShape.addCall,length]
    · rw [← length]
      exact slice_append_self _ _
    · apply (LaidAll.extend grown arguments laid).widen
      simp [Layout.emit,ProgramShape.last,ProgramShape.addCall]
  | .prefixCall name argument,_,_,operand,shape,allowed => by
    have laid := emit_laid layout argument operand shape allowed.2.2.2
    have grown := ProgramShape.extends_addCall (layout.emit operand argument shape)
      .prefixed name [(layout.emit operand argument shape).last]
    refine ⟨_,_,_,getElem?_snoc _ _,?_,slice_append_self _ _,?_,Laid.extend grown argument laid⟩
    · simp [Layout.emit,ProgramShape.addCall]
    · have := (emit_last layout operand argument shape).1
      simpa [Layout.emit,ProgramShape.last,ProgramShape.addCall] using this
  | .tuple elements,_,_,operand,shape,allowed => by
    have laid := emitAll_laid layout elements operand shape allowed
    have grown := ProgramShape.extends_addTuple (layout.emitAll operand elements shape).1
      (layout.emitAll operand elements shape).2
    have length := emitAll_length layout operand elements shape
    refine ⟨(layout.emitAll operand elements shape).1.tupleElements.length,
      (layout.emitAll operand elements shape).2,?_,?_,?_⟩
    · rw [← length]
      exact getElem?_snoc _ _
    · rw [← length]
      exact slice_append_self _ _
    · apply (LaidAll.extend grown elements laid).widen
      simp [Layout.emit,ProgramShape.last,ProgramShape.addTuple]
  | .placeholder,_,_,_,_,_ => getElem?_snoc _ _
  | .fanout source branches,_,_,_,shape,allowed => by
    obtain ⟨_,sourceAllowed,_,branchesAllowed⟩ := allowed
    have sourceLaid := emit_laid layout source none shape sourceAllowed
    generalize emittedIs : layout.emit none source shape = emitted at sourceLaid
    have laid := emitBranches_laid layout branches emitted.last emitted branchesAllowed
    have length := emitBranches_length layout emitted.last branches emitted
    have entered := emitBranches_branchRoots layout emitted.last branches emitted branchesAllowed
    have branchesGrown := emitBranches_extends layout branches emitted.last emitted
    have grown := ProgramShape.extends_addFanout
      (layout.emitBranches emitted.last branches emitted).1 emitted.last branches.length
    have operandBound := (emit_last layout none source shape).1
    rw [emittedIs] at operandBound
    have first : (layout.emitBranches emitted.last branches emitted).1.branchRoots.length -
        branches.length = emitted.branchRoots.length := by
      rw [entered,List.length_append,length]
      omega
    simp only [Layout.emit,emittedIs]
    have last : ((layout.emitBranches emitted.last branches emitted).1.addFanout emitted.last
        branches.length).last =
          (layout.emitBranches emitted.last branches emitted).1.nodes.length := by
      simp [ProgramShape.last,ProgramShape.addFanout]
    rw [last]
    refine ⟨(layout.emitBranches emitted.last branches emitted).1.fanouts.length,
      emitted.branchRoots.length,emitted.last,
      (layout.emitBranches emitted.last branches emitted).2,?_,?_,?_,?_,?_,?_⟩
    · simp [ProgramShape.addFanout,first]
    · simp [ProgramShape.addFanout,first]
    · exact Nat.lt_of_lt_of_le operandBound branchesGrown.nodes.length_le
    · exact Laid.extend (branchesGrown.trans grown) source sourceLaid
    · simp only [ProgramShape.addFanout,entered]
      rw [← length]
      exact slice_append_self _ _
    · exact LaidAll.extend grown branches laid

theorem emitAll_laid {vocabulary : Vocabulary} (layout : Layout) :
    (trees : List Expr) → ∀ {place} operand shape, vocabulary.AllowsAll place trees →
      LaidAll layout (layout.emitAll operand trees shape).1 operand trees
        (layout.emitAll operand trees shape).2
        (layout.emitAll operand trees shape).1.nodes.length
  | [],_,_,_,_ => trivial
  | tree :: rest,_,operand,shape,allowed => by
    have later := emitAll_extends layout rest operand (layout.emit operand tree shape)
    refine ⟨⟨?_,Laid.extend later tree (emit_laid layout tree operand shape allowed.1)⟩,
      emitAll_laid layout rest operand _ allowed.2⟩
    exact Nat.lt_of_lt_of_le (emit_last layout operand tree shape).1 later.nodes.length_le

theorem emitBranches_laid {vocabulary : Vocabulary} (layout : Layout) :
    (branches : List Expr) → ∀ operand shape, vocabulary.AllowsBranches branches →
      LaidAll layout (layout.emitBranches operand branches shape).1 (some operand) branches
        (layout.emitBranches operand branches shape).2
        (layout.emitBranches operand branches shape).1.nodes.length
  | [],_,_,_ => trivial
  | branch :: rest,operand,shape,allowed => by
    have entered := ProgramShape.extends_addBranch (layout.emit (some operand) branch shape)
      (layout.emit (some operand) branch shape).last
    have later := entered.trans (emitBranches_extends layout rest operand _)
    refine ⟨⟨?_,Laid.extend later branch (emit_laid layout branch _ shape allowed.1.1)⟩,
      emitBranches_laid layout rest operand _ allowed.2⟩
    exact Nat.lt_of_lt_of_le (emit_last layout (some operand) branch shape).1
      later.nodes.length_le

end

end Bennu
