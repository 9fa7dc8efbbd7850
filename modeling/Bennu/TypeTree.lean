import Bennu.TypeValidation

/-! The trees that type arenas denote, whatever the layout of their tables:
`structural_type_equal` decides whether two of them are the same. -/
namespace Bennu

open MarkTable TreeTable StacklessWalk

inductive TypeTree where
  | scalar (type : ScalarType)
  | vector (elementType : ScalarType)
  | tuple (elements : List TypeTree)

namespace TypeArena

/-- The tree under a node, followed to this depth. -/
def treeAt (type : TypeArena) : Nat → Nat → TypeTree
  | 0,_ => .tuple []
  | depth + 1,i => match (type.node i).kind with
    | some .tuple => .tuple ((List.range (type.node i).childCount).map fun k =>
        type.treeAt depth (type.childOf i k))
    | some .vector => .vector ((type.node i).scalar.getD .boolean)
    | _ => .scalar ((type.node i).scalar.getD .boolean)

/-- The tree under a node: its children are above no other number than its own. -/
def nodeTree (type : TypeArena) (i : Nat) : TypeTree := type.treeAt (i + 1) i

def tree (type : TypeArena) : TypeTree := type.nodeTree type.rootIndex

variable {type : TypeArena} {i : Nat}

theorem mem_childrenAt_of_tuple (kind : (type.node i).kind = some .tuple) {k : Nat}
    (inside : k < (type.node i).childCount) : type.childOf i k ∈ type.childrenAt i := by
  rw [childrenAt,if_pos kind]
  exact List.mem_map_of_mem (List.mem_range.mpr inside)

/-- Any depth that covers a node gives the same tree. -/
theorem treeAt_depth {limit : Nat} (earlier : ∀ i < limit, ∀ c ∈ type.childrenAt i, c < i)
    (inside : i < limit) {depth : Nat} (covered : i < depth) : type.treeAt depth i = type.nodeTree i := by
  induction i using Nat.strongRecOn generalizing depth with
  | _ i ih =>
    obtain ⟨depth,rfl⟩ := Nat.exists_eq_succ_of_ne_zero (Nat.ne_of_gt (Nat.zero_lt_of_lt covered))
    unfold nodeTree treeAt
    cases kind : (type.node i).kind with
    | none => rfl
    | some known =>
      cases known with
      | scalar => rfl
      | vector => rfl
      | tuple =>
        refine congrArg TypeTree.tuple (List.map_congr_left fun k member => ?_)
        have less := earlier i inside _ (mem_childrenAt_of_tuple kind (List.mem_range.mp member))
        rw [ih _ less (by omega) (by omega),ih _ less (by omega) less]

theorem nodeTree_tuple {limit : Nat} (earlier : ∀ i < limit, ∀ c ∈ type.childrenAt i, c < i)
    (inside : i < limit) (kind : (type.node i).kind = some .tuple) :
    type.nodeTree i = .tuple ((type.childrenAt i).map type.nodeTree) := by
  rw [nodeTree,treeAt,kind,childrenAt,if_pos kind,List.map_map]
  refine congrArg TypeTree.tuple (List.map_congr_left fun k member => ?_)
  have less := earlier i inside _ (mem_childrenAt_of_tuple kind (List.mem_range.mp member))
  exact treeAt_depth earlier (by omega) less

theorem nodeTree_vector (kind : (type.node i).kind = some .vector) {element : ScalarType}
    (scalar : (type.node i).scalar = some element) : type.nodeTree i = .vector element := by
  rw [nodeTree,treeAt,kind,scalar]
  rfl

theorem nodeTree_scalar (kind : (type.node i).kind = some .scalar) {element : ScalarType}
    (scalar : (type.node i).scalar = some element) : type.nodeTree i = .scalar element := by
  rw [nodeTree,treeAt,kind,scalar]
  rfl

/-- What a sound node is: a scalar, a vector or a tuple of its children. -/
inductive Shape (type : TypeArena) (i : Nat) : TypeTree → Prop
  | scalar (kind : (type.node i).kind = some .scalar) (element : ScalarType)
      (scalar : (type.node i).scalar = some element) : Shape type i (.scalar element)
  | vector (kind : (type.node i).kind = some .vector) (element : ScalarType)
      (scalar : (type.node i).scalar = some element) : Shape type i (.vector element)
  | tuple (kind : (type.node i).kind = some .tuple) :
      Shape type i (.tuple ((type.childrenAt i).map type.nodeTree))

theorem nodeTree_shape {limit : Nat} (earlier : ∀ i < limit, ∀ c ∈ type.childrenAt i, c < i)
    (inside : i < limit) (sound : type.NodeSound i) : type.Shape i (type.nodeTree i) := by
  unfold NodeSound at sound
  cases kind : (type.node i).kind with
  | none =>
    rw [kind] at sound
    exact sound.elim
  | some known =>
    rw [kind] at sound
    cases known with
    | scalar =>
      obtain ⟨element,scalar⟩ := Option.isSome_iff_exists.mp sound.1
      rw [nodeTree_scalar kind scalar]
      exact .scalar kind element scalar
    | vector =>
      obtain ⟨element,scalar⟩ := Option.isSome_iff_exists.mp sound.1
      rw [nodeTree_vector kind scalar]
      exact .vector kind element scalar
    | tuple =>
      rw [nodeTree_tuple earlier inside kind]
      exact .tuple kind

theorem Exact.shape (exact : type.Exact) (inside : i < type.typeNodes.length) :
    type.Shape i (type.nodeTree i) :=
  nodeTree_shape exact.tree.earlier inside (exact.sound i inside)

theorem Exact.child_inside (exact : type.Exact) (inside : i < type.typeNodes.length) :
    ∀ c ∈ type.childrenAt i, c < type.typeNodes.length := by
  intro c child
  have less := exact.tree.earlier i inside c child
  omega

/-- The number of nodes of the tree under a node. -/
def Exact.size (exact : type.Exact) (i : Nat) : Nat :=
  (exact.tree.forest fun _ outside => childrenAt_outside outside).weight (fun _ => 1) i

theorem Exact.size_eq (exact : type.Exact) (i : Nat) :
    exact.size i = 1 + ((type.childrenAt i).map exact.size).sum :=
  Forest.weight_eq _ i

theorem Exact.size_root (exact : type.Exact) : exact.size type.rootIndex = type.typeNodes.length := by
  have root := exact.root
  have last : type.rootIndex = type.typeNodes.length - 1 := by omega
  have whole := exact.tree.weight_root (by omega) (fun _ outside => childrenAt_outside outside) fun _ => 1
  rw [← last] at whole
  exact whole.trans (by rw [List.map_const',List.sum_replicate_nat,List.length_range,Nat.mul_one])

end TypeArena

section equality

variable {left right : TypeArena}

/-- Stacked pairs of nodes of both arenas, in the room that their trees leave for the rest. -/
structure PairsInside (leftExact : left.Exact) (rightExact : right.Exact) (stack : List (Nat × Nat)) :
    Prop where
  inside : ∀ p ∈ stack, p.1 < left.typeNodes.length ∧ p.2 < right.typeNodes.length
  leftRoom : (stack.map fun p => leftExact.size p.1).sum ≤ left.typeNodes.length
  rightRoom : (stack.map fun p => rightExact.size p.2).sum ≤ right.typeNodes.length

variable {leftExact : left.Exact} {rightExact : right.Exact} {stack rest : List (Nat × Nat)} {i j : Nat}

theorem length_le_sizes (exact : left.Exact) (nodes : List Nat) :
    nodes.length ≤ (nodes.map exact.size).sum := by
  induction nodes with
  | nil => simp
  | cons i rest ih =>
    have positive := exact.size_eq i
    rw [List.length_cons,List.map_cons,List.sum_cons]
    omega

theorem PairsInside.length_le (pairs : PairsInside leftExact rightExact stack) :
    stack.length ≤ min left.typeNodes.length right.typeNodes.length := by
  have leftFits := length_le_sizes leftExact (stack.map (·.1))
  have rightFits := length_le_sizes rightExact (stack.map (·.2))
  rw [List.length_map,List.map_map] at leftFits rightFits
  exact Nat.le_min.mpr ⟨leftFits.trans pairs.leftRoom,rightFits.trans pairs.rightRoom⟩

/-- The pairs of children that a round pushes, in the order of their offsets. -/
def childPairs (left right : TypeArena) (i j : Nat) : List (Nat × Nat) :=
  (List.range (left.node i).childCount).map fun k => (left.childOf i k,right.childOf j k)

theorem childPairs_left (kind : (left.node i).kind = some .tuple) :
    (childPairs left right i j).map (·.1) = left.childrenAt i := by
  rw [childPairs,List.map_map,TypeArena.childrenAt,if_pos kind]
  rfl

theorem childPairs_sizes (kind : (left.node i).kind = some .tuple) :
    ((childPairs left right i j).map fun p => leftExact.size p.1) =
      (left.childrenAt i).map leftExact.size := by
  rw [← @childPairs_left left right i j kind,List.map_map]
  rfl

theorem childPairs_right (kind : (right.node j).kind = some .tuple)
    (count : (left.node i).childCount = (right.node j).childCount) :
    (childPairs left right i j).map (·.2) = right.childrenAt j := by
  rw [childPairs,List.map_map,TypeArena.childrenAt,if_pos kind,count]
  rfl

theorem PairsInside.push (pairs : PairsInside leftExact rightExact ((i,j) :: rest))
    (leftKind : (left.node i).kind = some .tuple) (rightKind : (right.node j).kind = some .tuple)
    (count : (left.node i).childCount = (right.node j).childCount) :
    PairsInside leftExact rightExact ((childPairs left right i j).reverse ++ rest) := by
  obtain ⟨⟨leftInside,rightInside⟩,others⟩ := List.forall_mem_cons.mp pairs.inside
  have leftChildren : (childPairs left right i j).map (·.1) = left.childrenAt i := childPairs_left leftKind
  have rightChildren : (childPairs left right i j).map (·.2) = right.childrenAt j :=
    childPairs_right rightKind count
  refine ⟨fun p member => ?_,?_,?_⟩
  · rcases List.mem_append.mp member with pushed | old
    · have pushed := List.mem_reverse.mp pushed
      exact ⟨leftExact.child_inside leftInside _ (leftChildren ▸ List.mem_map_of_mem pushed),
        rightExact.child_inside rightInside _ (rightChildren ▸ List.mem_map_of_mem pushed)⟩
    · exact others p old
  · have room := pairs.leftRoom
    have children : ((childPairs left right i j).map fun p => leftExact.size p.1) =
        (left.childrenAt i).map leftExact.size := childPairs_sizes leftKind
    rw [List.map_cons,List.sum_cons,leftExact.size_eq] at room
    dsimp only at room
    rw [List.map_append,List.sum_append,List.map_reverse,List.sum_reverse,children]
    omega
  · have room := pairs.rightRoom
    have children : ((childPairs left right i j).map fun p => rightExact.size p.2) =
        (right.childrenAt j).map rightExact.size := by
      rw [← rightChildren,List.map_map]
      rfl
    rw [List.map_cons,List.sum_cons,rightExact.size_eq] at room
    dsimp only at room
    rw [List.map_append,List.sum_append,List.map_reverse,List.sum_reverse,children]
    omega

/-- Two tuples are the same when their children are, pair by pair. -/
theorem tuple_eq_iff (leftKind : (left.node i).kind = some .tuple)
    (rightKind : (right.node j).kind = some .tuple)
    (count : (left.node i).childCount = (right.node j).childCount) :
    TypeTree.tuple ((left.childrenAt i).map left.nodeTree) =
      .tuple ((right.childrenAt j).map right.nodeTree) ↔
      ∀ p ∈ childPairs left right i j, left.nodeTree p.1 = right.nodeTree p.2 := by
  have leftChildren : (childPairs left right i j).map (·.1) = left.childrenAt i := childPairs_left leftKind
  have rightChildren : (childPairs left right i j).map (·.2) = right.childrenAt j :=
    childPairs_right rightKind count
  rw [← leftChildren,← rightChildren,List.map_map,List.map_map,TypeTree.tuple.injEq]
  exact List.map_inj_left

theorem PairsInside.pop (pairs : PairsInside leftExact rightExact ((i,j) :: rest)) :
    PairsInside leftExact rightExact rest :=
  ⟨fun p member => pairs.inside p (List.mem_cons_of_mem _ member),
    (Nat.le_add_left ..).trans pairs.leftRoom,(Nat.le_add_left ..).trans pairs.rightRoom⟩

section round

variable {capacity rounds : Nat}

/-- Nodes of different kinds end the loop. -/
theorem equalTypes_kinds (kinds : (left.node i).kind ≠ (right.node j).kind) :
    equalTypes capacity left right (rounds + 1) ((i,j) :: rest) = some (.ok false) := by
  rw [equalTypes,if_pos kinds]

/-- So do leaves of different elements; of equal ones the loop goes on. -/
theorem equalTypes_leaves {kind : TypeKind} (leaf : kind ≠ .tuple)
    (leftKind : (left.node i).kind = some kind) (rightKind : (right.node j).kind = some kind) :
    equalTypes capacity left right (rounds + 1) ((i,j) :: rest) =
      if (left.node i).scalar = (right.node j).scalar then
        equalTypes capacity left right rounds rest else some (.ok false) := by
  have isLeaf : kind = .scalar ∨ kind = .vector := by
    cases kind with
    | scalar => exact .inl rfl
    | vector => exact .inr rfl
    | tuple => exact absurd rfl leaf
  rw [equalTypes]
  by_cases same : (left.node i).scalar = (right.node j).scalar
  · simp [leftKind,rightKind,same,leaf]
  · simp [leftKind,rightKind,same,isLeaf]

/-- Tuples are followed into their children when these are as many. -/
theorem equalTypes_tuples (leftKind : (left.node i).kind = some .tuple)
    (rightKind : (right.node j).kind = some .tuple) :
    equalTypes capacity left right (rounds + 1) ((i,j) :: rest) =
      if (left.node i).childCount ≠ (right.node j).childCount then some (.ok false)
      else match pushStackAll capacity (childPairs left right i j) rest with
        | .error reason => some (.error reason)
        | .ok stack => equalTypes capacity left right rounds stack := by
  rw [equalTypes]
  simp only [leftKind,rightKind,ne_eq,not_true_eq_false,if_false,reduceCtorEq,or_self,false_and,
    Option.some.injEq]
  rfl

end round

/-- The rounds compare the trees of all stacked pairs, and no push is refused. -/
theorem equalTypes_exact {rounds : Nat} (pairs : PairsInside leftExact rightExact stack)
    (enough : (stack.map fun p => leftExact.size p.1).sum ≤ rounds) :
    ∃ equal, equalTypes (min left.typeNodes.length right.typeNodes.length) left right rounds stack =
      some (.ok equal) ∧ (equal = true ↔ ∀ p ∈ stack, left.nodeTree p.1 = right.nodeTree p.2) := by
  induction rounds generalizing stack with
  | zero =>
    rcases stack with - | ⟨top,rest⟩
    · exact ⟨true,rfl,by simp⟩
    · rw [List.map_cons,List.sum_cons,leftExact.size_eq] at enough
      omega
  | succ rounds ih =>
    rcases stack with - | ⟨⟨i,j⟩,rest⟩
    · exact ⟨true,rfl,by simp⟩
    · obtain ⟨⟨leftInside,rightInside⟩,-⟩ := List.forall_mem_cons.mp pairs.inside
      have leftShape := leftExact.shape leftInside
      have rightShape := rightExact.shape rightInside
      have room := pairs.leftRoom
      rw [List.map_cons,List.sum_cons,leftExact.size_eq] at enough
      dsimp only at enough
      simp only [List.forall_mem_cons]
      -- A leaf pair: either its elements decide, or the rest of the stack does.
      have leaves : ∀ (kind : TypeKind), kind ≠ .tuple → (left.node i).kind = some kind →
          (right.node j).kind = some kind →
          (left.nodeTree i = right.nodeTree j ↔ (left.node i).scalar = (right.node j).scalar) →
          ∃ equal, equalTypes (min left.typeNodes.length right.typeNodes.length) left right
            (rounds + 1) ((i,j) :: rest) = some (.ok equal) ∧ (equal = true ↔
              left.nodeTree i = right.nodeTree j ∧ ∀ p ∈ rest, left.nodeTree p.1 = right.nodeTree p.2) := by
        intro kind leaf leftKind rightKind same
        rw [equalTypes_leaves leaf leftKind rightKind,same]
        split
        · rename_i scalars
          simpa only [scalars,true_and] using ih pairs.pop (by omega)
        · rename_i scalars
          exact ⟨false,rfl,by simp [scalars]⟩
      have kinds : (left.node i).kind ≠ (right.node j).kind → left.nodeTree i ≠ right.nodeTree j →
          ∃ equal, equalTypes (min left.typeNodes.length right.typeNodes.length) left right
            (rounds + 1) ((i,j) :: rest) = some (.ok equal) ∧ (equal = true ↔
              left.nodeTree i = right.nodeTree j ∧ ∀ p ∈ rest, left.nodeTree p.1 = right.nodeTree p.2) :=
        fun different trees => ⟨false,equalTypes_kinds different,by simp [trees]⟩
      generalize isLeft : left.nodeTree i = leftTree at leftShape
      generalize isRight : right.nodeTree j = rightTree at rightShape
      rw [isLeft,isRight] at leaves kinds
      cases leftShape with
      | scalar leftKind element leftScalar =>
        cases rightShape with
        | scalar rightKind other rightScalar =>
          exact leaves .scalar (by decide) leftKind rightKind (by simp [leftScalar,rightScalar])
        | vector rightKind => exact kinds (by simp [leftKind,rightKind]) nofun
        | tuple rightKind => exact kinds (by simp [leftKind,rightKind]) nofun
      | vector leftKind element leftScalar =>
        cases rightShape with
        | scalar rightKind => exact kinds (by simp [leftKind,rightKind]) nofun
        | vector rightKind other rightScalar =>
          exact leaves .vector (by decide) leftKind rightKind (by simp [leftScalar,rightScalar])
        | tuple rightKind => exact kinds (by simp [leftKind,rightKind]) nofun
      | tuple leftKind =>
        cases rightShape with
        | scalar rightKind => exact kinds (by simp [leftKind,rightKind]) nofun
        | vector rightKind => exact kinds (by simp [leftKind,rightKind]) nofun
        | tuple rightKind =>
          rw [equalTypes_tuples leftKind rightKind]
          by_cases count : (left.node i).childCount = (right.node j).childCount
          · have pushed := pairs.push leftKind rightKind count
            have fits := pushed.length_le
            rw [List.length_append,List.length_reverse,Nat.add_comm] at fits
            rw [if_neg (by simp [count]),pushStackAll_ok fits,tuple_eq_iff leftKind rightKind count]
            dsimp only
            obtain ⟨equal,looped,answer⟩ := ih pushed (by
              have children : ((childPairs left right i j).map fun p => leftExact.size p.1) =
                  (left.childrenAt i).map leftExact.size :=
                childPairs_sizes leftKind
              rw [List.map_append,List.sum_append,List.map_reverse,List.sum_reverse,children]
              omega)
            refine ⟨equal,looped,answer.trans ?_⟩
            simp only [List.mem_append,List.mem_reverse,or_imp,forall_and]
          · rw [if_pos count]
            refine ⟨false,rfl,?_⟩
            have lengths : (left.childrenAt i).map left.nodeTree ≠ (right.childrenAt j).map right.nodeTree := by
              intro same
              have sizes := congrArg List.length same
              simp only [List.length_map,TypeArena.childrenAt,if_pos leftKind,if_pos rightKind,
                List.length_range] at sizes
              exact count sizes
            simp [lengths]

end equality
end Bennu
