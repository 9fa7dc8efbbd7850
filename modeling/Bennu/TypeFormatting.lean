import Mathlib.Algebra.BigOperators.Ring.List
import Bennu.ScalarFormatting
import Bennu.TypeComposition
import Bennu.WorkStack

/-! `format_type` writes a type from a stack of work into arrays whose sizes are computed
beforehand. It agrees with the rendering by recursion on the tree, and no two trees have
the same rendering. -/
namespace Bennu

open StacklessWalk WorkStack

section writing

/-- `FormatAction`. -/
inductive TypeFormatAction where
  | node (index : Nat)
  | text (text : Text)
  deriving DecidableEq, Repr

def scalarTypeName : Option ScalarType → Text
  | some .boolean => "Bool".toList
  | some .integer => "Int".toList
  | some .doublePrecision => "Double".toList
  | none => []

variable (textCapacity stackCapacity : Nat) (type : TypeArena)

/-- What a tuple pushes in turn: its bracket, then its children from the last to the first, a
separator above every one but the first. -/
def tuplePushes (node : TypeNode) : List TypeFormatAction :=
  .text ">".toList :: (List.range node.childCount).reverse.flatMap fun offset =>
    .node (type.childAt (node.firstChild + offset)) ::
      if offset ≠ 0 then [.text ", ".toList] else []

/-- The action of one round, already popped. -/
def typeFormatStep (action : TypeFormatAction) (formatted : Text) (rest : List TypeFormatAction) :
    Except HostResourceErrorReason (Text × List TypeFormatAction) :=
  match action with
  | .text text => do
    let formatted ← pushAll textCapacity text formatted
    return (formatted,rest)
  | .node index =>
    let node := type.node index
    if node.kind = some .scalar then do
      let formatted ← pushAll textCapacity (scalarTypeName node.scalar) formatted
      return (formatted,rest)
    else if node.kind = some .vector then do
      let formatted ← pushAll textCapacity "Vector<".toList formatted
      let formatted ← pushAll textCapacity (scalarTypeName node.scalar) formatted
      let formatted ← pushAll textCapacity ">".toList formatted
      return (formatted,rest)
    else do
      let formatted ← pushAll textCapacity "Tuple<".toList formatted
      let stack ← pushStackAll stackCapacity (tuplePushes type node) rest
      return (formatted,stack)

/-- More rounds than the loop over the stack takes. -/
def typeFormatRounds : Nat := 2 * type.typeNodes.length + type.childIndexes.length

/-- The loop of `format_type`, in arrays of the given sizes. -/
def writeType : Option (Except HostResourceErrorReason Text) :=
  match pushStack stackCapacity (.node type.rootIndex) [] with
  | .error reason => some (.error reason)
  | .ok stack => WorkStack.run (typeFormatStep textCapacity stackCapacity type) (typeFormatRounds type) [] stack

end writing

def formatType (type : TypeArena) (r : HostRequests) : HostRequests × Option (Except TypeFailure Text) :=
  match validateType type r with
  | (next,none) => (next,none)
  | (next,some (.error failure)) => (next,some (.error failure))
  | (next,some (.ok _)) =>
    let nodes := type.typeNodes.length
    let edges := type.childIndexes.length
    if nodes > sizeMax / 16 ∨ edges > (sizeMax - nodes * 16) / 2 then
      (next,some (.error (.resource .sizeOverflow)))
    else if edges > (sizeMax - nodes - 1) / 2 then (next,some (.error (.resource .sizeOverflow)))
    else
      let textCapacity := nodes * 16 + edges * 2
      let stackCapacity := nodes + edges * 2 + 1
      match next.allocate [textCapacity,stackCapacity] with
      | (last,.none) => (last,(writeType textCapacity stackCapacity type).map
          fun written => written.mapError TypeFailure.resource)
      | (last,reason) => (last,some (.error (.resource reason)))

section rendering

mutual

/-- The rendering of a type: its elements in their order between brackets. -/
def TypeTree.render : TypeTree → Text
  | .scalar type => scalarTypeName (some type)
  | .vector elementType => "Vector<".toList ++ scalarTypeName (some elementType) ++ ">".toList
  | .tuple elements =>
    "Tuple<".toList ++ ", ".toList.intercalate (TypeTree.renderAll elements) ++ ">".toList

def TypeTree.renderAll : List TypeTree → List Text
  | [] => []
  | tree :: rest => tree.render :: TypeTree.renderAll rest

end

theorem TypeTree.render_scalar (type : ScalarType) :
    (TypeTree.scalar type).render = scalarTypeName (some type) := rfl

theorem TypeTree.render_vector (elementType : ScalarType) : (TypeTree.vector elementType).render =
    "Vector<".toList ++ scalarTypeName (some elementType) ++ ">".toList := rfl

theorem TypeTree.render_tuple (elements : List TypeTree) : (TypeTree.tuple elements).render =
    "Tuple<".toList ++ ", ".toList.intercalate (TypeTree.renderAll elements) ++ ">".toList := rfl

theorem TypeTree.renderAll_cons (tree : TypeTree) (rest : List TypeTree) :
    renderAll (tree :: rest) = tree.render :: renderAll rest := rfl

theorem TypeTree.renderAll_eq (trees : List TypeTree) : renderAll trees = trees.map render := by
  induction trees with
  | nil => rfl
  | cons tree rest ih => rw [renderAll_cons,ih,List.map_cons]

/-- No rendering begins like the end of a tuple. -/
theorem TypeTree.render_head (tree : TypeTree) : ∃ c text, tree.render = c :: text ∧ c ≠ '>' := by
  cases tree with
  | scalar type =>
    cases type with
    | boolean => exact ⟨'B',_,rfl,by decide⟩
    | integer => exact ⟨'I',_,rfl,by decide⟩
    | doublePrecision => exact ⟨'D',_,rfl,by decide⟩
  | vector elementType => exact ⟨'V',_,rfl,by decide⟩
  | tuple elements => exact ⟨'T',_,rfl,by decide⟩

theorem scalarTypeName_unique {left right : ScalarType} {r s : Text}
    (same : scalarTypeName (some left) ++ r = scalarTypeName (some right) ++ s) : left = right ∧ r = s := by
  cases left <;> cases right <;> simp_all [scalarTypeName]

/-- What follows the first element of a tuple. -/
def TypeTree.renderMore (trees : List TypeTree) : Text := (renderAll trees).flatMap (", ".toList ++ ·)

theorem TypeTree.render_tuple_nil : (TypeTree.tuple []).render = "Tuple<".toList ++ ">".toList := by
  rw [render_tuple]
  simp [renderAll]

theorem TypeTree.render_tuple_cons (first : TypeTree) (rest : List TypeTree) :
    (TypeTree.tuple (first :: rest)).render =
      "Tuple<".toList ++ (first.render ++ renderMore rest) ++ ">".toList := by
  rw [render_tuple,renderAll_cons,intercalate_cons,renderMore]

theorem TypeTree.renderMore_cons (tree : TypeTree) (rest : List TypeTree) :
    renderMore (tree :: rest) = ", ".toList ++ (tree.render ++ renderMore rest) := by
  rw [renderMore,renderAll_cons,List.flatMap_cons,List.append_assoc,renderMore]

theorem TypeTree.renderMore_nil : renderMore [] = [] := rfl

mutual

/-- No rendering is a beginning of another one. -/
theorem TypeTree.render_unique : ∀ (left right : TypeTree) (r s : Text),
    left.render ++ r = right.render ++ s → left = right ∧ r = s
  | .scalar a,.scalar b,r,s,same => by
    obtain ⟨rfl,rest⟩ := scalarTypeName_unique same
    exact ⟨rfl,rest⟩
  | .scalar a,.vector b,r,s,same => by
    cases a <;> simp [render_scalar,render_vector,scalarTypeName] at same
  | .scalar a,.tuple fs,r,s,same => by
    cases a <;> simp [render_scalar,render_tuple,scalarTypeName] at same
  | .vector a,.scalar b,r,s,same => by
    cases b <;> simp [render_scalar,render_vector,scalarTypeName] at same
  | .vector a,.vector b,r,s,same => by
    simp only [render_vector,List.append_assoc,List.append_cancel_left_eq] at same
    obtain ⟨rfl,rest⟩ := scalarTypeName_unique same
    exact ⟨rfl,List.append_cancel_left rest⟩
  | .vector a,.tuple fs,r,s,same => by
    simp [render_vector,render_tuple] at same
  | .tuple es,.scalar b,r,s,same => by
    cases b <;> simp [render_scalar,render_tuple,scalarTypeName] at same
  | .tuple es,.vector b,r,s,same => by
    simp [render_vector,render_tuple] at same
  | .tuple [],.tuple [],r,s,same => ⟨rfl,List.append_cancel_left same⟩
  | .tuple [],.tuple (f :: fs),r,s,same => by
    obtain ⟨c,text,head,other⟩ := f.render_head
    simp [render_tuple_nil,render_tuple_cons,head,Ne.symm other] at same
  | .tuple (e :: es),.tuple [],r,s,same => by
    obtain ⟨c,text,head,other⟩ := e.render_head
    simp [render_tuple_nil,render_tuple_cons,head,other] at same
  | .tuple (e :: es),.tuple (f :: fs),r,s,same => by
    simp only [render_tuple_cons,List.append_assoc,List.append_cancel_left_eq] at same
    obtain ⟨rfl,more⟩ := TypeTree.render_unique e f _ _ same
    obtain ⟨rfl,rest⟩ := TypeTree.renderMore_unique es fs r s more
    exact ⟨rfl,rest⟩

theorem TypeTree.renderMore_unique : ∀ (left right : List TypeTree) (r s : Text),
    renderMore left ++ (">".toList ++ r) = renderMore right ++ (">".toList ++ s) → left = right ∧ r = s
  | [],[],r,s,same => ⟨rfl,List.append_cancel_left same⟩
  | [],f :: fs,r,s,same => by
    simp [renderMore_cons,renderMore_nil] at same
  | e :: es,[],r,s,same => by
    simp [renderMore_cons,renderMore_nil] at same
  | e :: es,f :: fs,r,s,same => by
    simp only [renderMore_cons,List.append_assoc,List.append_cancel_left_eq] at same
    obtain ⟨rfl,more⟩ := TypeTree.render_unique e f _ _ same
    obtain ⟨rfl,rest⟩ := TypeTree.renderMore_unique es fs r s more
    exact ⟨rfl,rest⟩

end

theorem TypeTree.render_inj {left right : TypeTree} : left.render = right.render ↔ left = right :=
  ⟨fun same => (left.render_unique right [] [] (congrArg (· ++ []) same)).1,congrArg _⟩

end rendering

section walk

variable {type : TypeArena} {i : Nat}

/-- What the nodes of the subtree under a node weigh together. -/
def TypeArena.Exact.weight (exact : type.Exact) (w : Nat → Nat) (i : Nat) : Nat :=
  (exact.tree.forest fun _ outside => childrenAt_outside outside).weight w i

theorem TypeArena.Exact.weight_eq (exact : type.Exact) (w : Nat → Nat) (i : Nat) :
    exact.weight w i = w i + ((type.childrenAt i).map (exact.weight w)).sum :=
  Forest.weight_eq w i

theorem TypeArena.Exact.weight_root (exact : type.Exact) (w : Nat → Nat) :
    exact.weight w type.rootIndex = ((List.range type.typeNodes.length).map w).sum := by
  have root := exact.root
  have last : type.rootIndex = type.typeNodes.length - 1 := by omega
  rw [last]
  exact exact.tree.weight_root (by omega) (fun _ outside => childrenAt_outside outside) w

/-- Every edge leads to one child. -/
theorem TypeArena.Exact.children_total (exact : type.Exact) :
    ((List.range type.typeNodes.length).map fun i => (type.childrenAt i).length).sum =
      type.childIndexes.length := by
  simp only [length_childrenAt]
  rw [← List.length_flatMap,exact.tree.edges.length_eq,List.length_range]

/-- What a node writes before its children. -/
def TypeArena.opening (type : TypeArena) (i : Nat) : Text :=
  match (type.node i).kind with
  | some .scalar => scalarTypeName (type.node i).scalar
  | some .vector => "Vector<".toList ++ scalarTypeName (type.node i).scalar ++ ">".toList
  | _ => "Tuple<".toList

/-- The actions that a node leaves on the stack. -/
def TypeArena.continuation (type : TypeArena) (i : Nat) : List TypeFormatAction :=
  if (type.node i).kind = some .tuple then
    separated (.text ", ".toList) (fun k => .node (type.childOf i k)) (type.node i).childCount ++
      [.text ">".toList]
  else []

/-- What an action and everything that comes of it write. -/
def TypeArena.actionText (type : TypeArena) : TypeFormatAction → Text
  | .text text => text
  | .node i => (type.nodeTree i).render

/-- One for a text, and for a node what its subtree weighs. -/
def typeActionNeed (exact : type.Exact) (w : Nat → Nat) : TypeFormatAction → Nat
  | .text _ => 1
  | .node i => exact.weight w i

theorem tuplePushes_reverse (type : TypeArena) (i : Nat) :
    (tuplePushes type (type.node i)).reverse =
      separated (.text ", ".toList) (fun k => .node (type.childOf i k)) (type.node i).childCount ++
        [.text ">".toList] := by
  rw [tuplePushes,List.reverse_cons,List.reverse_flatMap,List.reverse_reverse,separated]
  refine congrArg (· ++ _) (List.flatMap_congr fun k _ => ?_)
  dsimp only [Function.comp_apply]
  split
  · rfl
  · rfl

theorem mem_typeContinuation {action : TypeFormatAction} (member : action ∈ type.continuation i) :
    (∃ text, action = .text text) ∨
      ∃ c ∈ type.childrenAt i, action = .node c := by
  unfold TypeArena.continuation at member
  split at member
  · rename_i kind
    rcases List.mem_append.mp member with inner | close
    · rcases mem_separated inner with separator | ⟨k,less,node⟩
      · exact .inl ⟨_,separator⟩
      · exact .inr ⟨_,TypeArena.mem_childrenAt_of_tuple kind less,node⟩
    · exact .inl ⟨_,List.mem_singleton.mp close⟩
  · cases member

theorem typeActionNeed_continuation (exact : type.Exact) (w : Nat → Nat) (i : Nat) :
    ((type.continuation i).map (typeActionNeed exact w)).sum + w i ≤
      1 + (type.childrenAt i).length + exact.weight w i := by
  rw [exact.weight_eq]
  unfold TypeArena.continuation TypeArena.childrenAt
  split
  · have nodes := @separated_sum _ (.text ", ".toList) (fun k => .node (type.childOf i k))
      (typeActionNeed exact w) rfl (type.node i).childCount
    have same : ((List.range (type.node i).childCount).map fun k =>
        typeActionNeed exact w (.node (type.childOf i k))) =
          ((List.range (type.node i).childCount).map (type.childOf i)).map (exact.weight w) := by
      rw [List.map_map]
      rfl
    rw [same] at nodes
    simp only [List.map_append,List.sum_append,List.map_cons,List.map_nil,List.sum_cons,List.sum_nil,
      typeActionNeed,List.length_map,List.length_range] at nodes ⊢
    omega
  · simp

/-- The rendering of a node is what it writes at once and what it leaves to be written. -/
theorem actionText_typeContinuation (exact : type.Exact) (inside : i < type.typeNodes.length) :
    (type.nodeTree i).render = type.opening i ++ (type.continuation i).flatMap type.actionText := by
  have shape := exact.shape inside
  generalize type.nodeTree i = tree at shape
  unfold TypeArena.opening TypeArena.continuation
  cases shape with
  | scalar kind element scalar =>
    rw [kind,scalar,TypeTree.render_scalar]
    simp
  | vector kind element scalar =>
    rw [kind,scalar,TypeTree.render_vector]
    simp
  | tuple kind =>
    have children : (separated (.text ", ".toList) (fun k => .node (type.childOf i k))
        (type.node i).childCount).flatMap type.actionText =
        ", ".toList.intercalate (TypeTree.renderAll ((type.childrenAt i).map type.nodeTree)) := by
      rw [TypeTree.renderAll_eq,TypeArena.childrenAt,if_pos kind,List.map_map,List.map_map,
        ← intercalate_range,separated,List.flatMap_assoc]
      refine List.flatMap_congr fun k _ => ?_
      split <;> simp [TypeArena.actionText]
    rw [TypeTree.render_tuple,kind,if_pos rfl,List.flatMap_append,children]
    simp [TypeArena.actionText]

/-- A round over a tree replaces a node by what stands for the rest of it. -/
theorem typeFormatStep_fits (exact : type.Exact) (inside : i < type.typeNodes.length)
    {textCapacity stackCapacity : Nat} {formatted : Text} {rest : List TypeFormatAction}
    (text : formatted.length + (type.opening i).length ≤ textCapacity)
    (stack : (type.continuation i).length + rest.length ≤ stackCapacity) :
    typeFormatStep textCapacity stackCapacity type (.node i) formatted rest =
      .ok (formatted ++ type.opening i,type.continuation i ++ rest) := by
  have shape := exact.shape inside
  generalize type.nodeTree i = tree at shape
  unfold TypeArena.opening TypeArena.continuation at *
  unfold typeFormatStep
  dsimp only
  cases shape with
  | scalar kind element scalar =>
    simp only [kind,reduceCtorEq,Option.some.injEq,if_true,if_false] at text ⊢
    rw [pushAll_ok text]
    rfl
  | vector kind element scalar =>
    simp only [kind,reduceCtorEq,Option.some.injEq,if_true,if_false,List.length_append] at text ⊢
    rw [pushAll_ok (by omega)]
    change (pushAll textCapacity (scalarTypeName (type.node i).scalar) _ >>= _) = _
    rw [pushAll_ok (by simp only [List.length_append]; omega)]
    change (pushAll textCapacity ">".toList _ >>= _) = _
    rw [pushAll_ok (by simp only [List.length_append]; omega)]
    simp [bind,Except.bind,pure,Except.pure]
  | tuple kind =>
    simp only [kind,reduceCtorEq,Option.some.injEq,if_true,if_false] at text stack ⊢
    have pushes := congrArg List.length (tuplePushes_reverse type i)
    rw [List.length_reverse] at pushes
    have fits : rest.length + (tuplePushes type (type.node i)).length ≤ stackCapacity := by omega
    rw [pushAll_ok text]
    change (pushStackAll stackCapacity (tuplePushes type (type.node i)) rest >>= _) = _
    rw [pushStackAll_ok fits,tuplePushes_reverse]
    rfl

/-- The stack of actions over a tree, with what it stands for and what it needs. -/
def typeUnfolding (exact : type.Exact) (textCapacity stackCapacity : Nat) :
    Unfolding (typeFormatStep textCapacity stackCapacity type) textCapacity stackCapacity where
  Known
    | .node i => i < type.typeNodes.length
    | .text _ => True
  emits
    | .node i => type.opening i
    | .text text => text
  pushes
    | .node i => type.continuation i
    | .text _ => []
  text := type.actionText
  rounds := typeActionNeed exact fun i => 2 + (type.childrenAt i).length
  space := typeActionNeed exact fun i => 1 + (type.childrenAt i).length
  known := by
    intro action inside next member
    rcases action with i | text
    · rcases mem_typeContinuation member with ⟨text,rfl⟩ | ⟨c,child,rfl⟩
      · trivial
      · exact exact.child_inside inside c child
    · cases member
  text_eq := by
    intro action inside
    rcases action with i | text
    · exact actionText_typeContinuation exact inside
    · simp [TypeArena.actionText]
  rounds_le := by
    intro action inside
    rcases action with i | text
    · have needs := typeActionNeed_continuation exact (fun i => 2 + (type.childrenAt i).length) i
      simp only [typeActionNeed]
      omega
    · exact le_rfl
  space_le := by
    intro action inside
    rcases action with i | text
    · have needs := typeActionNeed_continuation exact (fun i => 1 + (type.childrenAt i).length) i
      simp only [typeActionNeed]
      omega
    · exact Nat.zero_le _
  space_pos := by
    intro action inside
    rcases action with i | text
    · simp only [typeActionNeed,exact.weight_eq]
      omega
    · exact Nat.one_pos
  step_eq := by
    intro action formatted rest inside text stack
    rcases action with i | more
    · exact typeFormatStep_fits exact inside text stack
    · simp only [typeFormatStep,pushAll_ok text]
      rfl

end walk

section room

variable {type left right : TypeArena} {i : Nat}

/-- The room that one node takes of the text. -/
def TypeArena.textRoomAt (type : TypeArena) (i : Nat) : Nat := 16 + 2 * (type.childrenAt i).length

/-- The capacities that `format_type` computes. -/
def TypeArena.textRoom (type : TypeArena) : Nat := type.typeNodes.length * 16 + type.childIndexes.length * 2

def TypeArena.stackRoom (type : TypeArena) : Nat := type.typeNodes.length + type.childIndexes.length * 2 + 1

theorem length_scalarTypeName (type : ScalarType) : (scalarTypeName (some type)).length ≤ 6 := by
  cases type <;> decide

theorem length_intercalate_le {α : Type} (separator : List α) (parts : List (List α)) :
    (separator.intercalate parts).length ≤ (parts.map List.length).sum + separator.length * parts.length := by
  cases parts with
  | nil => simp
  | cons first rest =>
    have joined : (rest.flatMap (separator ++ ·)).length =
        (rest.map List.length).sum + separator.length * rest.length := by
      induction rest with
      | nil => simp
      | cons next rest ih =>
        rw [List.flatMap_cons,List.length_append,ih,List.length_append,List.map_cons,List.sum_cons,
          List.length_cons,Nat.mul_succ]
        omega
    rw [intercalate_cons,List.length_append,joined,List.map_cons,List.sum_cons,List.length_cons,
      Nat.mul_succ]
    omega

/-- No node is rendered longer than the room for the nodes of its subtree. -/
theorem length_render_node (exact : type.Exact) (inside : i < type.typeNodes.length) :
    (type.nodeTree i).render.length ≤ exact.weight type.textRoomAt i := by
  induction i using Nat.strongRecOn with
  | _ i ih =>
    have shape := exact.shape inside
    generalize type.nodeTree i = tree at shape
    rw [exact.weight_eq,TypeArena.textRoomAt]
    cases shape with
    | scalar kind element scalar =>
      have short := length_scalarTypeName element
      rw [TypeTree.render_scalar]
      omega
    | vector kind element scalar =>
      have short := length_scalarTypeName element
      have opening : "Vector<".toList.length = 7 := rfl
      have closing : ">".toList.length = 1 := rfl
      rw [TypeTree.render_vector,List.length_append,List.length_append]
      omega
    | tuple kind =>
      have joined := length_intercalate_le ", ".toList
        ((type.childrenAt i).map fun c => (type.nodeTree c).render)
      have children : (((type.childrenAt i).map fun c => (type.nodeTree c).render).map List.length).sum ≤
          ((type.childrenAt i).map (exact.weight type.textRoomAt)).sum := by
        rw [List.map_map]
        exact List.sum_le_sum fun c child =>
          ih c (exact.tree.earlier i inside c child) (exact.child_inside inside c child)
      have opening : "Tuple<".toList.length = 6 := rfl
      have closing : ">".toList.length = 1 := rfl
      have separator : ", ".toList.length = 2 := rfl
      rw [separator,List.length_map] at joined
      rw [TypeTree.render_tuple,TypeTree.renderAll_eq,List.map_map,List.length_append,List.length_append]
      change _ + (", ".toList.intercalate ((type.childrenAt i).map
        fun c => (type.nodeTree c).render)).length + _ ≤ _
      omega

theorem text_total_type (exact : type.Exact) : exact.weight type.textRoomAt type.rootIndex = type.textRoom := by
  have children := exact.children_total
  rw [exact.weight_root,TypeArena.textRoom,← children]
  unfold TypeArena.textRoomAt
  simp only [List.sum_map_add,List.sum_map_mul_left,List.map_const',List.sum_replicate,
    List.length_range]
  ring

/-- With arrays of the capacities computed, the writing ends and every push has its place. -/
theorem writeType_exact (exact : type.Exact) :
    writeType type.textRoom type.stackRoom type = some (.ok type.tree.render) ∧
      type.tree.render.length ≤ type.textRoom := by
  have root := exact.root
  have short := @length_render_node type type.rootIndex exact (by omega)
  rw [text_total_type exact] at short
  have children := exact.children_total
  have pushed : pushStack type.stackRoom (TypeFormatAction.node type.rootIndex) [] =
      .ok [.node type.rootIndex] := pushWithin_fits (by rw [List.length_nil,TypeArena.stackRoom]; omega) _
  refine ⟨?_,short⟩
  unfold writeType
  rw [pushed]
  refine ((typeUnfolding exact _ _).run_eq (typeFormatRounds type) [] [.node type.rootIndex]
    ?_ ?_ ?_ ?_).trans ?_
  · rintro action member
    rw [List.mem_singleton.mp member]
    exact Nat.lt_of_succ_le root.le
  · simpa [typeUnfolding,TypeArena.actionText] using short
  · simp only [typeUnfolding,List.map_cons,List.map_nil,List.sum_cons,List.sum_nil,typeActionNeed,
      exact.weight_root,List.sum_map_add,children,List.map_const',List.sum_replicate,
      List.length_range,nsmul_eq_mul,Nat.cast_id,TypeArena.stackRoom]
    omega
  · simp only [typeUnfolding,List.map_cons,List.map_nil,List.sum_cons,List.sum_nil,typeActionNeed,
      exact.weight_root,List.sum_map_add,children,typeFormatRounds,List.map_const',
      List.sum_replicate,List.length_range,nsmul_eq_mul,Nat.cast_id]
    omega
  · simp [typeUnfolding,TypeArena.actionText,TypeArena.tree]

/-- The host's answer to `format_type` of a tree: the scratch tables of the validation, a
capacity that is a size, and the two arrays. -/
def formatTypeRequests (type : TypeArena) (r : HostRequests) : HostRequests × HostResourceErrorReason :=
  thenRequest (typeRequests type r) fun next =>
    if sizeMax < type.textRoom then (next,.sizeOverflow)
    else next.allocate [type.textRoom,type.stackRoom]

theorem formatType_tree (exact : type.Exact) (r : HostRequests) :
    formatType type r = answered (formatTypeRequests type r) type.tree.render := by
  obtain ⟨written,-⟩ := writeType_exact exact
  have root := exact.root
  have first : type.typeNodes.length > sizeMax / 16 ∨
      type.childIndexes.length > (sizeMax - type.typeNodes.length * 16) / 2 ↔ sizeMax < type.textRoom := by
    rw [TypeArena.textRoom]
    omega
  have second : ¬sizeMax < type.textRoom →
      ¬type.childIndexes.length > (sizeMax - type.typeNodes.length - 1) / 2 := by
    rw [TypeArena.textRoom]
    omega
  rw [formatType,formatTypeRequests,validateType_tree exact]
  obtain ⟨next,reason⟩ := typeRequests type r
  cases reason with
  | none =>
    simp only [answered,thenRequest,first]
    by_cases overflow : sizeMax < type.textRoom
    · simp only [if_pos overflow]
    · simp only [if_neg overflow,if_neg (second overflow)]
      simp only [TypeArena.textRoom,TypeArena.stackRoom] at written ⊢
      generalize next.allocate _ = arrays
      obtain ⟨last,reason⟩ := arrays
      cases reason with
      | none =>
        simp only [written]
        rfl
      | sizeOverflow => rfl
      | allocationUnavailable => rfl
  | sizeOverflow => rfl
  | allocationUnavailable => rfl

/-- On every valid type `format_type` returns the rendering of its tree, unless the host refuses
a request; the text fits the capacity computed for it, and that is a size whenever the tables
of the arena are; two types have the same text exactly when `structural_type_equal` holds. -/
theorem type_formatting_exact :
    (∀ type : TypeArena, type.Exact →
      (∀ r, formatType type r = answered (formatTypeRequests type r) type.tree.render) ∧
      type.tree.render.length ≤ type.textRoom ∧
      (type.typeNodes.length * 24 ≤ sizeMax → type.childIndexes.length * 8 ≤ sizeMax →
        type.textRoom ≤ sizeMax)) ∧
    (∀ left right : TypeArena, left.Exact → right.Exact → ∃ equal,
      (equal = true ↔ left.tree.render = right.tree.render) ∧
      ∀ r, structuralTypeEqual left right r = answered (equalRequests left right r) equal) := by
  refine ⟨fun type exact => ⟨formatType_tree exact,(writeType_exact exact).2,fun nodes edges => ?_⟩,
    fun left right leftExact rightExact => ?_⟩
  · rw [TypeArena.textRoom]
    omega
  · obtain ⟨equal,same,answers⟩ := structuralTypeEqual_trees leftExact rightExact
    exact ⟨equal,same.trans TypeTree.render_inj.symm,answers⟩

/-- The type of a pair is written, and is not the type of its first component. -/
theorem type_formatting_exact_pair : ∃ pair,
    (∀ r, formatType pair r = answered (formatTypeRequests pair r) "Tuple<Int, Vector<Bool>>".toList) ∧
      ∃ equal, equal = false ∧ ∀ r, structuralTypeEqual pair (makeScalarType .integer) r =
        answered (equalRequests pair (makeScalarType .integer) r) equal := by
  have number : (makeScalarType .integer).Exact := makeLeafType_exact (by decide) .integer
  have flags : (makeVectorType .boolean).Exact := makeLeafType_exact (by decide) .boolean
  obtain ⟨pairExact,tree⟩ := @tupleType_tree [makeScalarType .integer,makeVectorType .boolean]
    (by simp [number,flags])
  have written : (tupleType [makeScalarType .integer,makeVectorType .boolean]).tree.render =
      "Tuple<Int, Vector<Bool>>".toList := by
    rw [tree]
    rfl
  obtain ⟨formats,compares⟩ := type_formatting_exact
  obtain ⟨equal,iff,answers⟩ := compares _ _ pairExact number
  refine ⟨_,fun r => by rw [← written]; exact (formats _ pairExact).1 r,equal,?_,answers⟩
  have apart : "Tuple<Int, Vector<Bool>>".toList ≠ (makeScalarType .integer).tree.render := by decide
  rw [← Bool.not_eq_true,iff,written]
  exact apart

end room
end Bennu
