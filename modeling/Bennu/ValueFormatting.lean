import Mathlib.Algebra.BigOperators.Ring.List
import Bennu.ArenaVisits
import Bennu.ScalarFormatting
import Bennu.WorkStack

/-! `format_value` writes a value without recursion, from a stack of work into arrays whose
sizes are computed beforehand. It agrees with the rendering by recursion on the tree. -/
namespace Bennu

open StacklessWalk WorkStack

/-- `ValueFormatAction`. -/
inductive ValueFormatAction where
  | node (index : Nat)
  | separator
  | closeTuple
  deriving DecidableEq, Repr

inductive FormattingFailure where
  | invalid (value : InvalidValue)
  | conversionFailure
  | resource (reason : HostResourceErrorReason)
  deriving DecidableEq, Repr

/-- `append_failed`: what a failed append is reported as. -/
def AppendError.failure : AppendError → FormattingFailure
  | .sizeOverflow => .resource .sizeOverflow
  | .conversionFailure => .conversionFailure

def ValidationFailure.formatting : ValidationFailure → FormattingFailure
  | .invalid value => .invalid value
  | .resource reason => .resource reason

section loop

variable (textCapacity stackCapacity : Nat) (library : ToChars) (t : TupleValue)

/-- `host_array_push` on the stack of actions, whose top comes first. -/
def pushAction (action : ValueFormatAction) (stack : List ValueFormatAction) :
    Except FormattingFailure (List ValueFormatAction) :=
  pushWithin stackCapacity (.resource .sizeOverflow) action stack

/-- The children of a tuple from the last to the first, a separator above every one but the
first. -/
def pushNodes (first : Nat) : Nat → List ValueFormatAction →
    Except FormattingFailure (List ValueFormatAction)
  | 0,stack => .ok stack
  | offset + 1,stack => do
    let stack ← pushAction stackCapacity (.node (t.childAt (first + offset))) stack
    let stack ← (if offset ≠ 0 then pushAction stackCapacity .separator stack else .ok stack)
    pushNodes first offset stack

/-- The action of one round, already popped. -/
def formatStep (action : ValueFormatAction) (formatted : Text) (rest : List ValueFormatAction) :
    Except FormattingFailure (Text × List ValueFormatAction) :=
  match action with
  | .separator => do
    let formatted ← (pushCharacter textCapacity formatted ' ').mapError AppendError.failure
    .ok (formatted,rest)
  | .closeTuple => do
    let formatted ← (pushCharacter textCapacity formatted ']').mapError AppendError.failure
    .ok (formatted,rest)
  | .node index => match t.containerAt index with
    | .scalar => do
      let formatted ← (appendScalar textCapacity library formatted
        (t.node index).scalar).mapError AppendError.failure
      .ok (formatted,rest)
    | .vector => do
      let formatted ← (appendVector textCapacity library formatted
        (t.payloadOf index)).mapError AppendError.failure
      .ok (formatted,rest)
    | .tuple => do
      let formatted ← (pushCharacter textCapacity formatted '[').mapError AppendError.failure
      let stack ← pushAction stackCapacity .closeTuple rest
      let stack ← pushNodes stackCapacity t (t.childRange index).1 (t.childRange index).2 stack
      .ok (formatted,stack)

/-- More rounds than the loop over the stack takes. -/
def formatRounds : Nat := 2 * (t.nodes.length + 1) + t.childIndexes.length

/-- The part of `format_value` that writes, in arrays of the given sizes. -/
def writeValue (v : Value) : Option (Except FormattingFailure Text) :=
  match v.container with
  | .scalar => some ((appendScalar textCapacity library [] v.scalar).mapError AppendError.failure)
  | .vector => some ((appendVector textCapacity library [] v.vector).mapError AppendError.failure)
  | .tuple => match pushAction stackCapacity (.node v.tuple.rootIndex) [] with
    | .error failure => some (.error failure)
    | .ok stack => WorkStack.run (formatStep textCapacity stackCapacity library v.tuple)
      (formatRounds v.tuple) [] stack

end loop

section capacities

/-- A capacity enlarged by `units` times `width`, unless that is not a size. -/
def growCapacity (capacity units width : Nat) : Option Nat :=
  if units > (sizeMax - capacity) / width then none else some (capacity + units * width)

def growPayloads : Nat → List VectorValue → Option Nat
  | capacity,[] => some capacity
  | capacity,payload :: rest =>
    (growCapacity capacity payload.activeLength 65).bind fun capacity => growPayloads capacity rest

/-- `text_capacity` and `stack_capacity`; `none` for a size overflow. -/
def formatCapacities (v : Value) : Option (Nat × Nat) :=
  match v.container with
  | .scalar => some (66,0)
  | .vector => (growCapacity 66 v.vector.activeLength 65).map (·,0)
  | .tuple =>
    let nodes := v.tuple.nodes.length
    let edges := v.tuple.childIndexes.length
    if nodes = sizeMax ∨ nodes + 1 > sizeMax / 66 then none
    else (growCapacity ((nodes + 1) * 66) edges 2).bind fun capacity =>
      (growPayloads capacity v.tuple.vectorPayloads).bind fun capacity =>
        if edges > (sizeMax - nodes - 1) / 2 then none else some (capacity,nodes + edges * 2 + 1)

/-- The two arrays of `format_value`, under the container limit. -/
def allocateFormatArrays (f : HostFailureInjection) (h : Host) (text stack : Nat) :
    HostFailureInjection × Host × HostResourceErrorReason :=
  match beginHostAllocation f with
  | (begun,.none) =>
    if begun.maxContainerElements.any fun maximum => decide (text > maximum) then
      (begun,h,.sizeOverflow)
    else match h.allocateHostArrays 1 with
      | (next,.none) =>
        if stack = 0 then (begun,next,.none)
        else if begun.maxContainerElements.any fun maximum => decide (stack > maximum) then
          (begun,next,.sizeOverflow)
        else
          let (last,reason) := next.allocateHostArrays 1
          (begun,last,reason)
      | (next,reason) => (begun,next,reason)
  | (begun,reason) => (begun,h,reason)

def formatValue (library : ToChars) (f : HostFailureInjection) (h : Host) (v : Value) :
    HostFailureInjection × Host × Option (Except FormattingFailure Text) :=
  match validateValue f h v with
  | (begun,next,some failure) => (begun,next,some (.error failure.formatting))
  | (begun,next,none) => match formatCapacities v with
    | none => (begun,next,some (.error (.resource .sizeOverflow)))
    | some (text,stack) => match allocateFormatArrays begun next text stack with
      | (begun,next,.none) => (begun,next,writeValue text stack library v)
      | (begun,next,reason) => (begun,next,some (.error (.resource reason)))

end capacities

section rendering

variable (library : ToChars)

/-- The rendering of one node: brackets around the renderings of its children in their order,
single spaces between them. -/
def TupleValue.renderAt (t : TupleValue) : Nat → Nat → Text
  | 0,_ => []
  | depth + 1,i => match t.containerAt i with
    | .scalar => (t.node i).scalar.render library
    | .vector => (t.payloadOf i).render library
    | .tuple => '[' :: [' '].intercalate ((List.range (t.childCountAt i)).map fun k =>
        t.renderAt depth (t.childOf i k)) ++ [']']

def Value.render (v : Value) : Text :=
  match v.container with
  | .scalar => v.scalar.render library
  | .vector => v.vector.render library
  | .tuple => v.tuple.renderAt library (v.tuple.nodes.length + 1) v.tuple.rootIndex

def TupleValue.Converts (t : TupleValue) : Prop :=
  (∀ node ∈ t.nodes, node.scalar.Converts library) ∧
    ∀ payload ∈ t.vectorPayloads, payload.Converts library

/-- The library converts every double in the value. -/
def Value.Converts (v : Value) : Prop :=
  match v.container with
  | .scalar => v.scalar.Converts library
  | .vector => v.vector.Converts library
  | .tuple => v.tuple.Converts library

end rendering

section actions

variable {t : TupleValue} {library : ToChars}

/-- The nodes of the children in their order, separators between them. -/
def separatedNodes (child : Nat → Nat) (count : Nat) : List ValueFormatAction :=
  separated .separator (fun k => .node (child k)) count

theorem pushAction_fits {capacity : Nat} {stack : List ValueFormatAction}
    (room : stack.length + 1 ≤ capacity) (action : ValueFormatAction) :
    pushAction capacity action stack = .ok (action :: stack) :=
  pushWithin_fits room action

/-- The loop over the children leaves the first of them on top. -/
theorem pushNodes_fits {capacity first count : Nat} {stack : List ValueFormatAction}
    (room : (separatedNodes (fun k => t.childAt (first + k)) count).length + stack.length ≤ capacity) :
    pushNodes capacity t first count stack =
      .ok (separatedNodes (fun k => t.childAt (first + k)) count ++ stack) := by
  unfold separatedNodes at room ⊢
  induction count generalizing stack with
  | zero => rfl
  | succ count ih =>
    rw [separated_succ] at room ⊢
    simp only [List.length_append,List.length_singleton] at room
    rw [pushNodes,pushAction_fits (by omega)]
    change ((if count ≠ 0 then pushAction capacity .separator (.node (t.childAt (first + count)) :: stack)
      else .ok (.node (t.childAt (first + count)) :: stack)) >>= _) = _
    by_cases none : count = 0
    · subst none
      rfl
    · rw [if_pos none] at room ⊢
      simp only [List.length_singleton] at room
      rw [pushAction_fits (by simp only [List.length_cons]; omega)]
      refine (ih ?_).trans ?_
      · simp only [List.length_cons]
        omega
      · simp [none]

/-- Any depth that covers a node gives the same rendering. -/
theorem renderAt_depth (earlier : ∀ i ≤ t.nodes.length, ∀ c ∈ t.childrenAt i, c < i) {i : Nat}
    (inside : i ≤ t.nodes.length) {depth : Nat} (covered : i < depth) :
    t.renderAt library depth i = t.renderAt library (i + 1) i := by
  induction i using Nat.strongRecOn generalizing depth with
  | _ i ih =>
    obtain ⟨depth,rfl⟩ := Nat.exists_eq_succ_of_ne_zero (Nat.ne_of_gt (Nat.zero_lt_of_lt covered))
    unfold TupleValue.renderAt
    cases container : t.containerAt i with
    | scalar => rfl
    | vector => rfl
    | tuple =>
      have same : ((List.range (t.childCountAt i)).map fun k => t.renderAt library depth (t.childOf i k)) =
          (List.range (t.childCountAt i)).map fun k => t.renderAt library i (t.childOf i k) := by
        refine List.map_congr_left fun k member => ?_
        have less := earlier i inside _
          (TupleValue.mem_childrenAt.mpr ⟨inside,container,k,List.mem_range.mp member,rfl⟩)
        have within := less.le.trans inside
        have deep : t.childOf i k < depth := by omega
        rw [ih _ less within deep,ih _ less within less]
      simp only [same]

end actions

section walk

variable {h : Host} {t : TupleValue} {scalar : ScalarValue} {library : ToChars}

/-- What a node writes before its children. -/
def TupleValue.opening (t : TupleValue) (library : ToChars) (i : Nat) : Text :=
  match t.containerAt i with
  | .scalar => (t.node i).scalar.render library
  | .vector => (t.payloadOf i).render library
  | .tuple => ['[']

/-- The actions that a node leaves on the stack. -/
def TupleValue.continuation (t : TupleValue) (i : Nat) : List ValueFormatAction :=
  match t.containerAt i with
  | .tuple => separatedNodes (t.childOf i) (t.childCountAt i) ++ [.closeTuple]
  | _ => []

/-- What an action and everything that comes of it write. -/
def TupleValue.actionText (t : TupleValue) (library : ToChars) : ValueFormatAction → Text
  | .separator => [' ']
  | .closeTuple => [']']
  | .node i => t.renderAt library (i + 1) i

/-- One for every action that is not a node, and for a node what its subtree weighs. -/
def actionNeed (f : Forest) (w : Nat → Nat) : ValueFormatAction → Nat
  | .node i => f.weight w i
  | _ => 1

theorem actionNeed_continuation (wf : t.WellFormed h) (w : Nat → Nat) {i : Nat}
    (inside : i ≤ t.nodes.length) :
    ((t.continuation i).map (actionNeed wf.forest w)).sum + w i ≤
      1 + (t.childrenAt i).length + wf.forest.weight w i := by
  have whole : wf.forest.weight w i = w i + ((t.childrenAt i).map (wf.forest.weight w)).sum :=
    Forest.weight_eq w i
  rw [whole]
  unfold TupleValue.continuation TupleValue.childrenAt
  cases container : t.containerAt i with
  | scalar => simp
  | vector => simp
  | tuple =>
    have nodes := @separated_sum _ .separator (fun k => .node (t.childOf i k)) (actionNeed wf.forest w) rfl (t.childCountAt i)
    have same : ((List.range (t.childCountAt i)).map fun k =>
        actionNeed wf.forest w (.node (t.childOf i k))) =
          ((List.range (t.childCountAt i)).map (t.childOf i)).map (wf.forest.weight w) := by
      rw [List.map_map]
      rfl
    rw [same] at nodes
    rw [if_pos ⟨inside,rfl⟩]
    simp only [separatedNodes,List.map_append,List.sum_append,List.map_cons,List.map_nil,List.sum_cons,List.sum_nil,
      actionNeed,List.length_map,List.length_range] at nodes ⊢
    omega

theorem mem_continuation {i : Nat} {action : ValueFormatAction} (member : action ∈ t.continuation i) :
    action = .separator ∨ action = .closeTuple ∨
      t.containerAt i = .tuple ∧ ∃ k < t.childCountAt i, action = .node (t.childOf i k) := by
  unfold TupleValue.continuation at member
  cases container : t.containerAt i with
  | scalar => simp [container] at member
  | vector => simp [container] at member
  | tuple =>
    simp only [container] at member
    rcases List.mem_append.mp member with separated | close
    · rcases mem_separated separated with separator | ⟨k,less,node⟩
      · exact .inl separator
      · exact .inr (.inr ⟨rfl,k,less,node⟩)
    · exact .inr (.inl (List.mem_singleton.mp close))

theorem actionText_continuation (exact : t.Exact h scalar) {i : Nat} (inside : i ≤ t.nodes.length) :
    t.renderAt library (i + 1) i =
      t.opening library i ++ (t.continuation i).flatMap (t.actionText library) := by
  unfold TupleValue.renderAt TupleValue.opening TupleValue.continuation
  cases container : t.containerAt i with
  | scalar => simp
  | vector => simp
  | tuple =>
    have children : (separatedNodes (t.childOf i) (t.childCountAt i)).flatMap (t.actionText library) =
        [' '].intercalate ((List.range (t.childCountAt i)).map fun k =>
          t.renderAt library i (t.childOf i k)) := by
      rw [separatedNodes,separated,List.flatMap_assoc,← intercalate_range]
      refine List.flatMap_congr fun k member => ?_
      have less := exact.earlier i inside _
        (TupleValue.mem_childrenAt.mpr ⟨inside,container,k,List.mem_range.mp member,rfl⟩)
      rw [renderAt_depth exact.earlier (less.le.trans inside) less]
      split <;> simp [TupleValue.actionText]
    simp only [List.flatMap_append,children,List.flatMap_cons,List.flatMap_nil,TupleValue.actionText]
    simp

theorem converts_node (exact : t.Exact h scalar) (converts : t.Converts library) {i : Nat}
    (inside : i ≤ t.nodes.length) : (t.containerAt i = .scalar → (t.node i).scalar.Converts library) ∧
      (t.containerAt i = .vector → (t.payloadOf i).Converts library) := by
  constructor
  · intro container
    have other : i ≠ t.nodes.length := by
      rintro rfl
      rw [TupleValue.containerAt,if_pos exact.root.symm] at container
      cases container
    have less : i < t.nodes.length := by omega
    rw [TupleValue.node,List.getD_eq_getElem t.nodes _ less]
    exact converts.1 _ (List.getElem_mem less)
  · intro container
    have sound := exact.sound i inside
    rw [TupleValue.NodeSound,container] at sound
    obtain ⟨-,-,-,-,payload,found,-⟩ := sound
    have same : t.payloadOf i = payload := by
      rw [TupleValue.payloadOf,List.getD_eq_getElem?_getD,found,Option.getD_some]
    rw [same]
    exact converts.2 payload (List.mem_of_getElem? found)

/-- A round over an exact arena replaces an action by what stands for the rest of it. -/
theorem formatStep_fits (exact : t.Exact h scalar) (converts : t.Converts library)
    {textCapacity stackCapacity i : Nat} (inside : i ≤ t.nodes.length) {formatted : Text}
    {rest : List ValueFormatAction}
    (text : formatted.length + (t.opening library i).length ≤ textCapacity)
    (stack : (t.continuation i).length + rest.length ≤ stackCapacity) :
    formatStep textCapacity stackCapacity library t (.node i) formatted rest =
      .ok (formatted ++ t.opening library i,t.continuation i ++ rest) := by
  obtain ⟨scalars,vectors⟩ := converts_node exact converts inside
  unfold TupleValue.opening TupleValue.continuation at *
  unfold formatStep
  cases container : t.containerAt i with
  | scalar =>
    simp only [container] at text ⊢
    rw [appendScalar_fits (scalars container) text]
    rfl
  | vector =>
    simp only [container] at text ⊢
    rw [appendVector_fits (vectors container) text]
    rfl
  | tuple =>
    simp only [container,List.length_append,List.length_cons,List.length_nil] at text stack ⊢
    have children : separatedNodes (fun k => t.childAt ((t.childRange i).1 + k)) (t.childRange i).2 =
        separatedNodes (t.childOf i) (t.childCountAt i) := rfl
    rw [pushCharacter_fits (by omega)]
    change (pushAction stackCapacity .closeTuple rest >>= _) = _
    rw [pushAction_fits (by omega)]
    change (pushNodes stackCapacity t (t.childRange i).1 (t.childRange i).2 _ >>= _) = _
    rw [pushNodes_fits (by rw [children,List.length_cons]; omega),children]
    change Except.ok _ = _
    simp

theorem actionNeed_rounds (exact : t.Exact h scalar) {i : Nat} (inside : i ≤ t.nodes.length) :
    1 + ((t.continuation i).map (actionNeed exact.wellFormed.forest fun i => 2 + (t.childrenAt i).length)).sum ≤
      actionNeed exact.wellFormed.forest (fun i => 2 + (t.childrenAt i).length) (.node i) := by
  have needs := actionNeed_continuation exact.wellFormed (fun i => 2 + (t.childrenAt i).length) inside
  simp only [actionNeed]
  omega

theorem actionNeed_spaces (exact : t.Exact h scalar) {i : Nat} (inside : i ≤ t.nodes.length) :
    ((t.continuation i).map (actionNeed exact.wellFormed.forest fun i => 1 + (t.childrenAt i).length)).sum ≤
      actionNeed exact.wellFormed.forest (fun i => 1 + (t.childrenAt i).length) (.node i) := by
  have needs := actionNeed_continuation exact.wellFormed (fun i => 1 + (t.childrenAt i).length) inside
  simp only [actionNeed]
  omega

theorem actionNeed_positive (exact : t.Exact h scalar) (i : Nat) :
    0 < actionNeed exact.wellFormed.forest (fun i => 1 + (t.childrenAt i).length) (.node i) := by
  simp only [actionNeed,Forest.weight_eq]
  omega

/-- The stack of actions over an exact arena, with what it stands for and what it needs. -/
def formatUnfolding (exact : t.Exact h scalar) (converts : t.Converts library)
    (textCapacity stackCapacity : Nat) :
    Unfolding (formatStep textCapacity stackCapacity library t) textCapacity stackCapacity where
  Known
    | .node i => i ≤ t.nodes.length
    | _ => True
  emits
    | .node i => t.opening library i
    | .separator => [' ']
    | .closeTuple => [']']
  pushes
    | .node i => t.continuation i
    | _ => []
  text := t.actionText library
  rounds := actionNeed exact.wellFormed.forest fun i => 2 + (t.childrenAt i).length
  space := actionNeed exact.wellFormed.forest fun i => 1 + (t.childrenAt i).length
  known := by
    intro action inside pushed member
    rcases action with i | _ | _
    · rcases mem_continuation member with rfl | rfl | ⟨container,k,less,rfl⟩
      · trivial
      · trivial
      · exact (exact.earlier i inside _
          (TupleValue.mem_childrenAt.mpr ⟨inside,container,k,less,rfl⟩)).le.trans inside
    · cases member
    · cases member
  text_eq := by
    intro action inside
    rcases action with i | _ | _
    · exact actionText_continuation exact inside
    · rfl
    · rfl
  rounds_le := by
    intro action inside
    rcases action with i | _ | _
    · exact actionNeed_rounds exact inside
    · exact le_rfl
    · exact le_rfl
  space_le := by
    intro action inside
    rcases action with i | _ | _
    · exact actionNeed_spaces exact inside
    · exact Nat.zero_le _
    · exact Nat.zero_le _
  space_pos := by
    intro action inside
    rcases action with i | _ | _
    · exact actionNeed_positive exact i
    · exact Nat.one_pos
    · exact Nat.one_pos
  step_eq := by
    intro action formatted rest inside text stack
    rcases action with i | _ | _
    · exact formatStep_fits exact converts inside text stack
    · simp only [formatStep,pushCharacter_fits text]
      rfl
    · simp only [formatStep,pushCharacter_fits text]
      rfl

end walk

section room

variable {h : Host} {t : TupleValue} {scalar : ScalarValue} {library : ToChars}

/-- The room that one node takes of the text. -/
def TupleValue.textRoomAt (t : TupleValue) (i : Nat) : Nat :=
  66 + 2 * (t.childrenAt i).length +
    ((t.payloadsAt i).map fun p => (t.vectorPayloads.getD p emptyVector).activeLength * 65).sum

/-- The capacities that `format_value` means to compute. -/
def Value.textRoom (v : Value) : Nat :=
  match v.container with
  | .scalar => 66
  | .vector => 66 + v.vector.activeLength * 65
  | .tuple => (v.tuple.nodes.length + 1) * 66 + v.tuple.childIndexes.length * 2 +
      (v.tuple.vectorPayloads.map fun payload => payload.activeLength * 65).sum

def Value.stackRoom (v : Value) : Nat :=
  match v.container with
  | .tuple => v.tuple.nodes.length + v.tuple.childIndexes.length * 2 + 1
  | _ => 0

theorem opening_length (exact : t.Exact h scalar) (converts : t.Converts library) {i : Nat}
    (inside : i ≤ t.nodes.length) :
    (t.opening library i).length + 1 + (t.childrenAt i).length ≤ t.textRoomAt i := by
  obtain ⟨scalars,vectors⟩ := converts_node exact converts inside
  unfold TupleValue.opening TupleValue.textRoomAt
  cases container : t.containerAt i with
  | scalar =>
    have short := ScalarValue.render_length (scalars container)
    dsimp only
    omega
  | vector =>
    have short := VectorValue.render_length (vectors container)
    have payload : t.payloadsAt i = [(t.node i).vectorPayloadIndex] := if_pos container
    rw [payload]
    simp only [List.map_cons,List.map_nil,List.sum_cons,List.sum_nil]
    rw [TupleValue.payloadOf] at short ⊢
    omega
  | tuple =>
    simp only [List.length_singleton]
    omega

theorem renderAt_length (exact : t.Exact h scalar) (converts : t.Converts library) {i : Nat}
    (inside : i ≤ t.nodes.length) :
    (t.renderAt library (i + 1) i).length ≤ exact.wellFormed.forest.weight t.textRoomAt i := by
  induction i using Nat.strongRecOn with
  | _ i ih =>
    have children : ∀ action ∈ t.continuation i, (t.actionText library action).length ≤
        actionNeed exact.wellFormed.forest t.textRoomAt action := by
      intro action member
      rcases mem_continuation member with rfl | rfl | ⟨container,k,less,rfl⟩
      · exact le_rfl
      · exact le_rfl
      · have earlier := exact.earlier i inside _
          (TupleValue.mem_childrenAt.mpr ⟨inside,container,k,less,rfl⟩)
        exact ih _ earlier (earlier.le.trans inside)
    have needs := actionNeed_continuation exact.wellFormed t.textRoomAt inside
    have opening := opening_length exact converts inside
    have sum := List.sum_le_sum children
    rw [actionText_continuation exact inside,List.length_append,List.length_flatMap]
    omega

theorem weight_root (exact : t.Exact h scalar) (w : Nat → Nat) :
    exact.wellFormed.forest.weight w t.nodes.length = ((List.range (t.nodes.length + 1)).map w).sum :=
  (exact.wellFormed.order_perm.map w).sum_eq

/-- Every edge leads to one child. -/
theorem children_total (exact : t.Exact h scalar) :
    ((List.range (t.nodes.length + 1)).map fun i => (t.childrenAt i).length).sum =
      t.childIndexes.length := by
  have same : (List.range (t.nodes.length + 1)).map (fun i => (t.childrenAt i).length) =
      (List.range (t.nodes.length + 1)).map fun i => (t.edgesAt i).length :=
    List.map_congr_left fun i member =>
      childrenAt_length (Nat.le_of_lt_succ (List.mem_range.mp member))
  rw [same,← List.length_flatMap,exact.edges.length_eq,List.length_range]

theorem payloads_total (exact : t.Exact h scalar) :
    ((List.range (t.nodes.length + 1)).map fun i => ((t.payloadsAt i).map fun p =>
      (t.vectorPayloads.getD p emptyVector).activeLength * 65).sum).sum =
        (t.vectorPayloads.map fun payload => payload.activeLength * 65).sum := by
  have slots : (List.range t.vectorPayloads.length).map (fun p =>
      (t.vectorPayloads.getD p emptyVector).activeLength * 65) =
        t.vectorPayloads.map fun payload => payload.activeLength * 65 :=
    List.ext_getElem (by simp) fun p _ inside => by
      rw [List.length_map] at inside
      simp [List.getElem?_eq_getElem inside]
  rw [← slots,← (exact.payloads.map _).sum_eq,List.flatMap_def,List.map_flatten,List.sum_flatten,
    List.map_map,List.map_map]
  rfl

theorem text_total (exact : t.Exact h scalar) :
    ((List.range (t.nodes.length + 1)).map t.textRoomAt).sum =
      (t.nodes.length + 1) * 66 + t.childIndexes.length * 2 +
        (t.vectorPayloads.map fun payload => payload.activeLength * 65).sum := by
  rw [← children_total exact,← payloads_total exact]
  unfold TupleValue.textRoomAt
  simp only [List.sum_map_add,List.sum_map_mul_left,List.map_const',List.sum_replicate,
    List.length_range]
  ring

end room

section whole

variable {h : Host} {v : Value} {library : ToChars}

/-- With arrays of the capacities computed, the writing ends and every push has its place. -/
theorem writeValue_exact (exact : v.Exact h) (converts : v.Converts library) :
    writeValue v.textRoom v.stackRoom library v = some (.ok (v.render library)) ∧
      (v.render library).length ≤ v.textRoom := by
  unfold Value.Converts at converts
  unfold writeValue Value.render Value.textRoom Value.stackRoom
  cases container : v.container with
  | scalar =>
    simp only [container] at converts ⊢
    have short := ScalarValue.render_length converts
    rw [appendScalar_fits converts (by rw [List.length_nil]; omega)]
    exact ⟨rfl,by omega⟩
  | vector =>
    simp only [container] at converts ⊢
    have short := VectorValue.render_length converts
    rw [appendVector_fits converts (by rw [List.length_nil]; omega)]
    exact ⟨rfl,by omega⟩
  | tuple =>
    simp only [container] at converts ⊢
    have arena := exact.tuple container
    have short := renderAt_length arena converts le_rfl
    rw [weight_root arena,text_total arena] at short
    rw [arena.root,pushAction_fits (by simp)]
    have children := children_total arena
    refine ⟨((formatUnfolding arena converts _ _).run_eq (formatRounds v.tuple) []
      [.node v.tuple.nodes.length] (by simp [formatUnfolding]) ?_ ?_ ?_).trans ?_,short⟩
    · simpa [formatUnfolding,TupleValue.actionText] using short
    · simp only [formatUnfolding,List.map_cons,List.map_nil,List.sum_cons,List.sum_nil,actionNeed,
        weight_root arena,List.sum_map_add,children,List.map_const',List.sum_replicate,
        List.length_range,nsmul_eq_mul,Nat.cast_id]
      omega
    · simp only [formatUnfolding,List.map_cons,List.map_nil,List.sum_cons,List.sum_nil,actionNeed,
        weight_root arena,List.sum_map_add,children,formatRounds,List.map_const',
        List.sum_replicate,List.length_range,nsmul_eq_mul,Nat.cast_id]
      omega
    · simp [formatUnfolding,TupleValue.actionText]

theorem growCapacity_eq {capacity units width : Nat} (fits : capacity ≤ sizeMax) (positive : 0 < width) :
    growCapacity capacity units width =
      if sizeMax < capacity + units * width then none else some (capacity + units * width) := by
  have overflows : units > (sizeMax - capacity) / width ↔ sizeMax < capacity + units * width := by
    rw [gt_iff_lt,Nat.div_lt_iff_lt_mul positive]
    omega
  simp only [growCapacity,overflows]

theorem growPayloads_eq {capacity : Nat} (fits : capacity ≤ sizeMax) (payloads : List VectorValue) :
    growPayloads capacity payloads =
      if sizeMax < capacity + (payloads.map fun payload => payload.activeLength * 65).sum then none
      else some (capacity + (payloads.map fun payload => payload.activeLength * 65).sum) := by
  induction payloads generalizing capacity with
  | nil => simp [growPayloads,fits]
  | cons payload rest ih =>
    rw [growPayloads,growCapacity_eq fits (by decide),List.map_cons,List.sum_cons]
    split
    · rw [if_pos (by omega)]
      rfl
    · rename_i within
      rw [Option.bind_some,ih (by omega),Nat.add_assoc]

/-- The checks refuse exactly the capacities that are no sizes. -/
theorem formatCapacities_eq (v : Value) : formatCapacities v =
    if sizeMax < v.textRoom then none else some (v.textRoom,v.stackRoom) := by
  unfold formatCapacities Value.textRoom Value.stackRoom
  cases v.container with
  | scalar => rfl
  | vector =>
    dsimp only
    rw [growCapacity_eq (by decide) (by decide)]
    split <;> rfl
  | tuple =>
    dsimp only
    by_cases nodes : sizeMax < (v.tuple.nodes.length + 1) * 66
    · rw [if_pos (.inr (by omega)),if_pos (by omega)]
    · rw [if_neg (by simp only [sizeMax] at *; omega),growCapacity_eq (by omega) (by decide)]
      split
      · rw [if_pos (by omega)]
        rfl
      · rw [Option.bind_some,growPayloads_eq (by omega)]
        split
        · rfl
        · rw [Option.bind_some,if_neg (by omega)]

/-- The host's answer to everything that `format_value` asks of it for a valid value: the
scratch tables of the validation, a capacity that is a size, and the two arrays. -/
def formatRequests (f : HostFailureInjection) (h : Host) (v : Value) :
    HostFailureInjection × Host × HostResourceErrorReason :=
  match if v.container = .tuple then validationScratch f h v.tuple else (f,h,.none) with
  | (begun,next,.none) =>
    if sizeMax < v.textRoom then (begun,next,.sizeOverflow)
    else allocateFormatArrays begun next v.textRoom v.stackRoom
  | refused => refused

theorem validateValue_valid (valid : Valid h v) (f : HostFailureInjection) : validateValue f h v =
    match if v.container = .tuple then validationScratch f h v.tuple else (f,h,.none) with
    | (begun,next,.none) => (begun,next,none)
    | (begun,next,reason) => (begun,next,some (.resource reason)) := by
  have root : v.container = .tuple → (validateRoot v).isNone = true := by
    intro container
    cases checked : validateRoot v with
    | none => rfl
    | some fault => simp [Valid,invalidity,checked] at valid
  unfold Valid at valid
  unfold validateValue
  by_cases container : v.container = .tuple
  · rw [if_pos container,valid]
    generalize validationScratch f h v.tuple = scratch
    obtain ⟨begun,next,reason⟩ := scratch
    cases reason <;> simp [container,root container]
  · simp [container,valid]

theorem formatValue_eq (valid : Valid h v) (converts : v.Converts library)
    (f : HostFailureInjection) : formatValue library f h v =
      match formatRequests f h v with
      | (begun,next,.none) => (begun,next,some (.ok (v.render library)))
      | (begun,next,reason) => (begun,next,some (.error (.resource reason))) := by
  obtain ⟨written,-⟩ := writeValue_exact ((invalidity_none_iff h v).mp valid) converts
  unfold formatValue formatRequests
  rw [validateValue_valid valid,formatCapacities_eq]
  obtain ⟨begun,next,reason⟩ :=
    if v.container = .tuple then validationScratch f h v.tuple else (f,h,.none)
  cases reason with
  | none =>
    by_cases overflow : sizeMax < v.textRoom
    · simp only [if_pos overflow]
    · simp only [if_neg overflow]
      obtain ⟨last,final,answer⟩ := allocateFormatArrays begun next v.textRoom v.stackRoom
      cases answer with
      | none => simp only [written]
      | sizeOverflow => rfl
      | allocationUnavailable => rfl
  | sizeOverflow => rfl
  | allocationUnavailable => rfl

/-- On a valid value `format_value` returns exactly the recursive rendering, unless the host
refuses a request: then it returns that refusal. Every push is checked, so none of them found
its array full, and the text fits the capacity computed for it. -/
theorem formatting_exact (valid : Valid h v) (converts : v.Converts library)
    (f : HostFailureInjection) :
    ((formatRequests f h v).2.2 = .none →
      (formatValue library f h v).2.2 = some (.ok (v.render library))) ∧
    (∀ reason, (formatRequests f h v).2.2 = reason → reason ≠ .none →
      (formatValue library f h v).2.2 = some (.error (.resource reason))) ∧
    (v.render library).length ≤ v.textRoom := by
  refine ⟨?_,?_,(writeValue_exact ((invalidity_none_iff h v).mp valid) converts).2⟩
  · intro granted
    rw [formatValue_eq valid converts]
    generalize formatRequests f h v = requests at granted
    obtain ⟨begun,next,reason⟩ := requests
    subst granted
    rfl
  · rintro reason refused other
    rw [formatValue_eq valid converts]
    generalize formatRequests f h v = requests at refused
    obtain ⟨begun,next,answer⟩ := requests
    subst refused
    cases answer with
    | none => exact absurd rfl other
    | sizeOverflow => rfl
    | allocationUnavailable => rfl

/-- The tuple `[[0.5] [] () (0 0) -7]`. -/
theorem formatting_exact_nested :
    let s := (startSession (fun _ _ => .none) (fun _ => .none) [trustedLocalV2Account]).run
      [.makeScalar ⟨.doublePrecision,false,0,0x3fe0000000000000⟩,.makeTuple 0 noHostFailure 0 1,
        .makeTuple 0 noHostFailure 0 0,.allocateVector 0 .integer 0 0,.allocateVector 0 .integer 2 2,
        .makeScalar ⟨.integer,false,-7,0⟩,.makeTuple 0 noHostFailure 1 5]
    let v := s.values.getD 6 invalidConstructionValue
    let library : ToChars := ⟨fun _ => some "0.5".toList⟩
    v.render library = "[[0.5] [] () (0 0) -7]".toList ∧
      (formatValue library noHostFailure s.host v).2.2 = some (.ok (v.render library)) := by
  intro s v library
  have half : library.Converts 0x3fe0000000000000 := fun _ _ =>
    ⟨5,-1,shortest_half,congrArg some (by decide +kernel)⟩
  have valid : Valid s.host v := by decide +kernel
  have scalars : ∀ node ∈ v.tuple.nodes, node.scalar.type = .doublePrecision →
      node.scalar.doublePrecision = 0x3fe0000000000000 := by decide +kernel
  have payloads : ∀ payload ∈ v.tuple.vectorPayloads, payload.elementType = .integer := by
    decide +kernel
  have converts : v.Converts library := by
    refine ⟨fun node member double => ?_,fun payload member index _ double => ?_⟩
    · rw [scalars node member double]
      exact half
    · rw [VectorValue.elementAt,payloads payload member] at double
      cases double
  exact ⟨by decide +kernel,(formatting_exact valid converts noHostFailure).1 (by decide +kernel)⟩

end whole

end Bennu
