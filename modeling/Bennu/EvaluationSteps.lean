import Bennu.TreeEvaluation

/-! Steps of evaluation on states whose nodes are as they should be: what has been evaluated and
not yet used is live with one use, what lies ahead has none of it yet. -/
namespace Bennu
open Forest

section evaluation

variable {R V A E : Type} {operations : EvaluationOperations R V A E} {program : RewriteProgram}
  {lowering : RewriteLoweringProgram} {state after : EvaluationState R V A} {bound first middle last index : Nat}
  {ids : List Nat} {values : List V} {value : V}

/-! ### Runs and results -/

/-- A run of the loop comes to what the trees come to: the same failure, or it goes on from a state
with the same storage of which more is known. -/
def Goes {α : Type} (run : EvaluationRun R V A E (EvaluationState R V A)) (result : Evaluated E (α × R))
    (holds : α → EvaluationState R V A → Prop)
    (next : α → EvaluationState R V A → EvaluationRun R V A E (EvaluationState R V A)) : Prop :=
  match result with
  | .error failure => ∃ state, run = .error (failure,state)
  | .ok (found,resources) => ∃ state, run = next found state ∧ state.resources = resources ∧ holds found state

/-- A run of the loop comes to what the trees come to. -/
abbrev Runs {α : Type} (run : EvaluationRun R V A E (EvaluationState R V A)) (result : Evaluated E (α × R))
    (holds : α → EvaluationState R V A → Prop) : Prop :=
  Goes run result holds fun _ => .ok

theorem Goes.runs {α : Type} {run : EvaluationRun R V A E (EvaluationState R V A)} {result : Evaluated E (α × R)}
    {holds : α → EvaluationState R V A → Prop}
    {next : α → EvaluationState R V A → EvaluationRun R V A E (EvaluationState R V A)}
    {later : α → EvaluationState R V A → Prop} (goes : Goes run result holds next)
    (ends : ∀ found state, holds found state → ∃ after, next found state = .ok after ∧
      after.resources = state.resources ∧ later found after) : Runs run result later := by
  cases result with
  | error failure => exact goes
  | ok found =>
    obtain ⟨state,ran,storage,holding⟩ := goes
    obtain ⟨after,ended,same,holding⟩ := ends _ _ holding
    exact ⟨after,ran.trans ended,same.trans storage,holding⟩

theorem Goes.bind {α β : Type} {run : EvaluationRun R V A E (EvaluationState R V A)} {result : Evaluated E (α × R)}
    {holds : α → EvaluationState R V A → Prop}
    {next : α → EvaluationState R V A → EvaluationRun R V A E (EvaluationState R V A)}
    {step : EvaluationState R V A → EvaluationRun R V A E (EvaluationState R V A)}
    {continued : α × R → Evaluated E (β × R)} {later : β → EvaluationState R V A → Prop}
    {next' : β → EvaluationState R V A → EvaluationRun R V A E (EvaluationState R V A)} (begins : Goes run result holds next)
    (goes : ∀ found state, holds found state →
      Goes (next found state >>= step) (continued (found,state.resources)) later next') :
    Goes (run >>= step) (result >>= continued) later next' := by
  cases result with
  | error failure =>
    obtain ⟨state,rfl⟩ := begins
    exact ⟨state,rfl⟩
  | ok found =>
    obtain ⟨found,resources⟩ := found
    obtain ⟨state,rfl,rfl,holding⟩ := begins
    exact goes found state holding

theorem Goes.mono {α : Type} {run : EvaluationRun R V A E (EvaluationState R V A)} {result : Evaluated E (α × R)}
    {holds later : α → EvaluationState R V A → Prop}
    {next : α → EvaluationState R V A → EvaluationRun R V A E (EvaluationState R V A)} (goes : Goes run result holds next)
    (implies : ∀ found state, holds found state → later found state) : Goes run result later next := by
  cases result with
  | error failure => exact goes
  | ok found =>
    obtain ⟨state,ran,storage,holding⟩ := goes
    exact ⟨state,ran,storage,implies _ _ holding⟩

theorem Goes.map {α β : Type} {run : EvaluationRun R V A E (EvaluationState R V A)} {result : Evaluated E (α × R)}
    {holds : α → EvaluationState R V A → Prop} {later : β → EvaluationState R V A → Prop} {convert : α → β}
    (runs : Runs run result holds) (implies : ∀ found state, holds found state → later (convert found) state) :
    Runs run (result >>= fun found => .ok (convert found.1,found.2)) later := by
  cases result with
  | error failure => exact runs
  | ok found =>
    obtain ⟨state,ran,storage,holding⟩ := runs
    exact ⟨state,ran,storage,implies _ _ holding⟩

/-! ### States -/

/-- Nothing has happened from a node on. -/
structure Fresh (program : RewriteProgram) (first : Nat) (state : EvaluationState R V A) : Prop where
  dead : ∀ node, first ≤ node → state.nodeValues node = none
  unused : ∀ node, first ≤ node → node < program.nodes.length → state.remainingUses node = 1

/-- Between two nodes something happens: other nodes keep what they have, and so do the fanouts
whose operand comes before a bound. -/
structure Keeps (program : RewriteProgram) (bound first last : Nat) (state after : EvaluationState R V A) : Prop where
  values : ∀ node, node < first ∨ last ≤ node → after.nodeValues node = state.nodeValues node
  uses : ∀ node, node < first ∨ last ≤ node → after.remainingUses node = state.remainingUses node
  assemblies : ∀ fanout < program.fanouts.length, (program.fanoutAt fanout).operand < bound →
    after.assemblies fanout = state.assemblies fanout ∧ after.assemblyLive fanout = state.assemblyLive fanout

/-- A node holds a value that one node will use. -/
def Holds (state : EvaluationState R V A) (node : Nat) (value : V) : Prop :=
  state.nodeValues node = some value ∧ state.remainingUses node = 1

theorem Keeps.refl (state : EvaluationState R V A) : Keeps program bound first last state state :=
  ⟨fun _ _ => rfl,fun _ _ => rfl,fun _ _ _ => ⟨rfl,rfl⟩⟩

theorem Keeps.trans {state' : EvaluationState R V A} {bound' : Nat} (earlier : Keeps program bound first middle state state')
    (later : Keeps program bound' middle last state' after) (order : first ≤ middle) (order' : middle ≤ last)
    (bounds : bound ≤ bound') : Keeps program bound first last state after where
  values := by
    intro node outside
    rw [later.values node (by omega),earlier.values node (by omega)]
  uses := by
    intro node outside
    rw [later.uses node (by omega),earlier.uses node (by omega)]
  assemblies := by
    intro fanout inside before
    obtain ⟨same,live⟩ := later.assemblies fanout inside (by omega)
    obtain ⟨same',live'⟩ := earlier.assemblies fanout inside before
    exact ⟨same.trans same',live.trans live'⟩

theorem Keeps.fresh (keeps : Keeps program bound first last state after) (fresh : Fresh program first state)
    (order : first ≤ last) : Fresh program last after where
  dead := fun node beyond => (keeps.values node (.inr beyond)).trans (fresh.dead node (Nat.le_trans order beyond))
  unused := fun node beyond inside =>
    (keeps.uses node (.inr beyond)).trans (fresh.unused node (Nat.le_trans order beyond) inside)

theorem Keeps.holds (keeps : Keeps program bound first last state after) (holds : Holds state index value)
    (outside : index < first ∨ last ≤ index) : Holds after index value :=
  ⟨(keeps.values index outside).trans holds.1,(keeps.uses index outside).trans holds.2⟩

/-! ### Nodes are settled and used -/

/-- A node gets its value. -/
def EvaluationState.settled (state : EvaluationState R V A) (index : Nat) (value : V) : EvaluationState R V A :=
  { state with nodeValues := Function.update state.nodeValues index (some value) }

theorem settleValue_unused (unused : state.remainingUses index = 1) :
    settleValue operations index value state = state.settled index value := by
  rw [settleValue]
  dsimp only
  rw [if_neg (by rw [unused]; decide)]
  rfl

theorem Keeps.settled (keeps : Keeps program bound first last state after) (within : first ≤ index ∧ index < last) :
    Keeps program bound first last state (after.settled index value) where
  values := by
    intro node outside
    rw [EvaluationState.settled]
    dsimp only
    rw [Function.update_of_ne (by omega)]
    exact keeps.values node outside
  uses := keeps.uses
  assemblies := keeps.assemblies

theorem settled_holds (unused : state.remainingUses index = 1) : Holds (state.settled index value) index value :=
  ⟨Function.update_self _ _ _,unused⟩

/-- What nodes have held has been used. -/
def EvaluationState.consumed (state : EvaluationState R V A) (ids : List Nat) : EvaluationState R V A :=
  { state with
    nodeValues := fun node => if node ∈ ids then none else state.nodeValues node
    remainingUses := fun node => if node ∈ ids then 0 else state.remainingUses node }

theorem Keeps.consumed (keeps : Keeps program bound first last state after) {resources : R}
    (within : ∀ id ∈ ids, first ≤ id ∧ id < last) :
    Keeps program bound first last state { after.consumed ids with resources } where
  values := by
    intro node outside
    have absent : node ∉ ids := fun member => by
      have bounds := within node member
      omega
    simp only [EvaluationState.consumed,absent,if_false]
    exact keeps.values node outside
  uses := by
    intro node outside
    have absent : node ∉ ids := fun member => by
      have bounds := within node member
      omega
    simp only [EvaluationState.consumed,absent,if_false]
    exact keeps.uses node outside
  assemblies := keeps.assemblies

/-- What there was at the nodes between two has been used, but at some. -/
def Spent (first last : Nat) (kept : List Nat) (state : EvaluationState R V A) : Prop :=
  ∀ node, first ≤ node → node < last → node ∉ kept → state.nodeValues node = none ∧ state.remainingUses node = 0

theorem Spent.append {kept : List Nat} (earlier : Spent first middle ids state) (later : Spent middle last kept state) :
    Spent first last (ids ++ kept) state := by
  intro node lower upper absent
  rw [List.mem_append,not_or] at absent
  rcases Nat.lt_or_ge node middle with before | behind
  · exact earlier node lower before absent.1
  · exact later node behind upper absent.2

theorem Spent.keeps (spent : Spent first middle ids state) (keeps : Keeps program bound middle last state after) :
    Spent first middle ids after := by
  intro node lower upper absent
  rw [keeps.values node (.inl upper),keeps.uses node (.inl upper)]
  exact spent node lower upper absent

theorem Spent.consumed (spent : Spent first last ids state) (resources : R) :
    Spent first last [] { state.consumed ids with resources } := by
  intro node lower upper _
  by_cases member : node ∈ ids
  · simp [EvaluationState.consumed,member]
  · simpa [EvaluationState.consumed,member] using spent node lower upper member

theorem Spent.empty (state : EvaluationState R V A) : Spent first first ids state := by
  intro node lower upper
  omega

theorem forall₂_imp {X Y : Type} {related implied : X → Y → Prop} {entries : List X} {others : List Y}
    (holding : List.Forall₂ related entries others)
    (implies : ∀ entry ∈ entries, ∀ other, related entry other → implied entry other) :
    List.Forall₂ implied entries others := by
  induction holding with
  | nil => exact .nil
  | cons first _ ih =>
    exact .cons (implies _ List.mem_cons_self _ first) (ih fun entry member => implies entry (List.mem_cons_of_mem _ member))

/-- Elements that are live move out of their nodes. -/
theorem takeElements_holds (distinct : ids.Nodup) (holding : List.Forall₂ (Holds state) ids values)
    (taken : List V) : takeElements ids state taken = .ok (taken ++ values,state.consumed ids) := by
  induction ids generalizing state values taken with
  | nil =>
    cases holding
    rw [takeElements,List.append_nil]
    simp [EvaluationState.consumed]
  | cons id ids ih =>
    obtain ⟨value,values,first,later,rfl⟩ := List.forall₂_cons_left_iff.mp holding
    obtain ⟨fresh,distinct⟩ := List.nodup_cons.mp distinct
    rw [takeElements,first.1]
    dsimp only
    rw [if_neg (not_not.mpr first.2)]
    have still : List.Forall₂ (Holds ({ state with
        nodeValues := Function.update state.nodeValues id none
        remainingUses := Function.update state.remainingUses id (state.remainingUses id - 1) })) ids values := by
      refine forall₂_imp later fun other member _ holds => ?_
      have apart : other ≠ id := fun same => fresh (same ▸ member)
      exact ⟨(Function.update_of_ne apart _ _).trans holds.1,(Function.update_of_ne apart _ _).trans holds.2⟩
    rw [ih distinct still,List.append_assoc,List.singleton_append]
    congr 2
    simp only [EvaluationState.consumed,EvaluationState.mk.injEq,true_and,and_true]
    constructor <;> funext node <;> by_cases here : node = id
    · simp [here]
    · simp [here]
    · simp [here,first.2]
    · simp [here]

theorem countDown_uses (distinct : ids.Nodup) (uses : Nat → Nat) :
    ids.foldl (fun uses argument => Function.update uses argument (uses argument - 1)) uses =
      fun node => if node ∈ ids then uses node - 1 else uses node := by
  induction ids generalizing uses with
  | nil => simp
  | cons id rest ih =>
    obtain ⟨fresh,distinct⟩ := List.nodup_cons.mp distinct
    rw [List.foldl_cons,ih distinct]
    funext node
    by_cases here : node = id
    · subst here
      simp [fresh]
    · simp [here]

theorem argumentsUsable_holds (distinct : ids.Nodup) (holding : List.Forall₂ (Holds state) ids values)
    (inside : ∀ id ∈ ids, id < lowering.nodes.length) :
    ∀ prior, (∀ id ∈ ids, id ∉ prior) → argumentsUsable lowering state prior ids = true := by
  induction holding with
  | nil => exact fun _ _ => rfl
  | @cons id value ids values first later ih =>
    intro prior apart
    obtain ⟨fresh,distinct⟩ := List.nodup_cons.mp distinct
    have absent := apart id List.mem_cons_self
    have rest := ih distinct (fun other member => inside other (List.mem_cons_of_mem _ member)) (prior ++ [id])
      fun other member => by
        rw [List.mem_append,List.mem_singleton]
        rintro (before | rfl)
        · exact apart other (List.mem_cons_of_mem _ member) before
        · exact fresh member
    rw [argumentsUsable,rest,List.count_eq_zero.mpr absent,first.1,first.2]
    simp [inside id List.mem_cons_self]

theorem releaseConsumed_holds (distinct : ids.Nodup)
    (holding : List.Forall₂ (fun id value => state.nodeValues id = some value ∧ state.remainingUses id = 0) ids values)
    (passing : ∀ id ∈ ids, (loweringNodeAt lowering.nodes id).retainedRoot = false) :
    releaseConsumed operations lowering ids state = { state with
      resources := values.foldr (fun value resources => operations.release resources value) state.resources
      nodeValues := fun node => if node ∈ ids then none else state.nodeValues node } := by
  induction holding with
  | nil => simp [releaseConsumed]
  | @cons id value ids values first later ih =>
    obtain ⟨fresh,distinct⟩ := List.nodup_cons.mp distinct
    have rest := ih distinct fun other member => passing other (List.mem_cons_of_mem _ member)
    have absent : ids.contains id = false := by simpa using fresh
    rw [releaseConsumed,rest]
    dsimp only
    rw [if_pos ⟨absent,first.2,passing id List.mem_cons_self⟩,releaseRewriteNodeValue]
    simp only [fresh,if_false,first.1]
    simp only [EvaluationState.mk.injEq,true_and,and_true,List.foldr_cons]
    funext node
    by_cases here : node = id
    · simp [here]
    · simp [here]

/-- Arguments that are live are used, and their values released. -/
theorem completeConsumerAttempt_holds (distinct : ids.Nodup) (holding : List.Forall₂ (Holds state) ids values)
    (inside : ∀ id ∈ ids, id < lowering.nodes.length)
    (passing : ∀ id ∈ ids, (loweringNodeAt lowering.nodes id).retainedRoot = false) :
    completeConsumerAttempt operations lowering ids state = some { state.consumed ids with
      resources := values.foldr (fun value resources => operations.release resources value) state.resources } := by
  have usable := argumentsUsable_holds distinct holding inside [] fun _ _ => List.not_mem_nil
  rw [completeConsumerAttempt,usable,countDown_uses distinct]
  simp only [Bool.true_eq_false,if_false]
  have counted : List.Forall₂ (fun id value => state.nodeValues id = some value ∧
      (if id ∈ ids then state.remainingUses id - 1 else state.remainingUses id) = 0) ids values := by
    refine forall₂_imp holding fun id member value holds => ⟨holds.1,?_⟩
    rw [if_pos member,holds.2]
  rw [@releaseConsumed_holds R V A E operations lowering { state with
    remainingUses := fun node => if node ∈ ids then state.remainingUses node - 1 else state.remainingUses node }
    ids values distinct counted passing]
  simp only [EvaluationState.consumed,Option.some.injEq,EvaluationState.mk.injEq,true_and,and_true]
  have all : ∀ id ∈ ids, state.remainingUses id = 1 := by
    clear counted usable passing inside distinct
    induction holding with
    | nil =>
      intro id member
      cases member
    | cons first _ ih =>
      intro id member
      rcases List.mem_cons.mp member with rfl | member
      · exact first.2
      · exact ih id member
  funext node
  by_cases member : node ∈ ids
  · simp [member,all node member]
  · simp [member]

/-! ### Fanouts that do not concern a node -/

/-- No fanout has the node as its operand or the root of a branch. -/
def Unfanned (program : RewriteProgram) (node : Nat) : Prop :=
  ∀ fanout < program.fanouts.length, (program.fanoutAt fanout).operand ≠ node ∧
    ∀ position < (program.fanoutAt fanout).branchCount,
      (program.branchAt ((program.fanoutAt fanout).firstBranch + position)).root ≠ node

theorem foldlM_idle {S F X : Type} {step : S → X → Except F S} {entries : List X}
    (idle : ∀ entry ∈ entries, ∀ state, step state entry = .ok state) (state : S) :
    entries.foldlM step state = .ok state := by
  induction entries with
  | nil => rfl
  | cons entry rest ih =>
    rw [List.foldlM_cons,idle entry List.mem_cons_self]
    exact ih fun other member => idle other (List.mem_cons_of_mem _ member)

/-- A loop in which one entry acts. -/
theorem foldlM_single {S F X : Type} {step : S → X → Except F S} {entries : List X} {entry : X}
    (distinct : entries.Nodup) (member : entry ∈ entries)
    (idle : ∀ other ∈ entries, other ≠ entry → ∀ state, step state other = .ok state) (state : S) :
    entries.foldlM step state = step state entry := by
  obtain ⟨before,behind,rfl⟩ := List.append_of_mem member
  obtain ⟨-,later,apart⟩ := List.nodup_append.mp distinct
  obtain ⟨fresh,-⟩ := List.nodup_cons.mp later
  have first : before.foldlM step state = .ok state := foldlM_idle (fun other listed =>
    idle other (List.mem_append_left _ listed) (apart other listed entry List.mem_cons_self)) state
  rw [List.foldlM_append,first]
  show (step state entry >>= fun state => behind.foldlM step state) = _
  cases step state entry with
  | error failure => rfl
  | ok after =>
    exact foldlM_idle (fun other listed =>
      idle other (List.mem_append_right _ (List.mem_cons_of_mem _ listed)) fun same => fresh (same ▸ listed)) after

theorem admitFanouts_idle (idle : ∀ fanout < program.fanouts.length, (program.fanoutAt fanout).operand + 1 ≠ index)
    (state : EvaluationState R V A) : admitFanouts operations program lowering index state = .ok state := by
  rw [admitFanouts]
  refine foldlM_idle (fun fanout member state => ?_) state
  rw [admitFanout]
  rw [if_pos (idle fanout (List.mem_range.mp member))]

theorem Unfanned.idle (plain : Unfanned program index) (state : EvaluationState R V A) :
    admitFanouts operations program lowering (index + 1) state = .ok state :=
  admitFanouts_idle (fun fanout inside same => (plain fanout inside).1 (Nat.succ.inj same)) state

theorem Unfanned.branchOfNode (plain : Unfanned program index) : branchOfNode program index = none := by
  rw [Bennu.branchOfNode,List.findSome?_eq_none_iff]
  intro fanout member
  rw [Option.map_eq_none_iff,List.find?_eq_none]
  intro position listed same
  exact (plain fanout (List.mem_range.mp member)).2 position (List.mem_range.mp listed) (by simpa using same)

end evaluation

end Bennu
