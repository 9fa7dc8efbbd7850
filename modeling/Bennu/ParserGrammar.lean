import Bennu.ParserMachine

/-! What the machine accepts lies in the grammar: an invariant of its frames. -/
namespace Bennu

/-- Where a tree stands that is read into these frames. -/
def placeOf : List Frame → Place
  | [] => .outside
  | .fanout none _ :: _ => .operand
  | .fanout (some _) _ :: _ => .branch
  | .branch _ :: _ => .branch
  | _ :: outer => placeOf outer

/-- The innermost frame waits for a tree. -/
def Awaiting : List Frame → Prop
  | .bracketCall _ _ after :: _ => after = false
  | .tuple _ after :: _ => after = false
  | .fanout operand _ :: _ => operand = none
  | .branch body :: _ => body = none
  | _ => True

namespace Vocabulary

/-- What a frame has collected is allowed where it stands, and every frame below it waits
for what is still being read. -/
def FramesAllowed (vocabulary : Vocabulary) : List Frame → Prop
  | [] => True
  | .bracketCall name arguments _ :: outer =>
    (isCallName name = true ∧ (outer.isEmpty = true → name ≠ "parameters".toList) ∧
      vocabulary.AllowsAll (placeOf outer) arguments) ∧
    Awaiting outer ∧ vocabulary.FramesAllowed outer
  | .tuple elements _ :: outer =>
    vocabulary.AllowsAll (placeOf outer) elements ∧
    Awaiting outer ∧ vocabulary.FramesAllowed outer
  | .prefixCall name :: outer =>
    (isCallName name = true ∧ (outer.isEmpty = true → name ≠ "parameters".toList) ∧
      (name ∈ vocabulary.declared → outer.isEmpty = true)) ∧
    Awaiting outer ∧ vocabulary.FramesAllowed outer
  | .fanout operand branches :: outer =>
    (placeOf outer = .outside ∧
      (∀ tree, operand = some tree → vocabulary.Allows .operand false tree) ∧
      vocabulary.AllowsBranches branches) ∧
    Awaiting outer ∧ vocabulary.FramesAllowed outer
  | .branch body :: outer =>
    (∀ tree, body = some tree → vocabulary.Allows .branch false tree) ∧
    (∃ operand branches rest, outer = .fanout (some operand) branches :: rest) ∧
    vocabulary.FramesAllowed outer

def LexemeAllowed (vocabulary : Vocabulary) : Lexeme → Prop
  | .name name => parameterNameSpelling name = true ∧ isKeyword name = false
  | .literal literal => literal.Readable vocabulary.parser
  | _ => True

/-- The invariant of the machine's rounds. -/
structure Formed (vocabulary : Vocabulary) (machine : Machine) : Prop where
  roots : vocabulary.AllowsRoots machine.roots
  frames : vocabulary.FramesAllowed machine.frames
  current : ∀ tree, machine.current = some tree → Awaiting machine.frames ∧
    vocabulary.Allows (placeOf machine.frames) machine.frames.isEmpty tree
  unread : ∀ lexeme ∈ machine.unread, vocabulary.LexemeAllowed lexeme

variable {vocabulary : Vocabulary} {machine later : Machine} {frame reopened : Frame}
  {frames outer : List Frame} {tree body : Expr} {lexemes rest : List Lexeme}

/-! ### Lists of trees -/

theorem allowsAll_append (vocabulary : Vocabulary) (place : Place) (trees : List Expr)
    (tree : Expr) :
    vocabulary.AllowsAll place (trees ++ [tree]) ↔
      vocabulary.AllowsAll place trees ∧ vocabulary.Allows place false tree := by
  induction trees with
  | nil => simp [AllowsAll]
  | cons first rest ih => simp only [List.cons_append,AllowsAll,ih,and_assoc]

theorem allowsBranches_append (vocabulary : Vocabulary) (branches : List Expr)
    (branch : Expr) :
    vocabulary.AllowsBranches (branches ++ [branch]) ↔
      vocabulary.AllowsBranches branches ∧
        vocabulary.Allows .branch false branch ∧ branch.isBranch = true := by
  induction branches with
  | nil => simp [AllowsBranches]
  | cons first rest ih => simp only [List.cons_append,AllowsBranches,ih,and_assoc]

theorem allowsRoots_append (vocabulary : Vocabulary) (roots : List Expr) (root : Expr) :
    vocabulary.AllowsRoots (roots ++ [root]) ↔
      vocabulary.AllowsRoots roots ∧ vocabulary.Allows .outside true root := by
  simp [AllowsRoots,or_imp,forall_and]

/-! ### Frames -/

theorem placeOf_outside (noFanout : frames.any Frame.isFanout = false) :
    placeOf frames = .outside := by
  induction frames with
  | nil => rfl
  | cons frame outer ih =>
    rw [List.any_cons,Bool.or_eq_false_iff] at noFanout
    cases frame with
    | fanout => exact absurd noFanout.1 (by simp [Frame.isFanout])
    | branch => exact absurd noFanout.1 (by simp [Frame.isFanout])
    | _ => exact ih noFanout.2

theorem placeOf_operandRead (awaiting : Awaiting frames) (allowed : FramesAllowed vocabulary frames)
    (read : operandRead frames = true) : placeOf frames = .branch := by
  induction frames with
  | nil => simp [operandRead] at read
  | cons frame outer ih =>
    cases frame with
    | bracketCall => exact ih allowed.2.1 allowed.2.2 read
    | tuple => exact ih allowed.2.1 allowed.2.2 read
    | prefixCall => exact ih allowed.2.1 allowed.2.2 read
    | branch => rfl
    | fanout operand =>
      cases operand with
      | none => simp [operandRead] at read
      | some => rfl

/-- Completing a tree completes the prefix calls it is the argument of. -/
theorem foldPrefix_allowed (frames : List Frame) :
    ∀ tree, vocabulary.FramesAllowed frames → Awaiting frames →
      vocabulary.Allows (placeOf frames) frames.isEmpty tree →
      vocabulary.FramesAllowed (foldPrefix frames tree).1 ∧
        Awaiting (foldPrefix frames tree).1 ∧
        vocabulary.Allows (placeOf (foldPrefix frames tree).1)
          (foldPrefix frames tree).1.isEmpty (foldPrefix frames tree).2 := by
  induction frames with
  | nil => intro tree frames awaiting allowed; exact ⟨frames,awaiting,allowed⟩
  | cons frame outer ih =>
    intro tree frames awaiting allowed
    cases frame with
    | prefixCall name =>
      obtain ⟨⟨named,notHeader,undeclared⟩,below,outerAllowed⟩ := frames
      exact ih _ outerAllowed below ⟨named,notHeader,undeclared,allowed⟩
    | _ => exact ⟨frames,awaiting,allowed⟩

/-- The frame under a completed tree takes it. -/
theorem take_allowed (frames : vocabulary.FramesAllowed (frame :: outer))
    (awaiting : Awaiting (frame :: outer))
    (allowed : vocabulary.Allows (placeOf (frame :: outer)) false tree) :
    vocabulary.FramesAllowed (frame.take tree :: outer) := by
  cases frame with
  | bracketCall =>
    obtain ⟨⟨named,notHeader,arguments⟩,below⟩ := frames
    exact ⟨⟨named,notHeader,(allowsAll_append _ _ _ _).mpr ⟨arguments,allowed⟩⟩,below⟩
  | tuple => exact ⟨(allowsAll_append _ _ _ _).mpr ⟨frames.1,allowed⟩,frames.2⟩
  | prefixCall => exact frames
  | fanout operand branches =>
    cases (show operand = none from awaiting)
    obtain ⟨⟨outside,_,collected⟩,below⟩ := frames
    exact ⟨⟨outside,fun other same => by cases same; exact allowed,collected⟩,below⟩
  | branch => exact ⟨fun other same => by cases same; exact allowed,frames.2⟩

/-! ### Lexemes -/

theorem skipBlank_allowed (unread : ∀ lexeme ∈ lexemes, LexemeAllowed vocabulary lexeme) :
    ∀ lexeme ∈ skipBlank lexemes, LexemeAllowed vocabulary lexeme :=
  fun lexeme member => unread lexeme ((List.dropWhile_sublist _).subset member)

theorem isCallName_iff (name : Text) :
    isCallName name = true ↔
      parameterNameSpelling name = true ∧ isKeyword name = false ∧
        name ≠ "fanout".toList := by
  simp only [isCallName,isKeyword,Bool.and_eq_true,bne_iff_ne,ne_eq,Bool.or_eq_false_iff,
    beq_eq_false_iff_ne]
  grind

theorem readElements_allowed (type : ScalarType) (fuel : Nat) :
    ∀ unread literals rest, (∀ lexeme ∈ unread, LexemeAllowed vocabulary lexeme) →
      readElements type fuel unread = some (literals,rest) →
      (∀ literal ∈ literals, literal.Readable vocabulary.parser ∧ literal.type = type) ∧
        ∀ lexeme ∈ rest, LexemeAllowed vocabulary lexeme := by
  induction fuel with
  | zero => intro unread literals rest _ read; simp [readElements] at read
  | succ fuel ih =>
    intro unread literals rest allowed read
    cases unread with
    | nil => simp [readElements] at read
    | cons lexeme unread =>
      cases lexeme with
      | literal literal =>
        have readable : literal.Readable vocabulary.parser :=
          allowed (.literal literal) List.mem_cons_self
        have restAllowed := fun lexeme member => allowed lexeme (List.mem_cons_of_mem _ member)
        simp only [readElements] at read
        split at read
        · contradiction
        rename_i sameType
        have typed : literal.type = type := by simpa using sameType
        split at read
        · contradiction
        rename_i next later
        have laterAllowed := fun lexeme member =>
          restAllowed lexeme (List.mem_cons_of_mem _ member)
        split at read
        · cases read
          exact ⟨by simpa using ⟨readable,typed⟩,laterAllowed⟩
        split at read
        · contradiction
        have skippedAllowed := skipBlank_allowed laterAllowed
        split at read
        · contradiction
        rename_i next' later' skipped
        rw [skipped] at skippedAllowed
        split at read
        · cases read
          exact ⟨by simpa using ⟨readable,typed⟩,
            fun lexeme member => skippedAllowed lexeme (List.mem_cons_of_mem _ member)⟩
        · obtain ⟨⟨more,rest'⟩,again,same⟩ := Option.map_eq_some_iff.mp read
          cases same
          obtain ⟨moreAllowed,restAllowed⟩ := ih _ _ _ skippedAllowed again
          refine ⟨?_,restAllowed⟩
          intro other member
          rcases List.mem_cons.mp member with rfl | member
          · exact ⟨readable,typed⟩
          · exact moreAllowed other member
      | _ => simp [readElements] at read

theorem readVector_allowed (place : Place) (atRoot : Bool) (unread : ∀ lexeme ∈ lexemes, LexemeAllowed vocabulary lexeme)
    (read : readVector lexemes = some (tree,rest)) :
    vocabulary.Allows place atRoot tree ∧ ∀ lexeme ∈ rest, LexemeAllowed vocabulary lexeme := by
  simp only [readVector] at read
  have skippedAllowed := skipBlank_allowed unread
  split at read
  next first later skipped =>
    rw [skipped] at skippedAllowed
    obtain ⟨⟨literals,rest'⟩,elements,same⟩ := Option.map_eq_some_iff.mp read
    cases same
    exact readElements_allowed _ _ _ _ _ skippedAllowed elements
  · contradiction

/-! ### The rounds -/

/-- A reference is to a declared parameter; a name that is none is undeclared, unless it
starts a prefix call at a root. -/
theorem reference_cases (declared : List Text) (machine : Machine) (name : Text)
    (rest : List Lexeme) :
    match machine.reference declared name rest with
    | some index => index < declared.length
    | none => rest.head? = some .leftBracket ∨ name ∉ declared ∨
        (machine.frames.isEmpty = true ∧ rest.head? = some .horizontalSpace) := by
  simp only [Machine.reference]
  split
  · rename_i found
    split at found
    · exact (List.findIdx?_eq_some_iff_findIdx_eq.mp found).1
    · contradiction
  · rename_i found
    split at found
    · right; left
      rw [List.findIdx?_eq_none_iff] at found
      intro member
      simpa using found name member
    · rename_i blocked
      rw [not_and_or] at blocked
      rcases blocked with bracket | prefixed
      · left; simpa using bracket
      · right; right
        simp only [not_or,Bool.not_eq_false,Bool.and_eq_true,beq_iff_eq] at prefixed
        exact prefixed.2

/-- A machine about to read a tree into its frames. -/
structure Reading (vocabulary : Vocabulary) (machine : Machine) : Prop where
  formed : vocabulary.Formed machine
  awaiting : Awaiting machine.frames
  idle : machine.current = none

theorem Reading.complete (reading : vocabulary.Reading machine)
    (allowed : vocabulary.Allows (placeOf machine.frames) machine.frames.isEmpty tree)
    (unread : ∀ lexeme ∈ rest, LexemeAllowed vocabulary lexeme) :
    vocabulary.Formed (machine.complete tree rest) :=
  ⟨reading.formed.roots,reading.formed.frames,
    fun other same => by cases same; exact ⟨reading.awaiting,allowed⟩,unread⟩

theorem Reading.push (reading : vocabulary.Reading machine)
    (frames : vocabulary.FramesAllowed (frame :: machine.frames))
    (unread : ∀ lexeme ∈ rest, LexemeAllowed vocabulary lexeme) :
    vocabulary.Formed (machine.push frame rest) :=
  ⟨reading.formed.roots,frames,
    fun other same => by simp [Machine.push,reading.idle] at same,unread⟩

theorem readName_formed (leaves : vocabulary.leaves = true) (reading : vocabulary.Reading machine)
    (named : parameterNameSpelling name = true ∧ isKeyword name = false)
    (notHeader : machine.frames.isEmpty = true → name ≠ "parameters".toList)
    (unread : ∀ lexeme ∈ rest, LexemeAllowed vocabulary lexeme)
    (step : machine.readName vocabulary.declared name rest = .again later) :
    vocabulary.Formed later := by
  have frames := reading.formed.frames
  simp only [Machine.readName] at step
  split at step
  · simp only [Machine.readFanoutKeyword] at step
    split at step
    · contradiction
    rename_i noFanout
    split at step
    · contradiction
    split at step
    · contradiction
    cases step
    apply reading.push _ fun lexeme member => unread lexeme (List.mem_cons_of_mem _ member)
    exact ⟨⟨placeOf_outside (by simpa using noFanout),by simp,trivial⟩,reading.awaiting,frames⟩
  rename_i notFanout
  have callName : isCallName name = true := (isCallName_iff name).mpr ⟨named.1,named.2,notFanout⟩
  have cases_ := reference_cases vocabulary.declared machine name rest
  split at step
  · rename_i found
    rw [found] at cases_
    cases step
    exact reading.complete cases_ unread
  rename_i found
  rw [found] at cases_
  dsimp only at cases_
  split at step
  · cases step
    apply reading.complete _ unread
    simp only [List.head?_nil,reduceCtorEq,and_false,or_false,false_or] at cases_
    exact ⟨leaves,callName,cases_,notHeader⟩
  rename_i next later'
  have laterAllowed := fun lexeme member => unread lexeme (List.mem_cons_of_mem _ member)
  split at step
  · cases step
    apply reading.push _ (skipBlank_allowed laterAllowed)
    exact ⟨⟨callName,notHeader,trivial⟩,reading.awaiting,frames⟩
  rename_i notBracket
  split at step
  · split at step
    · contradiction
    cases step
    apply reading.push _ laterAllowed
    refine ⟨⟨callName,notHeader,fun declared => ?_⟩,reading.awaiting,frames⟩
    rcases cases_ with bracket | undeclared | root
    · exact absurd (Option.some.inj bracket) notBracket
    · exact absurd declared undeclared
    · exact root.1
  · rename_i notSpace
    cases step
    apply reading.complete _ unread
    rcases cases_ with bracket | undeclared | root
    · exact absurd (Option.some.inj bracket) notBracket
    · exact ⟨leaves,callName,undeclared,notHeader⟩
    · exact absurd (Option.some.inj root.2) notSpace

theorem readToken_formed (leaves : vocabulary.leaves = true)
    (reading : vocabulary.Reading machine)
    (step : machine.readToken vocabulary.declared = .again later) :
    vocabulary.Formed later := by
  have unread := reading.formed.unread
  have frames := reading.formed.frames
  simp only [Machine.readToken] at step
  split at step
  · contradiction
  rename_i lexeme rest unreadIs
  rw [unreadIs] at unread
  have restAllowed := fun lexeme member => unread lexeme (List.mem_cons_of_mem _ member)
  have first := unread lexeme List.mem_cons_self
  split at step
  · contradiction
  rename_i notHeader
  split at step
  · cases step
    exact reading.complete first restAllowed
  · cases step
    apply reading.push _ (skipBlank_allowed restAllowed)
    exact ⟨trivial,reading.awaiting,frames⟩
  · split at step
    · contradiction
    next read =>
      cases step
      have readAllowed := readVector_allowed (placeOf machine.frames) machine.frames.isEmpty
        restAllowed read
      exact reading.complete readAllowed.1 readAllowed.2
  · simp only [Machine.readEmptyVector] at step
    split at step
    · split at step
      · cases step
        apply reading.complete
        · intro literal member; cases member
        · exact fun lexeme member => restAllowed lexeme
            (List.mem_cons_of_mem _ (List.mem_cons_of_mem _ member))
      · contradiction
    · contradiction
  · apply readName_formed leaves reading first _ restAllowed step
    intro empty same
    exact notHeader ⟨empty,congrArg _ same⟩
  · split at step
    · rename_i operand
      cases step
      exact reading.complete (placeOf_operandRead reading.awaiting frames operand) restAllowed
    · contradiction
  · contradiction

theorem readElement_formed (leaves : vocabulary.leaves = true)
    (reading : vocabulary.Reading machine)
    (closed : Awaiting outer ∧ vocabulary.FramesAllowed outer ∧
      vocabulary.Allows (placeOf outer) outer.isEmpty tree)
    (step : machine.readElement vocabulary.declared tree outer = .again later) :
    vocabulary.Formed later := by
  simp only [Machine.readElement] at step
  split at step
  · contradiction
  rename_i lexeme rest unreadIs
  split at step
  · cases step
    refine ⟨reading.formed.roots,closed.2.1,fun other same => ?_,fun lexeme member => ?_⟩
    · cases same; exact ⟨closed.1,closed.2.2⟩
    · exact reading.formed.unread lexeme (by rw [unreadIs]; exact List.mem_cons_of_mem _ member)
  split at step
  · contradiction
  · exact readToken_formed leaves reading step

theorem readDelimited_formed (leaves : vocabulary.leaves = true)
    (formed : vocabulary.Formed machine) (idle : machine.current = none)
    (machineFrames : machine.frames = frame :: outer)
    (awaiting : after = false → Awaiting (frame :: outer))
    (reopenedAwaiting : Awaiting (reopened :: outer))
    (reopenedAllowed : vocabulary.FramesAllowed (reopened :: outer))
    (closed : Awaiting outer ∧ vocabulary.FramesAllowed outer ∧
      vocabulary.Allows (placeOf outer) outer.isEmpty tree)
    (step : machine.readDelimited vocabulary.declared tree reopened after outer =
      .again later) :
    vocabulary.Formed later := by
  simp only [Machine.readDelimited] at step
  split at step
  · rename_i fresh
    exact readElement_formed leaves ⟨formed,by rw [machineFrames]; exact awaiting fresh,idle⟩
      closed step
  split at step
  · contradiction
  rename_i lexeme rest unreadIs
  have restAllowed : ∀ lexeme ∈ rest, LexemeAllowed vocabulary lexeme := fun lexeme member =>
    formed.unread lexeme (by rw [unreadIs]; exact List.mem_cons_of_mem _ member)
  split at step
  · cases step
    refine ⟨formed.roots,closed.2.1,fun other same => ?_,restAllowed⟩
    cases same
    exact ⟨closed.1,closed.2.2⟩
  split at step
  · split at step
    · cases step
      exact ⟨formed.roots,formed.frames,formed.current,skipBlank_allowed restAllowed⟩
    · apply readElement_formed leaves _ closed step
      exact ⟨⟨formed.roots,reopenedAllowed,fun other same => by simp [idle] at same,
        skipBlank_allowed restAllowed⟩,reopenedAwaiting,idle⟩
  · contradiction

theorem place_formed (formed : vocabulary.Formed machine)
    (current : machine.current = some tree) (step : machine.place tree = .again later) :
    vocabulary.Formed later := by
  obtain ⟨awaiting,allowed⟩ := formed.current tree current
  have folded := foldPrefix_allowed machine.frames tree formed.frames awaiting allowed
  simp only [Machine.place] at step
  split at step
  · rename_i frame outer tree' fold
    rw [fold] at folded
    cases step
    exact ⟨formed.roots,take_allowed folded.1 folded.2.1 folded.2.2,
      fun other same => by simp at same,formed.unread⟩
  · rename_i tree' fold
    rw [fold] at folded
    split at step
    · contradiction
    rename_i lexeme rest spaces
    split at step
    · cases step
      refine ⟨(allowsRoots_append _ _ _).mpr ⟨formed.roots,folded.2.2⟩,trivial,
        fun other same => by simp at same,fun lexeme member => ?_⟩
      apply formed.unread lexeme
      apply (List.dropWhile_sublist _).subset
      rw [skipSpaces] at spaces
      rw [spaces]
      exact List.mem_cons_of_mem _ member
    · contradiction

theorem closeBranch_formed (formed : vocabulary.Formed machine) (idle : machine.current = none)
    (machineFrames : machine.frames = .branch (some body) :: outer)
    (unread : ∀ lexeme ∈ rest, LexemeAllowed vocabulary lexeme)
    (step : machine.closeBranch body outer rest = .again later) :
    vocabulary.Formed later := by
  have frames := formed.frames
  rw [machineFrames] at frames
  simp only [Machine.closeBranch] at step
  split at step
  · rename_i operand branches outer'
    split at step
    · rename_i isBranch
      cases step
      obtain ⟨bodyAllowed,_,⟨outside,operandAllowed,collected⟩,below⟩ := frames
      refine ⟨formed.roots,⟨⟨outside,operandAllowed,?_⟩,below⟩,
        fun other same => by simp [idle] at same,unread⟩
      exact (allowsBranches_append _ _ _).mpr ⟨collected,bodyAllowed body rfl,isBranch⟩
    · contradiction
  · contradiction

theorem step_formed (leaves : vocabulary.leaves = true) (formed : vocabulary.Formed machine)
    (step : machine.step vocabulary.declared = .again later) : vocabulary.Formed later := by
  have skippedAllowed := skipBlank_allowed formed.unread
  have frames := formed.frames
  -- A round that only skips separators before it reads a tree.
  have readAfter : ∀ lexeme rest, machine.current = none → Awaiting machine.frames →
      skipBlank machine.unread = lexeme :: rest →
      ({ machine with unread := lexeme :: rest } : Machine).readToken vocabulary.declared =
        .again later → vocabulary.Formed later := by
    intro lexeme rest idle awaiting skipped step
    rw [skipped] at skippedAllowed
    apply readToken_formed leaves _ step
    exact ⟨⟨formed.roots,formed.frames,formed.current,skippedAllowed⟩,awaiting,idle⟩
  simp only [Machine.step] at step
  split at step
  next tree current => exact place_formed formed current step
  next idle =>
    split at step
    · rename_i noFrames
      split at step
      · contradiction
      next skipped => exact readAfter _ _ idle (by rw [noFrames]; trivial) skipped step
    · rename_i body outer machineFrames
      simp only [Machine.readBranch] at step
      split at step
      · contradiction
      rename_i lexeme rest skipped
      split at step
      · split at step
        · apply closeBranch_formed formed idle machineFrames _ step
          rw [skipped] at skippedAllowed
          exact fun lexeme member => skippedAllowed lexeme (List.mem_cons_of_mem _ member)
        · contradiction
      · split at step
        · contradiction
        · exact readAfter _ _ idle (by rw [machineFrames]; rfl) skipped step
    · rename_i operand branches outer machineFrames
      rw [machineFrames] at frames
      simp only [Machine.readFanout] at step
      split at step
      · contradiction
      rename_i lexeme rest skipped
      have restAllowed : ∀ lexeme ∈ rest, LexemeAllowed vocabulary lexeme := by
        rw [skipped] at skippedAllowed
        exact fun lexeme member => skippedAllowed lexeme (List.mem_cons_of_mem _ member)
      split at step
      · rename_i operand'
        split at step
        · split at step
          · contradiction
          rename_i someBranch
          cases step
          obtain ⟨⟨outside,operandAllowed,collected⟩,below,outerAllowed⟩ := frames
          refine ⟨formed.roots,outerAllowed,fun other same => ?_,restAllowed⟩
          cases same
          refine ⟨below,outside,operandAllowed _ rfl,?_,collected⟩
          intro none
          exact someBranch (by rw [none]; rfl)
        · repeat' split at step
          all_goals try contradiction
          cases step
          refine ⟨formed.roots,?_,fun other same => by simp [Machine.push,idle] at same,
            restAllowed⟩
          simp only [Machine.push,machineFrames]
          exact ⟨by simp,⟨_,_,_,rfl⟩,frames⟩
      · split at step
        · contradiction
        · exact readAfter _ _ idle (by rw [machineFrames]; rfl) skipped step
    · rename_i name arguments after outer machineFrames
      rw [machineFrames] at frames
      apply readDelimited_formed leaves formed idle machineFrames id _ _ _ step
      · rfl
      · exact frames
      · exact ⟨frames.2.1,frames.2.2,frames.1⟩
    · rename_i elements after outer machineFrames
      rw [machineFrames] at frames
      apply readDelimited_formed leaves formed idle machineFrames id _ _ _ step
      · rfl
      · exact frames
      · exact ⟨frames.2.1,frames.2.2,frames.1⟩
    · rename_i name outer machineFrames
      exact readToken_formed leaves ⟨formed,by rw [machineFrames]; trivial,idle⟩ step

theorem readToken_not_accept {declared : List Text} (machine : Machine) :
    machine.readToken declared ≠ .accept roots := by
  intro accepted
  simp only [Machine.readToken,Machine.readName,Machine.readFanoutKeyword,
    Machine.readEmptyVector] at accepted
  repeat' split at accepted
  all_goals contradiction

theorem readElement_not_accept {declared : List Text} (machine : Machine) (tree : Expr)
    (outer : List Frame) : machine.readElement declared tree outer ≠ .accept roots := by
  intro accepted
  simp only [Machine.readElement,Machine.close] at accepted
  repeat' split at accepted
  all_goals first | contradiction | exact readToken_not_accept _ accepted

theorem step_accept_allowed {declared : List Text} (formed : vocabulary.Formed machine)
    (step : machine.step declared = .accept roots) : vocabulary.AllowsRoots roots := by
  simp only [Machine.step] at step
  split at step
  next tree current =>
    obtain ⟨awaiting,allowed⟩ := formed.current tree current
    have folded := foldPrefix_allowed machine.frames tree formed.frames awaiting allowed
    simp only [Machine.place] at step
    split at step
    · contradiction
    · rename_i tree' fold
      rw [fold] at folded
      split at step
      · cases step
        exact (allowsRoots_append _ _ _).mpr ⟨formed.roots,folded.2.2⟩
      · split at step <;> contradiction
  next idle =>
    split at step
    · split at step
      · cases step; exact formed.roots
      · exact absurd step (readToken_not_accept _)
    all_goals
      try simp only [Machine.readBranch,Machine.readFanout,Machine.readDelimited,
        Machine.closeBranch,Machine.close] at step
      repeat' split at step
      all_goals first
        | contradiction
        | exact absurd step (readToken_not_accept _)
        | exact absurd step (readElement_not_accept _ _ _)

/-- Everything the machine accepts lies in the grammar. -/
theorem accepts_allowed (leaves : vocabulary.leaves = true)
    (accepts : Machine.Accepts vocabulary.declared machine roots) :
    vocabulary.Formed machine → vocabulary.AllowsRoots roots := by
  induction accepts with
  | accept step => exact fun formed => step_accept_allowed formed step
  | again step _ ih => exact fun formed => ih (step_formed leaves formed step)

end Vocabulary
end Bennu
