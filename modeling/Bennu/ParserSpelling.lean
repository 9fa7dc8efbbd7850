import Bennu.ParserGrammar

/-! How lexemes spell a program: the concrete syntax, with all the blanks that it admits. What the
machine accepts is spelled so: an invariant on what its frames have read. -/
namespace Bennu

/-- Spaces and line ends only. -/
def Blank (lexemes : List Lexeme) : Prop := ∀ lexeme ∈ lexemes, lexeme.isSeparator = true

/-- A separator stands last, unless there is nothing yet to be spaced from what follows. -/
def Spaced (trees : List Expr) (written : List Lexeme) : Prop :=
  trees = [] ∨ ∃ front last, written = front ++ [last] ∧ last.isSeparator = true

/-- Literals with separators between them. -/
inductive SpellsLiterals : List Literal → List Lexeme → Prop
  | one {literal : Literal} : SpellsLiterals [literal] [.literal literal]
  | more {literal : Literal} {rest : List Literal} {blank later : List Lexeme} : Blank blank → blank ≠ [] →
      SpellsLiterals rest later → SpellsLiterals (literal :: rest) (.literal literal :: (blank ++ later))

mutual

/-- The lexemes that write a tree. -/
inductive Spells (declared : List Text) : Expr → List Lexeme → Prop
  | scalar {literal : Literal} : Spells declared (.scalar literal) [.literal literal]
  | emptyVector {type : ScalarType} :
      Spells declared (.vector type []) [.typeName type,.leftParenthesis,.rightParenthesis]
  | vector {type : ScalarType} {elements : List Literal} {front body back : List Lexeme} : Blank front →
      SpellsLiterals elements body → Blank back →
      Spells declared (.vector type elements) (.leftParenthesis :: (front ++ (body ++ (back ++ [.rightParenthesis]))))
  | parameter {index : Nat} {name : Text} : declared[index]? = some name →
      Spells declared (.parameter index) [.name name]
  | unresolved {name : Text} : Spells declared (.unresolved name) [.name name]
  | bracketCall {name : Text} {arguments : List Expr} {body : List Lexeme} : SpellsElements declared arguments body →
      Spells declared (.bracketCall name arguments) (.name name :: .leftBracket :: (body ++ [.rightBracket]))
  | prefixCall {name : Text} {argument : Expr} {body : List Lexeme} : Spells declared argument body →
      Spells declared (.prefixCall name argument) (.name name :: .horizontalSpace :: body)
  | tuple {elements : List Expr} {body : List Lexeme} : SpellsElements declared elements body →
      Spells declared (.tuple elements) (.leftBracket :: (body ++ [.rightBracket]))
  | placeholder : Spells declared .placeholder [.placeholder]
  | fanout {operand : Expr} {branches : List Expr} {front body later back : List Lexeme} : Blank front →
      Spells declared operand body → SpellsBranches declared branches later → Blank back →
      Spells declared (.fanout operand branches)
        (.name "fanout".toList :: .leftBracket :: (front ++ (body ++ (later ++ (back ++ [.rightBracket])))))

/-- Trees in brackets, each but the first behind a separator. -/
inductive SpellsElements (declared : List Text) : List Expr → List Lexeme → Prop
  | none {blank : List Lexeme} : Blank blank → SpellsElements declared [] blank
  | more {trees : List Expr} {tree : Expr} {front body blank : List Lexeme} : SpellsElements declared trees front →
      Spaced trees front → Spells declared tree body → Blank blank →
      SpellsElements declared (trees ++ [tree]) (front ++ (body ++ blank))

/-- Branches in braces, each behind a separator. -/
inductive SpellsBranches (declared : List Text) : List Expr → List Lexeme → Prop
  | none : SpellsBranches declared [] []
  | more {branches : List Expr} {branch : Expr} {front blank before body after : List Lexeme} :
      SpellsBranches declared branches front → Blank blank → blank ≠ [] → Blank before → Spells declared branch body →
      Blank after → SpellsBranches declared (branches ++ [branch])
        (front ++ (blank ++ (.leftBrace :: (before ++ (body ++ (after ++ [.rightBrace]))))))

end

/-- Roots, each with the rest of its line. -/
inductive SpellsLines (declared : List Text) : List Expr → List Lexeme → Prop
  | none {blank : List Lexeme} : Blank blank → SpellsLines declared [] blank
  | more {roots : List Expr} {root : Expr} {front body spaces blank : List Lexeme} : SpellsLines declared roots front →
      Spells declared root body → (∀ lexeme ∈ spaces, lexeme = .horizontalSpace) → Blank blank →
      SpellsLines declared (roots ++ [root]) (front ++ (body ++ (spaces ++ .lineTerminator :: blank)))

/-- Roots, the last of which may stand on a line that does not end. -/
inductive SpellsRoots (declared : List Text) : List Expr → List Lexeme → Prop
  | ended {roots : List Expr} {written : List Lexeme} : SpellsLines declared roots written →
      SpellsRoots declared roots written
  | open {roots : List Expr} {root : Expr} {front body spaces : List Lexeme} : SpellsLines declared roots front →
      Spells declared root body → (∀ lexeme ∈ spaces, lexeme = .horizontalSpace) →
      SpellsRoots declared (roots ++ [root]) (front ++ (body ++ spaces))

/-- The lexeme that a word makes: a declaration may be named like a literal. -/
def wordLexeme (name : Text) : Lexeme := tokenLexeme name (wordToken name ⟨0,0,0⟩ ⟨0,0,0⟩)

/-- Declarations up to the bracket that closes the header. -/
inductive SpellsDeclarations : List (Text × ScalarType) → List Lexeme → Prop
  | closed : SpellsDeclarations [] [.rightBracket]
  | more {name : Text} {type : ScalarType} {rest : List (Text × ScalarType)} {blank between later : List Lexeme} :
      parameterNameSpelling name = true → Blank blank → blank ≠ [] → Blank between → (between = [] → rest = []) →
      SpellsDeclarations rest later → SpellsDeclarations ((name,type) :: rest)
        (wordLexeme name :: (blank ++ .typeName type :: (between ++ later)))

/-- A header and the spaces behind it. -/
inductive SpellsHeader : List (Text × ScalarType) → List Lexeme → Prop
  | header {parameters : List (Text × ScalarType)} {before blank body spaces : List Lexeme} : Blank before →
      Blank blank → SpellsDeclarations parameters body → (∀ lexeme ∈ spaces, lexeme = .horizontalSpace) →
      SpellsHeader parameters (before ++ .name "parameters".toList :: .leftBracket :: (blank ++ (body ++ spaces)))

/-- The lexemes of a program with these declarations and roots. -/
inductive SpellsProgram (parameters : List (Text × ScalarType)) (roots : List Expr) : List Lexeme → Prop
  | plain {written : List Lexeme} : parameters = [] → SpellsRoots [] roots written →
      SpellsProgram parameters roots written
  | headed {front back : List Lexeme} : SpellsHeader parameters front →
      SpellsRoots (parameters.map (·.1)) roots back → SpellsProgram parameters roots (front ++ .lineTerminator :: back)
  | bare {front : List Lexeme} : SpellsHeader parameters front → roots = [] → SpellsProgram parameters roots front

/-! ### What the machine has read -/

/-- What a frame has read since it was opened. -/
def Frame.Read (declared : List Text) : Frame → List Lexeme → Prop
  | .bracketCall name arguments after,read => ∃ body, read = .name name :: .leftBracket :: body ∧
      SpellsElements declared arguments body ∧ (after = false → Spaced arguments body)
  | .tuple elements after,read => ∃ body, read = .leftBracket :: body ∧
      SpellsElements declared elements body ∧ (after = false → Spaced elements body)
  | .prefixCall name,read => read = [.name name,.horizontalSpace]
  | .fanout none branches,read => branches = [] ∧ ∃ front, read = .name "fanout".toList :: .leftBracket :: front ∧
      Blank front
  | .fanout (some operand) branches,read => ∃ front body later,
      read = .name "fanout".toList :: .leftBracket :: (front ++ (body ++ later)) ∧ Blank front ∧
      Spells declared operand body ∧ SpellsBranches declared branches later
  | .branch none,read => ∃ blank before, read = blank ++ .leftBrace :: before ∧ Blank blank ∧ blank ≠ [] ∧ Blank before
  | .branch (some tree),read => ∃ blank before body, read = blank ++ .leftBrace :: (before ++ body) ∧ Blank blank ∧
      blank ≠ [] ∧ Blank before ∧ Spells declared tree body

/-- What frames have read, the outermost first. -/
def FramesRead (declared : List Text) : List Frame → List Lexeme → Prop
  | [],read => read = []
  | frame :: outer,read => ∃ front back, read = front ++ back ∧ FramesRead declared outer front ∧
      frame.Read declared back

def CurrentRead (declared : List Text) : Option Expr → List Lexeme → Prop
  | none,read => read = []
  | some tree,read => Spells declared tree read

/-- The machine has read these lexemes. -/
structure HasRead (declared : List Text) (machine : Machine) (read : List Lexeme) : Prop where
  parts : ∃ lines frames current, read = lines ++ (frames ++ current) ∧ SpellsLines declared machine.roots lines ∧
    FramesRead declared machine.frames frames ∧ CurrentRead declared machine.current current

section reading

variable {declared : List Text} {vocabulary : Vocabulary} {machine later : Machine} {frame : Frame}
  {frames outer : List Frame} {tree body : Expr} {trees : List Expr} {gap more written read rest unread : List Lexeme}

theorem Blank.append (front : Blank gap) (back : Blank more) : Blank (gap ++ more) := by
  intro lexeme member
  rcases List.mem_append.mp member with member | member
  · exact front lexeme member
  · exact back lexeme member

theorem blank_nil : Blank [] := by
  intro lexeme member
  cases member

theorem skipBlank_splits (unread : List Lexeme) : ∃ blank, unread = blank ++ skipBlank unread ∧ Blank blank :=
  ⟨unread.takeWhile Lexeme.isSeparator,List.takeWhile_append_dropWhile.symm,
    fun _ member => List.mem_takeWhile_imp member⟩

theorem skipSpaces_splits (unread : List Lexeme) :
    ∃ spaces, unread = spaces ++ skipSpaces unread ∧ ∀ lexeme ∈ spaces, lexeme = .horizontalSpace :=
  ⟨unread.takeWhile (· == .horizontalSpace),List.takeWhile_append_dropWhile.symm,
    fun _ member => by simpa using List.mem_takeWhile_imp member⟩

theorem SpellsElements.blank (spells : SpellsElements declared trees written) (separated : Blank gap) :
    SpellsElements declared trees (written ++ gap) := by
  cases spells with
  | none first => exact .none (first.append separated)
  | more front spaced tree last =>
    rw [List.append_assoc,List.append_assoc]
    exact .more front spaced tree (last.append separated)

theorem SpellsLines.blank (spells : SpellsLines declared trees written) (separated : Blank gap) :
    SpellsLines declared trees (written ++ gap) := by
  cases spells with
  | none first => exact .none (first.append separated)
  | more front tree spaces last =>
    rw [List.append_assoc,List.append_assoc,List.append_assoc,List.cons_append]
    exact .more front tree spaces (last.append separated)

theorem Spaced.blank (spaced : Spaced trees written) (separated : Blank gap) : Spaced trees (written ++ gap) := by
  rcases spaced with none | ⟨front,last,rfl,separator⟩
  · exact .inl none
  · rcases List.eq_nil_or_concat gap with rfl | ⟨others,final,rfl⟩
    · rw [List.append_nil]
      exact .inr ⟨front,last,rfl,separator⟩
    · rw [List.concat_eq_append] at separated ⊢
      exact .inr ⟨front ++ [last] ++ others,final,by simp,separated final (by simp)⟩

theorem spaced_blank (separated : Blank gap) (some_gap : gap ≠ []) : Spaced trees (written ++ gap) := by
  obtain ⟨others,final,rfl⟩ := (List.eq_nil_or_concat gap).resolve_left some_gap
  rw [List.concat_eq_append] at separated ⊢
  exact .inr ⟨written ++ others,final,by simp,separated final (by simp)⟩

/-! ### One tree into the frames -/

theorem take_read (frames : FramesRead declared (frame :: outer) read) (awaiting : Awaiting (frame :: outer))
    (bare : ∀ name, frame ≠ .prefixCall name) (spells : Spells declared tree written) :
    FramesRead declared (frame.take tree :: outer) (read ++ written) := by
  obtain ⟨below,back,rfl,outerRead,own⟩ := frames
  refine ⟨below,back ++ written,List.append_assoc ..,outerRead,?_⟩
  cases frame with
  | bracketCall name arguments after =>
    obtain ⟨body,rfl,elements,spaced⟩ := own
    have more := SpellsElements.more elements (spaced awaiting) spells blank_nil
    rw [List.append_nil] at more
    exact ⟨_,rfl,more,by intro other; cases other⟩
  | tuple elements after =>
    obtain ⟨body,rfl,elements,spaced⟩ := own
    have more := SpellsElements.more elements (spaced awaiting) spells blank_nil
    rw [List.append_nil] at more
    exact ⟨_,rfl,more,by intro other; cases other⟩
  | prefixCall name => exact absurd rfl (bare name)
  | fanout operand branches =>
    cases (show operand = none from awaiting)
    obtain ⟨rfl,front,rfl,first⟩ := own
    exact ⟨front,written,[],by simp,first,spells,.none⟩
  | branch body =>
    cases (show body = none from awaiting)
    obtain ⟨blank,before,rfl,separated,some_blank,first⟩ := own
    exact ⟨blank,before,written,by simp,separated,some_blank,first,spells⟩

/-- Prefix calls end with their argument. -/
theorem foldPrefix_read : ∀ (frames : List Frame) {tree : Expr} {read written : List Lexeme},
    FramesRead declared frames read → Spells declared tree written →
    ∃ front back, read ++ written = front ++ back ∧ FramesRead declared (foldPrefix frames tree).1 front ∧
      Spells declared (foldPrefix frames tree).2 back
  | [],_,read,written,frames,spells => ⟨read,written,rfl,frames,spells⟩
  | .prefixCall name :: outer,_,_,written,⟨below,_,same,outerRead,own⟩,spells => by
    obtain ⟨front,back,whole,frames,folded⟩ := foldPrefix_read outer outerRead (Spells.prefixCall spells)
    cases own
    subst same
    exact ⟨front,back,by rw [← whole]; simp,frames,folded⟩
  | .bracketCall .. :: _,_,read,written,frames,spells => ⟨read,written,rfl,frames,spells⟩
  | .tuple .. :: _,_,read,written,frames,spells => ⟨read,written,rfl,frames,spells⟩
  | .fanout .. :: _,_,read,written,frames,spells => ⟨read,written,rfl,frames,spells⟩
  | .branch .. :: _,_,read,written,frames,spells => ⟨read,written,rfl,frames,spells⟩

theorem foldPrefix_bare : ∀ (frames : List Frame) {tree : Expr} {frame : Frame} {outer : List Frame},
    (foldPrefix frames tree).1 = frame :: outer → ∀ name, frame ≠ .prefixCall name
  | [],_,_,_,same => by cases same
  | .prefixCall _ :: outer,_,_,_,same => foldPrefix_bare outer same
  | .bracketCall .. :: _,_,_,_,same => by cases same; intro name other; cases other
  | .tuple .. :: _,_,_,_,same => by cases same; intro name other; cases other
  | .fanout .. :: _,_,_,_,same => by cases same; intro name other; cases other
  | .branch .. :: _,_,_,_,same => by cases same; intro name other; cases other

/-- The round reads some of the lexemes. -/
def Advances (declared : List Text) (machine : Machine) (read : List Lexeme) (later : Machine) : Prop :=
  ∃ taken, machine.unread = taken ++ later.unread ∧ HasRead declared later (read ++ taken)

theorem HasRead.complete (has : HasRead declared machine read) (idle : machine.current = none)
    (spells : Spells declared tree written) (same : machine.unread = written ++ rest) :
    Advances declared machine read (machine.complete tree rest) := by
  obtain ⟨lines,frames,current,rfl,roots,framesRead,none⟩ := has
  rw [idle] at none
  cases none
  exact ⟨written,same,⟨lines,frames,written,by simp,roots,framesRead,spells⟩⟩

theorem HasRead.push (has : HasRead declared machine read) (idle : machine.current = none)
    (opened : frame.Read declared written) (same : machine.unread = written ++ rest) :
    Advances declared machine read (machine.push frame rest) := by
  obtain ⟨lines,frames,current,rfl,roots,framesRead,none⟩ := has
  rw [idle] at none
  cases none
  refine ⟨written,same,⟨lines,frames ++ written,[],by simp,roots,⟨frames,written,rfl,framesRead,opened⟩,?_⟩⟩
  show CurrentRead declared machine.current []
  rw [idle]
  rfl

/-! ### One token -/

theorem readElements_spells (type : ScalarType) (fuel : Nat) : ∀ unread literals rest,
    readElements type fuel unread = some (literals,rest) →
    ∃ body back, unread = body ++ (back ++ .rightParenthesis :: rest) ∧ SpellsLiterals literals body ∧ Blank back := by
  induction fuel with
  | zero => intro unread literals rest read; simp [readElements] at read
  | succ fuel ih =>
    intro unread literals rest read
    cases unread with
    | nil => simp [readElements] at read
    | cons lexeme unread =>
      cases lexeme with
      | literal literal =>
        simp only [readElements] at read
        split at read
        · contradiction
        split at read
        · contradiction
        rename_i next later
        split at read
        · rename_i closes
          cases read
          subst closes
          exact ⟨[.literal literal],[],rfl,.one,blank_nil⟩
        split at read
        · contradiction
        rename_i separator
        obtain ⟨blank,splits,separated⟩ := skipBlank_splits later
        have gap : Blank (next :: blank) := by
          intro lexeme member
          rcases List.mem_cons.mp member with rfl | member
          · simpa using separator
          · exact separated lexeme member
        split at read
        · contradiction
        rename_i first others skipped
        rw [skipped] at splits
        split at read
        · rename_i closes
          cases read
          subst closes
          exact ⟨[.literal literal],next :: blank,by rw [splits]; rfl,.one,gap⟩
        · obtain ⟨⟨more,rest'⟩,again,same⟩ := Option.map_eq_some_iff.mp read
          cases same
          obtain ⟨body,back,written,spells,closing⟩ := ih _ _ _ again
          refine ⟨.literal literal :: (next :: blank ++ body),back,?_,.more gap (List.cons_ne_nil _ _) spells,closing⟩
          rw [splits,written]
          simp
      | _ => simp [readElements] at read

theorem readVector_spells (read : readVector unread = some (tree,rest)) :
    ∃ written, .leftParenthesis :: unread = written ++ rest ∧ Spells declared tree written := by
  simp only [readVector] at read
  obtain ⟨front,splits,separated⟩ := skipBlank_splits unread
  split at read
  next first later skipped =>
    obtain ⟨⟨literals,rest'⟩,elements,same⟩ := Option.map_eq_some_iff.mp read
    cases same
    obtain ⟨body,back,written,spells,closing⟩ := readElements_spells _ _ _ _ _ elements
    refine ⟨_,?_,Spells.vector separated spells closing⟩
    rw [splits,skipped,written]
    simp
  · contradiction

theorem reference_named {name : Text} {index : Nat} (found : machine.reference declared name rest = some index) :
    declared[index]? = some name := by
  simp only [Machine.reference] at found
  split at found
  · obtain ⟨inside,holds,-⟩ := List.findIdx?_eq_some_iff_getElem.mp found
    rw [List.getElem?_eq_getElem inside]
    exact congrArg some (by simpa using holds)
  · contradiction

theorem readName_reads {name : Text} (has : HasRead declared machine read) (idle : machine.current = none)
    (same : machine.unread = .name name :: rest) (step : machine.readName declared name rest = .again later) :
    Advances declared machine read later := by
  simp only [Machine.readName] at step
  split at step
  · rename_i keyword
    subst keyword
    simp only [Machine.readFanoutKeyword] at step
    split at step
    · contradiction
    split at step
    · contradiction
    split at step
    · contradiction
    rename_i opening
    cases step
    obtain rfl := not_not.mp opening
    exact has.push idle ⟨rfl,[],rfl,blank_nil⟩ same
  split at step
  · rename_i found
    cases step
    exact has.complete idle (.parameter (reference_named found)) same
  split at step
  · cases step
    exact has.complete idle .unresolved same
  rename_i next afterNext _
  split at step
  · rename_i opening
    subst opening
    cases step
    obtain ⟨blank,splits,separated⟩ := skipBlank_splits afterNext
    exact has.push idle ⟨blank,rfl,.none separated,fun _ => .inl rfl⟩
      (same.trans (congrArg (fun later => .name name :: .leftBracket :: later) splits))
  split at step
  · rename_i space
    subst space
    split at step
    · contradiction
    cases step
    exact has.push idle rfl same
  · cases step
    exact has.complete idle .unresolved same

theorem readToken_reads (has : HasRead declared machine read) (idle : machine.current = none)
    (step : machine.readToken declared = .again later) : Advances declared machine read later := by
  simp only [Machine.readToken] at step
  split at step
  · contradiction
  rename_i lexeme rest same
  split at step
  · contradiction
  split at step
  · cases step
    exact has.complete idle .scalar same
  · cases step
    obtain ⟨blank,splits,separated⟩ := skipBlank_splits rest
    exact has.push idle ⟨blank,rfl,.none separated,fun _ => .inl rfl⟩
      (same.trans (congrArg (Lexeme.leftBracket :: ·) splits))
  · split at step
    · contradiction
    rename_i vector
    cases step
    obtain ⟨written,whole,spells⟩ := readVector_spells vector
    exact has.complete idle spells (same.trans whole)
  · simp only [Machine.readEmptyVector] at step
    split at step
    · split at step
      · rename_i delimiters
        obtain ⟨rfl,rfl⟩ := delimiters
        cases step
        exact has.complete idle .emptyVector same
      · contradiction
    · contradiction
  · exact readName_reads has idle same step
  · split at step
    · cases step
      exact has.complete idle .placeholder same
    · contradiction
  · contradiction

/-! ### One round -/

/-- What precedes the tree that is read next is read with its frame. -/
theorem Advances.after {skipped : Machine} (taken : List Lexeme) (same : machine.unread = taken ++ skipped.unread)
    (advances : Advances declared skipped (read ++ taken) later) : Advances declared machine read later := by
  obtain ⟨more,splits,has⟩ := advances
  exact ⟨taken ++ more,by rw [same,splits,List.append_assoc],by rwa [List.append_assoc] at has⟩

/-- Blanks before a tree, outside of brackets. -/
theorem HasRead.blank (has : HasRead declared machine read) (idle : machine.current = none)
    (ready : machine.frames = [] ∨ (∃ branches outer, machine.frames = .fanout none branches :: outer) ∨
      ∃ outer, machine.frames = .branch none :: outer)
    (separated : Blank gap) : HasRead declared { machine with unread := rest } (read ++ gap) := by
  obtain ⟨lines,frames,current,rfl,roots,framesRead,none⟩ := has
  have none' := none
  rw [idle] at none'
  cases none'
  rcases ready with empty | ⟨branches,outer,fanout⟩ | ⟨outer,branch⟩
  · rw [empty] at framesRead
    cases framesRead
    exact ⟨lines ++ gap,[],[],by simp,roots.blank separated,by rw [empty]; rfl,none⟩
  · rw [fanout] at framesRead
    obtain ⟨below,_,rfl,outerRead,rfl,front,rfl,first⟩ := framesRead
    refine ⟨lines,below ++ (.name "fanout".toList :: .leftBracket :: (front ++ gap)),[],by simp,roots,?_,none⟩
    rw [fanout]
    exact ⟨below,_,rfl,outerRead,rfl,front ++ gap,rfl,first.append separated⟩
  · rw [branch] at framesRead
    obtain ⟨below,_,rfl,outerRead,blank,before,rfl,apart,some_blank,first⟩ := framesRead
    refine ⟨lines,below ++ (blank ++ .leftBrace :: (before ++ gap)),[],by simp,roots,?_,none⟩
    rw [branch]
    exact ⟨below,_,rfl,outerRead,blank,before ++ gap,rfl,apart,some_blank,first.append separated⟩

/-- The innermost frame is closed by its last lexemes and leaves a tree. -/
theorem HasRead.close (has : HasRead declared machine read) (idle : machine.current = none)
    (innermost : machine.frames = frame :: outer)
    (closed : ∀ own, frame.Read declared own → Spells declared tree (own ++ written))
    (same : machine.unread = written ++ rest) : Advances declared machine read (⟨machine.roots,outer,some tree,rest⟩) := by
  obtain ⟨lines,frames,current,rfl,roots,framesRead,none⟩ := has
  rw [idle] at none
  cases none
  rw [innermost] at framesRead
  obtain ⟨below,own,rfl,outerRead,ownRead⟩ := framesRead
  exact ⟨written,same,⟨lines,below,own ++ written,by simp,roots,outerRead,closed own ownRead⟩⟩

/-- The innermost frame becomes another one by reading on. -/
theorem HasRead.change (has : HasRead declared machine read) (idle : machine.current = none)
    (innermost : machine.frames = frame :: outer) {changed : Frame}
    (reads : ∀ own, frame.Read declared own → changed.Read declared (own ++ written)) :
    HasRead declared ⟨machine.roots,changed :: outer,none,rest⟩ (read ++ written) := by
  obtain ⟨lines,frames,current,rfl,roots,framesRead,none⟩ := has
  rw [idle] at none
  cases none
  rw [innermost] at framesRead
  obtain ⟨below,own,rfl,outerRead,ownRead⟩ := framesRead
  exact ⟨lines,below ++ (own ++ written),[],by simp,roots,⟨below,_,rfl,outerRead,reads own ownRead⟩,rfl⟩

theorem place_reads (formed : vocabulary.Formed machine) (has : HasRead vocabulary.declared machine read)
    (current : machine.current = some tree) (step : machine.place tree = .again later) :
    Advances vocabulary.declared machine read later := by
  obtain ⟨awaiting,allowed⟩ := formed.current tree current
  have folded := Vocabulary.foldPrefix_allowed machine.frames tree formed.frames awaiting allowed
  obtain ⟨lines,frames,own,rfl,roots,framesRead,spells⟩ := has
  rw [current] at spells
  obtain ⟨front,back,whole,foldedRead,foldedSpells⟩ := foldPrefix_read machine.frames framesRead spells
  have bare := @foldPrefix_bare machine.frames tree
  simp only [Machine.place] at step
  split at step
  · rename_i frame outer tree' fold
    rw [fold] at folded foldedRead foldedSpells bare
    cases step
    refine ⟨[],rfl,⟨lines,front ++ back,[],by rw [whole]; simp,roots,?_,rfl⟩⟩
    exact take_read foldedRead folded.2.1 (bare rfl) foldedSpells
  · rename_i tree' fold
    rw [fold] at foldedRead foldedSpells
    cases foldedRead
    obtain ⟨spaces,splits,blank⟩ := skipSpaces_splits machine.unread
    split at step
    · contradiction
    rename_i lexeme rest skipped
    rw [skipped] at splits
    split at step
    · rename_i line
      subst line
      cases step
      refine ⟨spaces ++ [.lineTerminator],by rw [splits]; simp,⟨_,[],[],?_,
        SpellsLines.more roots foldedSpells blank blank_nil,rfl,rfl⟩⟩
      rw [whole]
      simp
    · contradiction

theorem readElement_reads (has : HasRead declared machine read) (idle : machine.current = none)
    (innermost : machine.frames = frame :: outer)
    (closes : ∀ own, frame.Read declared own → Spells declared tree (own ++ [.rightBracket]))
    (step : machine.readElement declared tree outer = .again later) : Advances declared machine read later := by
  simp only [Machine.readElement] at step
  split at step
  · contradiction
  rename_i lexeme rest same
  split at step
  · rename_i closing
    subst closing
    cases step
    exact has.close idle innermost closes same
  split at step
  · contradiction
  · exact readToken_reads has idle step

theorem readDelimited_reads {reopened : Frame} {after : Bool} (has : HasRead declared machine read)
    (idle : machine.current = none) (innermost : machine.frames = frame :: outer)
    (closes : ∀ own, frame.Read declared own → Spells declared tree (own ++ [.rightBracket]))
    (spaced : ∀ own gap, frame.Read declared own → Blank gap → frame.Read declared (own ++ gap))
    (reopens : ∀ own gap, frame.Read declared own → Blank gap → gap ≠ [] → reopened.Read declared (own ++ gap))
    (recloses : ∀ own, reopened.Read declared own → Spells declared tree (own ++ [.rightBracket]))
    (step : machine.readDelimited declared tree reopened after outer = .again later) :
    Advances declared machine read later := by
  simp only [Machine.readDelimited] at step
  split at step
  · exact readElement_reads has idle innermost closes step
  split at step
  · contradiction
  rename_i lexeme rest same
  split at step
  · rename_i closing
    subst closing
    cases step
    exact has.close idle innermost closes same
  split at step
  · rename_i separator
    obtain ⟨blank,splits,separated⟩ := skipBlank_splits rest
    have gap : Blank (lexeme :: blank) := by
      intro other member
      rcases List.mem_cons.mp member with rfl | member
      · exact separator
      · exact separated other member
    have whole : machine.unread = lexeme :: blank ++ skipBlank rest :=
      same.trans (congrArg (lexeme :: ·) splits)
    split at step
    · cases step
      refine ⟨lexeme :: blank,whole,?_⟩
      have kept : HasRead declared ⟨machine.roots,frame :: outer,none,skipBlank rest⟩ (read ++ lexeme :: blank) :=
        has.change idle innermost fun own ownRead => spaced own _ ownRead gap
      rw [← innermost,← idle] at kept
      exact kept
    · have kept : HasRead declared ⟨machine.roots,reopened :: outer,none,skipBlank rest⟩ (read ++ lexeme :: blank) :=
        has.change idle innermost fun own ownRead => reopens own _ ownRead gap (List.cons_ne_nil _ _)
      rw [← idle] at kept
      have advances : Advances declared _ (read ++ lexeme :: blank) later := readElement_reads kept idle rfl recloses step
      exact advances.after _ whole
  · contradiction

theorem closeBranch_reads (formed : vocabulary.Formed machine) (has : HasRead vocabulary.declared machine read)
    (idle : machine.current = none) (innermost : machine.frames = .branch (some body) :: outer) (separated : Blank gap)
    (same : machine.unread = gap ++ .rightBrace :: rest) (step : machine.closeBranch body outer rest = .again later) :
    Advances vocabulary.declared machine read later := by
  have allowed := formed.frames
  rw [innermost] at allowed
  obtain ⟨-,⟨operand,branches,below,rfl⟩,-⟩ := allowed
  obtain ⟨lines,frames,current,rfl,roots,framesRead,none⟩ := has
  have none' := none
  rw [idle] at none'
  cases none'
  rw [innermost] at framesRead
  obtain ⟨front,own,rfl,⟨deeper,fanoutOwn,rfl,deeperRead,fanoutRead⟩,branchRead⟩ := framesRead
  obtain ⟨start,operandWritten,later',rfl,first,operandSpells,branchesSpell⟩ := fanoutRead
  obtain ⟨blank,before,written,rfl,apart,some_blank,inner,spells⟩ := branchRead
  simp only [Machine.closeBranch] at step
  split at step
  · cases step
    have collected := SpellsBranches.more branchesSpell apart some_blank inner spells separated
    refine ⟨gap ++ [.rightBrace],by rw [same]; simp,⟨lines,_,[],?_,roots,
      ⟨deeper,_,rfl,deeperRead,start,operandWritten,_,rfl,first,operandSpells,collected⟩,none⟩⟩
    simp
  · contradiction

theorem step_reads (formed : vocabulary.Formed machine) (has : HasRead vocabulary.declared machine read)
    (step : machine.step vocabulary.declared = .again later) : Advances vocabulary.declared machine read later := by
  obtain ⟨gap,splits,separated⟩ := skipBlank_splits machine.unread
  -- a round that only skips blanks before it reads a tree
  have readAfter : ∀ lexeme rest, machine.current = none →
      (machine.frames = [] ∨ (∃ branches outer, machine.frames = .fanout none branches :: outer) ∨
        ∃ outer, machine.frames = .branch none :: outer) →
      skipBlank machine.unread = lexeme :: rest →
      ({ machine with unread := lexeme :: rest } : Machine).readToken vocabulary.declared = .again later →
      Advances vocabulary.declared machine read later := by
    intro lexeme rest idle ready skipped step
    rw [skipped] at splits
    have blanked : HasRead vocabulary.declared { machine with unread := lexeme :: rest } (read ++ gap) :=
      has.blank idle ready separated
    have advances : Advances _ _ (read ++ gap) later := readToken_reads blanked idle step
    exact advances.after gap splits
  simp only [Machine.step] at step
  split at step
  next tree current => exact place_reads formed has current step
  next idle =>
    split at step
    · rename_i noFrames
      split at step
      · contradiction
      next skipped => exact readAfter _ _ idle (.inl noFrames) skipped step
    · rename_i body outer innermost
      simp only [Machine.readBranch] at step
      split at step
      · contradiction
      rename_i lexeme rest skipped
      split at step
      · split at step
        · rename_i closing
          subst closing
          rw [skipped] at splits
          exact closeBranch_reads formed has idle innermost separated splits step
        · contradiction
      · split at step
        · contradiction
        · exact readAfter _ _ idle (.inr (.inr ⟨_,innermost⟩)) skipped step
    · rename_i operand branches outer innermost
      simp only [Machine.readFanout] at step
      split at step
      · contradiction
      rename_i lexeme rest skipped
      split at step
      · rename_i operand
        rw [skipped] at splits
        split at step
        · rename_i closing
          subst closing
          split at step
          · contradiction
          cases step
          have closes : ∀ own, Frame.Read vocabulary.declared (.fanout (some operand) branches) own →
              Spells vocabulary.declared (.fanout operand branches) (own ++ (gap ++ [.rightBracket])) := by
            rintro own ⟨front,body,later,rfl,first,spells,branchesSpell⟩
            have whole := Spells.fanout first spells branchesSpell separated
            simpa using whole
          exact has.close idle innermost closes (splits.trans (by simp))
        split at step
        · contradiction
        split at step
        · contradiction
        rename_i notClosing opening apart
        cases step
        obtain rfl := not_not.mp opening
        have some_gap : gap ≠ [] := by
          rintro rfl
          rw [splits] at apart
          simp [Lexeme.isSeparator] at apart
        have opened : Frame.Read vocabulary.declared (.branch none) (gap ++ [.leftBrace]) :=
          ⟨gap,[],rfl,separated,some_gap,blank_nil⟩
        exact has.push idle opened (splits.trans (by simp))
      · split at step
        · contradiction
        · exact readAfter _ _ idle (.inr (.inl ⟨_,_,innermost⟩)) skipped step
    · rename_i name arguments after outer innermost
      refine readDelimited_reads has idle innermost ?_ ?_ ?_ ?_ step
      · rintro own ⟨body,rfl,elements,-⟩
        exact .bracketCall elements
      · rintro own gap ⟨body,rfl,elements,spaced⟩ separated
        exact ⟨body ++ gap,rfl,elements.blank separated,fun fresh => (spaced fresh).blank separated⟩
      · rintro own gap ⟨body,rfl,elements,-⟩ separated some_gap
        exact ⟨body ++ gap,rfl,elements.blank separated,fun _ => spaced_blank separated some_gap⟩
      · rintro own ⟨body,rfl,elements,-⟩
        exact .bracketCall elements
    · rename_i elements after outer innermost
      refine readDelimited_reads has idle innermost ?_ ?_ ?_ ?_ step
      · rintro own ⟨body,rfl,elements,-⟩
        exact .tuple elements
      · rintro own gap ⟨body,rfl,elements,spaced⟩ separated
        exact ⟨body ++ gap,rfl,elements.blank separated,fun fresh => (spaced fresh).blank separated⟩
      · rintro own gap ⟨body,rfl,elements,-⟩ separated some_gap
        exact ⟨body ++ gap,rfl,elements.blank separated,fun _ => spaced_blank separated some_gap⟩
      · rintro own ⟨body,rfl,elements,-⟩
        exact .tuple elements
    · exact readToken_reads has idle step

theorem step_accept_reads (has : HasRead vocabulary.declared machine read)
    (step : machine.step vocabulary.declared = .accept trees) :
    SpellsRoots vocabulary.declared trees (read ++ machine.unread) := by
  obtain ⟨lines,frames,own,rfl,roots,framesRead,ownRead⟩ := has
  simp only [Machine.step] at step
  split at step
  next tree current =>
    rw [current] at ownRead
    obtain ⟨front,back,whole,foldedRead,foldedSpells⟩ := foldPrefix_read machine.frames framesRead ownRead
    simp only [Machine.place] at step
    split at step
    · contradiction
    · rename_i tree' fold
      rw [fold] at foldedRead foldedSpells
      cases foldedRead
      obtain ⟨spaces,splits,blank⟩ := skipSpaces_splits machine.unread
      split at step
      · rename_i finished
        cases step
        rw [finished,List.append_nil] at splits
        rw [whole,splits,List.append_assoc]
        exact .open roots foldedSpells blank
      · split at step <;> contradiction
  next idle =>
    rw [idle] at ownRead
    cases ownRead
    split at step
    · rename_i noFrames
      rw [noFrames] at framesRead
      cases framesRead
      obtain ⟨gap,splits,separated⟩ := skipBlank_splits machine.unread
      split at step
      · rename_i finished
        cases step
        rw [finished,List.append_nil] at splits
        rw [splits]
        simpa using SpellsRoots.ended (roots.blank separated)
      · exact absurd step (Vocabulary.readToken_not_accept _)
    all_goals
      try simp only [Machine.readBranch,Machine.readFanout,Machine.readDelimited,
        Machine.closeBranch,Machine.close] at step
      repeat' split at step
      all_goals first
        | contradiction
        | exact absurd step (Vocabulary.readToken_not_accept _)
        | exact absurd step (Vocabulary.readElement_not_accept _ _ _)

/-- Everything the machine accepts is spelled by what it has read and has still to read. -/
theorem accepts_reads (leaves : vocabulary.leaves = true)
    (accepts : Machine.Accepts vocabulary.declared machine trees) :
    ∀ {read}, vocabulary.Formed machine → HasRead vocabulary.declared machine read →
      SpellsRoots vocabulary.declared trees (read ++ machine.unread) := by
  induction accepts with
  | accept step => exact fun _ has => step_accept_reads has step
  | again step _ ih =>
    intro read formed has
    obtain ⟨taken,splits,after⟩ := step_reads formed has step
    have later := ih (Vocabulary.step_formed leaves formed step) after
    rwa [splits,← List.append_assoc]

end reading
end Bennu
