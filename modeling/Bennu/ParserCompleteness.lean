import Bennu.ParserGrammar

/-! The machine accepts the lexemes of every tree of the grammar and reads the tree back. -/
namespace Bennu

def spacedLexemes : List (List Lexeme) → List Lexeme
  | [] => []
  | first :: rest => first ++ rest.flatMap fun lexemes => .horizontalSpace :: lexemes

def literalLexemes (literal : Literal) : List Lexeme := [.literal literal]

mutual

/-- The lexemes of a tree's canonical rendering. -/
def Expr.lexemes (names : List Text) : Expr → List Lexeme
  | .scalar literal => [.literal literal]
  | .vector type [] => [.typeName type,.leftParenthesis,.rightParenthesis]
  | .vector _ (first :: rest) =>
    .leftParenthesis ::
      (spacedLexemes ((first :: rest).map literalLexemes) ++ [.rightParenthesis])
  | .parameter index => [.name (names.getD index [])]
  | .unresolved name => [.name name]
  | .bracketCall name arguments =>
    .name name :: .leftBracket ::
      (spacedLexemes (Expr.lexemesAll names arguments) ++ [.rightBracket])
  | .prefixCall name argument => .name name :: .horizontalSpace :: argument.lexemes names
  | .tuple elements =>
    .leftBracket :: (spacedLexemes (Expr.lexemesAll names elements) ++ [.rightBracket])
  | .placeholder => [.placeholder]
  | .fanout operand branches =>
    .name "fanout".toList :: .leftBracket ::
      (operand.lexemes names ++ (Expr.branchLexemes names branches ++ [.rightBracket]))

def Expr.lexemesAll (names : List Text) : List Expr → List (List Lexeme)
  | [] => []
  | tree :: rest => tree.lexemes names :: Expr.lexemesAll names rest

def Expr.branchLexemes (names : List Text) : List Expr → List Lexeme
  | [] => []
  | branch :: rest =>
    .horizontalSpace :: .leftBrace ::
      (branch.lexemes names ++ .rightBrace :: Expr.branchLexemes names rest)

end

/-- A lexeme that neither separates nor closes. -/
def Lexeme.starts : Lexeme → Bool
  | .rightBracket | .rightParenthesis | .rightBrace | .horizontalSpace | .lineTerminator =>
    false
  | _ => true

theorem Lexeme.starts_not_separator (starts : Lexeme.starts lexeme = true) :
    lexeme.isSeparator = false := by
  cases lexeme <;> simp_all [Lexeme.starts,Lexeme.isSeparator]

theorem Expr.lexemes_start (names : List Text) (tree : Expr) :
    ∃ first rest, tree.lexemes names = first :: rest ∧ first.starts = true := by
  cases tree with
  | vector type elements => cases elements <;> exact ⟨_,_,by rw [Expr.lexemes],rfl⟩
  | _ => exact ⟨_,_,by rw [Expr.lexemes],rfl⟩

theorem skipBlank_starts (starts : Lexeme.starts first = true) (rest : List Lexeme) :
    skipBlank (first :: rest) = first :: rest := by
  simp [skipBlank,Lexeme.starts_not_separator starts]

theorem skipBlank_closing (rest : List Lexeme) :
    skipBlank (.rightBracket :: rest) = .rightBracket :: rest := rfl

/-! ### Vectors -/

theorem readElements_complete (type : ScalarType) (elements : List Literal) :
    ∀ fuel rest first, (∀ literal ∈ first :: elements, Literal.type literal = type) →
      elements.length < fuel →
      readElements type fuel
        (spacedLexemes ((first :: elements).map literalLexemes) ++ .rightParenthesis :: rest) =
          some (first :: elements,rest) := by
  induction elements with
  | nil =>
    intro fuel rest first typed enough
    obtain ⟨fuel,rfl⟩ := Nat.exists_eq_succ_of_ne_zero (Nat.ne_of_gt enough)
    have same := typed first List.mem_cons_self
    simp [spacedLexemes,literalLexemes,readElements,same]
  | cons second elements ih =>
    intro fuel rest first typed enough
    obtain ⟨fuel,rfl⟩ := Nat.exists_eq_succ_of_ne_zero (Nat.ne_of_gt (Nat.zero_lt_of_lt enough))
    have same := typed first List.mem_cons_self
    have later := ih fuel rest second
      (fun literal member => typed literal (List.mem_cons_of_mem _ member))
      (by simpa using enough)
    simp only [spacedLexemes,literalLexemes,List.map_cons,List.flatMap_cons,List.cons_append,
      List.nil_append] at later ⊢
    simp [readElements,same,Lexeme.isSeparator,skipBlank,later]

theorem separated_length (elements : List Literal) :
    elements.length ≤ ((elements.map literalLexemes).flatMap
      fun lexemes => .horizontalSpace :: lexemes).length := by
  induction elements with
  | nil => simp
  | cons first rest ih =>
    simp only [List.map_cons,List.flatMap_cons,List.length_append,List.length_cons]
    omega

theorem readVector_complete (first : Literal) (elements : List Literal) (rest : List Lexeme)
    (typed : ∀ literal ∈ first :: elements, Literal.type literal = type) :
    readVector (spacedLexemes ((first :: elements).map literalLexemes) ++
      .rightParenthesis :: rest) = some (.vector type (first :: elements),rest) := by
  have same := typed first List.mem_cons_self
  have read := readElements_complete type elements
    ((elements.map literalLexemes).flatMap (fun lexemes => .horizontalSpace :: lexemes) ++
      .rightParenthesis :: rest).length.succ rest first typed (by
        have longer := separated_length elements
        rw [List.length_append]
        omega)
  simp only [spacedLexemes,literalLexemes,List.map_cons,List.cons_append,List.nil_append]
    at read ⊢
  simp only [readVector,skipBlank_starts (show (Lexeme.literal first).starts = true from rfl)]
  rw [same,read]
  rfl

namespace Machine

variable {declared : List Text} {machine later : Machine} {frames outer : List Frame}
  {roots trees : List Expr} {first : Lexeme} {rest : List Lexeme} {name : Text}

theorem Accepts.congr {left right : Machine} (same : left.step declared = right.step declared)
    (accepts : Accepts declared right trees) : Accepts declared left trees := by
  cases accepts with
  | accept step => exact .accept (same.trans step)
  | again step later => exact .again (same.trans step) later

/-! ### Reading into frames that wait -/

/-- Frames that wait for a tree, with what the grammar allows there. -/
structure Ready (frames : List Frame) : Prop where
  awaiting : Awaiting frames
  operand : placeOf frames = .branch → operandRead frames = true
  outside : placeOf frames = .outside → frames.any Frame.isFanout = false

/-- A tree whose next lexeme is that of `rest` ends there. -/
structure Follow (frames : List Frame) (rest : List Lexeme) : Prop where
  bracket : rest.head? ≠ some .leftBracket
  space : frames.isEmpty = true → rest.head? ≠ some .horizontalSpace

theorem step_reads (ready : Ready frames) (starts : Lexeme.starts first = true) :
    step declared ⟨roots,frames,none,first :: rest⟩ =
      readToken declared ⟨roots,frames,none,first :: rest⟩ := by
  have skip := skipBlank_starts starts rest
  cases frames with
  | nil => simp [step,skip]
  | cons frame outer =>
    have awaiting := ready.awaiting
    cases frame with
    | bracketCall name arguments after =>
      cases (show after = false from awaiting)
      cases first <;> simp_all [step,readDelimited,readElement,Lexeme.starts]
    | tuple elements after =>
      cases (show after = false from awaiting)
      cases first <;> simp_all [step,readDelimited,readElement,Lexeme.starts]
    | prefixCall name => rfl
    | fanout operand branches =>
      cases (show operand = none from awaiting)
      cases first <;> simp_all [step,readFanout,Lexeme.starts]
    | branch body =>
      cases (show body = none from awaiting)
      cases first <;> simp_all [step,readBranch,Lexeme.starts]

theorem Bracket.place (bracket : Bracket) (collected : List Expr) (tree : Expr) :
    Machine.step declared ⟨roots,bracket.frame collected false :: outer,some tree,rest⟩ =
      .again ⟨roots,bracket.frame (collected ++ [tree]) true :: outer,none,rest⟩ := by
  cases bracket <;> rfl

theorem Bracket.ready (bracket : Bracket) (collected : List Expr) (ready : Ready outer) :
    Ready (bracket.frame collected false :: outer) := by
  cases bracket <;> exact ⟨rfl,ready.operand,ready.outside⟩

theorem Bracket.placeOf (bracket : Bracket) (collected : List Expr) (after : Bool) :
    Bennu.placeOf (bracket.frame collected after :: outer) = Bennu.placeOf outer := by
  cases bracket <;> rfl

/-- A closing bracket right after an element or after the opening one. -/
theorem Bracket.close (bracket : Bracket) (collected : List Expr) (after : Bool)
    (accepts : Accepts declared ⟨roots,outer,some (bracket.tree collected),rest⟩ trees) :
    Accepts declared
      ⟨roots,bracket.frame collected after :: outer,none,.rightBracket :: rest⟩ trees := by
  apply Accepts.again _ accepts
  rw [bracket.step]
  cases after <;> rfl

/-- A separator after an element. -/
theorem Bracket.separate (bracket : Bracket) (collected : List Expr) (ready : Ready outer)
    (starts : Lexeme.starts first = true)
    (accepts : Accepts declared
      ⟨roots,bracket.frame collected false :: outer,none,first :: rest⟩ trees) :
    Accepts declared ⟨roots,bracket.frame collected true :: outer,none,
      .horizontalSpace :: first :: rest⟩ trees := by
  apply accepts.congr
  rw [step_reads (bracket.ready collected ready) starts,bracket.step]
  have notClosing : first ≠ .rightBracket ∧ first ≠ .rightParenthesis := by
    cases first <;> simp_all [Lexeme.starts]
  simp [readDelimited,readElement,Lexeme.isSeparator,skipBlank_starts starts,notClosing]

/-! ### Names -/

theorem reference_parameter (distinct : declared.Nodup) (index : Nat)
    (bound : index < declared.length) (follow : Follow machine.frames rest) :
    machine.reference declared (declared.getD index []) rest = some index := by
  have found : declared.findIdx? (fun name => name == declared.getD index []) = some index := by
    rw [List.findIdx?_eq_some_iff_getElem]
    refine ⟨bound,by simp [bound],fun earlier less => ?_⟩
    have earlierBound : earlier < declared.length := Nat.lt_trans less bound
    intro same
    rw [beq_iff_eq,List.getD_eq_getElem?_getD,List.getElem?_eq_getElem bound,
      Option.getD_some] at same
    exact Nat.ne_of_lt less ((List.getElem_inj distinct).mp same)
  simp only [reference]
  rw [if_pos]
  · exact found
  · refine ⟨follow.bracket,?_⟩
    right
    cases empty : machine.frames.isEmpty with
    | false => rfl
    | true => simpa using follow.space empty

theorem readName_bracket (notFanout : name ≠ "fanout".toList) :
    readName declared machine name (.leftBracket :: rest) =
      .again (machine.push (.bracketCall name [] false) (skipBlank rest)) := by
  simp only [readName,if_neg notFanout]
  simp [reference]

theorem readName_prefix (notFanout : name ≠ "fanout".toList)
    (undeclared : name ∈ declared → machine.frames.isEmpty = true)
    (starts : Lexeme.starts first = true) :
    readName declared machine name (.horizontalSpace :: first :: rest) =
      .again (machine.push (.prefixCall name) (first :: rest)) := by
  have unreferenced : machine.reference declared name (.horizontalSpace :: first :: rest) =
      none := by
    simp only [reference]
    by_cases member : name ∈ declared
    · have empty := undeclared member
      rw [if_neg]
      simp only [List.isEmpty_iff.mp empty]
      simp
    · split
      · rw [List.findIdx?_eq_none_iff]
        intro other otherMember
        simp only [beq_eq_false_iff_ne]
        rintro rfl
        exact member otherMember
      · rfl
  have notTerminator : first ≠ .lineTerminator := by
    rintro rfl
    simp [Lexeme.starts] at starts
  simp only [readName,if_neg notFanout,unreferenced]
  simp [notTerminator]

end Machine

/-- What the run lemmas assume about the declared names and the trees. -/
structure Readable (vocabulary : Vocabulary) : Prop where
  distinct : vocabulary.declared.Nodup
  noLeaves : vocabulary.leaves = false
  names : ∀ name ∈ vocabulary.declared, name ≠ "parameters".toList ∧ name ≠ "fanout".toList

theorem notFanout_of_callName (named : isCallName name = true) : name ≠ "fanout".toList :=
  ((Vocabulary.isCallName_iff name).mp named).2.2

namespace Machine

mutual

/-- Reading a tree's lexemes completes the tree. -/
theorem accepts_tree (vocabulary : Vocabulary) (readable : Readable vocabulary) :
    (tree : Expr) → ∀ (roots : List Expr) (frames : List Frame) (rest : List Lexeme)
      (trees : List Expr), Ready frames → Follow frames rest →
      vocabulary.Allows (placeOf frames) frames.isEmpty tree →
      Accepts vocabulary.declared ⟨roots,frames,some tree,rest⟩ trees →
      Accepts vocabulary.declared
        ⟨roots,frames,none,tree.lexemes vocabulary.declared ++ rest⟩ trees
  | .scalar literal,roots,frames,rest,trees,ready,_,_,accepts => by
    apply Accepts.again _ accepts
    rw [Expr.lexemes,List.singleton_append,step_reads ready rfl]
    simp [readToken,complete]
  | .vector type [],roots,frames,rest,trees,ready,_,_,accepts => by
    apply Accepts.again _ accepts
    rw [Expr.lexemes,List.cons_append,step_reads ready rfl]
    simp [readToken,readEmptyVector,complete]
  | .vector type (first :: elements),roots,frames,rest,trees,ready,_,allowed,accepts => by
    apply Accepts.again _ accepts
    rw [Expr.lexemes,List.cons_append,step_reads ready rfl,List.append_assoc]
    have read := readVector_complete first elements rest fun literal member =>
      (allowed literal member).2
    simp only [readToken,List.singleton_append,read]
    simp [complete]
  | .parameter index,roots,frames,rest,trees,ready,follow,allowed,accepts => by
    have bound : index < vocabulary.declared.length := allowed
    have named := readable.names (vocabulary.declared.getD index [])
      (by simp [bound])
    apply Accepts.again _ accepts
    rw [Expr.lexemes,List.singleton_append,step_reads ready rfl]
    have refers : Machine.reference vocabulary.declared ⟨roots,frames,none,
        .name (vocabulary.declared.getD index []) :: rest⟩
        (vocabulary.declared.getD index []) rest = some index :=
      reference_parameter readable.distinct index bound follow
    have notHeader : (Lexeme.name (vocabulary.declared.getD index [])) ≠
        .name "parameters".toList := fun same => named.1 (Lexeme.name.inj same)
    simp only [readToken,notHeader,and_false,if_false,readName,if_neg named.2,refers,complete]
  | .unresolved name,_,_,_,_,_,_,allowed,_ => by
    exact absurd (allowed.1.symm.trans readable.noLeaves) (by decide)
  | .bracketCall name arguments,roots,frames,rest,trees,ready,_,allowed,accepts => by
    obtain ⟨named,notHeader,argumentsAllowed⟩ := allowed
    have opened := accepts_all vocabulary readable arguments (.call name) [] roots frames rest
      trees ready argumentsAllowed accepts
    apply Accepts.again _ opened
    rw [Expr.lexemes,List.cons_append,List.cons_append,step_reads ready rfl]
    simp only [readToken]
    rw [if_neg (by
      rintro ⟨empty,same⟩
      exact notHeader empty (Lexeme.name.inj same))]
    rw [readName_bracket (notFanout_of_callName named),List.append_assoc]
    rfl
  | .prefixCall name argument,roots,frames,rest,trees,ready,follow,allowed,accepts => by
    obtain ⟨named,notHeader,undeclared,argumentAllowed⟩ := allowed
    have inner : Accepts vocabulary.declared
        ⟨roots,.prefixCall name :: frames,some argument,rest⟩ trees := by
      apply Accepts.congr _ accepts
      rfl
    have read := accepts_tree vocabulary readable argument roots (.prefixCall name :: frames)
      rest trees ⟨trivial,ready.operand,ready.outside⟩ ⟨follow.bracket,by simp⟩
      argumentAllowed inner
    apply Accepts.again _ read
    obtain ⟨first,more,lexemes,starts⟩ := argument.lexemes_start vocabulary.declared
    rw [Expr.lexemes,List.cons_append,List.cons_append,step_reads ready rfl,lexemes]
    simp only [readToken]
    rw [if_neg (by
      rintro ⟨empty,same⟩
      exact notHeader empty (Lexeme.name.inj same))]
    exact readName_prefix (notFanout_of_callName named) undeclared starts
  | .tuple elements,roots,frames,rest,trees,ready,_,allowed,accepts => by
    have opened := accepts_all vocabulary readable elements .tuple [] roots frames rest
      trees ready allowed accepts
    apply Accepts.again _ opened
    rw [Expr.lexemes,List.cons_append,step_reads ready rfl,List.append_assoc]
    simp [readToken,push,Bracket.frame]
  | .placeholder,roots,frames,rest,trees,ready,_,allowed,accepts => by
    apply Accepts.again _ accepts
    rw [Expr.lexemes,List.singleton_append,step_reads ready rfl]
    simp [readToken,ready.operand allowed,complete]
  | .fanout operand branches,roots,frames,rest,trees,ready,_,allowed,accepts => by
    obtain ⟨outside,operandAllowed,nonempty,branchesAllowed⟩ := allowed
    have collected := accepts_branches vocabulary readable branches operand [] roots frames rest
      trees (by simpa using nonempty) branchesAllowed accepts
    have placed : Accepts vocabulary.declared
        ⟨roots,.fanout none [] :: frames,some operand,
          Expr.branchLexemes vocabulary.declared branches ++ .rightBracket :: rest⟩ trees :=
      Accepts.again rfl collected
    have read := accepts_tree vocabulary readable operand roots (.fanout none [] :: frames) _
      trees ⟨rfl,by simp [placeOf],by simp [placeOf]⟩
      ⟨by cases branches <;> simp [Expr.branchLexemes],by simp⟩ operandAllowed placed
    apply Accepts.again _ read
    rw [Expr.lexemes,List.cons_append,List.cons_append,step_reads ready rfl]
    have notHeader : Lexeme.name "fanout".toList ≠ .name "parameters".toList := by decide
    simp only [readToken,notHeader,and_false,if_false,readName,if_true,readFanoutKeyword,
      ready.outside outside,Bool.false_eq_true]
    simp [push]

/-- Reading elements between brackets completes the bracket. -/
theorem accepts_all (vocabulary : Vocabulary) (readable : Readable vocabulary) :
    (elements : List Expr) → ∀ (bracket : Bracket) (collected roots : List Expr)
      (frames : List Frame) (rest : List Lexeme) (trees : List Expr), Ready frames →
      vocabulary.AllowsAll (placeOf frames) elements →
      Accepts vocabulary.declared
        ⟨roots,frames,some (bracket.tree (collected ++ elements)),rest⟩ trees →
      Accepts vocabulary.declared ⟨roots,bracket.frame collected false :: frames,none,
        skipBlank (spacedLexemes (Expr.lexemesAll vocabulary.declared elements) ++
          .rightBracket :: rest)⟩ trees
  | [],bracket,collected,roots,frames,rest,trees,_,_,accepts => by
    rw [List.append_nil] at accepts
    exact bracket.close collected false accepts
  | tree :: more,bracket,collected,roots,frames,rest,trees,ready,allowed,accepts => by
    have after := accepts_more vocabulary readable more bracket (collected ++ [tree]) roots
      frames rest trees ready allowed.2 (by rwa [List.append_assoc])
    have placed : Accepts vocabulary.declared _ trees :=
      Accepts.again (bracket.place collected tree) after
    have read := accepts_tree vocabulary readable tree roots
      (bracket.frame collected false :: frames) _ trees (bracket.ready collected ready)
      ⟨by cases more <;> simp [Expr.lexemesAll],by simp⟩
      (by rw [bracket.placeOf]; exact allowed.1) placed
    obtain ⟨first,later,lexemes,starts⟩ := tree.lexemes_start vocabulary.declared
    rw [Expr.lexemesAll,spacedLexemes,lexemes,List.cons_append,List.cons_append,
      skipBlank_starts starts]
    rw [lexemes] at read
    simpa using read

/-- The elements after the first, each after a separator. -/
theorem accepts_more (vocabulary : Vocabulary) (readable : Readable vocabulary) :
    (elements : List Expr) → ∀ (bracket : Bracket) (collected roots : List Expr)
      (frames : List Frame) (rest : List Lexeme) (trees : List Expr), Ready frames →
      vocabulary.AllowsAll (placeOf frames) elements →
      Accepts vocabulary.declared
        ⟨roots,frames,some (bracket.tree (collected ++ elements)),rest⟩ trees →
      Accepts vocabulary.declared ⟨roots,bracket.frame collected true :: frames,none,
        ((Expr.lexemesAll vocabulary.declared elements).flatMap
          fun lexemes => .horizontalSpace :: lexemes) ++ .rightBracket :: rest⟩ trees
  | [],bracket,collected,roots,frames,rest,trees,_,_,accepts => by
    rw [List.append_nil] at accepts
    exact bracket.close collected true accepts
  | tree :: more,bracket,collected,roots,frames,rest,trees,ready,allowed,accepts => by
    have after := accepts_more vocabulary readable more bracket (collected ++ [tree]) roots
      frames rest trees ready allowed.2 (by rwa [List.append_assoc])
    have placed : Accepts vocabulary.declared _ trees :=
      Accepts.again (bracket.place collected tree) after
    have read := accepts_tree vocabulary readable tree roots
      (bracket.frame collected false :: frames) _ trees (bracket.ready collected ready)
      ⟨by cases more <;> simp [Expr.lexemesAll],by simp⟩
      (by rw [bracket.placeOf]; exact allowed.1) placed
    obtain ⟨first,later,lexemes,starts⟩ := tree.lexemes_start vocabulary.declared
    rw [lexemes,List.cons_append] at read
    have separated := bracket.separate collected ready starts read
    rw [Expr.lexemesAll,List.flatMap_cons,lexemes]
    simpa using separated

/-- Reading branches completes the fanout. -/
theorem accepts_branches (vocabulary : Vocabulary) (readable : Readable vocabulary) :
    (branches : List Expr) → ∀ (operand : Expr) (collected roots : List Expr)
      (frames : List Frame) (rest : List Lexeme) (trees : List Expr),
      collected ++ branches ≠ [] → vocabulary.AllowsBranches branches →
      Accepts vocabulary.declared
        ⟨roots,frames,some (.fanout operand (collected ++ branches)),rest⟩ trees →
      Accepts vocabulary.declared ⟨roots,.fanout (some operand) collected :: frames,none,
        Expr.branchLexemes vocabulary.declared branches ++ .rightBracket :: rest⟩ trees
  | [],operand,collected,roots,frames,rest,trees,nonempty,_,accepts => by
    rw [List.append_nil] at accepts nonempty
    apply Accepts.again _ accepts
    simp [step,readFanout,Expr.branchLexemes,skipBlank_closing,nonempty,complete]
  | branch :: more,operand,collected,roots,frames,rest,trees,_,allowed,accepts => by
    obtain ⟨⟨branchAllowed,isBranch⟩,moreAllowed⟩ := allowed
    have later := accepts_branches vocabulary readable more operand (collected ++ [branch]) roots
      frames rest trees (by simp) moreAllowed (by rwa [List.append_assoc])
    have closed : Accepts vocabulary.declared
        ⟨roots,.branch (some branch) :: .fanout (some operand) collected :: frames,none,
          .rightBrace :: (Expr.branchLexemes vocabulary.declared more ++
            .rightBracket :: rest)⟩ trees := by
      apply Accepts.again _ later
      have skip : skipBlank (.rightBrace :: (Expr.branchLexemes vocabulary.declared more ++
          .rightBracket :: rest)) = .rightBrace :: (Expr.branchLexemes vocabulary.declared more ++
          .rightBracket :: rest) := rfl
      simp [step,readBranch,skip,closeBranch,isBranch]
    have placed : Accepts vocabulary.declared
        ⟨roots,.branch none :: .fanout (some operand) collected :: frames,some branch,
          .rightBrace :: (Expr.branchLexemes vocabulary.declared more ++
            .rightBracket :: rest)⟩ trees := Accepts.again rfl closed
    have read := accepts_tree vocabulary readable branch roots
      (.branch none :: .fanout (some operand) collected :: frames) _ trees
      ⟨rfl,fun _ => rfl,by simp [placeOf]⟩ ⟨by simp,by simp⟩ branchAllowed placed
    apply Accepts.again _ read
    have skip : ∀ after : List Lexeme, skipBlank (.horizontalSpace :: .leftBrace :: after) =
        .leftBrace :: after := fun _ => rfl
    simp [step,readFanout,Expr.branchLexemes,skip,Lexeme.isSeparator,push]

end

end Machine

/-- The lexemes of the roots, one a line. -/
def rootLexemes (names : List Text) (roots : List Expr) : List Lexeme :=
  roots.flatMap fun root => root.lexemes names ++ [.lineTerminator]

theorem accepts_roots (vocabulary : Vocabulary) (readable : Readable vocabulary)
    (more : List Expr) : ∀ roots, vocabulary.AllowsRoots more →
      Machine.Accepts vocabulary.declared
        ⟨roots,[],none,rootLexemes vocabulary.declared more⟩ (roots ++ more) := by
  induction more with
  | nil => intro roots _; rw [List.append_nil]; exact .accept rfl
  | cons root more ih =>
    intro roots allowed
    have later := ih (roots ++ [root]) fun other member =>
      allowed other (List.mem_cons_of_mem _ member)
    rw [List.append_assoc,List.singleton_append] at later
    have placed : Machine.Accepts vocabulary.declared ⟨roots,[],some root,
        .lineTerminator :: rootLexemes vocabulary.declared more⟩ (roots ++ root :: more) :=
      .again rfl later
    have read := Machine.accepts_tree vocabulary readable root roots [] _ _
      ⟨trivial,by simp [placeOf],fun _ => rfl⟩ ⟨by simp,by simp⟩
      (allowed root List.mem_cons_self) placed
    simpa [rootLexemes] using read

end Bennu
