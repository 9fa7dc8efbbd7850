import Bennu.ParserSimulation
import Bennu.ParserSpelling
import Bennu.Rendering
import Mathlib.Data.List.Nodup

/-! The language of the parser: what it accepts is what trees of the grammar write. -/
namespace Bennu

variable {tokens : RewriteTokens} {token : RewriteToken} {unread : List RewriteToken}

/-! ### The header -/

theorem lexemes_eq_cons {lexeme : Lexeme} {later : List Lexeme}
    (same : lexemes tokens unread = lexeme :: later) :
    ∃ token rest, unread = token :: rest ∧
      tokenLexeme (rewriteTokenSpelling tokens token) token = lexeme ∧
      lexemes tokens rest = later := by
  cases unread with
  | nil => contradiction
  | cons token rest =>
    obtain ⟨first,rest_⟩ := List.cons.inj same
    exact ⟨token,rest,rfl,first,rest_⟩

theorem parameterType_lexeme (typed : tokenLexeme spelling token = .typeName type) :
    parameterType token.kind = some type := by
  cases kind : token.kind <;> simp [tokenLexeme,kind] at typed <;> simp [parameterType,typed]

theorem isSeparator_of_lexeme (same : tokenLexeme spelling token = lexeme) :
    isSeparator token = lexeme.isSeparator := by
  rw [← same,tokenLexeme_isSeparator]

theorem skipSeparators_cons (plain : isSeparator token = false) (rest : List RewriteToken) :
    skipSeparators (token :: rest) = token :: rest := by
  simp [skipSeparators,plain]

/-- A written declaration is read, up to the separator or the bracket after it. -/
theorem parseDeclarations_complete (keyword opening : RewriteToken)
    (parameters : List (Text × ScalarType)) :
    ∀ fuel declarations unread later,
      (∀ parameter ∈ parameters, parameterNameSpelling parameter.1 = true) →
      lexemes tokens unread =
        spacedLexemes (parameters.map declarationLexemes) ++ .rightBracket :: later →
      parameters.length < fuel →
      ∃ found closing rest,
        parseDeclarations tokens keyword opening fuel declarations unread =
          .ok (declarations ++ found,closing,rest) ∧
        found.map (fun declaration => (declaration.name,declaration.type)) = parameters ∧
        lexemes tokens rest = later ∧ rest <:+ unread := by
  induction parameters with
  | nil =>
    intro fuel declarations unread later _ written enough
    obtain ⟨closing,rest,rfl,closes,left⟩ := lexemes_eq_cons written
    obtain ⟨fuel,rfl⟩ := Nat.exists_eq_succ_of_ne_zero (Nat.ne_of_gt enough)
    refine ⟨[],closing,rest,?_,rfl,left,List.suffix_cons _ _⟩
    simp only [parseDeclarations,tokenLexeme_rightBracket.mp closes,if_true,List.append_nil]
  | cons parameter parameters ih =>
    intro fuel declarations unread later named written enough
    obtain ⟨fuel,rfl⟩ := Nat.exists_eq_succ_of_ne_zero (Nat.ne_of_gt
      (Nat.lt_of_le_of_lt (Nat.zero_le _) enough))
    have spelled := named parameter List.mem_cons_self
    simp only [List.map_cons,spacedLexemes,declarationLexemes,List.cons_append,List.nil_append]
      at written
    obtain ⟨name,_,rfl,nameIs,written⟩ := lexemes_eq_cons written
    obtain ⟨separator,_,rfl,separatorIs,written⟩ := lexemes_eq_cons written
    obtain ⟨type,afterType,rfl,typeIs,written⟩ := lexemes_eq_cons written
    obtain ⟨nameKind,spelling⟩ := tokenLexeme_name.mp nameIs
    have separates : isSeparator separator = true := isSeparator_of_lexeme separatorIs
    have plain : isSeparator type = false := isSeparator_of_lexeme typeIs
    have typed := parameterType_lexeme typeIs
    obtain ⟨next,more,rfl,goesOn,left⟩ : ∃ next more, afterType = next :: more ∧
        (next.kind = .rightBracket ∨ isSeparator next = true) ∧
        lexemes tokens (skipSeparators (next :: more)) =
          spacedLexemes (parameters.map declarationLexemes) ++ .rightBracket :: later := by
      cases parameters with
      | nil =>
        obtain ⟨closing,rest,rfl,closes,left⟩ := lexemes_eq_cons written
        have closingKind := tokenLexeme_rightBracket.mp closes
        refine ⟨closing,rest,rfl,.inl closingKind,?_⟩
        rw [skipSeparators_cons (isSeparator_of_lexeme closes)]
        exact written
      | cons second parameters =>
        simp only [List.map_cons,List.flatMap_cons,declarationLexemes,List.cons_append,
          List.nil_append] at written
        obtain ⟨space,rest,rfl,spaceIs,written⟩ := lexemes_eq_cons written
        obtain ⟨first,others,rfl,firstIs,_⟩ := lexemes_eq_cons written
        have spaces : isSeparator space = true := isSeparator_of_lexeme spaceIs
        refine ⟨space,first :: others,rfl,.inr spaces,?_⟩
        have skipped : skipSeparators (space :: first :: others) = first :: others := by
          have firstPlain : isSeparator first = false := isSeparator_of_lexeme firstIs
          simp [skipSeparators,spaces,firstPlain]
        rw [skipped,written]
        simp [spacedLexemes,declarationLexemes]
    let declaration : RewriteParameterDeclaration :=
      ⟨parameter.1,parameter.2,⟨name.span.begin,type.span.finish⟩,name.span,type.span⟩
    obtain ⟨found,closing,rest,parsed,same,remaining,suffix⟩ := ih fuel
      (declarations ++ [declaration]) (skipSeparators (next :: more)) later
      (fun other member => named other (List.mem_cons_of_mem _ member)) left
      (by simpa using enough)
    have skips : skipSeparators (next :: more) <:+ next :: more := List.dropWhile_suffix _
    refine ⟨declaration :: found,closing,rest,?_,by rw [List.map_cons,same],remaining,
      ((suffix.trans skips).trans (List.suffix_cons _ _)).trans
        ((List.suffix_cons _ _).trans (List.suffix_cons _ _))⟩
    rw [parseDeclarations]
    simp only [spelling,nameKind,spelled,separates,skipSeparators_cons plain,typed,goesOn,
      reduceCtorEq,Bool.true_eq_false,if_false,if_true]
    rw [List.append_assoc] at parsed
    exact parsed

/-- A written header is read; without one the text must not start like one. -/
theorem parseParameterHeader_complete (parameters : List (Text × ScalarType))
    (later : List Lexeme)
    (named : ∀ parameter ∈ parameters, parameterNameSpelling parameter.1 = true)
    (written : lexemes tokens unread = headerLexemes parameters ++ later)
    (unlike : (skipBlank later).head? ≠ some (.name "parameters".toList)) :
    ∃ header rest, parseParameterHeader tokens unread = .ok (header,rest) ∧
      header.declarations.map (fun declaration => (declaration.name,declaration.type)) =
        parameters ∧
      lexemes tokens rest = later ∧ rest <:+ unread := by
  cases parameters with
  | nil =>
    have written : lexemes tokens unread = later := written
    refine ⟨emptyHeader,unread,?_,rfl,written,List.suffix_rfl⟩
    rw [← written,skipBlank_lexemes] at unlike
    rw [parseParameterHeader]
    cases skipped : skipSeparators unread with
    | nil => rfl
    | cons token rest =>
      rw [skipped,lexemes_cons,List.head?_cons,ne_eq,Option.some.injEq,tokenLexeme_name,
        not_and_or] at unlike
      dsimp only
      rw [if_pos unlike]
  | cons parameter parameters =>
    simp only [headerLexemes,List.isEmpty_cons,Bool.false_eq_true,if_false,List.cons_append,
      List.append_assoc,List.nil_append] at written
    obtain ⟨keyword,_,rfl,keywordIs,written⟩ := lexemes_eq_cons written
    obtain ⟨opening,body,rfl,openingIs,written⟩ := lexemes_eq_cons written
    obtain ⟨keywordKind,spelling⟩ := tokenLexeme_name.mp keywordIs
    have first : skipSeparators body = body := by
      simp only [List.map_cons,spacedLexemes,declarationLexemes,List.cons_append] at written
      obtain ⟨name,rest,rfl,nameIs,_⟩ := lexemes_eq_cons written
      exact skipSeparators_cons (isSeparator_of_lexeme nameIs) rest
    have short : (parameter :: parameters).length < body.length + 1 := by
      have count := congrArg List.length written
      simp only [lexemes,List.length_map,List.length_append,List.length_cons] at count
      have total : ∀ more : List (Text × ScalarType), more.length ≤
          ((more.map declarationLexemes).flatMap
            fun lexemes => .horizontalSpace :: lexemes).length := by
        intro more
        induction more with
        | nil => simp
        | cons other more ih => simp only [List.map_cons,List.flatMap_cons,List.length_append,List.length_cons]; omega
      have := total parameters
      simp only [List.map_cons,spacedLexemes,declarationLexemes,List.length_append,
        List.length_cons] at count
      simp only [List.length_cons]
      omega
    obtain ⟨found,closing,afterClosing,parsed,same,remaining,suffix⟩ :=
      parseDeclarations_complete keyword opening (parameter :: parameters) _ [] body _ named
        written short
    obtain ⟨line,rest,rfl,lineIs,left⟩ := lexemes_eq_cons remaining
    have lineKind := tokenLexeme_lineTerminator.mp lineIs
    have notSpace : skipHorizontalSpace (line :: rest) = line :: rest := by
      simp [skipHorizontalSpace,lineKind]
    refine ⟨⟨true,⟨keyword.span.begin,closing.span.finish⟩,keyword.span,opening.span,
      closing.span,found⟩,rest,?_,same,left,?_⟩
    · have keywordPlain : isSeparator keyword = false := isSeparator_of_lexeme keywordIs
      rw [parseParameterHeader,skipSeparators_cons keywordPlain]
      dsimp only
      rw [if_neg (by simp [keywordKind,spelling])]
      rw [if_neg (by simp [tokenLexeme_leftBracket.mp openingIs]),first,parsed]
      dsimp only
      rw [notSpace]
      dsimp only
      rw [if_neg (by simp [lineKind]),List.nil_append]
    · exact ((List.suffix_cons _ _).trans suffix).trans
        ((List.suffix_cons _ _).trans (List.suffix_cons _ _))

theorem parseDeclarations_sound (keyword opening : RewriteToken) (fuel : Nat) :
    ∀ declarations unread found closing rest,
      (∀ declaration ∈ declarations, parameterNameSpelling declaration.name = true) →
      parseDeclarations tokens keyword opening fuel declarations unread =
        .ok (found,closing,rest) →
      (∀ declaration ∈ found, parameterNameSpelling declaration.name = true) ∧
        rest <:+ unread := by
  induction fuel with
  | zero => intro _ unread _ _ _ _ parsed; cases unread <;> simp [parseDeclarations] at parsed
  | succ fuel ih =>
    intro declarations unread found closing rest spelled parsed
    cases unread with
    | nil => simp [parseDeclarations] at parsed
    | cons name afterName =>
      simp only [parseDeclarations] at parsed
      split at parsed
      · cases parsed
        exact ⟨spelled,List.suffix_cons _ _⟩
      split at parsed
      · contradiction
      rename_i named
      split at parsed
      · contradiction
      rename_i separator afterSeparator
      split at parsed
      · split at parsed <;> contradiction
      split at parsed
      · contradiction
      rename_i type afterType skipped
      split at parsed
      · split at parsed <;> contradiction
      rename_i scalarType _
      have grown : ∀ declaration ∈ declarations ++
          [⟨rewriteTokenSpelling tokens name,scalarType,⟨name.span.begin,type.span.finish⟩,
            name.span,type.span⟩],
          parameterNameSpelling declaration.name = true := by
        intro declaration member
        rcases List.mem_append.mp member with member | member
        · exact spelled declaration member
        · rw [List.mem_singleton.mp member]
          simpa using named
      have typeSuffix : type :: afterType <:+ name :: separator :: afterSeparator := by
        rw [← skipped]
        exact (List.dropWhile_suffix _).trans
          ((List.suffix_cons _ _).trans (List.suffix_cons _ _))
      have afterSuffix := (List.suffix_cons type afterType).trans typeSuffix
      split at parsed
      · obtain ⟨all,suffix⟩ := ih _ _ _ _ _ grown parsed
        exact ⟨all,suffix.trans (List.nil_suffix)⟩
      split at parsed
      · obtain ⟨all,suffix⟩ := ih _ _ _ _ _ grown parsed
        exact ⟨all,(suffix.trans (List.dropWhile_suffix _)).trans afterSuffix⟩
      · contradiction

theorem parseParameterHeader_sound
    (parsed : parseParameterHeader tokens unread = .ok (header,rest)) :
    (∀ declaration ∈ header.declarations, parameterNameSpelling declaration.name = true) ∧
      rest <:+ unread := by
  have none : ∀ declaration ∈ emptyHeader.declarations,
      parameterNameSpelling declaration.name = true := by simp [emptyHeader]
  rw [parseParameterHeader] at parsed
  split at parsed
  · cases parsed
    exact ⟨none,List.suffix_rfl⟩
  rename_i keyword afterKeyword skipped
  have keywordSuffix : afterKeyword <:+ unread := by
    have skips : skipSeparators unread <:+ unread := List.dropWhile_suffix _
    rw [skipped] at skips
    exact (List.suffix_cons _ _).trans skips
  split at parsed
  · cases parsed
    exact ⟨none,List.suffix_rfl⟩
  split at parsed
  · contradiction
  rename_i opening body
  split at parsed
  · contradiction
  split at parsed
  · contradiction
  rename_i declarations closing afterClosing read
  obtain ⟨all,suffix⟩ := parseDeclarations_sound keyword opening _ [] _ _ _ _ (by simp) read
  have afterSuffix := (suffix.trans (List.dropWhile_suffix _)).trans
    ((List.suffix_cons opening body).trans keywordSuffix)
  have spaces : skipHorizontalSpace afterClosing <:+ afterClosing := List.dropWhile_suffix _
  dsimp only at parsed
  split at parsed
  · cases parsed
    exact ⟨all,List.nil_suffix⟩
  rename_i next later skippedSpace
  rw [skippedSpace] at spaces
  split at parsed
  · contradiction
  · cases parsed
    exact ⟨all,((List.suffix_cons _ _).trans spaces).trans afterSuffix⟩

/-! ### What a header is read from -/

theorem Spelled.word (spelled : Spelled parser tokens.source token)
    (named : parameterNameSpelling (rewriteTokenSpelling tokens token) = true) :
    tokenLexeme (rewriteTokenSpelling tokens token) token = wordLexeme (rewriteTokenSpelling tokens token) := by
  obtain ⟨byte,rest,begin,rfl,spelling⟩ := spelled
  have spelling : rewriteTokenSpelling tokens (nextToken parser byte rest begin) =
      (byte :: rest).take (tokenSize byte rest) := spelling
  rw [spelling] at named ⊢
  have lower : isLowercase byte = true := by
    obtain ⟨size,same⟩ := Nat.exists_eq_succ_of_ne_zero (Nat.ne_of_gt (tokenSize_pos byte rest))
    rw [same,List.take_succ_cons,parameterNameSpelling,Bool.and_eq_true] at named
    exact named.1
  have plain : isHorizontalSpace byte = false ∧ byte ≠ '\n' ∧ byte ≠ '\r' := by
    have apart : ∀ other, isLowercase other = false → byte ≠ other := by
      rintro other upper rfl
      rw [lower] at upper
      cases upper
    simp [isHorizontalSpace,apart ' ' rfl,apart '\t' rfl,apart '\n' rfl,apart '\r' rfl]
  have run : (byte :: rest).take (tokenSize byte rest) = byte :: rest.takeWhile isNameByte := by
    rw [tokenSize,if_neg (by simp [plain.1]),if_neg plain.2.1,if_neg (by simp [plain.2.2]),if_pos lower,take_run]
  rw [run,nextToken,if_neg (by simp [plain.1]),if_neg plain.2.1,if_neg (by simp [plain.2.2]),if_pos lower]
  exact tokenLexeme_body (wordToken_body _ _ _) _

theorem skipSeparators_splits (tokens : RewriteTokens) (unread : List RewriteToken) :
    ∃ blank, lexemes tokens unread = blank ++ lexemes tokens (skipSeparators unread) ∧ Blank blank := by
  rw [← skipBlank_lexemes]
  exact skipBlank_splits _

theorem parseDeclarations_spells (keyword opening : RewriteToken) (fuel : Nat) :
    ∀ declarations unread found closing rest, AllSpelled parser tokens unread →
      parseDeclarations tokens keyword opening fuel declarations unread = .ok (found,closing,rest) →
      ∃ more body, found = declarations ++ more ∧ lexemes tokens unread = body ++ lexemes tokens rest ∧
        SpellsDeclarations (more.map fun declaration => (declaration.name,declaration.type)) body := by
  induction fuel with
  | zero => intro _ unread _ _ _ _ parsed; cases unread <;> simp [parseDeclarations] at parsed
  | succ fuel ih =>
    intro declarations unread found closing rest spelled parsed
    cases unread with
    | nil => simp [parseDeclarations] at parsed
    | cons name afterName =>
      simp only [parseDeclarations] at parsed
      split at parsed
      · rename_i closes
        cases parsed
        refine ⟨[],[.rightBracket],by simp,?_,.closed⟩
        rw [lexemes_cons,tokenLexeme_rightBracket.mpr closes]
        rfl
      split at parsed
      · contradiction
      rename_i named
      have word := (spelled name List.mem_cons_self).word (by simpa using named)
      split at parsed
      · contradiction
      rename_i separator afterSeparator
      split at parsed
      · split at parsed <;> contradiction
      rename_i separates
      split at parsed
      · contradiction
      rename_i type afterType skipped
      split at parsed
      · split at parsed <;> contradiction
      rename_i scalarType typed
      obtain ⟨blank,splits,separated⟩ := skipSeparators_splits tokens afterSeparator
      rw [skipped,lexemes_cons] at splits
      have gap : Blank (tokenLexeme (rewriteTokenSpelling tokens separator) separator :: blank) := by
        intro lexeme member
        rcases List.mem_cons.mp member with rfl | member
        · rw [tokenLexeme_isSeparator]
          simpa using separates
        · exact separated lexeme member
      have typeLexeme : tokenLexeme (rewriteTokenSpelling tokens type) type = .typeName scalarType := by
        cases kind : type.kind <;> simp [kind,parameterType] at typed <;> simp [tokenLexeme,kind,typed]
      have later : AllSpelled parser tokens (type :: afterType) := by
        rw [← skipped]
        exact spelled.tail.tail.skip
      have begun : lexemes tokens (name :: separator :: afterSeparator) =
          wordLexeme (rewriteTokenSpelling tokens name) ::
            (tokenLexeme (rewriteTokenSpelling tokens separator) separator :: blank ++
              .typeName scalarType :: lexemes tokens afterType) := by
        rw [lexemes_cons,lexemes_cons,word,splits,typeLexeme]
        rfl
      split at parsed
      · cases fuel <;> simp [parseDeclarations] at parsed
      rename_i next more
      split at parsed
      · rename_i goesOn
        by_cases closes : next.kind = .rightBracket
        · have plain : isSeparator next = false := by simp [isSeparator,closes]
          rw [skipSeparators_cons plain] at parsed
          cases fuel with
          | zero => simp [parseDeclarations] at parsed
          | succ fuel =>
            simp only [parseDeclarations,closes,if_true] at parsed
            cases parsed
            refine ⟨_,_,rfl,?_,.more (by simpa using named) gap (List.cons_ne_nil _ _) blank_nil (fun _ => rfl) .closed⟩
            rw [begun,lexemes_cons,tokenLexeme_rightBracket.mpr closes]
            simp
        · have separates := goesOn.resolve_left closes
          obtain ⟨between,apart,blanks⟩ := skipSeparators_splits tokens (next :: more)
          obtain ⟨others,body,rfl,written,spells⟩ := ih _ _ _ _ _ later.tail.skip parsed
          refine ⟨_ :: others,_,List.append_assoc ..,?_,
            .more (by simpa using named) gap (List.cons_ne_nil _ _) blanks (fun none => ?_) spells⟩
          · rw [begun,apart,written]
            simp
          · -- a separator stands first, so that something is skipped
            rw [none,List.nil_append,← skipBlank_lexemes] at apart
            have shorter := congrArg List.length apart
            have dropped : (skipBlank (lexemes tokens more)).length ≤ (lexemes tokens more).length :=
              (List.dropWhile_sublist _).length_le
            rw [lexemes_cons,skipBlank,List.dropWhile_cons,tokenLexeme_isSeparator,separates,if_pos rfl,
              List.length_cons] at shorter
            change _ = (skipBlank (lexemes tokens more)).length at shorter
            omega
      · contradiction

theorem parseParameterHeader_spells (spelled : AllSpelled parser tokens unread)
    (parsed : parseParameterHeader tokens unread = .ok (header,rest)) :
    (header.declarations = [] ∧ rest = unread) ∨
    ∃ front, SpellsHeader (header.declarations.map fun declaration => (declaration.name,declaration.type)) front ∧
      (lexemes tokens unread = front ++ .lineTerminator :: lexemes tokens rest ∨
        lexemes tokens unread = front ∧ rest = []) := by
  obtain ⟨before,splits,separated⟩ := skipSeparators_splits tokens unread
  rw [parseParameterHeader] at parsed
  split at parsed
  · cases parsed
    exact .inl ⟨rfl,rfl⟩
  rename_i keyword afterKeyword skipped
  have after : AllSpelled parser tokens (keyword :: afterKeyword) := by
    rw [← skipped]
    exact spelled.skip
  split at parsed
  · cases parsed
    exact .inl ⟨rfl,rfl⟩
  rename_i keyed
  simp only [not_or,not_not] at keyed
  split at parsed
  · contradiction
  rename_i opening body
  split at parsed
  · contradiction
  rename_i opens
  split at parsed
  · contradiction
  rename_i declarations closing afterClosing read
  obtain ⟨blank,gap,blanks⟩ := skipSeparators_splits tokens body
  obtain ⟨found,written,rfl,declared,spells⟩ := parseDeclarations_spells keyword opening _ [] _ _ _ _
    after.tail.tail.skip read
  obtain ⟨spaces,apart,horizontal⟩ := skipSpaces_splits (lexemes tokens afterClosing)
  have begun : lexemes tokens unread = before ++ .name "parameters".toList :: .leftBracket ::
      (blank ++ (written ++ (spaces ++ skipSpaces (lexemes tokens afterClosing)))) := by
    rw [splits,skipped,lexemes_cons,lexemes_cons,gap,declared,← apart,
      tokenLexeme_name.mpr ⟨keyed.1,keyed.2⟩,tokenLexeme_leftBracket.mpr (not_not.mp opens)]
  have head := SpellsHeader.header separated blanks spells horizontal
  rw [skipSpaces_lexemes] at begun
  right
  dsimp only at parsed
  split at parsed
  · rename_i finished
    cases parsed
    rw [finished] at begun
    exact ⟨_,head,.inr ⟨by rw [begun]; simp,rfl⟩⟩
  rename_i next later skippedSpace
  split at parsed
  · contradiction
  · rename_i line
    cases parsed
    rw [skippedSpace,lexemes_cons,tokenLexeme_lineTerminator.mpr (not_not.mp line)] at begun
    exact ⟨_,head,.inl (by rw [begun]; simp)⟩

/-! ### The parser and the machine -/

theorem AllSpelled.lexemesAllowed {vocabulary : Vocabulary}
    (spelled : AllSpelled vocabulary.parser tokens unread) :
    ∀ lexeme ∈ lexemes tokens unread, vocabulary.LexemeAllowed lexeme := by
  intro lexeme member
  obtain ⟨token,tokenMember,rfl⟩ := List.mem_map.mp member
  have tokenSpelled := spelled token tokenMember
  cases kind : token.kind with
  | name =>
    rw [tokenLexeme_name.mpr ⟨kind,rfl⟩]
    exact tokenSpelled.name kind
  | boolLiteral | intLiteral | doubleLiteral =>
    rw [tokenLexeme_scalar (by rw [kind]; rfl)]
    exact (tokenSpelled.literal (by rw [kind]; rfl)).readable
  | _ => simp only [tokenLexeme,kind]; trivial

/-- The layout and the vocabulary of a header. -/
def RewriteParameterHeader.layout (parser : RewriteDoubleParser)
    (header : RewriteParameterHeader) : Layout :=
  ⟨parser,header.declarations.map (·.type)⟩

def RewriteParameterHeader.vocabulary (parser : RewriteDoubleParser)
    (header : RewriteParameterHeader) : Vocabulary :=
  ⟨parser,header.names,true⟩

/-- The state the parser starts the main loop in stands for the machine that has read nothing. -/
theorem simulates_initial (parser : RewriteDoubleParser) (source : Text)
    (read : parseParameterHeader (tokenizeRewrite parser source)
      (tokenizeRewrite parser source).tokens = .ok (header,unread)) :
    Simulates (tokenizeRewrite parser source) (header.layout parser) header
        ⟨{ emptyProgram source with parameterHeader := header },[],[],unread,0,false⟩
        ⟨[],[],none,lexemes (tokenizeRewrite parser source) unread⟩ ∧
      (header.vocabulary parser).Formed ⟨[],[],none,lexemes (tokenizeRewrite parser source) unread⟩ := by
  obtain ⟨_,suffix⟩ := parseParameterHeader_sound read
  have spelled : AllSpelled parser (tokenizeRewrite parser source) unread :=
    fun token member => tokenizeRewrite_spelled parser source (suffix.subset member)
  constructor
  · exact {
      source := rfl
      header := rfl
      paired := rfl
      unread := rfl
      spelled := spelled
      stacked := trivial
      expression := ⟨rfl,rfl⟩ }
  · exact {
      roots := by simp [Vocabulary.AllowsRoots]
      frames := trivial
      current := by simp
      unread := @AllSpelled.lexemesAllowed _ _ (header.vocabulary parser) spelled }

/-- Once the header has been read, the parser accepts what the machine accepts, and lays
its trees out. -/
theorem parseRewrite_header (parser : RewriteDoubleParser) (source : Text)
    (read : parseParameterHeader (tokenizeRewrite parser source)
      (tokenizeRewrite parser source).tokens = .ok (header,unread)) :
    ∃ result, parseRewrite parser source = some result ∧
      (∀ program, result = .ok program → ∃ roots,
        Machine.Accepts header.names
          ⟨[],[],none,lexemes (tokenizeRewrite parser source) unread⟩ roots ∧
        Finished (tokenizeRewrite parser source) (header.layout parser) header program roots) ∧
      ∀ roots, Machine.Accepts header.names
        ⟨[],[],none,lexemes (tokenizeRewrite parser source) unread⟩ roots →
          ∃ program, result = .ok program := by
  obtain ⟨simulates,formed⟩ := simulates_initial parser source read
  simp only [parseRewrite,read]
  apply @parseLoop_follows _ _ _ (header.vocabulary parser) rfl rfl rfl _ _ _ simulates formed
  simp [Machine.measure,parseFuel,lexemes]

/-! ### Headers that do not resolve

The parser does not look for repeated or reserved names, and a tree refers to parameters by
index: names that no tree writes stand for the declared ones as well. -/

mutual

/-- The names of a tree that a declaration could capture. -/
def Expr.writtenNames : Expr → List Text
  | .unresolved name => [name]
  | .bracketCall _ arguments => Expr.writtenNamesIn arguments
  | .prefixCall name argument => name :: argument.writtenNames
  | .tuple elements => Expr.writtenNamesIn elements
  | .fanout operand branches => operand.writtenNames ++ Expr.writtenNamesIn branches
  | _ => []

def Expr.writtenNamesIn : List Expr → List Text
  | [] => []
  | tree :: rest => tree.writtenNames ++ Expr.writtenNamesIn rest

end

section Renaming
variable {declared renamed : List Text}

mutual

theorem allows_renamed (length : renamed.length = declared.length) :
    (tree : Expr) → ∀ {place atRoot}, (∀ name ∈ tree.writtenNames, name ∉ renamed) →
      Vocabulary.Allows ⟨parser,declared,true⟩ place atRoot tree →
      Vocabulary.Allows ⟨parser,renamed,true⟩ place atRoot tree
  | .scalar _,_,_,_,allowed => allowed
  | .vector _ _,_,_,_,allowed => allowed
  | .parameter index,_,_,_,allowed => by
    have bound : index < declared.length := allowed
    show index < renamed.length
    omega
  | .unresolved name,_,_,fresh,⟨leaves,named,_,root⟩ =>
    ⟨leaves,named,fresh name (by simp [Expr.writtenNames]),root⟩
  | .bracketCall _ arguments,_,_,fresh,⟨named,root,allowed⟩ =>
    ⟨named,root,allowsAll_renamed length arguments fresh allowed⟩
  | .prefixCall name argument,_,_,fresh,⟨named,root,_,allowed⟩ =>
    ⟨named,root,fun declared => absurd declared (fresh name (by simp [Expr.writtenNames])),
      allows_renamed length argument
        (fun other member => fresh other (List.mem_cons_of_mem _ member)) allowed⟩
  | .tuple elements,_,_,fresh,allowed => allowsAll_renamed length elements fresh allowed
  | .placeholder,_,_,_,allowed => allowed
  | .fanout operand branches,_,_,fresh,⟨outside,operandAllowed,nonempty,allowed⟩ =>
    ⟨outside,allows_renamed length operand
        (fun name member => fresh name (List.mem_append_left _ member)) operandAllowed,nonempty,
      allowsBranches_renamed length branches
        (fun name member => fresh name (List.mem_append_right _ member)) allowed⟩

theorem allowsAll_renamed (length : renamed.length = declared.length) :
    (trees : List Expr) → ∀ {place}, (∀ name ∈ Expr.writtenNamesIn trees, name ∉ renamed) →
      Vocabulary.AllowsAll ⟨parser,declared,true⟩ place trees →
      Vocabulary.AllowsAll ⟨parser,renamed,true⟩ place trees
  | [],_,_,_ => trivial
  | tree :: rest,_,fresh,⟨first,later⟩ =>
    ⟨allows_renamed length tree
        (fun name member => fresh name (List.mem_append_left _ member)) first,
      allowsAll_renamed length rest
        (fun name member => fresh name (List.mem_append_right _ member)) later⟩

theorem allowsBranches_renamed (length : renamed.length = declared.length) :
    (branches : List Expr) → (∀ name ∈ Expr.writtenNamesIn branches, name ∉ renamed) →
      Vocabulary.AllowsBranches ⟨parser,declared,true⟩ branches →
      Vocabulary.AllowsBranches ⟨parser,renamed,true⟩ branches
  | [],_,_ => trivial
  | branch :: rest,fresh,⟨⟨first,isBranch⟩,later⟩ =>
    ⟨⟨allows_renamed length branch
        (fun name member => fresh name (List.mem_append_left _ member)) first,isBranch⟩,
      allowsBranches_renamed length rest
        (fun name member => fresh name (List.mem_append_right _ member)) later⟩

end

theorem writtenNamesIn_mem {trees : List Expr} {tree : Expr} {name : Text}
    (member : tree ∈ trees) (written : name ∈ tree.writtenNames) :
    name ∈ Expr.writtenNamesIn trees := by
  induction trees with
  | nil => cases member
  | cons first rest ih =>
    rw [Expr.writtenNamesIn,List.mem_append]
    rcases List.mem_cons.mp member with rfl | member
    · exact .inl written
    · exact .inr (ih member)

end Renaming

/-- A name longer than every reserved one. -/
def longName (length : Nat) : Text := List.replicate (length + 13) 'p'

theorem longName_spelling (length : Nat) : parameterNameSpelling (longName length) = true := by
  rw [longName,List.replicate_succ,parameterNameSpelling,Bool.and_eq_true]
  refine ⟨rfl,List.all_eq_true.mpr fun byte member => ?_⟩
  rw [(List.mem_replicate.mp member).2]
  rfl

theorem longName_free (length : Nat) : isReservedName (longName length) = false := by
  have differs : ∀ other : Text, other.length ≤ 12 → (longName length == other) = false := by
    intro other short
    rw [beq_eq_false_iff_ne]
    rintro same
    rw [← same,longName,List.length_replicate] at short
    omega
  have primitive : findPrimitive (longName length) = none := by
    rw [findPrimitive,List.find?_eq_none]
    intro descriptor member named
    have short : ∀ descriptor ∈ productionDescriptors, descriptor.name.length ≤ 12 := by decide
    have unlike := differs descriptor.name (short descriptor member)
    rw [beq_iff_eq] at named
    rw [named,beq_self_eq_true] at unlike
    contradiction
  simp only [isReservedName,primitive,differs "parameters".toList (by decide),
    differs "fanout".toList (by decide),differs "true".toList (by decide),
    differs "false".toList (by decide),differs "inf".toList (by decide),
    differs "nan".toList (by decide),Option.isSome_none,Bool.or_self]

/-- Names for any number of parameters that the header check accepts and no tree writes. -/
theorem exists_names (written : List Text) (count : Nat) :
    ∃ names : List Text, names.length = count ∧ names.Nodup ∧
      (∀ name ∈ names, parameterNameSpelling name = true ∧ isReservedName name = false) ∧
      ∀ name ∈ written, name ∉ names := by
  obtain ⟨bound,bounded⟩ : ∃ bound, ∀ name ∈ written, name.length ≤ bound := by
    induction written with
    | nil => exact ⟨0,by simp⟩
    | cons first rest ih =>
      obtain ⟨bound,bounded⟩ := ih
      refine ⟨max first.length bound,fun name member => ?_⟩
      rcases List.mem_cons.mp member with rfl | member
      · exact Nat.le_max_left _ _
      · exact Nat.le_trans (bounded name member) (Nat.le_max_right _ _)
  refine ⟨(List.range count).map fun index => longName (bound + index),by simp,?_,?_,?_⟩
  · apply List.Nodup.map_on _ List.nodup_range
    intro left _ right _ same
    have lengths := congrArg List.length same
    simp only [longName,List.length_replicate] at lengths
    omega
  · intro name member
    obtain ⟨index,_,rfl⟩ := List.mem_map.mp member
    exact ⟨longName_spelling _,longName_free _⟩
  · intro name member among
    obtain ⟨index,_,rfl⟩ := List.mem_map.mp among
    have short := bounded _ member
    rw [longName,List.length_replicate] at short
    omega

/-! ### The language -/

theorem roots_unlike {vocabulary : Vocabulary} (readable : Readable vocabulary)
    (roots : List Expr) (allowed : vocabulary.AllowsRoots roots) :
    (skipBlank (rootLexemes vocabulary.declared roots)).head? ≠
      some (.name "parameters".toList) := by
  cases roots with
  | nil => simp [rootLexemes,skipBlank]
  | cons root rest =>
    obtain ⟨first,later,starting,starts⟩ := root.lexemes_start vocabulary.declared
    have rootAllowed := allowed root List.mem_cons_self
    rw [rootLexemes,List.flatMap_cons,starting]
    simp only [List.cons_append,skipBlank_starts starts,List.head?_cons,ne_eq,
      Option.some.injEq]
    rintro rfl
    cases root with
    | scalar => simp [Expr.lexemes] at starting
    | vector type elements => cases elements <;> simp [Expr.lexemes] at starting
    | tuple => simp [Expr.lexemes] at starting
    | placeholder => simp [Expr.lexemes] at starting
    | parameter index =>
      have bound : index < vocabulary.declared.length := rootAllowed
      have named := readable.names (vocabulary.declared.getD index []) (by simp [bound])
      simp only [Expr.lexemes,List.cons.injEq,Lexeme.name.injEq] at starting
      exact named.1 starting.1
    | unresolved name =>
      simp only [Expr.lexemes,List.cons.injEq,Lexeme.name.injEq] at starting
      exact rootAllowed.2.2.2 rfl starting.1
    | bracketCall name arguments =>
      simp only [Expr.lexemes,List.cons.injEq,Lexeme.name.injEq] at starting
      exact rootAllowed.2.1 rfl starting.1
    | prefixCall name argument =>
      simp only [Expr.lexemes,List.cons.injEq,Lexeme.name.injEq] at starting
      exact rootAllowed.2.1 rfl starting.1
    | fanout =>
      simp only [Expr.lexemes,List.cons.injEq,Lexeme.name.injEq] at starting
      exact absurd starting.1 (by decide)

theorem inLanguage_readable {program : AbstractProgram}
    (inLanguage : program.InLanguage parser false) :
    Readable (program.vocabulary parser false) := by
  obtain ⟨⟨distinct,resolved⟩,_⟩ := inLanguage
  refine ⟨distinct,rfl,fun name member => ?_⟩
  obtain ⟨parameter,parameterMember,rfl⟩ := List.mem_map.mp member
  exact (isKeyword_reserved (resolved parameter parameterMember).2).2

/-- The canonical rendering of a program parses to the program's tables. -/
theorem parseRewrite_render (parser : RewriteDoubleParser) (program : AbstractProgram)
    (inLanguage : program.InLanguage parser false) :
    ∃ result, parseRewrite parser program.render = some (.ok result) ∧
      result.shape = program.compile parser ∧ result.declared = program.parameters := by
  have readable := inLanguage_readable inLanguage
  have written := tokenizeRewrite_lexemes (reads_program parser inLanguage)
  obtain ⟨⟨_,resolved⟩,allowed⟩ := inLanguage
  obtain ⟨header,unread,read,same,left,_⟩ := parseParameterHeader_complete program.parameters
    _ (fun parameter member => (resolved parameter member).1) written
    (roots_unlike readable program.roots allowed)
  have names : header.names = program.parameters.map (·.1) := by
    rw [← same,List.map_map]
    rfl
  have types : header.declarations.map (·.type) = program.parameters.map (·.2) := by
    rw [← same,List.map_map]
    rfl
  have accepts := accepts_roots (program.vocabulary parser false) readable program.roots []
    allowed
  obtain ⟨result,parsed,sound,complete⟩ := parseRewrite_header parser program.render read
  rw [left,names] at sound complete
  obtain ⟨result,rfl⟩ := complete _ accepts
  obtain ⟨roots,acceptsRoots,finished⟩ := sound result rfl
  cases accepts.unique acceptsRoots
  refine ⟨result,parsed,?_,?_⟩
  · rw [finished.shape,RewriteParameterHeader.layout,types]
    rfl
  · rw [RewriteProgram.declared,finished.header]
    exact same

/-- What is left to read once a header is read, and the roots that the machine makes of it, spell the
whole program. -/
theorem accepts_spells (spelled : ∀ token ∈ (tokenizeRewrite parser source).tokens, Spelled parser source token)
    (read : parseParameterHeader (tokenizeRewrite parser source)
      (tokenizeRewrite parser source).tokens = .ok (header,unread))
    (formed : (header.vocabulary parser).Formed ⟨[],[],none,lexemes (tokenizeRewrite parser source) unread⟩)
    {roots : List Expr} (accepts : Machine.Accepts header.names
      ⟨[],[],none,lexemes (tokenizeRewrite parser source) unread⟩ roots) :
    SpellsProgram (header.declarations.map fun declaration => (declaration.name,declaration.type)) roots
      (lexemes (tokenizeRewrite parser source) (tokenizeRewrite parser source).tokens) := by
  have begun : HasRead header.names ⟨[],[],none,lexemes (tokenizeRewrite parser source) unread⟩ [] :=
    ⟨[],[],[],rfl,.none blank_nil,rfl,rfl⟩
  have written : SpellsRoots header.names roots (lexemes (tokenizeRewrite parser source) unread) :=
    @accepts_reads (header.vocabulary parser) _ _ rfl accepts _ formed begun
  have names : (header.declarations.map fun declaration => (declaration.name,declaration.type)).map (·.1) =
      header.names := by
    rw [List.map_map]
    rfl
  have inside : AllSpelled parser (tokenizeRewrite parser source) (tokenizeRewrite parser source).tokens :=
    spelled
  rcases parseParameterHeader_spells inside read with
    ⟨none,rfl⟩ | ⟨front,spells,whole | ⟨whole,rfl⟩⟩
  · have noNames : header.names = [] := by rw [← names,none]; rfl
    rw [noNames] at written
    exact .plain (by rw [none]; rfl) written
  · rw [whole]
    exact .headed spells (names ▸ written)
  · rw [whole]
    refine .bare spells ?_
    cases accepts with
    | accept step =>
      cases step
      rfl
    | again step _ => cases step

/-- Whatever the parser accepts is the tables of a program of the grammar that its lexemes spell. -/
theorem parseRewrite_sound (parser : RewriteDoubleParser) (source : Text)
    (result : RewriteProgram) (parsed : parseRewrite parser source = some (.ok result)) :
    ∃ program : AbstractProgram, program.InLanguage parser true ∧
      result.shape = program.compile parser ∧
      program.parameters.map (·.2) = result.declared.map (·.2) ∧
      (DeclarationsResolve result.declared → program.parameters = result.declared) ∧
      SpellsProgram result.declared program.roots
        (lexemes (tokenizeRewrite parser source) (tokenizeRewrite parser source).tokens) := by
  cases read : parseParameterHeader (tokenizeRewrite parser source)
      (tokenizeRewrite parser source).tokens with
  | error diagnostic => simp [parseRewrite,read] at parsed
  | ok header =>
    obtain ⟨header,unread⟩ := header
    obtain ⟨other,same,sound,_⟩ := parseRewrite_header parser source read
    cases same.symm.trans parsed
    obtain ⟨roots,accepts,finished⟩ := sound result rfl
    obtain ⟨_,suffix⟩ := parseParameterHeader_sound read
    have spelled : AllSpelled parser (tokenizeRewrite parser source) unread :=
      fun token member => tokenizeRewrite_spelled parser source (suffix.subset member)
    have formed : (header.vocabulary parser).Formed
        ⟨[],[],none,lexemes (tokenizeRewrite parser source) unread⟩ := {
      roots := by simp [Vocabulary.AllowsRoots]
      frames := trivial
      current := by simp
      unread := @AllSpelled.lexemesAllowed _ _ (header.vocabulary parser) spelled }
    have allowed := @Vocabulary.accepts_allowed (header.vocabulary parser) _ _ rfl accepts formed
    have declared : result.declared =
        header.declarations.map fun declaration => (declaration.name,declaration.type) := by
      rw [RewriteProgram.declared,finished.header]
    have spells := accepts_spells (fun token => tokenizeRewrite_spelled parser source) read formed accepts
    rw [← declared] at spells
    have names : result.declared.map (·.1) = header.names := by
      rw [declared,List.map_map]
      rfl
    have types : result.declared.map (·.2) = header.declarations.map (·.type) := by
      rw [declared,List.map_map]
      rfl
    by_cases resolves : DeclarationsResolve result.declared
    · refine ⟨⟨result.declared,roots⟩,⟨resolves,?_⟩,?_,rfl,fun _ => rfl,spells⟩
      · rw [AbstractProgram.vocabulary,names]
        exact allowed
      · rw [finished.shape,AbstractProgram.compile,AbstractProgram.layout,types]
        rfl
    · obtain ⟨fresh,length,distinct,free,unwritten⟩ :=
        exists_names (Expr.writtenNamesIn roots) header.declarations.length
      have short : fresh.length = (header.declarations.map (·.type)).length := by simp [length]
      have first : (fresh.zip (header.declarations.map (·.type))).map (·.1) = fresh :=
        List.map_fst_zip (Nat.le_of_eq short)
      have second : (fresh.zip (header.declarations.map (·.type))).map (·.2) =
          header.declarations.map (·.type) :=
        List.map_snd_zip (Nat.le_of_eq short.symm)
      refine ⟨⟨fresh.zip (header.declarations.map (·.type)),roots⟩,⟨⟨?_,?_⟩,?_⟩,?_,?_,
        fun other => absurd other resolves,spells⟩
      · rw [first]
        exact distinct
      · intro parameter member
        exact free parameter.1 (List.of_mem_zip member).1
      · rw [AbstractProgram.vocabulary,first]
        intro root member
        have renamed : fresh.length = header.names.length := by
          simp [length,RewriteParameterHeader.names]
        exact allows_renamed renamed root (fun name written => unwritten name (writtenNamesIn_mem member written))
          (allowed root member)
      · rw [finished.shape,AbstractProgram.compile,AbstractProgram.layout,second]
        rfl
      · rw [second,types]

/-- The parser accepts exactly its language: canonical renderings parse back to the program
they render, and what is accepted is a program of the grammar, bare names included, that the
lexemes of the source spell. -/
theorem parser_language (parser : RewriteDoubleParser) :
    (∀ program : AbstractProgram, program.InLanguage parser false →
      ∃ result, parseRewrite parser program.render = some (.ok result) ∧
        result.shape = program.compile parser ∧ result.declared = program.parameters) ∧
    ∀ source result, parseRewrite parser source = some (.ok result) →
      ∃ program : AbstractProgram, program.InLanguage parser true ∧
        result.shape = program.compile parser ∧
        program.parameters.map (·.2) = result.declared.map (·.2) ∧
        (DeclarationsResolve result.declared → program.parameters = result.declared) ∧
        SpellsProgram result.declared program.roots
          (lexemes (tokenizeRewrite parser source) (tokenizeRewrite parser source).tokens) :=
  ⟨parseRewrite_render parser,parseRewrite_sound parser⟩

/-- A platform that converts no decimal. -/
def refusingParser : RewriteDoubleParser := ⟨fun _ => ⟨.invalidArgument,0,0⟩⟩

/-- A fanout over a parameter, with a prefix and a bracket call as its branches. -/
def fanoutProgram : AbstractProgram :=
  ⟨[("n".toList,.integer)],
    [.fanout (.prefixCall "iota".toList (.parameter 0))
      [.bracketCall "add".toList [.placeholder,.scalar (.integer 1)],
        .prefixCall "inc".toList .placeholder]]⟩

theorem fanoutProgram_inLanguage : fanoutProgram.InLanguage refusingParser false := by
  refine ⟨⟨by decide,?_⟩,?_⟩
  · intro parameter member
    cases List.mem_singleton.mp member
    exact ⟨rfl,by decide⟩
  · intro root member
    cases List.mem_singleton.mp member
    refine ⟨rfl,⟨by decide,by simp,by decide,?_⟩,by simp,⟨⟨by decide,by simp,rfl,trivial,trivial⟩,
      by decide⟩,⟨⟨by decide,by simp,by decide,rfl⟩,by decide⟩,trivial⟩
    show 0 < 1
    decide

theorem parser_language_fanout :
    ∃ result, parseRewrite refusingParser fanoutProgram.render = some (.ok result) ∧
      result.shape = fanoutProgram.compile refusingParser ∧
      ∃ program : AbstractProgram, program.InLanguage refusingParser true ∧
        result.shape = program.compile refusingParser := by
  obtain ⟨result,parsed,shape,_⟩ :=
    (parser_language refusingParser).1 fanoutProgram fanoutProgram_inLanguage
  obtain ⟨program,inLanguage,same,_⟩ := (parser_language refusingParser).2 _ result parsed
  exact ⟨result,parsed,shape,program,inLanguage,same⟩

end Bennu
