import Bennu.AbstractSyntax

/-! What the tokenizer returns: consecutive spans that cover the text, and for each token
the lexeme its spelling denotes, independently of where it stands. -/
namespace Bennu

inductive Lexeme where
  | name (spelling : Text)
  | literal (value : Literal)
  | typeName (type : ScalarType)
  | leftBracket | rightBracket | leftParenthesis | rightParenthesis | leftBrace | rightBrace
  | placeholder | horizontalSpace | lineTerminator | unreadable
  deriving DecidableEq, Repr

def tokenLiteral (spelling : Text) (token : RewriteToken) : Literal :=
  match token.kind with
  | .boolLiteral => .boolean token.boolean
  | .intLiteral => .integer token.integer
  | _ => .real spelling

def tokenLexeme (spelling : Text) (token : RewriteToken) : Lexeme :=
  match token.kind with
  | .name => .name spelling
  | .boolLiteral | .intLiteral | .doubleLiteral => .literal (tokenLiteral spelling token)
  | .boolType => .typeName .boolean
  | .intType => .typeName .integer
  | .doubleType => .typeName .doublePrecision
  | .leftBracket => .leftBracket
  | .rightBracket => .rightBracket
  | .leftParenthesis => .leftParenthesis
  | .rightParenthesis => .rightParenthesis
  | .leftBrace => .leftBrace
  | .rightBrace => .rightBrace
  | .placeholder => .placeholder
  | .horizontalSpace => .horizontalSpace
  | .lineTerminator => .lineTerminator
  | .malformedLiteral | .invalid => .unreadable

/-! ### One token -/

@[simp] theorem makeToken_kind : (makeToken kind begin finish).kind = kind := rfl
@[simp] theorem makeToken_span : (makeToken kind begin finish).span = ⟨begin,finish⟩ := rfl
@[simp] theorem doubleToken_kind :
    (doubleToken value begin finish).kind = .doubleLiteral := rfl
@[simp] theorem doubleToken_span :
    (doubleToken value begin finish).span = ⟨begin,finish⟩ := rfl
@[simp] theorem literalErrorToken_kind :
    (literalErrorToken error begin finish).kind = .malformedLiteral := rfl
@[simp] theorem literalErrorToken_span :
    (literalErrorToken error begin finish).span = ⟨begin,finish⟩ := rfl

/-- A token without its place. -/
def RewriteToken.body (token : RewriteToken) :
    RewriteTokenKind × Bool × Int64 × Binary64 × RewriteLiteralError :=
  (token.kind,token.boolean,token.integer,token.doublePrecision,token.literalError)

theorem numericToken_span (parser : RewriteDoubleParser) (spelling : Text)
    (begin finish : RewritePosition) :
    (numericToken parser spelling begin finish).span = ⟨begin,finish⟩ := by
  unfold numericToken
  split
  · rfl
  · split
    · rfl
    · dsimp only
      repeat' split
      all_goals rfl

theorem numericToken_body (parser : RewriteDoubleParser) (spelling : Text)
    (begin finish : RewritePosition) :
    (numericToken parser spelling begin finish).body =
      (numericToken parser spelling ⟨0,0,0⟩ ⟨0,0,0⟩).body := by
  unfold numericToken
  split
  · rfl
  · split
    · rfl
    · dsimp only
      repeat' split
      all_goals rfl

theorem wordToken_span (spelling : Text) (begin finish : RewritePosition) :
    (wordToken spelling begin finish).span = ⟨begin,finish⟩ := by
  unfold wordToken
  repeat' split
  all_goals rfl

theorem wordToken_body (spelling : Text) (begin finish : RewritePosition) :
    (wordToken spelling begin finish).body =
      (wordToken spelling ⟨0,0,0⟩ ⟨0,0,0⟩).body := by
  unfold wordToken
  repeat' split
  all_goals rfl

theorem takeWhile_length_le (p : Char → Bool) (text : Text) :
    (text.takeWhile p).length ≤ text.length :=
  (List.takeWhile_sublist p).length_le

/-- How many bytes the token that starts with `byte` takes. -/
def tokenSize (byte : Char) (rest : Text) : Nat :=
  if isHorizontalSpace byte then 1 + (rest.takeWhile isHorizontalSpace).length
  else if byte = '\n' then 1
  else if byte = '\r' ∧ rest.head? = some '\n' then 2
  else if isLowercase byte then 1 + (rest.takeWhile isNameByte).length
  else if byte = '_' then 1
  else if isUppercase byte then 1 + (rest.takeWhile isTypeByte).length
  else if isDigit byte || byte == '-' || byte == '+' || byte == '.' then
    1 + (rest.takeWhile isNumericCandidateByte).length
  else 1

theorem tokenSize_pos (byte : Char) (rest : Text) : 1 ≤ tokenSize byte rest := by
  unfold tokenSize
  repeat' split
  all_goals omega

theorem tokenSize_le (byte : Char) (rest : Text) :
    tokenSize byte rest ≤ (byte :: rest).length := by
  have bounds := fun p => takeWhile_length_le p rest
  unfold tokenSize
  rw [List.length_cons]
  split
  · have := bounds isHorizontalSpace; omega
  split
  · omega
  split
  next crlf => cases rest with
    | nil => simp at crlf
    | cons => simp only [List.length_cons]; omega
  split
  · have := bounds isNameByte; omega
  split
  · omega
  split
  · have := bounds isTypeByte; omega
  split
  · have := bounds isNumericCandidateByte; omega
  · omega

theorem nextToken_begin (parser : RewriteDoubleParser) (byte : Char) (rest : Text)
    (begin : RewritePosition) : (nextToken parser byte rest begin).span.begin = begin := by
  unfold nextToken
  repeat' split
  all_goals simp [numericToken_span,wordToken_span]

theorem nextToken_finish (parser : RewriteDoubleParser) (byte : Char) (rest : Text)
    (begin : RewritePosition) :
    (nextToken parser byte rest begin).span.finish.offset =
      begin.offset + tokenSize byte rest := by
  unfold nextToken tokenSize
  repeat' split
  all_goals
    simp [numericToken_span,wordToken_span,RewritePosition.advance,RewritePosition.newline,
      Nat.add_comm]

@[simp] theorem nextToken_size (parser : RewriteDoubleParser) (byte : Char) (rest : Text)
    (begin : RewritePosition) :
    (nextToken parser byte rest begin).size = tokenSize byte rest := by
  simp [RewriteToken.size,nextToken_begin,nextToken_finish]

theorem nextToken_body (parser : RewriteDoubleParser) (byte : Char) (rest : Text)
    (begin : RewritePosition) :
    (nextToken parser byte rest begin).body = (nextToken parser byte rest ⟨0,0,0⟩).body := by
  unfold nextToken
  repeat' split
  all_goals first
    | rfl
    | exact (wordToken_body _ _ _).trans (wordToken_body _ _ _).symm
    | exact (numericToken_body _ _ _ _).trans (numericToken_body _ _ _ _).symm

theorem tokenLexeme_body (same : left.body = right.body) (spelling : Text) :
    tokenLexeme spelling left = tokenLexeme spelling right := by
  simp only [RewriteToken.body,Prod.mk.injEq] at same
  obtain ⟨kind,boolean,integer,_⟩ := same
  simp only [tokenLexeme,tokenLiteral,kind,boolean,integer]

/-! ### The token list -/

/-- The tokens of `text`, the first of them at `begin` and the last ending at `finish`. -/
inductive Lexed (parser : RewriteDoubleParser) :
    Text → RewritePosition → List RewriteToken → RewritePosition → Prop
  | done : Lexed parser [] position [] position
  | token : Lexed parser ((byte :: rest).drop (tokenSize byte rest))
        (nextToken parser byte rest begin).span.finish tokens finish →
      Lexed parser (byte :: rest) begin (nextToken parser byte rest begin :: tokens) finish

theorem tokenizeLoop_lexed (parser : RewriteDoubleParser) (fuel : Nat) :
    ∀ (text : Text) (position : RewritePosition), text.length ≤ fuel →
      Lexed parser text position (tokenizeLoop parser fuel text position).1
        (tokenizeLoop parser fuel text position).2 := by
  induction fuel with
  | zero =>
    intro text position enough
    rw [List.length_eq_zero_iff.mp (Nat.le_zero.mp enough)]
    exact .done
  | succ fuel ih =>
    intro text position enough
    cases text with
    | nil => exact .done
    | cons byte rest =>
      simp only [tokenizeLoop,nextToken_size]
      apply Lexed.token
      apply ih
      have positive := tokenSize_pos byte rest
      rw [List.length_drop]
      rw [List.length_cons] at enough ⊢
      omega

theorem tokenizeRewrite_lexed (parser : RewriteDoubleParser) (source : Text) :
    Lexed parser source ⟨1,1,1⟩ (tokenizeRewrite parser source).tokens
      (tokenizeRewrite parser source).finish :=
  tokenizeLoop_lexed parser _ source _ (Nat.le_refl _)

/-- A token of `source`, as the tokenizer made it from the bytes its span covers. -/
def Spelled (parser : RewriteDoubleParser) (source : Text) (token : RewriteToken) : Prop :=
  ∃ byte rest begin, token = nextToken parser byte rest begin ∧
    spanSpelling source token.span = (byte :: rest).take (tokenSize byte rest)

theorem Lexed.spelled (lexed : Lexed parser text begin tokens finish) :
    ∀ passed, begin.offset = passed.length + 1 →
      ∀ token ∈ tokens, Spelled parser (passed ++ text) token := by
  induction lexed with
  | done => intro _ _ token member; cases member
  | @token byte rest begin tokens finish later ih =>
    intro passed offset token member
    rcases List.mem_cons.mp member with rfl | member
    · refine ⟨byte,rest,begin,rfl,?_⟩
      simp only [spanSpelling,nextToken_begin,nextToken_finish,offset,Nat.add_sub_cancel,
        List.drop_left,Nat.add_sub_cancel_left]
    · have split := List.take_append_drop (tokenSize byte rest) (byte :: rest)
      have moved := ih (passed ++ (byte :: rest).take (tokenSize byte rest)) (by
        rw [nextToken_finish,offset,List.length_append,List.length_take,
          Nat.min_eq_left (tokenSize_le byte rest)]
        omega) token member
      rwa [List.append_assoc,split] at moved

theorem tokenizeRewrite_spelled (parser : RewriteDoubleParser) (source : Text)
    (member : token ∈ (tokenizeRewrite parser source).tokens) :
    Spelled parser source token :=
  (tokenizeRewrite_lexed parser source).spelled [] rfl token member

/-! ### Lexemes of a text -/

/-- The lexemes of a text, position by position. -/
inductive Reads (parser : RewriteDoubleParser) : Text → List Lexeme → Prop
  | done : Reads parser [] []
  | token : Reads parser ((byte :: rest).drop (tokenSize byte rest)) lexemes →
      Reads parser (byte :: rest)
        (tokenLexeme ((byte :: rest).take (tokenSize byte rest))
          (nextToken parser byte rest ⟨0,0,0⟩) :: lexemes)

theorem Lexed.reads (lexed : Lexed parser text begin tokens finish) :
    ∀ passed, begin.offset = passed.length + 1 →
      Reads parser text (tokens.map fun token =>
        tokenLexeme (spanSpelling (passed ++ text) token.span) token) := by
  induction lexed with
  | done => intro _ _; exact .done
  | @token byte rest begin tokens finish later ih =>
    intro passed offset
    have split := List.take_append_drop (tokenSize byte rest) (byte :: rest)
    have moved := ih (passed ++ (byte :: rest).take (tokenSize byte rest)) (by
      rw [nextToken_finish,offset,List.length_append,List.length_take,
        Nat.min_eq_left (tokenSize_le byte rest)]
      omega)
    rw [List.append_assoc,split] at moved
    rw [List.map_cons,tokenLexeme_body (nextToken_body parser byte rest begin)]
    simp only [spanSpelling,nextToken_begin,nextToken_finish,offset,Nat.add_sub_cancel,
      List.drop_left,Nat.add_sub_cancel_left]
    exact .token moved

theorem Reads.unique (left : Reads parser text first) :
    ∀ second, Reads parser text second → first = second := by
  induction left with
  | done => intro second right; cases right; rfl
  | token later ih =>
    intro second right
    cases right with
    | token other => rw [ih _ other]

def lexemes (tokens : RewriteTokens) (unread : List RewriteToken) : List Lexeme :=
  unread.map fun token => tokenLexeme (rewriteTokenSpelling tokens token) token

theorem tokenizeRewrite_lexemes (reads : Reads parser source expected) :
    lexemes (tokenizeRewrite parser source) (tokenizeRewrite parser source).tokens =
      expected :=
  ((tokenizeRewrite_lexed parser source).reads [] rfl).unique _ reads

/-! ### What a token's payload says about its spelling -/

def isNumericStart (byte : Char) : Bool :=
  isDigit byte || byte == '-' || byte == '+' || byte == '.'

/-- Spellings with a meaning of their own where a name could stand. -/
def isKeyword (spelling : Text) : Bool :=
  spelling == "true".toList || spelling == "false".toList || spelling == "inf".toList ||
    spelling == "nan".toList

theorem typeKind_cases (spelling : Text) :
    isScalarToken (typeKind spelling) = false ∧ typeKind spelling ≠ .name := by
  unfold typeKind
  repeat' split
  all_goals exact ⟨rfl,by decide⟩

theorem delimiterKind_cases (byte : Char) :
    isScalarToken (delimiterKind byte) = false ∧ delimiterKind byte ≠ .name := by
  unfold delimiterKind
  split <;> exact ⟨rfl,by decide⟩

theorem take_run (byte : Char) (rest : Text) (p : Char → Bool) :
    (byte :: rest).take (1 + (rest.takeWhile p).length) = byte :: rest.takeWhile p := by
  rw [Nat.add_comm,List.take_succ_cons]
  exact congrArg _ (List.prefix_iff_eq_take.mp (List.takeWhile_prefix p)).symm

/-- Names and scalars come from words and from numeric candidates only. -/
theorem nextToken_cases (parser : RewriteDoubleParser) (byte : Char) (rest : Text)
    (begin : RewritePosition) :
    (∃ kind finish, nextToken parser byte rest begin = makeToken kind begin finish ∧
      isScalarToken kind = false ∧ kind ≠ .name) ∨
    (isLowercase byte = true ∧
      (byte :: rest).take (tokenSize byte rest) = byte :: rest.takeWhile isNameByte ∧
      ∃ finish, nextToken parser byte rest begin =
        wordToken (byte :: rest.takeWhile isNameByte) begin finish) ∨
    (isNumericStart byte = true ∧
      (byte :: rest).take (tokenSize byte rest) =
        byte :: rest.takeWhile isNumericCandidateByte ∧
      ∃ finish, nextToken parser byte rest begin =
        numericToken parser (byte :: rest.takeWhile isNumericCandidateByte) begin finish) := by
  unfold nextToken tokenSize
  split
  · exact .inl ⟨_,_,rfl,rfl,by decide⟩
  split
  · exact .inl ⟨_,_,rfl,rfl,by decide⟩
  split
  · exact .inl ⟨_,_,rfl,rfl,by decide⟩
  split
  next lower => exact .inr (.inl ⟨lower,take_run _ _ _,_,rfl⟩)
  split
  · exact .inl ⟨_,_,rfl,rfl,by decide⟩
  split
  · exact .inl ⟨_,_,rfl,typeKind_cases _⟩
  split
  next numeric => exact .inr (.inr ⟨numeric,take_run _ _ _,_,rfl⟩)
  · exact .inl ⟨_,_,rfl,delimiterKind_cases _⟩

/-- The literal a scalar token denotes has the token's payload. -/
structure LiteralOf (parser : RewriteDoubleParser) (literal : Literal)
    (token : RewriteToken) : Prop where
  readable : literal.Readable parser
  type : literal.type = scalarTokenType token.kind
  boolean : literal.booleanValue = token.boolean
  integer : literal.integerValue = token.integer
  double : literal.doubleValue parser = token.doublePrecision

theorem wordToken_literal (spelling : Text) (begin finish : RewritePosition)
    (scalar : isScalarToken (wordToken spelling begin finish).kind = true) :
    LiteralOf parser (tokenLiteral spelling (wordToken spelling begin finish))
      (wordToken spelling begin finish) := by
  unfold wordToken at scalar ⊢
  split
  · exact ⟨trivial,rfl,rfl,rfl,rfl⟩
  rename_i notTrue
  rw [if_neg notTrue] at scalar
  split
  · exact ⟨trivial,rfl,rfl,rfl,rfl⟩
  rename_i notFalse
  rw [if_neg notFalse] at scalar
  split
  next isInf => subst isInf; exact ⟨rfl,rfl,rfl,rfl,rfl⟩
  rename_i notInf
  rw [if_neg notInf] at scalar
  split
  next isNan => subst isNan; exact ⟨rfl,rfl,rfl,rfl,rfl⟩
  rename_i notNan
  rw [if_neg notNan] at scalar
  contradiction

/-- A double token of a numeric candidate holds what `readDouble` reads. -/
theorem numericToken_double (spelling : Text) (begin finish : RewritePosition)
    (notInf : spelling ≠ "inf".toList) (notNan : spelling ≠ "nan".toList)
    (kind : (numericToken parser spelling begin finish).kind = .doubleLiteral) :
    readDouble parser spelling =
      some (numericToken parser spelling begin finish).doublePrecision := by
  have same := numericToken_body parser spelling begin finish
  simp only [RewriteToken.body,Prod.mk.injEq] at same
  obtain ⟨kinds,_,_,doubles,_⟩ := same
  rw [readDouble,if_neg notInf,if_neg notNan]
  dsimp only
  rw [← kinds,if_pos kind,doubles]

theorem numericToken_payload (spelling : Text) (begin finish : RewritePosition) :
    (numericToken parser spelling begin finish).boolean = false ∧
    ((numericToken parser spelling begin finish).kind ≠ .intLiteral →
      (numericToken parser spelling begin finish).integer = 0) ∧
    ((numericToken parser spelling begin finish).kind ≠ .doubleLiteral →
      (numericToken parser spelling begin finish).doublePrecision = 0) ∧
    (numericToken parser spelling begin finish).kind ≠ .boolLiteral := by
  unfold numericToken
  split
  · exact ⟨rfl,fun _ => rfl,fun differs => absurd rfl differs,by simp⟩
  · split
    · exact ⟨rfl,fun differs => absurd rfl differs,fun _ => rfl,by simp⟩
    · dsimp only
      repeat' split
      all_goals
        refine ⟨rfl,fun _ => rfl,fun differs => ?_,by simp⟩
        first
        | exact absurd rfl differs
        | rfl

theorem numericToken_literal (spelling : Text) (begin finish : RewritePosition)
    (notInf : spelling ≠ "inf".toList) (notNan : spelling ≠ "nan".toList)
    (scalar : isScalarToken (numericToken parser spelling begin finish).kind = true) :
    LiteralOf parser (tokenLiteral spelling (numericToken parser spelling begin finish))
      (numericToken parser spelling begin finish) := by
  obtain ⟨boolean,integer,double,notBool⟩ :=
    @numericToken_payload parser spelling begin finish
  cases kind : (numericToken parser spelling begin finish).kind with
  | boolLiteral => contradiction
  | intLiteral =>
    have noDouble := double (by simp [kind])
    constructor <;>
      simp [tokenLiteral,kind,Literal.Readable,Literal.type,scalarTokenType,boolean,noDouble,
        Literal.booleanValue,Literal.integerValue,Literal.doubleValue]
  | doubleLiteral =>
    have noInteger := integer (by simp [kind])
    have read := numericToken_double spelling begin finish notInf notNan kind
    constructor <;>
      simp [tokenLiteral,kind,Literal.Readable,Literal.type,scalarTokenType,boolean,noInteger,
        Literal.booleanValue,Literal.integerValue,Literal.doubleValue,read]
  | _ => simp [kind,isScalarToken] at scalar

theorem isNumericStart_word (byte : Char) (rest word : Text) (lower : isLowercase first = true)
    (numeric : isNumericStart byte = true) : byte :: rest ≠ first :: word := by
  intro same
  obtain ⟨rfl,_⟩ := List.cons.inj same
  simp only [isNumericStart,isDigit,isLowercase,Bool.or_eq_true,Bool.and_eq_true,
    decide_eq_true_eq,beq_iff_eq] at numeric lower
  rcases numeric with ((⟨_,high⟩ | rfl) | rfl) | rfl
  · exact absurd (Char.le_trans lower.1 high) (by decide)
  all_goals exact absurd lower.1 (by decide)

theorem Spelled.literal (spelled : Spelled parser source token)
    (scalar : isScalarToken token.kind = true) :
    LiteralOf parser (tokenLiteral (spanSpelling source token.span) token) token := by
  obtain ⟨byte,rest,begin,rfl,spelling⟩ := spelled
  rcases nextToken_cases parser byte rest begin with
    ⟨kind,finish,made,notScalar,_⟩ | ⟨_,taken,finish,made⟩ | ⟨numeric,taken,finish,made⟩
  · rw [made,makeToken_kind,notScalar] at scalar
    contradiction
  · rw [spelling,taken]
    rw [made] at scalar ⊢
    exact wordToken_literal _ _ _ scalar
  · rw [spelling,taken]
    rw [made] at scalar ⊢
    apply numericToken_literal _ _ _ _ _ scalar
    · exact isNumericStart_word _ _ _ (by decide) numeric
    · exact isNumericStart_word _ _ _ (by decide) numeric

theorem numericToken_kind_ne_name (spelling : Text) (begin finish : RewritePosition) :
    (numericToken parser spelling begin finish).kind ≠ .name := by
  unfold numericToken
  split
  · simp
  · split
    · simp
    · dsimp only
      repeat' split
      all_goals simp

theorem wordToken_name (spelling : Text) (begin finish : RewritePosition) :
    (wordToken spelling begin finish).kind = .name ↔ isKeyword spelling = false := by
  unfold wordToken
  by_cases isTrue : spelling = "true".toList
  · simp [isTrue,isKeyword]
  by_cases isFalse : spelling = "false".toList
  · simp [isFalse,isKeyword]
  by_cases isInf : spelling = "inf".toList
  · simp [isInf,isKeyword]
  by_cases isNan : spelling = "nan".toList
  · simp [isNan,isKeyword]
  rw [if_neg isTrue,if_neg isFalse,if_neg isInf,if_neg isNan,makeToken_kind]
  simp only [isKeyword,Bool.or_eq_false_iff,beq_eq_false_iff_ne,ne_eq,isTrue,isFalse,isInf,
    isNan,not_false_eq_true,and_self]

theorem Spelled.name (spelled : Spelled parser source token) (named : token.kind = .name) :
    parameterNameSpelling (spanSpelling source token.span) = true ∧
      isKeyword (spanSpelling source token.span) = false := by
  obtain ⟨byte,rest,begin,rfl,spelling⟩ := spelled
  rcases nextToken_cases parser byte rest begin with
    ⟨kind,finish,made,_,notName⟩ | ⟨lower,taken,finish,made⟩ | ⟨_,_,finish,made⟩
  · rw [made,makeToken_kind] at named
    contradiction
  · rw [spelling,taken]
    rw [made] at named
    refine ⟨?_,(wordToken_name _ _ _).mp named⟩
    simp only [parameterNameSpelling,lower,Bool.true_and,List.all_eq_true]
    intro other member
    exact List.all_eq_true.mp List.all_takeWhile other member
  · rw [made] at named
    exact absurd named (numericToken_kind_ne_name _ _ _)

/-! ### Which token a lexeme comes from -/

section Lexemes
variable {token : RewriteToken} {spelling : Text}

@[simp] theorem tokenLexeme_leftBracket :
    tokenLexeme spelling token = .leftBracket ↔ token.kind = .leftBracket := by
  cases kind : token.kind <;> simp [tokenLexeme,kind]

@[simp] theorem tokenLexeme_rightBracket :
    tokenLexeme spelling token = .rightBracket ↔ token.kind = .rightBracket := by
  cases kind : token.kind <;> simp [tokenLexeme,kind]

@[simp] theorem tokenLexeme_leftParenthesis :
    tokenLexeme spelling token = .leftParenthesis ↔ token.kind = .leftParenthesis := by
  cases kind : token.kind <;> simp [tokenLexeme,kind]

@[simp] theorem tokenLexeme_rightParenthesis :
    tokenLexeme spelling token = .rightParenthesis ↔ token.kind = .rightParenthesis := by
  cases kind : token.kind <;> simp [tokenLexeme,kind]

@[simp] theorem tokenLexeme_leftBrace :
    tokenLexeme spelling token = .leftBrace ↔ token.kind = .leftBrace := by
  cases kind : token.kind <;> simp [tokenLexeme,kind]

@[simp] theorem tokenLexeme_rightBrace :
    tokenLexeme spelling token = .rightBrace ↔ token.kind = .rightBrace := by
  cases kind : token.kind <;> simp [tokenLexeme,kind]

@[simp] theorem tokenLexeme_horizontalSpace :
    tokenLexeme spelling token = .horizontalSpace ↔ token.kind = .horizontalSpace := by
  cases kind : token.kind <;> simp [tokenLexeme,kind]

@[simp] theorem tokenLexeme_lineTerminator :
    tokenLexeme spelling token = .lineTerminator ↔ token.kind = .lineTerminator := by
  cases kind : token.kind <;> simp [tokenLexeme,kind]

@[simp] theorem tokenLexeme_name :
    tokenLexeme spelling token = .name name ↔ token.kind = .name ∧ spelling = name := by
  cases kind : token.kind <;> simp [tokenLexeme,kind]

theorem tokenLexeme_scalar (scalar : isScalarToken token.kind = true) (spelling : Text) :
    tokenLexeme spelling token = .literal (tokenLiteral spelling token) := by
  cases kind : token.kind <;> simp_all [tokenLexeme,isScalarToken]

end Lexemes

end Bennu
