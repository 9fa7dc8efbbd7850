import Bennu.DecimalSpelling
import Bennu.NaturalDigits
import Bennu.ParserCompleteness

/-! The canonical rendering of a tree reads to the lexemes of the tree: every spelling is
one token, since what follows it cannot belong to it. -/
namespace Bennu

variable {parser : RewriteDoubleParser} {rest spelling : Text} {lexemes : List Lexeme}

/-! ### One token at a time -/

/-- No name, type or number goes on at the start of `rest`. -/
def Stops (rest : Text) : Prop :=
  ∀ byte, rest.head? = some byte → isNumericCandidateByte byte = false

theorem Stops.nil : Stops [] := nofun

theorem Stops.cons (stops : isNumericCandidateByte byte = false) (rest : Text) :
    Stops (byte :: rest) := by
  intro other head
  cases head
  exact stops

theorem takeWhile_stops {p : Char → Bool} {run : Text} (all : run.all p = true)
    (stops : Stops rest) (covered : ∀ byte, p byte = true → isNumericCandidateByte byte = true) :
    (run ++ rest).takeWhile p = run := by
  rw [List.takeWhile_append_of_pos (List.all_eq_true.mp all)]
  cases rest with
  | nil => simp
  | cons byte rest =>
    have plain : p byte = false := by
      by_contra holds
      have := covered byte (by simpa using holds)
      rw [stops byte rfl] at this
      contradiction
    simp [plain]

theorem name_covered : ∀ byte, isNameByte byte = true → isNumericCandidateByte byte = true := by
  intro byte
  simp only [isNameByte,isNumericCandidateByte,Bool.or_eq_true]
  tauto

theorem type_covered : ∀ byte, isTypeByte byte = true → isNumericCandidateByte byte = true := by
  intro byte
  simp only [isTypeByte,isNumericCandidateByte,Bool.or_eq_true]
  tauto

theorem not_space_of_lowercase (lower : isLowercase byte = true) :
    isHorizontalSpace byte = false ∧ byte ≠ '\n' ∧ byte ≠ '\r' := by
  simp only [isLowercase,Bool.and_eq_true,decide_eq_true_eq] at lower
  refine ⟨?_,?_,?_⟩
  · by_contra space
    simp only [isHorizontalSpace,Bool.not_eq_false,Bool.or_eq_true,beq_iff_eq] at space
    rcases space with rfl | rfl <;> exact absurd lower.1 (by decide)
  · rintro rfl
    exact absurd lower.1 (by decide)
  · rintro rfl
    exact absurd lower.1 (by decide)

/-- A word: its first byte is a small letter and the rest may stand in a name. -/
theorem Reads.word (first : Char) (word : Text) (lower : isLowercase first = true)
    (all : word.all isNameByte = true) (stops : Stops rest) (reads : Reads parser rest lexemes) :
    Reads parser (first :: word ++ rest)
      (tokenLexeme (first :: word) (wordToken (first :: word) ⟨0,0,0⟩ ⟨0,0,0⟩) :: lexemes) := by
  obtain ⟨notSpace,notLine,notReturn⟩ := not_space_of_lowercase lower
  have run := takeWhile_stops all stops name_covered
  have size : tokenSize first (word ++ rest) = 1 + word.length := by
    simp [tokenSize,notSpace,notLine,notReturn,lower,run]
  have token : nextToken parser first (word ++ rest) ⟨0,0,0⟩ =
      wordToken (first :: word) ⟨0,0,0⟩ (RewritePosition.advance ⟨0,0,0⟩ (word.length + 1)) := by
    simp [nextToken,notSpace,notLine,notReturn,lower,run]
  have taken : (first :: (word ++ rest)).take (1 + word.length) = first :: word := by
    rw [Nat.add_comm,List.take_succ_cons,List.take_left]
  have dropped : (first :: (word ++ rest)).drop (1 + word.length) = rest := by
    rw [Nat.add_comm,List.drop_succ_cons,List.drop_left]
  have read := @Reads.token parser first (word ++ rest) lexemes
    (by rw [size,dropped]; exact reads)
  rwa [size,taken,token,tokenLexeme_body (wordToken_body _ _ _)] at read

theorem Reads.name (spelling : Text) (named : parameterNameSpelling spelling = true)
    (plain : isKeyword spelling = false) (stops : Stops rest)
    (reads : Reads parser rest lexemes) :
    Reads parser (spelling ++ rest) (.name spelling :: lexemes) := by
  cases spelling with
  | nil => contradiction
  | cons first word =>
    rw [parameterNameSpelling,Bool.and_eq_true] at named
    have read := Reads.word first word named.1 named.2 stops reads
    rwa [tokenLexeme_name.mpr ⟨(wordToken_name _ _ _).mpr plain,rfl⟩] at read

theorem Reads.typeName (type : ScalarType) (stops : Stops rest)
    (reads : Reads parser rest lexemes) :
    Reads parser (Bennu.typeName type ++ rest) (.typeName type :: lexemes) := by
  have word : ∀ (first : Char) (word : Text), isUppercase first = true →
      isLowercase first = false → isHorizontalSpace first = false → first ≠ '\n' →
      first ≠ '\r' → first ≠ '_' → word.all isTypeByte = true →
      (∀ begin finish, tokenLexeme (first :: word)
        (makeToken (typeKind (first :: word)) begin finish) = .typeName type) →
      Reads parser (first :: word ++ rest) (.typeName type :: lexemes) := by
    intro first word upper notLower notSpace notLine notReturn notMark all kind
    have run := takeWhile_stops all stops type_covered
    have size : tokenSize first (word ++ rest) = 1 + word.length := by
      simp [tokenSize,notSpace,notLine,notReturn,notLower,notMark,upper,run]
    have token : nextToken parser first (word ++ rest) ⟨0,0,0⟩ =
        makeToken (typeKind (first :: word)) ⟨0,0,0⟩
          (RewritePosition.advance ⟨0,0,0⟩ (word.length + 1)) := by
      simp [nextToken,notSpace,notLine,notReturn,notLower,notMark,upper,run]
    have taken : (first :: (word ++ rest)).take (1 + word.length) = first :: word := by
      rw [Nat.add_comm,List.take_succ_cons,List.take_left]
    have dropped : (first :: (word ++ rest)).drop (1 + word.length) = rest := by
      rw [Nat.add_comm,List.drop_succ_cons,List.drop_left]
    have read := @Reads.token parser first (word ++ rest) lexemes
      (by rw [size,dropped]; exact reads)
    rwa [size,taken,token,kind] at read
  cases type with
  | boolean =>
    exact word 'B' "ool".toList rfl rfl rfl (by decide) (by decide) (by decide) rfl
      fun _ _ => rfl
  | integer =>
    exact word 'I' "nt".toList rfl rfl rfl (by decide) (by decide) (by decide) rfl
      fun _ _ => rfl
  | doublePrecision =>
    exact word 'D' "ouble".toList rfl rfl rfl (by decide) (by decide) (by decide) rfl
      fun _ _ => rfl

/-- The bytes that are tokens by themselves. -/
def markLexeme (byte : Char) : Option Lexeme :=
  match byte with
  | '[' => some .leftBracket
  | ']' => some .rightBracket
  | '(' => some .leftParenthesis
  | ')' => some .rightParenthesis
  | '{' => some .leftBrace
  | '}' => some .rightBrace
  | '_' => some .placeholder
  | '\n' => some .lineTerminator
  | _ => none

theorem Reads.mark (byte : Char) {lexeme : Lexeme} (is : markLexeme byte = some lexeme)
    (reads : Reads parser rest lexemes) : Reads parser (byte :: rest) (lexeme :: lexemes) := by
  unfold markLexeme at is
  split at is
  all_goals first
    | contradiction
    | cases is; exact Reads.token reads

theorem Reads.space (stops : ∀ byte, rest.head? = some byte → isHorizontalSpace byte = false)
    (reads : Reads parser rest lexemes) :
    Reads parser (' ' :: rest) (.horizontalSpace :: lexemes) := by
  have none : rest.takeWhile isHorizontalSpace = [] := by
    cases rest with
    | nil => rfl
    | cons byte rest => simp [stops byte rfl]
  have size : tokenSize ' ' rest = 1 := by simp [tokenSize,isHorizontalSpace,none]
  have read := @Reads.token parser ' ' (rest) lexemes
    (by rw [size]; exact reads)
  exact read

theorem not_word_of_numericStart (numeric : isNumericStart byte = true) :
    isHorizontalSpace byte = false ∧ byte ≠ '\n' ∧ byte ≠ '\r' ∧ isLowercase byte = false ∧
      byte ≠ '_' ∧ isUppercase byte = false := by
  simp only [isNumericStart,Bool.or_eq_true,beq_iff_eq] at numeric
  rcases numeric with ((digit | rfl) | rfl) | rfl
  · have bounds : '0' ≤ byte ∧ byte ≤ '9' := by simpa [isDigit] using digit
    refine ⟨?_,?_,?_,?_,?_,?_⟩
    · by_contra space
      simp only [isHorizontalSpace,Bool.not_eq_false,Bool.or_eq_true,beq_iff_eq] at space
      rcases space with rfl | rfl <;> exact absurd bounds.1 (by decide)
    · rintro rfl; exact absurd bounds.1 (by decide)
    · rintro rfl; exact absurd bounds.1 (by decide)
    · by_contra lower
      simp only [isLowercase,Bool.not_eq_false,Bool.and_eq_true,decide_eq_true_eq] at lower
      exact absurd (Char.le_trans lower.1 bounds.2) (by decide)
    · rintro rfl; exact absurd bounds.2 (by decide)
    · by_contra upper
      simp only [isUppercase,Bool.not_eq_false,Bool.and_eq_true,decide_eq_true_eq] at upper
      exact absurd (Char.le_trans upper.1 bounds.2) (by decide)
  all_goals decide

/-- A run of the bytes of numbers that starts like a number. -/
theorem Reads.numeric {first : Char} {more : Text} (numeric : isNumericStart first = true)
    (all : more.all isNumericCandidateByte = true) (stops : Stops rest)
    (reads : Reads parser rest lexemes) :
    Reads parser (first :: more ++ rest)
      (tokenLexeme (first :: more) (numericToken parser (first :: more) ⟨0,0,0⟩ ⟨0,0,0⟩) ::
        lexemes) := by
  obtain ⟨notSpace,notLine,notReturn,notLower,notMark,notUpper⟩ :=
    not_word_of_numericStart numeric
  have run := takeWhile_stops all stops fun _ covered => covered
  have starts : (isDigit first || first == '-' || first == '+' || first == '.') = true := numeric
  have size : tokenSize first (more ++ rest) = 1 + more.length := by
    simp only [tokenSize,notSpace,notLine,notReturn,notLower,notMark,notUpper,run,starts,
      Bool.false_eq_true,if_false,if_true,false_and]
  have token : nextToken parser first (more ++ rest) ⟨0,0,0⟩ =
      numericToken parser (first :: more) ⟨0,0,0⟩
        (RewritePosition.advance ⟨0,0,0⟩ (more.length + 1)) := by
    simp only [nextToken,notSpace,notLine,notReturn,notLower,notMark,notUpper,run,starts,
      Bool.false_eq_true,if_false,if_true,false_and,List.length_cons]
  have taken : (first :: (more ++ rest)).take (1 + more.length) = first :: more := by
    rw [Nat.add_comm,List.take_succ_cons,List.take_left]
  have dropped : (first :: (more ++ rest)).drop (1 + more.length) = rest := by
    rw [Nat.add_comm,List.drop_succ_cons,List.drop_left]
  have read := @Reads.token parser first (more ++ rest) lexemes
    (by rw [size,dropped]; exact reads)
  rwa [size,taken,token,tokenLexeme_body (numericToken_body _ _ _ _)] at read

/-! ### Literals -/

theorem decimalDigits_eq (value : Nat) : decimalDigits value = Nat.toDigits 10 value := by
  have digit : ∀ n < 10, decimalDigit n = n.digitChar := by decide
  fun_induction decimalDigits value with
  | case1 value small => rw [Nat.toDigits_of_lt_base small,digit value small]
  | case2 value large ih =>
    rw [ih,Nat.toDigits_of_base_le (by decide) (Nat.le_of_not_lt large),
      digit _ (Nat.mod_lt _ (by decide))]

/-- A number's digits, and that they make a canonical integer with or without a sign. -/
theorem toDigits_canonical (value : Nat) :
    ∃ first more, Nat.toDigits 10 value = first :: more ∧ isDigit first = true ∧
      more.all isDigit = true ∧ canonicalIntegerGrammar (first :: more) = true ∧
      (value ≠ 0 → canonicalIntegerGrammar ('-' :: first :: more) = true) := by
  have all := toDigits_digits value
  have leading := toDigits_head_zero value
  have single : value = 0 → Nat.toDigits 10 value = ['0'] := by rintro rfl; rfl
  cases digits : Nat.toDigits 10 value with
  | nil => exact absurd digits Nat.toDigits_ne_nil
  | cons first more =>
    rw [digits,List.all_cons,Bool.and_eq_true] at all
    rw [digits] at leading single
    refine ⟨first,more,rfl,all.1,all.2,?_⟩
    have notMinus : first ≠ '-' := digit_ne all.1 (by decide)
    have plain : unsignedSpelling (first :: more) = first :: more := by
      unfold unsignedSpelling
      split
      · rename_i same
        exact absurd (List.cons.inj same).1 notMinus
      · rfl
    by_cases zero : first = '0'
    · subst zero
      have none := leading rfl
      cases single none
      exact ⟨by decide,fun some => absurd none some⟩
    · constructor
      · unfold canonicalIntegerGrammar
        rw [plain]
        split
        · contradiction
        · rename_i same; exact absurd (List.cons.inj same).1 zero
        · rename_i same; cases same; simp [all.1,all.2]
      · intro _
        unfold canonicalIntegerGrammar
        rw [show unsignedSpelling ('-' :: first :: more) = first :: more from rfl]
        split
        · contradiction
        · rename_i same; exact absurd (List.cons.inj same).1 zero
        · rename_i same; cases same; simp [all.1,all.2]

theorem renderInteger_shape (value : Int) :
    ∃ first more, renderInteger value = first :: more ∧ isNumericStart first = true ∧
      more.all isDigit = true ∧ canonicalIntegerGrammar (first :: more) = true ∧
      signedValue (first :: more) = value := by
  obtain ⟨first,more,digits,digit,all,canonical,negated⟩ := toDigits_canonical value.natAbs
  have counted : decimalValue (first :: more) = value.natAbs := by
    rw [← digits,decimalValue_toDigits]
  rw [renderInteger,decimalDigits_eq,digits]
  by_cases negative : value < 0
  · rw [if_pos negative]
    refine ⟨'-',first :: more,rfl,rfl,by simp [digit,all],negated (by omega),?_⟩
    rw [signedValue,counted]
    omega
  · rw [if_neg negative]
    refine ⟨first,more,rfl,by simp [isNumericStart,digit],all,canonical,?_⟩
    have notMinus : first ≠ '-' := digit_ne digit (by decide)
    unfold signedValue
    split
    · rename_i same
      exact absurd (List.cons.inj same).1 notMinus
    · rw [counted]
      omega

theorem parse_renderInteger (value : Int64) :
    parseCanonicalInteger (renderInteger value.toInt) = some value := by
  obtain ⟨first,more,rendered,_,_,canonical,signed⟩ := renderInteger_shape value.toInt
  rw [parseCanonicalInteger,rendered,canonical,signed,
    decide_eq_true value.minValue_le_toInt,decide_eq_true value.toInt_le]
  simp

theorem digit_covered {byte : Char} (digit : isDigit byte = true) :
    isNumericCandidateByte byte = true := by
  simp [isNumericCandidateByte,digit]

theorem all_covered {text : Text} (all : text.all isDigit = true) :
    text.all isNumericCandidateByte = true :=
  List.all_eq_true.mpr fun byte member => digit_covered (List.all_eq_true.mp all byte member)

theorem ExponentPart.covered (e : ExponentPart) :
    e.text.all isNumericCandidateByte = true := by
  have mark : isNumericCandidateByte e.mark = true := by
    have is := e.isMark
    simp only [isExponentMark,Bool.or_eq_true,beq_iff_eq] at is
    rcases is with is | is <;> rw [is] <;> decide
  have sign : e.sign.all isNumericCandidateByte = true := by
    rcases e.isSign with is | is | is <;> rw [is] <;> decide
  simp [ExponentPart.text,mark,sign,all_covered e.allDigits]

theorem DecimalSpelling.covered (d : DecimalSpelling) :
    ∃ first more, d.text = first :: more ∧ isNumericStart first = true ∧
      more.all isNumericCandidateByte = true := by
  obtain ⟨first,more,integer,digit⟩ := d.exists_first
  have integerAll := d.integerDigits
  rw [integer,List.all_cons,Bool.and_eq_true] at integerAll
  have fraction : (fractionText d.fraction).all isNumericCandidateByte = true := by
    cases is : d.fraction with
    | none => rfl
    | some digits =>
      rw [fractionText,List.all_cons,all_covered (d.fractionDigits digits is).2]
      decide
  have exponent : (exponentText d.exponent).all isNumericCandidateByte = true := by
    cases d.exponent with
    | none => rfl
    | some e => exact e.covered
  have tail : (more ++ (fractionText d.fraction ++ exponentText d.exponent)).all
      isNumericCandidateByte = true := by
    simp [all_covered integerAll.2,fraction,exponent]
  rw [DecimalSpelling.text,DecimalSpelling.body,integer]
  split
  · refine ⟨'-',_,rfl,rfl,?_⟩
    change (first :: (more ++ (fractionText d.fraction ++ exponentText d.exponent))).all
      isNumericCandidateByte = true
    rw [List.all_cons,digit_covered digit,Bool.true_and]
    exact tail
  · exact ⟨first,_,rfl,by simp [isNumericStart,digit],tail⟩

theorem numericToken_grammar
    (kind : (numericToken parser spelling begin finish).kind = .doubleLiteral) :
    spelling = "-inf".toList ∨ finiteDoubleGrammar spelling = true := by
  unfold numericToken at kind
  split at kind
  next isInf => exact .inl isInf
  split at kind
  · contradiction
  split at kind
  · contradiction
  split at kind
  next grammar => exact .inr grammar
  · contradiction

/-- A literal's text is one token, which reads to the literal. -/
theorem Literal.reads (literal : Literal) (readable : literal.Readable parser)
    (stops : Stops rest) (reads : Reads parser rest lexemes) :
    Reads parser (literal.render ++ rest) (.literal literal :: lexemes) := by
  cases literal with
  | boolean value =>
    cases value with
    | true => exact Reads.word 't' "rue".toList rfl rfl stops reads
    | false => exact Reads.word 'f' "alse".toList rfl rfl stops reads
  | integer value =>
    have parsed := parse_renderInteger value
    obtain ⟨first,more,rendered,start,all,_⟩ := renderInteger_shape value.toInt
    rw [Literal.render,rendered]
    rw [rendered] at parsed
    have read := @Reads.numeric parser _ _ _ _ start (all_covered all) stops reads
    have notInf : first :: more ≠ "-inf".toList := by
      intro same
      rw [same] at parsed
      contradiction
    rw [numericToken,if_neg notInf,parsed] at read
    exact read
  | real spelling =>
    rw [Literal.render]
    by_cases isInf : spelling = "inf".toList
    · rw [isInf]
      exact Reads.word 'i' "nf".toList rfl rfl stops reads
    by_cases isNan : spelling = "nan".toList
    · rw [isNan]
      exact Reads.word 'n' "an".toList rfl rfl stops reads
    have kind : (numericToken parser spelling ⟨0,0,0⟩ ⟨0,0,0⟩).kind = .doubleLiteral := by
      by_contra other
      rw [Literal.Readable,readDouble,if_neg isInf,if_neg isNan] at readable
      simp [other] at readable
    obtain ⟨first,more,parts,start,all⟩ : ∃ first more, spelling = first :: more ∧
        isNumericStart first = true ∧ more.all isNumericCandidateByte = true := by
      rcases numericToken_grammar kind with same | grammar
      · exact ⟨'-',"inf".toList,same,rfl,rfl⟩
      · obtain ⟨d,same⟩ := (finiteDoubleGrammar_iff spelling).mp grammar
        obtain ⟨first,more,parts,start,all⟩ := d.covered
        exact ⟨first,more,same.symm.trans parts,start,all⟩
    rw [parts] at kind ⊢
    have read := @Reads.numeric parser _ _ _ _ start all stops reads
    rwa [tokenLexeme_scalar (by rw [kind]; rfl),tokenLiteral,kind] at read

/-! ### Trees -/

section Render
variable (names : List Text)

theorem Expr.render_scalar (literal : Literal) :
    (Expr.scalar literal).render names = literal.render := rfl

theorem Expr.render_emptyVector (type : ScalarType) :
    (Expr.vector type []).render names = Bennu.typeName type ++ "()".toList := rfl

theorem Expr.render_vector (type : ScalarType) (first : Literal) (rest : List Literal) :
    (Expr.vector type (first :: rest)).render names =
      '(' :: spaced ((first :: rest).map Literal.render) ++ [')'] := rfl

theorem Expr.render_parameter (index : Nat) :
    (Expr.parameter index).render names = names.getD index [] := rfl

theorem Expr.render_unresolved (name : Text) : (Expr.unresolved name).render names = name := rfl

theorem Expr.render_bracketCall (name : Text) (arguments : List Expr) :
    (Expr.bracketCall name arguments).render names =
      name ++ '[' :: spaced (Expr.renderAll names arguments) ++ [']'] := rfl

theorem Expr.render_prefixCall (name : Text) (argument : Expr) :
    (Expr.prefixCall name argument).render names = name ++ ' ' :: argument.render names := rfl

theorem Expr.render_tuple (elements : List Expr) :
    (Expr.tuple elements).render names =
      '[' :: spaced (Expr.renderAll names elements) ++ [']'] := rfl

theorem Expr.render_placeholder : Expr.placeholder.render names = ['_'] := rfl

theorem Expr.render_fanout (operand : Expr) (branches : List Expr) :
    (Expr.fanout operand branches).render names =
      "fanout[".toList ++ operand.render names ++ Expr.renderBranches names branches ++ [']'] :=
  rfl

theorem Expr.renderBranches_cons (branch : Expr) (branches : List Expr) :
    Expr.renderBranches names (branch :: branches) =
      " \x7b".toList ++ branch.render names ++ '}' :: Expr.renderBranches names branches := rfl

end Render

/-- A text whose first lexeme is not a separator may follow a blank. -/
theorem Reads.spaced (starts : Lexeme.starts first = true)
    (reads : Reads parser rest (first :: lexemes)) :
    Reads parser (' ' :: rest) (.horizontalSpace :: first :: lexemes) := by
  refine Reads.space ?_ reads
  cases reads with
  | @token byte rest _ later =>
    intro other head
    cases head
    by_contra space
    rw [Bool.not_eq_false] at space
    simp [nextToken,space,tokenLexeme,makeToken,Lexeme.starts] at starts

/-- The names of the parameters are names by spelling. -/
def NamesReadable (names : List Text) : Prop :=
  ∀ name ∈ names, parameterNameSpelling name = true ∧ isKeyword name = false

theorem Reads.callName (named : isCallName spelling = true) (stops : Stops rest)
    (reads : Reads parser rest lexemes) :
    Reads parser (spelling ++ rest) (.name spelling :: lexemes) := by
  obtain ⟨spelled,plain,_⟩ := (Vocabulary.isCallName_iff spelling).mp named
  exact reads.name spelling spelled plain stops

theorem reads_literals (literals : List Literal)
    (readable : ∀ literal ∈ literals, literal.Readable parser) (stops : Stops rest)
    (reads : Reads parser rest lexemes) :
    Reads parser ((literals.map Literal.render).flatMap (fun text => ' ' :: text) ++ rest)
        ((literals.map literalLexemes).flatMap (fun lexemes => .horizontalSpace :: lexemes) ++
          lexemes) ∧
      Stops ((literals.map Literal.render).flatMap (fun text => ' ' :: text) ++ rest) := by
  induction literals with
  | nil => exact ⟨reads,stops⟩
  | cons literal literals ih =>
    obtain ⟨later,laterStops⟩ := ih fun other member =>
      readable other (List.mem_cons_of_mem _ member)
    have read := literal.reads (readable literal List.mem_cons_self) laterStops later
    refine ⟨?_,Stops.cons (by decide) _⟩
    simpa [literalLexemes] using read.spaced rfl

mutual

/-- The rendering of a tree reads to its lexemes, whatever does not go on with it follows. -/
theorem reads_tree (vocabulary : Vocabulary) (names : NamesReadable vocabulary.declared) :
    (tree : Expr) → ∀ {place atRoot} (rest : Text) (lexemes : List Lexeme),
      vocabulary.Allows place atRoot tree → Stops rest →
      Reads vocabulary.parser rest lexemes →
      Reads vocabulary.parser (tree.render vocabulary.declared ++ rest)
        (tree.lexemes vocabulary.declared ++ lexemes)
  | .scalar literal,_,_,rest,lexemes,allowed,stops,reads => by
    have readable : literal.Readable vocabulary.parser := allowed
    rw [Expr.render_scalar,Expr.lexemes]
    exact literal.reads readable stops reads
  | .vector type [],_,_,rest,lexemes,_,_,reads => by
    have closed := (reads.mark ')' rfl).mark '(' rfl
    have read := closed.typeName type (Stops.cons (by decide) _)
    simpa [Expr.render_emptyVector,Expr.lexemes] using read
  | .vector type (first :: elements),_,_,rest,lexemes,allowed,_,reads => by
    have closed := reads.mark ')' rfl
    obtain ⟨later,laterStops⟩ := reads_literals elements
      (fun literal member => (allowed literal (List.mem_cons_of_mem _ member)).1)
      (Stops.cons (by decide) rest) closed
    have read := (first.reads (allowed first List.mem_cons_self).1 laterStops later).mark
      '(' rfl
    simpa [Expr.render_vector,Expr.lexemes,spaced,spacedLexemes,literalLexemes] using read
  | .parameter index,_,_,rest,lexemes,allowed,stops,reads => by
    have bound : index < vocabulary.declared.length := allowed
    have member : vocabulary.declared.getD index [] ∈ vocabulary.declared := by
      simp [List.getD_eq_getElem?_getD,bound]
    obtain ⟨spelled,plain⟩ := names _ member
    rw [Expr.render_parameter,Expr.lexemes]
    exact reads.name _ spelled plain stops
  | .unresolved name,_,_,rest,lexemes,allowed,stops,reads => by
    obtain ⟨_,named,_⟩ := allowed
    rw [Expr.render_unresolved,Expr.lexemes]
    exact reads.callName named stops
  | .bracketCall name arguments,_,_,rest,lexemes,allowed,_,reads => by
    have read := (reads_all vocabulary names arguments rest lexemes allowed.2.2 reads).mark
      '[' rfl
    have named := read.callName allowed.1 (Stops.cons (by decide) _)
    simpa [Expr.render_bracketCall,Expr.lexemes] using named
  | .prefixCall name argument,_,_,rest,lexemes,allowed,stops,reads => by
    have read := reads_tree vocabulary names argument rest lexemes allowed.2.2.2 stops reads
    obtain ⟨first,later,starting,starts⟩ := argument.lexemes_start vocabulary.declared
    rw [starting] at read
    have named := (read.spaced starts).callName allowed.1 (Stops.cons (by decide) _)
    simpa [Expr.render_prefixCall,Expr.lexemes,starting] using named
  | .tuple elements,_,_,rest,lexemes,allowed,_,reads => by
    have read := (reads_all vocabulary names elements rest lexemes allowed reads).mark
      '[' rfl
    simpa [Expr.render_tuple,Expr.lexemes] using read
  | .placeholder,_,_,rest,lexemes,_,_,reads => by
    rw [Expr.render_placeholder,Expr.lexemes]
    exact reads.mark '_' rfl
  | .fanout operand branches,_,_,rest,lexemes,⟨_,operandAllowed,_,branchesAllowed⟩,_,reads => by
    obtain ⟨later,stops⟩ := reads_branches vocabulary names branches (']' :: rest)
      (.rightBracket :: lexemes) branchesAllowed (Stops.cons (by decide) _)
      (reads.mark ']' rfl)
    have read := (reads_tree vocabulary names operand _ _ operandAllowed stops later).mark
      '[' rfl
    have named := read.name "fanout".toList rfl rfl (Stops.cons (by decide) _)
    simpa [Expr.render_fanout,Expr.lexemes] using named

/-- Trees with blanks between them, up to the closing bracket. -/
theorem reads_all (vocabulary : Vocabulary) (names : NamesReadable vocabulary.declared) :
    (trees : List Expr) → ∀ {place} (rest : Text) (lexemes : List Lexeme),
      vocabulary.AllowsAll place trees → Reads vocabulary.parser rest lexemes →
      Reads vocabulary.parser
        (Bennu.spaced (Expr.renderAll vocabulary.declared trees) ++ ']' :: rest)
        (spacedLexemes (Expr.lexemesAll vocabulary.declared trees) ++ .rightBracket :: lexemes)
  | [],_,rest,lexemes,_,reads => reads.mark ']' rfl
  | tree :: trees,_,rest,lexemes,allowed,reads => by
    obtain ⟨later,stops⟩ := reads_more vocabulary names trees rest lexemes allowed.2 reads
    have read := reads_tree vocabulary names tree _ _ allowed.1 stops later
    simpa [Expr.renderAll,Expr.lexemesAll,Bennu.spaced,spacedLexemes] using read

/-- Trees after a first one, each behind a blank. -/
theorem reads_more (vocabulary : Vocabulary) (names : NamesReadable vocabulary.declared) :
    (trees : List Expr) → ∀ {place} (rest : Text) (lexemes : List Lexeme),
      vocabulary.AllowsAll place trees → Reads vocabulary.parser rest lexemes →
      Reads vocabulary.parser
          ((Expr.renderAll vocabulary.declared trees).flatMap (fun text => ' ' :: text) ++
            ']' :: rest)
          ((Expr.lexemesAll vocabulary.declared trees).flatMap
            (fun lexemes => .horizontalSpace :: lexemes) ++ .rightBracket :: lexemes) ∧
        Stops ((Expr.renderAll vocabulary.declared trees).flatMap (fun text => ' ' :: text) ++
            ']' :: rest)
  | [],_,rest,lexemes,_,reads => ⟨reads.mark ']' rfl,Stops.cons (by decide) _⟩
  | tree :: trees,_,rest,lexemes,allowed,reads => by
    obtain ⟨later,stops⟩ := reads_more vocabulary names trees rest lexemes allowed.2 reads
    have read := reads_tree vocabulary names tree _ _ allowed.1 stops later
    obtain ⟨first,after,starting,starts⟩ := tree.lexemes_start vocabulary.declared
    rw [starting] at read
    refine ⟨?_,Stops.cons (by decide) _⟩
    simpa [Expr.renderAll,Expr.lexemesAll,starting] using read.spaced starts

theorem reads_branches (vocabulary : Vocabulary) (names : NamesReadable vocabulary.declared) :
    (branches : List Expr) → ∀ (rest : Text) (lexemes : List Lexeme),
      vocabulary.AllowsBranches branches → Stops rest → Reads vocabulary.parser rest lexemes →
      Reads vocabulary.parser (Expr.renderBranches vocabulary.declared branches ++ rest)
          (Expr.branchLexemes vocabulary.declared branches ++ lexemes) ∧
        Stops (Expr.renderBranches vocabulary.declared branches ++ rest)
  | [],rest,lexemes,_,stops,reads => ⟨reads,stops⟩
  | branch :: branches,rest,lexemes,allowed,stops,reads => by
    obtain ⟨later,_⟩ := reads_branches vocabulary names branches rest lexemes allowed.2 stops reads
    have closed := later.mark '}' rfl
    have read := (reads_tree vocabulary names branch _ _ allowed.1.1 (Stops.cons (by decide) _)
      closed).mark '\x7b' rfl
    refine ⟨?_,Stops.cons (by decide) _⟩
    simpa [Expr.renderBranches_cons,Expr.branchLexemes] using read.spaced rfl

end

/-! ### Programs -/

theorem reads_roots (vocabulary : Vocabulary) (names : NamesReadable vocabulary.declared)
    (roots : List Expr) (allowed : vocabulary.AllowsRoots roots) :
    Reads vocabulary.parser
      (roots.flatMap fun root => root.render vocabulary.declared ++ ['\n'])
      (rootLexemes vocabulary.declared roots) := by
  induction roots with
  | nil => exact .done
  | cons root roots ih =>
    have later := (ih fun other member => allowed other (List.mem_cons_of_mem _ member)).mark
      '\n' rfl
    have read := reads_tree vocabulary names root _ _ (allowed root List.mem_cons_self)
      (Stops.cons (by decide) _) later
    simpa [rootLexemes] using read

def declarationLexemes (parameter : Text × ScalarType) : List Lexeme :=
  [.name parameter.1,.horizontalSpace,.typeName parameter.2]

def headerLexemes (parameters : List (Text × ScalarType)) : List Lexeme :=
  if parameters.isEmpty then []
  else
    .name "parameters".toList :: .leftBracket ::
      (spacedLexemes (parameters.map declarationLexemes) ++ [.rightBracket,.lineTerminator])

def declarationText (parameter : Text × ScalarType) : Text :=
  parameter.1 ++ ' ' :: typeName parameter.2

theorem reads_declaration (parameter : Text × ScalarType)
    (named : parameterNameSpelling parameter.1 = true) (plain : isKeyword parameter.1 = false)
    (stops : Stops rest) (reads : Reads parser rest lexemes) :
    Reads parser (declarationText parameter ++ rest)
      (declarationLexemes parameter ++ lexemes) := by
  have typed := (reads.typeName parameter.2 stops).spaced rfl
  have read := typed.name parameter.1 named plain (Stops.cons (by decide) _)
  simpa [declarationText,declarationLexemes] using read

theorem reads_declarations (parameters : List (Text × ScalarType))
    (named : ∀ parameter ∈ parameters,
      parameterNameSpelling parameter.1 = true ∧ isKeyword parameter.1 = false)
    (stops : Stops rest) (reads : Reads parser rest lexemes) :
    Reads parser ((parameters.map declarationText).flatMap (fun text => ' ' :: text) ++ rest)
        ((parameters.map declarationLexemes).flatMap
          (fun lexemes => .horizontalSpace :: lexemes) ++ lexemes) ∧
      Stops ((parameters.map declarationText).flatMap (fun text => ' ' :: text) ++ rest) := by
  induction parameters with
  | nil => exact ⟨reads,stops⟩
  | cons parameter parameters ih =>
    obtain ⟨later,laterStops⟩ := ih fun other member =>
      named other (List.mem_cons_of_mem _ member)
    obtain ⟨spelled,plain⟩ := named parameter List.mem_cons_self
    have read := reads_declaration parameter spelled plain laterStops later
    refine ⟨?_,Stops.cons (by decide) _⟩
    simpa [declarationLexemes] using read.spaced rfl

theorem reads_header (parameters : List (Text × ScalarType))
    (named : ∀ parameter ∈ parameters,
      parameterNameSpelling parameter.1 = true ∧ isKeyword parameter.1 = false)
    (reads : Reads parser rest lexemes) :
    Reads parser (renderHeader parameters ++ rest) (headerLexemes parameters ++ lexemes) := by
  cases parameters with
  | nil => exact reads
  | cons parameter parameters =>
    have closed := (reads.mark '\n' rfl).mark ']' rfl
    obtain ⟨later,stops⟩ := reads_declarations parameters
      (fun other member => named other (List.mem_cons_of_mem _ member))
      (Stops.cons (by decide) _) closed
    obtain ⟨spelled,plain⟩ := named parameter List.mem_cons_self
    have read := (reads_declaration parameter spelled plain stops later).mark
      '[' rfl
    have keyword := read.name "parameters".toList rfl rfl
      (Stops.cons (by decide) _)
    have text : renderHeader (parameter :: parameters) = "parameters[".toList ++
        Bennu.spaced ((parameter :: parameters).map declarationText) ++ "]\n".toList := rfl
    rw [text]
    simpa [headerLexemes,Bennu.spaced,spacedLexemes] using keyword

theorem isKeyword_reserved (plain : isReservedName spelling = false) :
    isKeyword spelling = false ∧ spelling ≠ "parameters".toList ∧
      spelling ≠ "fanout".toList := by
  simp only [isReservedName,Bool.or_eq_false_iff,beq_eq_false_iff_ne] at plain
  obtain ⟨⟨⟨⟨⟨⟨header,fanout⟩,isTrue⟩,isFalse⟩,isInf⟩,isNan⟩,_⟩ := plain
  refine ⟨?_,header,fanout⟩
  simp only [isKeyword,Bool.or_eq_false_iff,beq_eq_false_iff_ne]
  exact ⟨⟨⟨isTrue,isFalse⟩,isInf⟩,isNan⟩

/-- The canonical rendering of a program of the language reads to its lexemes. -/
theorem reads_program (parser : RewriteDoubleParser) {program : AbstractProgram} {leaves : Bool}
    (inLanguage : program.InLanguage parser leaves) :
    Reads parser program.render (headerLexemes program.parameters ++
      rootLexemes (program.parameters.map (·.1)) program.roots) := by
  obtain ⟨⟨_,resolved⟩,allowed⟩ := inLanguage
  have named : ∀ parameter ∈ program.parameters,
      parameterNameSpelling parameter.1 = true ∧ isKeyword parameter.1 = false :=
    fun parameter member => ⟨(resolved parameter member).1,
      (isKeyword_reserved (resolved parameter member).2).1⟩
  apply reads_header program.parameters named
  apply reads_roots (program.vocabulary parser leaves) _ program.roots allowed
  intro name member
  obtain ⟨parameter,parameterMember,rfl⟩ := List.mem_map.mp member
  exact named parameter parameterMember

end Bennu
