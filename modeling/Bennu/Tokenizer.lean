import Bennu.Value

/-! The tokenizer. A source text is a list of bytes, one character each. The library
that converts decimal spellings to doubles is a parameter: the source takes it from the
platform (`from_chars` or `strtod_l` in the C locale). -/
namespace Bennu

abbrev Text := List Char

structure RewritePosition where
  offset : Nat
  line : Nat
  column : Nat
  deriving DecidableEq, Repr

structure RewriteSpan where
  begin : RewritePosition
  finish : RewritePosition
  deriving DecidableEq, Repr

inductive RewriteTokenKind where
  | name | boolLiteral | intLiteral | doubleLiteral | boolType | intType | doubleType
  | leftBracket | rightBracket | leftParenthesis | rightParenthesis | leftBrace | rightBrace
  | placeholder | horizontalSpace | lineTerminator | malformedLiteral | invalid
  deriving DecidableEq, Repr

inductive RewriteLiteralError where
  | none | malformed | range
  deriving DecidableEq, Repr

structure RewriteToken where
  kind : RewriteTokenKind
  span : RewriteSpan
  boolean : Bool
  integer : Int64
  doublePrecision : Binary64
  literalError : RewriteLiteralError
  deriving DecidableEq, Repr

structure RewriteTokens where
  source : Text
  tokens : List RewriteToken
  finish : RewritePosition
  deriving DecidableEq, Repr

def isLowercase (byte : Char) : Bool := 'a' ≤ byte && byte ≤ 'z'

def isUppercase (byte : Char) : Bool := 'A' ≤ byte && byte ≤ 'Z'

def isDigit (byte : Char) : Bool := '0' ≤ byte && byte ≤ '9'

def isHorizontalSpace (byte : Char) : Bool := byte == ' ' || byte == '\t'

def isNameByte (byte : Char) : Bool := isLowercase byte || isDigit byte || byte == '_'

def isTypeByte (byte : Char) : Bool :=
  isUppercase byte || isLowercase byte || isDigit byte || byte == '_'

def isNumericCandidateByte (byte : Char) : Bool :=
  isLowercase byte || isUppercase byte || isDigit byte || byte == '_' || byte == '.' ||
    byte == '+' || byte == '-'

def makeToken (kind : RewriteTokenKind) (begin finish : RewritePosition) : RewriteToken :=
  ⟨kind,⟨begin,finish⟩,false,0,0,.none⟩

/-- A spelling without its leading minus sign. -/
def unsignedSpelling : Text → Text
  | '-' :: rest => rest
  | spelling => spelling

def canonicalIntegerGrammar (spelling : Text) : Bool :=
  match unsignedSpelling spelling with
  | [] => false
  | '0' :: rest => rest.isEmpty && spelling.head? != some '-'
  | first :: rest => isDigit first && rest.all isDigit

def digitValue (byte : Char) : Nat := byte.toNat - '0'.toNat

def decimalValue (digits : Text) : Nat :=
  digits.foldl (fun value byte => value * 10 + digitValue byte) 0

/-- The integer a canonical spelling denotes, before the range check of `from_chars`. -/
def signedValue (spelling : Text) : Int :=
  match spelling with
  | '-' :: digits => -(decimalValue digits : Int)
  | digits => (decimalValue digits : Int)

def parseCanonicalInteger (spelling : Text) : Option Int64 :=
  if canonicalIntegerGrammar spelling &&
      (decide (Int64.minValue.toInt ≤ signedValue spelling) &&
        decide (signedValue spelling ≤ Int64.maxValue.toInt))
  then some (Int64.ofInt (signedValue spelling)) else none

/-- What is left after a fraction: `none` for a point without digits. -/
def afterFraction : Text → Option (Bool × Text)
  | '.' :: rest =>
    if (rest.takeWhile isDigit).isEmpty then none else some (true,rest.dropWhile isDigit)
  | rest => some (false,rest)

def afterSign : Text → Text
  | '+' :: rest => rest
  | '-' :: rest => rest
  | rest => rest

def isExponentMark (byte : Char) : Bool := byte == 'e' || byte == 'E'

/-- What is left after an exponent: `none` for a mark without digits. -/
def afterExponent : Text → Option (Bool × Text)
  | [] => some (false,[])
  | mark :: rest =>
    if isExponentMark mark then
      if ((afterSign rest).takeWhile isDigit).isEmpty then none
      else some (true,(afterSign rest).dropWhile isDigit)
    else some (false,mark :: rest)

def finiteDoubleGrammar (spelling : Text) : Bool :=
  let body := unsignedSpelling spelling
  let integerDigits := body.takeWhile isDigit
  if integerDigits.isEmpty then false
  else if body.head? == some '0' && integerDigits.length != 1 then false
  else
    match afterFraction (body.dropWhile isDigit) with
    | none => false
    | some (hasFraction,rest) =>
      match afterExponent rest with
      | none => false
      | some (hasExponent,rest) => rest.isEmpty && (hasFraction || hasExponent)

structure DecimalScan where
  digitsBeforeDecimal : Nat
  digitOrdinal : Nat
  firstNonzero : Option Nat

def DecimalScan.next (scan : DecimalScan) (byte : Char) : DecimalScan :=
  if byte == '.' then { scan with digitsBeforeDecimal := scan.digitOrdinal }
  else
    { scan with
      firstNonzero :=
        if scan.firstNonzero.isNone && byte != '0' then some scan.digitOrdinal
        else scan.firstNonzero
      digitOrdinal := scan.digitOrdinal + 1 }

def decimalMantissa (spelling : Text) : Text :=
  (unsignedSpelling spelling).takeWhile fun byte => !isExponentMark byte

/-- The written exponent, no longer read once it has reached a million. -/
def explicitExponent (spelling : Text) : Int :=
  let rest := ((unsignedSpelling spelling).dropWhile fun byte => !isExponentMark byte).tail
  let size := (afterSign rest).foldl
    (fun value byte => if value < 1000000 then value * 10 + digitValue byte else value) 0
  if rest.head? == some '-' then -(size : Int) else (size : Int)

def decimalScientificExponent (spelling : Text) : Int :=
  let scan := (decimalMantissa spelling).foldl DecimalScan.next ⟨0,0,none⟩
  let digitsBeforeDecimal :=
    if spelling.contains '.' then scan.digitsBeforeDecimal else scan.digitOrdinal
  match scan.firstNonzero with
  | none => 0
  | some firstNonzero =>
    explicitExponent spelling + (min digitsBeforeDecimal 1000000 : Nat)
      - (min firstNonzero 1000000 : Nat) - 1

def halfMinimumSubnormal : Text :=
  "24703282292062327208828439643411068618252990130716238221279284125033775".toList

/-- The digits of a mantissa against those of half the least subnormal, `0` once these run
out. A mantissa that runs out first rounds to zero, by either exit of the source. -/
def digitsRoundToZero : Text → Text → Bool → Bool
  | [],_,_ => true
  | byte :: rest,threshold,foundNonzero =>
    if byte == '.' || (byte == '0' && !foundNonzero) then
      digitsRoundToZero rest threshold foundNonzero
    else if byte < threshold.headD '0' then true
    else if threshold.headD '0' < byte then false
    else digitsRoundToZero rest threshold.tail true

def decimalRoundsToZero (spelling : Text) : Bool :=
  let exponent := decimalScientificExponent spelling
  if exponent < -324 then true
  else if exponent ≠ -324 then false
  else digitsRoundToZero (decimalMantissa spelling) halfMinimumSubnormal false

inductive ConversionStatus where
  | success | outOfRange | invalidArgument
  deriving DecidableEq, Repr

/-- What `parse_finite_double` reports: its `ec`, how far `ptr` got, and the value. -/
structure DoubleConversion where
  status : ConversionStatus
  consumed : Nat
  value : Binary64
  deriving DecidableEq, Repr

/-- `parse_finite_double` of the platform the program runs on. -/
structure RewriteDoubleParser where
  parseFiniteDouble : Text → DoubleConversion

def isFiniteBits (bits : Binary64) : Bool :=
  bits &&& binary64ExponentMask != binary64ExponentMask

def positiveInfinity : Binary64 := 0x7ff0000000000000
def negativeInfinity : Binary64 := 0xfff0000000000000
def negativeZero : Binary64 := 0x8000000000000000

def doubleToken (value : Binary64) (begin finish : RewritePosition) : RewriteToken :=
  { makeToken .doubleLiteral begin finish with doublePrecision := value }

def literalErrorToken (error : RewriteLiteralError) (begin finish : RewritePosition) :
    RewriteToken :=
  { makeToken .malformedLiteral begin finish with literalError := error }

def numericToken (parser : RewriteDoubleParser) (spelling : Text)
    (begin finish : RewritePosition) : RewriteToken :=
  if spelling = "-inf".toList then doubleToken negativeInfinity begin finish
  else
    match parseCanonicalInteger spelling with
    | some integer => { makeToken .intLiteral begin finish with integer }
    | none =>
      if canonicalIntegerGrammar spelling then literalErrorToken .range begin finish
      else if finiteDoubleGrammar spelling then
        let converted := parser.parseFiniteDouble spelling
        if converted.status = .outOfRange then
          if decimalRoundsToZero spelling then
            doubleToken (if spelling.head? = some '-' then negativeZero else 0) begin finish
          else literalErrorToken .range begin finish
        else if converted.status ≠ .success ∨ converted.consumed ≠ spelling.length ∨
            isFiniteBits converted.value = false then
          literalErrorToken .range begin finish
        else doubleToken converted.value begin finish
      else literalErrorToken .malformed begin finish

def wordToken (spelling : Text) (begin finish : RewritePosition) : RewriteToken :=
  if spelling = "true".toList then
    { makeToken .boolLiteral begin finish with boolean := true }
  else if spelling = "false".toList then
    { makeToken .boolLiteral begin finish with boolean := false }
  else if spelling = "inf".toList then doubleToken positiveInfinity begin finish
  else if spelling = "nan".toList then doubleToken canonicalNanBits begin finish
  else makeToken .name begin finish

def typeKind (spelling : Text) : RewriteTokenKind :=
  if spelling = "Bool".toList then .boolType
  else if spelling = "Int".toList then .intType
  else if spelling = "Double".toList then .doubleType
  else .invalid

def delimiterKind (byte : Char) : RewriteTokenKind :=
  match byte with
  | '[' => .leftBracket
  | ']' => .rightBracket
  | '(' => .leftParenthesis
  | ')' => .rightParenthesis
  | '{' => .leftBrace
  | '}' => .rightBrace
  | _ => .invalid

def RewritePosition.advance (position : RewritePosition) (count : Nat) : RewritePosition :=
  { position with offset := position.offset + count, column := position.column + count }

def RewritePosition.newline (position : RewritePosition) (count : Nat) : RewritePosition :=
  ⟨position.offset + count,position.line + 1,1⟩

/-- One round of the tokenizer's loop, at the byte `byte` with `rest` after it. -/
def nextToken (parser : RewriteDoubleParser) (byte : Char) (rest : Text)
    (begin : RewritePosition) : RewriteToken :=
  if isHorizontalSpace byte then
    makeToken .horizontalSpace begin
      (begin.advance (1 + (rest.takeWhile isHorizontalSpace).length))
  else if byte = '\n' then makeToken .lineTerminator begin (begin.newline 1)
  else if byte = '\r' ∧ rest.head? = some '\n' then
    makeToken .lineTerminator begin (begin.newline 2)
  else if isLowercase byte then
    let spelling := byte :: rest.takeWhile isNameByte
    wordToken spelling begin (begin.advance spelling.length)
  else if byte = '_' then makeToken .placeholder begin (begin.advance 1)
  else if isUppercase byte then
    let spelling := byte :: rest.takeWhile isTypeByte
    makeToken (typeKind spelling) begin (begin.advance spelling.length)
  else if isDigit byte || byte == '-' || byte == '+' || byte == '.' then
    let spelling := byte :: rest.takeWhile isNumericCandidateByte
    numericToken parser spelling begin (begin.advance spelling.length)
  else makeToken (delimiterKind byte) begin (begin.advance 1)

def RewriteToken.size (token : RewriteToken) : Nat :=
  token.span.finish.offset - token.span.begin.offset

/-- The tokenizer's loop over the text still unread; every round reads at least one byte. -/
def tokenizeLoop (parser : RewriteDoubleParser) :
    Nat → Text → RewritePosition → List RewriteToken × RewritePosition
  | 0,_,position => ([],position)
  | _ + 1,[],position => ([],position)
  | fuel + 1,byte :: rest,position =>
    let token := nextToken parser byte rest position
    let later := tokenizeLoop parser fuel ((byte :: rest).drop token.size) token.span.finish
    (token :: later.1,later.2)

def tokenizeRewrite (parser : RewriteDoubleParser) (source : Text) : RewriteTokens :=
  let scanned := tokenizeLoop parser source.length source ⟨1,1,1⟩
  ⟨source,scanned.1,scanned.2⟩

/-- The bytes of the source a span covers. -/
def spanSpelling (source : Text) (span : RewriteSpan) : Text :=
  (source.drop (span.begin.offset - 1)).take (span.finish.offset - span.begin.offset)

def rewriteTokenSpelling (tokens : RewriteTokens) (token : RewriteToken) : Text :=
  spanSpelling tokens.source token.span

end Bennu
