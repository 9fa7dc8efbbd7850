import Bennu.RewriteProgram

/-! Command-line arguments: the decoder of the evaluator, and the adapter that the
emitted C program runs before its own evaluation. An argument is a text without a
terminator; the C scanners read the terminator at its end. -/
namespace Bennu

inductive ArgumentErrorReason where
  | missing | extra | invalidLiteral | outOfRange | invalidTypedValue | containerMismatch
  | typeMismatch
  deriving DecidableEq, Repr

def argumentReasonName : ArgumentErrorReason → String
  | .missing => "missing"
  | .extra => "extra"
  | .invalidLiteral => "invalid_literal"
  | .outOfRange => "out_of_range"
  | .invalidTypedValue => "invalid_typed_value"
  | .containerMismatch => "container_mismatch"
  | .typeMismatch => "type_mismatch"

/-- What an argument error says of the parameter at its position. -/
structure ArgumentErrorContext where
  reason : ArgumentErrorReason
  requiredCount : Nat
  suppliedCount : Nat
  position : Nat
  parameterName : Option Text
  expectedType : Option ScalarType
  declarationSpan : Option RewriteSpan
  deriving DecidableEq, Repr

def argumentError (declarations : List RewriteParameterDeclaration)
    (reason : ArgumentErrorReason) (suppliedCount position : Nat) : ArgumentErrorContext :=
  let declaration := if 1 ≤ position then declarations[position - 1]? else none
  ⟨reason,declarations.length,suppliedCount,position,declaration.map (·.name),
    declaration.map (·.type),declaration.map (·.span)⟩

/-- The integer that `from_chars` reads from a canonical spelling. -/
def decodeIntegerText (spelling : Text) : Except ArgumentErrorReason Value :=
  if canonicalIntegerGrammar spelling then
    match parseCanonicalInteger spelling with
    | some value => .ok (makeIntValue value)
    | none => .error .outOfRange
  else .error .invalidLiteral

def decodeDoubleText (parser : RewriteDoubleParser) (spelling : Text) :
    Except ArgumentErrorReason Value :=
  if spelling = "inf".toList then .ok (makeDoubleValue positiveInfinity)
  else if spelling = "-inf".toList then .ok (makeDoubleValue negativeInfinity)
  else if spelling = "nan".toList then .ok (makeDoubleValue canonicalNanBits)
  else if finiteDoubleGrammar spelling then
    let converted := parser.parseFiniteDouble spelling
    if converted.status = .outOfRange ∧ decimalRoundsToZero spelling = true then
      .ok (makeDoubleValue (if spelling.head? = some '-' then negativeZero else 0))
    else if converted.status ≠ .success ∨ converted.consumed ≠ spelling.length ∨
        isFiniteBits converted.value = false then
      .error .outOfRange
    else .ok (makeDoubleValue converted.value)
  else .error .invalidLiteral

def decodeScalarText (parser : RewriteDoubleParser) (type : ScalarType) (spelling : Text) :
    Except ArgumentErrorReason Value :=
  match type with
  | .boolean =>
    if spelling = "true".toList then .ok (makeBoolValue true)
    else if spelling = "false".toList then .ok (makeBoolValue false)
    else .error .invalidLiteral
  | .integer => decodeIntegerText spelling
  | .doublePrecision => decodeDoubleText parser spelling

/-- The loop of `decode_parameter_texts` from one position on. -/
def decodeTextsFrom (parser : RewriteDoubleParser)
    (declarations : List RewriteParameterDeclaration) (supplied index : Nat) :
    List (RewriteParameterDeclaration × Text) → Except ArgumentErrorContext (List Value)
  | [] => .ok []
  | (declaration,argument) :: rest =>
    match decodeScalarText parser declaration.type argument with
    | .error reason => .error (argumentError declarations reason supplied (index + 1))
    | .ok value =>
      (decodeTextsFrom parser declarations supplied (index + 1) rest).map (value :: ·)

def decodeParameterTexts (parser : RewriteDoubleParser)
    (declarations : List RewriteParameterDeclaration) (arguments : List Text) :
    Except ArgumentErrorContext (List Value) :=
  if arguments.length < declarations.length then
    .error (argumentError declarations .missing arguments.length (arguments.length + 1))
  else if declarations.length < arguments.length then
    .error (argumentError declarations .extra arguments.length (declarations.length + 1))
  else decodeTextsFrom parser declarations arguments.length 0 (declarations.zip arguments)

/-- What `strtod` reports: how far `end` got, and the value. -/
structure StrtodResult where
  consumed : Nat
  value : Binary64
  deriving DecidableEq, Repr

/-- `strtod` of the host, in the C locale. -/
structure CStrtod where
  strtod : Text → StrtodResult

inductive BennuContainer where
  | scalar | vector | tuple
  deriving DecidableEq, Repr

/-- A `BennuValue` of the C program, as far as scalars use it. -/
structure BennuValue where
  container : BennuContainer
  type : ScalarType
  count : Nat
  boolean : UInt8
  integer : Int64
  doublePrecision : Binary64
  deriving DecidableEq, Repr

def bennuScalarBool (value : UInt8) : BennuValue := ⟨.scalar,.boolean,1,value,0,0⟩

def bennuScalarInt (value : Int64) : BennuValue := ⟨.scalar,.integer,1,0,value,0⟩

def bennuScalarDoubleBits (bits : Binary64) : BennuValue :=
  ⟨.scalar,.doublePrecision,1,0,0,normalizeDouble bits⟩

/-- `BennuArgumentDecode` without its success case. -/
inductive BennuArgumentDecode where
  | invalidLiteral | outOfRange
  deriving DecidableEq, Repr

def bennuAsciiDigit (byte : Char) : Bool := decide ('0' ≤ byte) && decide (byte ≤ '9')

/-- The digits that a loop over `bennu_ascii_digit` passes are gone. -/
def bennuPastDigits (rest : Text) : Text := rest.dropWhile bennuAsciiDigit

def bennuCanonicalIntegerGrammar (spelling : Text) : Bool :=
  let negative := spelling.head? == some '-'
  match (if negative then spelling.tail else spelling) with
  | [] => false
  | first :: rest =>
    if first = '0' then !negative && rest.isEmpty
    else if first < '1' ∨ '9' < first then false
    else (bennuPastDigits rest).isEmpty

/-- The fraction of `bennu_finite_double_grammar`; `none` where the source returns. -/
def bennuPastFraction (rest : Text) : Option (Bool × Text) :=
  if rest.head? = some '.' then
    let fraction := rest.tail
    if (bennuPastDigits fraction).length = fraction.length then none
    else some (true,bennuPastDigits fraction)
  else some (false,rest)

def bennuPastSign (rest : Text) : Text :=
  if rest.head? = some '+' ∨ rest.head? = some '-' then rest.tail else rest

def bennuPastExponent (rest : Text) : Option (Bool × Text) :=
  if rest.head? = some 'e' ∨ rest.head? = some 'E' then
    let exponent := bennuPastSign rest.tail
    if (bennuPastDigits exponent).length = exponent.length then none
    else some (true,bennuPastDigits exponent)
  else some (false,rest)

def bennuFiniteDoubleGrammar (spelling : Text) : Bool :=
  let body := if spelling.head? = some '-' then spelling.tail else spelling
  let rest := bennuPastDigits body
  if rest.length = body.length ∨ body.head? = some '0' ∧ rest.length + 1 ≠ body.length then false
  else
    match bennuPastFraction rest with
    | none => false
    | some (hasFraction,rest) =>
      match bennuPastExponent rest with
      | none => false
      | some (hasExponent,rest) => rest.isEmpty && (hasFraction || hasExponent)

/-- The accumulation of `bennu_decode_int_argument`, which stops before a digit
that would pass the limit. -/
def bennuIntMagnitude (limit : Nat) : Nat → Text → Option Nat
  | magnitude,[] => some magnitude
  | magnitude,byte :: rest =>
    let digit := digitValue byte
    if magnitude > (limit - digit) / 10 then none
    else bennuIntMagnitude limit (magnitude * 10 + digit) rest

def bennuDecodeIntArgument (spelling : Text) : Except BennuArgumentDecode BennuValue :=
  let negative := spelling.head? == some '-'
  let digits := if negative then spelling.tail else spelling
  let limit := if negative then 9223372036854775808 else 9223372036854775807
  if bennuCanonicalIntegerGrammar spelling then
    match bennuIntMagnitude limit 0 digits with
    | none => .error .outOfRange
    | some magnitude =>
      if negative then
        .ok (bennuScalarInt (if magnitude = 9223372036854775808 then Int64.minValue
          else -Int64.ofNat magnitude))
      else .ok (bennuScalarInt (Int64.ofNat magnitude))
  else .error .invalidLiteral

def bennuDecodeDoubleArgument (host : CStrtod) (spelling : Text) :
    Except BennuArgumentDecode BennuValue :=
  if spelling = "inf".toList then .ok (bennuScalarDoubleBits 0x7ff0000000000000)
  else if spelling = "-inf".toList then .ok (bennuScalarDoubleBits 0xfff0000000000000)
  else if spelling = "nan".toList then .ok (bennuScalarDoubleBits 0x7ff8000000000000)
  else if bennuFiniteDoubleGrammar spelling then
    let converted := host.strtod spelling
    if converted.consumed ≠ spelling.length ∨ isFiniteBits converted.value = false then
      .error .outOfRange
    else .ok (bennuScalarDoubleBits converted.value)
  else .error .invalidLiteral

def bennuDecodeArgument (host : CStrtod) (type : ScalarType) (spelling : Text) :
    Except BennuArgumentDecode BennuValue :=
  match type with
  | .boolean =>
    if spelling = "true".toList then .ok (bennuScalarBool 1)
    else if spelling = "false".toList then .ok (bennuScalarBool 0)
    else .error .invalidLiteral
  | .integer => bennuDecodeIntArgument spelling
  | .doublePrecision => bennuDecodeDoubleArgument host spelling

def publicScalarTypeName : ScalarType → String
  | .boolean => "Bool"
  | .integer => "Int"
  | .doublePrecision => "Double"

/-- What `bennu_report_argument_error` is given. -/
structure BennuArgumentReport where
  reason : String
  requiredCount : Nat
  suppliedCount : Nat
  position : Nat
  parameterName : Option Text
  expectedType : Option String
  declarationSpan : Option RewriteSpan
  deriving DecidableEq, Repr

/-- The tables of names, types and spans that the adapter holds, at one index. -/
def bennuReport (declarations : List RewriteParameterDeclaration) (reason : String)
    (supplied index : Nat) : BennuArgumentReport :=
  ⟨reason,declarations.length,supplied,index + 1,declarations[index]?.map (·.name),
    declarations[index]?.map (publicScalarTypeName ·.type),declarations[index]?.map (·.span)⟩

def bennuBindFrom (host : CStrtod) (declarations : List RewriteParameterDeclaration)
    (supplied index : Nat) :
    List (RewriteParameterDeclaration × Text) → Except BennuArgumentReport (List BennuValue)
  | [] => .ok []
  | (declaration,argument) :: rest =>
    match bennuDecodeArgument host declaration.type argument with
    | .error decoded =>
      .error (bennuReport declarations
        (if decoded = .outOfRange then "out_of_range" else "invalid_literal") supplied index)
    | .ok value => (bennuBindFrom host declarations supplied (index + 1) rest).map (value :: ·)

/-- `bennu_bind_arguments` as emitted for a parameter list; `argc` counts the name of
the program too. -/
def bennuBindArguments (host : CStrtod) (declarations : List RewriteParameterDeclaration)
    (arguments : List Text) : Except BennuArgumentReport (List BennuValue) :=
  let argc := arguments.length + 1
  let supplied := if argc > 1 then argc - 1 else 0
  if declarations.length ≠ 0 ∧ supplied < declarations.length then
    .error (bennuReport declarations "missing" supplied supplied)
  else if supplied > declarations.length then
    .error ⟨"extra",declarations.length,supplied,declarations.length + 1,none,none,none⟩
  else bennuBindFrom host declarations supplied 0 (declarations.zip arguments)

end Bennu
