import Bennu.Primitive

/-! The tables the parser fills, its diagnostics, and the resolution of names. -/
namespace Bennu

inductive RewriteNodeKind where
  | scalarLiteral | vectorLiteral | tupleLiteral | parameterReference | unresolvedName
  | primitiveCall | placeholder | fanout
  deriving DecidableEq, Repr

inductive RewriteCallSyntax where
  | bracketed | prefixed
  deriving DecidableEq, Repr

inductive RewriteParseError where
  | none | invalidByte | malformedLiteral | literalRange | expectedExpression
  | missingSeparator | mismatchedDelimiter | missingDelimiter | bareEmptyVector
  | heterogeneousVector | invalidVectorElement | trailingInput | unknownPrimitive
  | expectedFanoutOpen | expectedFanoutOperand | expectedFanoutBranch | expectedBranchOpen
  | expectedBranchBody | expectedBranchClose | missingFanoutClose | unexpectedFanoutToken
  | nestedFanout | branchRootNotPrimitiveCall | placeholderCount | placeholderOwnedPosition
  deriving DecidableEq, Repr

inductive ParameterErrorReason where
  | secondParameterHeader | parameterHeaderAfterRoot | expectedHeaderOpen
  | expectedParameterName | expectedParameterType | missingHeaderClose
  | unexpectedHeaderToken | trailingHeaderBytes | duplicateParameterName
  | reservedParameterName
  deriving DecidableEq, Repr

def insertionSpan (position : RewritePosition) : RewriteSpan := ⟨position,position⟩

def emptySpan : RewriteSpan := ⟨⟨0,0,0⟩,⟨0,0,0⟩⟩

structure RewriteNode where
  kind : RewriteNodeKind
  span : RewriteSpan
  elementType : ScalarType
  boolean : Bool
  integer : Int64
  doublePrecision : Binary64
  firstElement : Nat
  elementCount : Nat
  firstElementSpan : Nat
  callIndex : Nat
  declarationNameSpan : RewriteSpan
  deriving DecidableEq, Repr

structure RewriteCall where
  callSyntax : RewriteCallSyntax
  nameSpan : RewriteSpan
  openingDelimiterSpan : RewriteSpan
  closingDelimiterSpan : RewriteSpan
  prefixSeparatorSpan : RewriteSpan
  span : RewriteSpan
  firstArgument : Nat
  argumentCount : Nat
  primitive : Option PrimitiveId
  deriving DecidableEq, Repr

structure RewriteFanoutBranch where
  span : RewriteSpan
  openingSpan : RewriteSpan
  closingSpan : RewriteSpan
  bodySpan : RewriteSpan
  placeholderSpan : RewriteSpan
  root : Nat
  deriving DecidableEq, Repr

structure RewriteFanout where
  keywordSpan : RewriteSpan
  openingSpan : RewriteSpan
  closingSpan : RewriteSpan
  span : RewriteSpan
  operandSpan : RewriteSpan
  operand : Nat
  firstBranch : Nat
  branchCount : Nat
  deriving DecidableEq, Repr

structure RewriteDiagnostic where
  error : RewriteParseError
  primary : RewriteSpan
  context : RewriteSpan
  related : RewriteSpan
  parameterReason : Option ParameterErrorReason
  deriving DecidableEq, Repr

structure RewriteParameterDeclaration where
  name : Text
  type : ScalarType
  span : RewriteSpan
  nameSpan : RewriteSpan
  typeSpan : RewriteSpan
  deriving DecidableEq, Repr

structure RewriteParameterHeader where
  present : Bool
  span : RewriteSpan
  keywordSpan : RewriteSpan
  openingSpan : RewriteSpan
  closingSpan : RewriteSpan
  declarations : List RewriteParameterDeclaration
  deriving DecidableEq, Repr

structure RewriteProgram where
  source : Text
  parameterHeader : RewriteParameterHeader
  nodes : List RewriteNode
  arguments : List Nat
  argumentSpans : List RewriteSpan
  roots : List Nat
  calls : List RewriteCall
  booleanElements : List UInt8
  integerElements : List Int64
  doubleElements : List Binary64
  vectorElementSpans : List RewriteSpan
  tupleElements : List Nat
  tupleElementSpans : List RewriteSpan
  fanouts : List RewriteFanout
  fanoutBranches : List RewriteFanoutBranch
  deriving DecidableEq, Repr

def emptyHeader : RewriteParameterHeader :=
  ⟨false,emptySpan,emptySpan,emptySpan,emptySpan,[]⟩

def emptyProgram (source : Text) : RewriteProgram :=
  ⟨source,emptyHeader,[],[],[],[],[],[],[],[],[],[],[],[],[]⟩

/-- A `RewriteParseResult` that is `ok` holds the program, one that is not a diagnostic. -/
abbrev RewriteParseResult := Except RewriteDiagnostic RewriteProgram

def diagnostic (error : RewriteParseError) (primary context related : RewriteSpan) :
    RewriteDiagnostic :=
  ⟨error,primary,context,related,none⟩

def parameterDiagnostic (reason : ParameterErrorReason) (error : RewriteParseError)
    (primary context related : RewriteSpan) : RewriteDiagnostic :=
  ⟨error,primary,context,related,some reason⟩

def RewriteProgram.spanOf (program : RewriteProgram) (node : Nat) : RewriteSpan :=
  (program.nodes[node]?.map (·.span)).getD emptySpan

def RewriteProgram.addNode (program : RewriteProgram) (node : RewriteNode) :
    RewriteProgram :=
  { program with nodes := program.nodes ++ [node] }

def blankNode (kind : RewriteNodeKind) (span : RewriteSpan) : RewriteNode :=
  ⟨kind,span,.boolean,false,0,0,0,0,0,0,emptySpan⟩

/-- Names the header may not declare. -/
def isReservedName (name : Text) : Bool :=
  name == "parameters".toList || name == "fanout".toList || name == "true".toList ||
    name == "false".toList || name == "inf".toList || name == "nan".toList ||
    (findPrimitive name).isSome

/-- The checks `resolve_rewrite_primitives` makes on the header: the first declaration that
repeats an earlier name or takes a reserved one. -/
def checkDeclarations (header : RewriteParameterHeader) :
    List RewriteParameterDeclaration → List RewriteParameterDeclaration →
      Option RewriteDiagnostic
  | _,[] => none
  | earlier,declaration :: rest =>
    match earlier.find? fun other => other.name == declaration.name with
    | some other =>
      some (parameterDiagnostic .duplicateParameterName .unknownPrimitive
        declaration.nameSpan header.span other.nameSpan)
    | none =>
      if isReservedName declaration.name then
        some (parameterDiagnostic .reservedParameterName .unknownPrimitive
          declaration.nameSpan header.span declaration.nameSpan)
      else checkDeclarations header (earlier ++ [declaration]) rest

/-- Of two unknown names, the one that comes first in the source. -/
def earlierDiagnostic (first : Option RewriteDiagnostic) (found : RewriteDiagnostic) :
    Option RewriteDiagnostic :=
  match first with
  | none => some found
  | some first =>
    if found.primary.begin.offset < first.primary.begin.offset then some found else some first

def unknownCall (program : RewriteProgram) (first : Option RewriteDiagnostic)
    (call : RewriteCall) : Option RewriteDiagnostic :=
  match findPrimitive (spanSpelling program.source call.nameSpan) with
  | some _ => first
  | none =>
    earlierDiagnostic first
      (diagnostic .unknownPrimitive call.nameSpan call.span call.nameSpan)

def unknownName (first : Option RewriteDiagnostic) (node : RewriteNode) :
    Option RewriteDiagnostic :=
  if node.kind = .unresolvedName then
    earlierDiagnostic first (diagnostic .unknownPrimitive node.span node.span node.span)
  else first

def resolveRewritePrimitives (program : RewriteProgram) : RewriteParseResult :=
  match checkDeclarations program.parameterHeader [] program.parameterHeader.declarations with
  | some diagnostic => .error diagnostic
  | none =>
    match program.nodes.foldl unknownName (program.calls.foldl (unknownCall program) none) with
    | some diagnostic => .error diagnostic
    | none =>
      .ok { program with
        calls := program.calls.map fun call =>
          { call with
            primitive :=
              (findPrimitive (spanSpelling program.source call.nameSpan)).map (·.id) } }

end Bennu
