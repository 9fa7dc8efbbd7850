import Bennu.RewriteProgram

/-! The parser: an explicit stack of contexts over the token list. `token_index` is kept
as the tokens from it on (`unread`), an index stored in a context likewise. -/
namespace Bennu

inductive RewriteContextKind where
  | bracketCall | tupleLiteral | prefixCall | fanout | fanoutBranch
  deriving DecidableEq, Repr

/-- `no_index` is `none`. -/
structure RewritePendingArgument where
  node : Nat
  next : Option Nat
  deriving DecidableEq, Repr

structure RewriteContext where
  kind : RewriteContextKind
  nameSpan : RewriteSpan
  openingSpan : RewriteSpan
  separatorSpan : RewriteSpan
  firstPendingArgument : Option Nat
  lastPendingArgument : Option Nat
  argumentCount : Nat
  openingTokens : List RewriteToken
  afterArgument : Bool
  deriving DecidableEq, Repr

def openContext (kind : RewriteContextKind) (nameSpan openingSpan separatorSpan : RewriteSpan)
    (openingTokens : List RewriteToken) : RewriteContext :=
  ⟨kind,nameSpan,openingSpan,separatorSpan,none,none,0,openingTokens,false⟩

def isScalarToken (kind : RewriteTokenKind) : Bool :=
  match kind with
  | .boolLiteral | .intLiteral | .doubleLiteral => true
  | _ => false

def scalarTokenType (kind : RewriteTokenKind) : ScalarType :=
  match kind with
  | .boolLiteral => .boolean
  | .intLiteral => .integer
  | _ => .doublePrecision

/-- The type a type token names. -/
def parameterType (kind : RewriteTokenKind) : Option ScalarType :=
  match kind with
  | .boolType => some .boolean
  | .intType => some .integer
  | .doubleType => some .doublePrecision
  | _ => none

def isSeparator (token : RewriteToken) : Bool :=
  token.kind == .horizontalSpace || token.kind == .lineTerminator

def skipSeparators (tokens : List RewriteToken) : List RewriteToken :=
  tokens.dropWhile isSeparator

def skipHorizontalSpace (tokens : List RewriteToken) : List RewriteToken :=
  tokens.dropWhile fun token => token.kind == .horizontalSpace

def nextIs (kind : RewriteTokenKind) (tokens : List RewriteToken) : Bool :=
  match tokens with
  | [] => false
  | token :: _ => token.kind == kind

/-- The span of the first of `tokens`, or the end of the text. -/
def nextSpan (tokens : RewriteTokens) (unread : List RewriteToken) : RewriteSpan :=
  match unread with
  | [] => insertionSpan tokens.finish
  | token :: _ => token.span

def closingSpanFrom (opening closing : RewriteTokenKind) (begin finish : RewritePosition) :
    Nat → List RewriteToken → RewriteSpan
  | _,[] => ⟨begin,finish⟩
  | depth,token :: rest =>
    if token.kind = opening then closingSpanFrom opening closing begin finish (depth + 1) rest
    else if token.kind = closing then
      if depth = 1 then ⟨begin,token.span.finish⟩
      else closingSpanFrom opening closing begin finish (depth - 1) rest
    else closingSpanFrom opening closing begin finish depth rest

def delimitedContextSpan (tokens : RewriteTokens) (opening : List RewriteToken)
    (closing : RewriteTokenKind) : RewriteSpan :=
  match opening with
  | [] => insertionSpan tokens.finish
  | token :: _ =>
    closingSpanFrom token.kind closing token.span.begin tokens.finish 0 opening

def rewriteContextSpan (tokens : RewriteTokens) (context : RewriteContext) : RewriteSpan :=
  if context.kind = .tupleLiteral then
    delimitedContextSpan tokens context.openingTokens .rightBracket
  else
    closingSpanFrom .leftBracket .rightBracket context.nameSpan.begin tokens.finish 0
      context.openingTokens

/-! ### Vector literals -/

def appendVectorElement (program : RewriteProgram) (token : RewriteToken)
    (elementType : ScalarType) : RewriteProgram :=
  let program :=
    { program with vectorElementSpans := program.vectorElementSpans ++ [token.span] }
  match elementType with
  | .boolean =>
    { program with
      booleanElements := program.booleanElements ++ [if token.boolean then 1 else 0] }
  | .integer => { program with integerElements := program.integerElements ++ [token.integer] }
  | .doublePrecision =>
    { program with doubleElements := program.doubleElements ++ [token.doublePrecision] }

def vectorPayloadSize (program : RewriteProgram) (elementType : ScalarType) : Nat :=
  match elementType with
  | .boolean => program.booleanElements.length
  | .integer => program.integerElements.length
  | .doublePrecision => program.doubleElements.length

def vectorNode (program : RewriteProgram) (span : RewriteSpan) (elementType : ScalarType)
    (elementCount : Nat) : RewriteNode :=
  { blankNode .vectorLiteral span with
    elementType
    firstElement := vectorPayloadSize program elementType
    elementCount
    firstElementSpan := program.vectorElementSpans.length }

def literalParseError (token : RewriteToken) : RewriteParseError :=
  if token.literalError = .range then .literalRange else .malformedLiteral

def vectorElementError (token : RewriteToken) : RewriteParseError :=
  match token.kind with
  | .malformedLiteral => literalParseError token
  | .invalid => .invalidByte
  | _ => .invalidVectorElement

def missingVectorClose (tokens : RewriteTokens) (opening : RewriteToken) :
    RewriteDiagnostic :=
  diagnostic .missingDelimiter (insertionSpan tokens.finish)
    ⟨opening.span.begin,tokens.finish⟩ opening.span

def mismatchedVectorClose (opening token : RewriteToken) : RewriteDiagnostic :=
  diagnostic .mismatchedDelimiter token.span ⟨opening.span.begin,token.span.finish⟩
    opening.span

/-- An error at a token inside the literal, which the closing parenthesis bounds. -/
def insideVector (tokens : RewriteTokens) (openingTokens : List RewriteToken)
    (opening token : RewriteToken) (error : RewriteParseError) : RewriteDiagnostic :=
  diagnostic error token.span (delimitedContextSpan tokens openingTokens .rightParenthesis)
    opening.span

/-- The program with the literal's elements, its closing token and the tokens after it. -/
structure VectorElements where
  program : RewriteProgram
  elementCount : Nat
  closing : RewriteToken
  rest : List RewriteToken

/-- The loop over the elements; each round reads at least one token. -/
def parseVectorElements (tokens : RewriteTokens) (openingTokens : List RewriteToken)
    (opening : RewriteToken) (elementType : ScalarType) :
    Nat → RewriteProgram → Nat → List RewriteToken → Except RewriteDiagnostic VectorElements
  | 0,_,_,_ => .error (missingVectorClose tokens opening)
  | _ + 1,_,_,[] => .error (missingVectorClose tokens opening)
  | fuel + 1,program,count,element :: rest =>
    if isScalarToken element.kind = false then
      .error (insideVector tokens openingTokens opening element (vectorElementError element))
    else if scalarTokenType element.kind ≠ elementType then
      .error (insideVector tokens openingTokens opening element .heterogeneousVector)
    else
      let program := appendVectorElement program element elementType
      match rest with
      | [] => .error (missingVectorClose tokens opening)
      | next :: later =>
        if next.kind = .rightParenthesis then .ok ⟨program,count + 1,next,later⟩
        else if next.kind = .rightBracket then .error (mismatchedVectorClose opening next)
        else if isSeparator next = false then
          .error (insideVector tokens openingTokens opening next
            (if next.kind = .invalid then .invalidByte else .missingSeparator))
        else
          match skipSeparators later with
          | [] => .error (missingVectorClose tokens opening)
          | next :: later =>
            if next.kind = .rightParenthesis then .ok ⟨program,count + 1,next,later⟩
            else if next.kind = .rightBracket then .error (mismatchedVectorClose opening next)
            else
              parseVectorElements tokens openingTokens opening elementType fuel program
                (count + 1) (next :: later)

/-- The literal after its opening parenthesis: the program with its node, and the rest. -/
def parseVectorLiteral (tokens : RewriteTokens) (program : RewriteProgram)
    (opening : RewriteToken) (unread : List RewriteToken) :
    Except RewriteDiagnostic (RewriteProgram × List RewriteToken) :=
  match skipSeparators unread with
  | [] => .error (missingVectorClose tokens opening)
  | first :: rest =>
    if first.kind = .rightParenthesis then
      let complete := ⟨opening.span.begin,first.span.finish⟩
      .error (diagnostic .bareEmptyVector complete complete opening.span)
    else if first.kind = .rightBracket then .error (mismatchedVectorClose opening first)
    else if isScalarToken first.kind = false then
      .error (insideVector tokens (opening :: unread) opening first (vectorElementError first))
    else
      let elementType := scalarTokenType first.kind
      match parseVectorElements tokens (opening :: unread) opening elementType
          (first :: rest).length program 0 (first :: rest) with
      | .error diagnostic => .error diagnostic
      | .ok elements =>
        .ok (elements.program.addNode
          (vectorNode program ⟨opening.span.begin,elements.closing.span.finish⟩ elementType
            elements.elementCount),elements.rest)

/-! ### Completing contexts -/

/-- The arguments in order, through the links of the pending entries. -/
def pendingNodes (pending : List RewritePendingArgument) : Nat → Option Nat → List Nat
  | 0,_ => []
  | _ + 1,none => []
  | fuel + 1,some index =>
    match pending[index]? with
    | none => []
    | some entry => entry.node :: pendingNodes pending fuel entry.next

def contextNodes (pending : List RewritePendingArgument) (context : RewriteContext) :
    List Nat :=
  pendingNodes pending pending.length context.firstPendingArgument

def setNext (pending : List RewritePendingArgument) (index next : Nat) :
    List RewritePendingArgument :=
  pending.modify index fun entry => { entry with next := some next }

def appendPendingArgument (pending : List RewritePendingArgument) (context : RewriteContext)
    (node : Nat) : List RewritePendingArgument × RewriteContext :=
  let index := pending.length
  let appended := pending ++ [⟨node,none⟩]
  let completed :=
    { context with
      lastPendingArgument := some index, argumentCount := context.argumentCount + 1 }
  match context.firstPendingArgument,context.lastPendingArgument with
  | none,_ => (appended,{ completed with firstPendingArgument := some index })
  | some _,none => (appended,completed)
  | some _,some last => (setNext appended last index,completed)

def finishCall (program : RewriteProgram) (pending : List RewritePendingArgument)
    (context : RewriteContext) (closingSpan completeSpan : RewriteSpan) : RewriteProgram :=
  let nodes := contextNodes pending context
  { program with
    arguments := program.arguments ++ nodes
    argumentSpans := program.argumentSpans ++ nodes.map program.spanOf
    calls := program.calls ++
      [⟨if context.kind = .bracketCall then .bracketed else .prefixed,context.nameSpan,
        context.openingSpan,closingSpan,context.separatorSpan,completeSpan,
        program.arguments.length,context.argumentCount,none⟩]
    nodes := program.nodes ++
      [{ blankNode .primitiveCall completeSpan with callIndex := program.calls.length }] }

def finishTuple (program : RewriteProgram) (pending : List RewritePendingArgument)
    (context : RewriteContext) (closingSpan : RewriteSpan) : RewriteProgram :=
  let nodes := contextNodes pending context
  { program with
    tupleElements := program.tupleElements ++ nodes
    tupleElementSpans := program.tupleElementSpans ++ nodes.map program.spanOf
    nodes := program.nodes ++
      [{ blankNode .tupleLiteral ⟨context.openingSpan.begin,closingSpan.finish⟩ with
        firstElement := program.tupleElements.length
        elementCount := context.argumentCount
        firstElementSpan := program.tupleElementSpans.length }] }

def finishDelimited (program : RewriteProgram) (pending : List RewritePendingArgument)
    (context : RewriteContext) (closingSpan : RewriteSpan) : RewriteProgram :=
  if context.kind = .tupleLiteral then finishTuple program pending context closingSpan
  else
    finishCall program pending context closingSpan
      ⟨context.nameSpan.begin,closingSpan.finish⟩

structure PlaceholderInspection where
  count : Nat
  firstSpan : Option RewriteSpan
  hasOwnedPosition : Bool
  deriving DecidableEq, Repr

/-- `inspect_branch_placeholder`; a child's index is less than its parent's, which bounds
the recursion. -/
def inspectBranchPlaceholder (program : RewriteProgram) :
    Nat → Nat → Bool → PlaceholderInspection → PlaceholderInspection
  | 0,_,_,found => found
  | fuel + 1,index,ownedPosition,found =>
    match program.nodes[index]? with
    | none => found
    | some node =>
      match node.kind with
      | .placeholder =>
        { count := found.count + 1
          firstSpan := found.firstSpan <|> some node.span
          hasOwnedPosition := found.hasOwnedPosition || ownedPosition }
      | .primitiveCall =>
        match program.calls[node.callIndex]? with
        | none => found
        | some call =>
          ((program.arguments.drop call.firstArgument).take call.argumentCount).foldl
            (fun found child =>
              inspectBranchPlaceholder program fuel child ownedPosition found) found
      | .tupleLiteral =>
        ((program.tupleElements.drop node.firstElement).take node.elementCount).foldl
          (fun found child => inspectBranchPlaceholder program fuel child true found) found
      | _ => found

def finishFanout (program : RewriteProgram) (pending : List RewritePendingArgument)
    (context : RewriteContext) (closingSpan : RewriteSpan) : RewriteProgram :=
  let operand := ((context.firstPendingArgument.bind (pending[·]?)).map (·.node)).getD 0
  let branchCount := context.argumentCount - 1
  let firstBranch := program.fanoutBranches.length - branchCount
  let complete : RewriteSpan := ⟨context.nameSpan.begin,closingSpan.finish⟩
  { program with
    fanouts := program.fanouts ++
      [⟨context.nameSpan,context.openingSpan,closingSpan,complete,program.spanOf operand,
        operand,firstBranch,branchCount⟩]
    nodes := program.nodes ++
      [{ blankNode .fanout complete with
        firstElement := firstBranch
        elementCount := branchCount
        callIndex := program.fanouts.length }] }

/-! ### The parameter header -/

def parameterNameSpelling (spelling : Text) : Bool :=
  match spelling with
  | [] => false
  | first :: rest => isLowercase first && rest.all isNameByte

/-- The loop over the declarations; each round reads at least one token. The result is the
declarations, the closing bracket and the tokens after it. -/
def parseDeclarations (tokens : RewriteTokens) (keyword opening : RewriteToken) :
    Nat → List RewriteParameterDeclaration → List RewriteToken →
      Except RewriteDiagnostic
        (List RewriteParameterDeclaration × RewriteToken × List RewriteToken)
  | 0,_,_ | _ + 1,_,[] =>
    .error (parameterDiagnostic .missingHeaderClose .missingDelimiter
      (insertionSpan tokens.finish) ⟨keyword.span.begin,tokens.finish⟩ opening.span)
  | fuel + 1,declarations,name :: afterName =>
    let spelling := rewriteTokenSpelling tokens name
    if name.kind = .rightBracket then .ok (declarations,name,afterName)
    else if parameterNameSpelling spelling = false then
      .error (parameterDiagnostic
        (if (parameterType name.kind).isSome then .expectedParameterName
          else .unexpectedHeaderToken)
        .expectedExpression name.span ⟨keyword.span.begin,name.span.finish⟩ opening.span)
    else
      match afterName with
      | [] =>
        .error (parameterDiagnostic .expectedParameterType .expectedExpression
          (insertionSpan tokens.finish) name.span name.span)
      | separator :: afterSeparator =>
        if isSeparator separator = false then
          if separator.kind = .rightBracket then
            .error (parameterDiagnostic .expectedParameterType .expectedExpression
              (insertionSpan separator.span.begin) name.span name.span)
          else
            .error (parameterDiagnostic .unexpectedHeaderToken .expectedExpression
              separator.span name.span name.span)
        else
          match skipSeparators afterSeparator with
          | [] =>
            .error (parameterDiagnostic .expectedParameterType .expectedExpression
              (insertionSpan tokens.finish) name.span name.span)
          | type :: afterType =>
            match parameterType type.kind with
            | none =>
              if type.kind = .rightBracket then
                .error (parameterDiagnostic .expectedParameterType .expectedExpression
                  (insertionSpan type.span.begin) name.span name.span)
              else
                .error (parameterDiagnostic .unexpectedHeaderToken .expectedExpression
                  type.span name.span name.span)
            | some scalarType =>
              let declarations := declarations ++
                [⟨spelling,scalarType,⟨name.span.begin,type.span.finish⟩,name.span,type.span⟩]
              match afterType with
              | [] => parseDeclarations tokens keyword opening fuel declarations []
              | next :: later =>
                if next.kind = .rightBracket ∨ isSeparator next = true then
                  parseDeclarations tokens keyword opening fuel declarations
                    (skipSeparators (next :: later))
                else
                  .error (parameterDiagnostic .unexpectedHeaderToken .expectedExpression
                    next.span ⟨keyword.span.begin,next.span.finish⟩ type.span)

/-- The header, if the text starts with one, and the tokens after it. -/
def parseParameterHeader (tokens : RewriteTokens) (unread : List RewriteToken) :
    Except RewriteDiagnostic (RewriteParameterHeader × List RewriteToken) :=
  match skipSeparators unread with
  | [] => .ok (emptyHeader,unread)
  | keyword :: afterKeyword =>
    if keyword.kind ≠ .name ∨ rewriteTokenSpelling tokens keyword ≠ "parameters".toList then
      .ok (emptyHeader,unread)
    else
      match afterKeyword with
      | [] =>
        .error (parameterDiagnostic .expectedHeaderOpen .expectedExpression
          (insertionSpan tokens.finish) keyword.span keyword.span)
      | opening :: body =>
        if opening.kind ≠ .leftBracket then
          .error (parameterDiagnostic .expectedHeaderOpen .expectedExpression opening.span
            keyword.span keyword.span)
        else
          match parseDeclarations tokens keyword opening (body.length + 1) []
              (skipSeparators body) with
          | .error diagnostic => .error diagnostic
          | .ok (declarations,closing,afterClosing) =>
            let span := ⟨keyword.span.begin,closing.span.finish⟩
            let header := ⟨true,span,keyword.span,opening.span,closing.span,declarations⟩
            match skipHorizontalSpace afterClosing with
            | [] => .ok (header,[])
            | next :: later =>
              if next.kind ≠ .lineTerminator then
                .error (parameterDiagnostic .trailingHeaderBytes .trailingInput next.span
                  span span)
              else .ok (header,later)

/-! ### The main loop -/

structure RewriteParseState where
  program : RewriteProgram
  /-- The innermost context first. -/
  contexts : List RewriteContext
  pendingArguments : List RewritePendingArgument
  unread : List RewriteToken
  completedNode : Nat
  haveExpression : Bool
  deriving DecidableEq, Repr

inductive RewriteParseProgress where
  | again (state : RewriteParseState)
  | done (result : RewriteParseResult)

def RewriteParseProgress.fail (error : RewriteParseError)
    (primary context related : RewriteSpan) : RewriteParseProgress :=
  .done (.error (diagnostic error primary context related))

/-- The diagnostic a result starts with. -/
def noDiagnostic (tokens : RewriteTokens) : RewriteDiagnostic :=
  diagnostic .none (insertionSpan tokens.finish) (insertionSpan tokens.finish)
    (insertionSpan tokens.finish)

/-- The state after `program`'s last node has become a completed expression. -/
def RewriteParseState.complete (state : RewriteParseState) (program : RewriteProgram)
    (unread : List RewriteToken) : RewriteParseState :=
  { state with
    program, unread, completedNode := program.nodes.length - 1, haveExpression := true }

/-- Every prefix call on top of the stack takes the completed expression as its argument. -/
def foldPrefixCalls : List RewriteContext → RewriteParseState → RewriteParseState
  | [],state => { state with contexts := [] }
  | context :: outer,state =>
    if context.kind = .prefixCall then
      let appended := appendPendingArgument state.pendingArguments context state.completedNode
      let program := finishCall state.program appended.1 appended.2
        (insertionSpan context.separatorSpan.finish)
        ⟨context.nameSpan.begin,(state.program.spanOf state.completedNode).finish⟩
      foldPrefixCalls outer
        { state with
          program, pendingArguments := appended.1, completedNode := program.nodes.length - 1 }
    else { state with contexts := context :: outer }

def trailingError (token : RewriteToken) : RewriteParseError :=
  match token.kind with
  | .invalid => .invalidByte
  | .malformedLiteral => literalParseError token
  | .rightBracket | .rightParenthesis => .mismatchedDelimiter
  | _ => .trailingInput

/-- The rounds with a completed expression: it becomes an argument or a root. -/
def placeExpression (state : RewriteParseState) : RewriteParseProgress :=
  let state := foldPrefixCalls state.contexts state
  match state.contexts with
  | context :: outer =>
    let appended := appendPendingArgument state.pendingArguments context state.completedNode
    .again { state with
      contexts := { appended.2 with afterArgument := true } :: outer
      pendingArguments := appended.1
      haveExpression := false }
  | [] =>
    let program :=
      { state.program with roots := state.program.roots ++ [state.completedNode] }
    match skipHorizontalSpace state.unread with
    | [] => .done (.ok program)
    | token :: rest =>
      if token.kind = .lineTerminator then
        .again { state with program, unread := rest, haveExpression := false }
      else
        .fail (trailingError token) token.span (program.spanOf state.completedNode)
          (program.spanOf state.completedNode)

/-- Branches are closed on contexts whose outermost remaining one is their fanout. -/
def finishFanoutBranch (state : RewriteParseState) (branch : RewriteContext)
    (outer : List RewriteContext) (closing : RewriteToken) (rest : List RewriteToken) :
    RewriteParseProgress :=
  let complete : RewriteSpan := ⟨branch.openingSpan.begin,closing.span.finish⟩
  match if branch.argumentCount = 0 then none
      else branch.firstPendingArgument.bind (state.pendingArguments[·]?) with
  | none =>
    .fail .expectedBranchBody (insertionSpan closing.span.begin) complete branch.openingSpan
  | some entry =>
    let root := entry.node
    let inspected := inspectBranchPlaceholder state.program (root + 1) root false ⟨0,none,false⟩
    let rootSpan := state.program.spanOf root
    if (state.program.nodes[root]?.map (·.kind)) ≠ some .primitiveCall then
      .fail .branchRootNotPrimitiveCall rootSpan complete branch.openingSpan
    else if inspected.count ≠ 1 then
      .fail .placeholderCount (inspected.firstSpan.getD rootSpan) complete branch.openingSpan
    else if inspected.hasOwnedPosition then
      .fail .placeholderOwnedPosition (inspected.firstSpan.getD rootSpan) complete
        branch.openingSpan
    else
      match outer with
      | [] => .fail .none rootSpan complete branch.openingSpan
      | fanout :: outer =>
        let program :=
          { state.program with
            fanoutBranches := state.program.fanoutBranches ++
              [⟨complete,branch.openingSpan,closing.span,rootSpan,
                inspected.firstSpan.getD rootSpan,root⟩] }
        let appended := appendPendingArgument state.pendingArguments fanout root
        .again { state with
          program
          contexts := { appended.2 with afterArgument := true } :: outer
          pendingArguments := appended.1
          unread := rest }

def findParameter (program : RewriteProgram) (name : Text) : Option Nat :=
  program.parameterHeader.declarations.findIdx? fun declaration => declaration.name == name

def scalarNode (token : RewriteToken) : RewriteNode :=
  { blankNode .scalarLiteral token.span with
    elementType := scalarTokenType token.kind
    boolean := token.boolean
    integer := token.integer
    doublePrecision := token.doublePrecision }

def parameterReferenceNode (declaration : RewriteParameterDeclaration) (index : Nat)
    (span : RewriteSpan) : RewriteNode :=
  { blankNode .parameterReference span with
    elementType := declaration.type
    firstElement := index
    declarationNameSpan := declaration.nameSpan }

/-- A `parameters` at the start of a root. -/
def misplacedHeader (program : RewriteProgram) (token : RewriteToken) : RewriteDiagnostic :=
  if program.parameterHeader.present then
    parameterDiagnostic .secondParameterHeader .trailingInput token.span token.span
      program.parameterHeader.span
  else
    parameterDiagnostic .parameterHeaderAfterRoot .trailingInput token.span token.span
      (program.spanOf (program.roots.headD 0))

def isFanoutContext (context : RewriteContext) : Bool :=
  context.kind == .fanout || context.kind == .fanoutBranch

def isBracketContext (context : RewriteContext) : Bool :=
  context.kind == .bracketCall || context.kind == .tupleLiteral

def readFanoutKeyword (tokens : RewriteTokens) (state : RewriteParseState)
    (token : RewriteToken) (rest : List RewriteToken) : RewriteParseProgress :=
  if state.contexts.any isFanoutContext then
    .fail .nestedFanout token.span token.span token.span
  else
    match rest with
    | [] => .fail .expectedFanoutOpen (insertionSpan tokens.finish) token.span token.span
    | opening :: later =>
      if opening.kind ≠ .leftBracket then
        .fail .expectedFanoutOpen opening.span token.span token.span
      else
        .again { state with
          contexts :=
            openContext .fanout token.span opening.span (insertionSpan opening.span.finish)
              rest :: state.contexts
          unread := later }

def readName (tokens : RewriteTokens) (state : RewriteParseState) (token : RewriteToken)
    (rest : List RewriteToken) : RewriteParseProgress :=
  let spelling := rewriteTokenSpelling tokens token
  if spelling = "fanout".toList then readFanoutKeyword tokens state token rest
  else
    let insideBracket := (state.contexts.head?.map isBracketContext).getD false
    let adjacentBracket := nextIs .leftBracket rest
    let rootPrefix := state.contexts.isEmpty && nextIs .horizontalSpace rest
    let reference :=
      if adjacentBracket = false ∧ (insideBracket = true ∨ rootPrefix = false) then
        (findParameter state.program spelling).bind fun index =>
          state.program.parameterHeader.declarations[index]?.map (index,·)
      else none
    match reference with
    | some (index,declaration) =>
      .again (state.complete
        (state.program.addNode (parameterReferenceNode declaration index token.span)) rest)
    | none =>
      match rest with
      | [] =>
        .again (state.complete
          (state.program.addNode (blankNode .unresolvedName token.span)) rest)
      | next :: later =>
        if next.kind = .leftBracket then
          .again { state with
            contexts :=
              openContext .bracketCall token.span next.span (insertionSpan next.span.finish)
                rest :: state.contexts
            unread := skipSeparators later }
        else if next.kind = .horizontalSpace then
          if later.isEmpty ∨ nextIs .lineTerminator later = true then
            .fail .expectedExpression (nextSpan tokens later)
              ⟨token.span.begin,(nextSpan tokens later).finish⟩ next.span
          else
            .again { state with
              contexts :=
                openContext .prefixCall token.span (insertionSpan next.span.begin) next.span
                  [] :: state.contexts
              unread := later }
        else
          .again (state.complete
            (state.program.addNode (blankNode .unresolvedName token.span)) rest)

/-- The operand of the innermost fanout, once it has been read. -/
def fanoutOperand (state : RewriteParseState) : Option Nat :=
  match state.contexts.find? (fun context => context.kind == .fanout) with
  | none => none
  | some context =>
    (context.firstPendingArgument.bind (state.pendingArguments[·]?)).map (·.node)

def readEmptyVector (state : RewriteParseState) (token : RewriteToken) (type : ScalarType)
    (rest : List RewriteToken) : RewriteParseProgress :=
  match rest with
  | opening :: closing :: later =>
    if opening.kind = .leftParenthesis ∧ closing.kind = .rightParenthesis then
      .again (state.complete
        (state.program.addNode
          (vectorNode state.program ⟨token.span.begin,closing.span.finish⟩ type 0)) later)
    else .fail .invalidVectorElement token.span token.span token.span
  | _ => .fail .invalidVectorElement token.span token.span token.span

/-- The part of a round that looks at the token an expression starts with. -/
def readToken (tokens : RewriteTokens) (state : RewriteParseState) : RewriteParseProgress :=
  match state.unread with
  | [] => .done (.error (noDiagnostic tokens))
  | token :: rest =>
    if state.contexts.isEmpty ∧ token.kind = .name ∧
        rewriteTokenSpelling tokens token = "parameters".toList then
      .done (.error (misplacedHeader state.program token))
    else
      match token.kind with
      | .boolLiteral | .intLiteral | .doubleLiteral =>
        .again (state.complete (state.program.addNode (scalarNode token)) rest)
      | .leftBracket =>
        .again { state with
          contexts :=
            openContext .tupleLiteral token.span token.span (insertionSpan token.span.finish)
              state.unread :: state.contexts
          unread := skipSeparators rest }
      | .leftParenthesis =>
        match parseVectorLiteral tokens state.program token rest with
        | .error diagnostic => .done (.error diagnostic)
        | .ok (program,unread) => .again (state.complete program unread)
      | .boolType => readEmptyVector state token .boolean rest
      | .intType => readEmptyVector state token .integer rest
      | .doubleType => readEmptyVector state token .doublePrecision rest
      | .name => readName tokens state token rest
      | .placeholder =>
        match fanoutOperand state with
        | none => .fail .unexpectedFanoutToken token.span token.span token.span
        | some operand =>
          .again (state.complete
            (state.program.addNode
              { blankNode .placeholder token.span with firstElement := operand }) rest)
      | .malformedLiteral => .fail (literalParseError token) token.span token.span token.span
      | .invalid => .fail .invalidByte token.span token.span token.span
      | .rightBracket | .rightParenthesis =>
        .fail .mismatchedDelimiter token.span token.span token.span
      | .leftBrace | .rightBrace | .horizontalSpace | .lineTerminator =>
        .fail .invalidByte token.span token.span token.span

def readBranch (tokens : RewriteTokens) (state : RewriteParseState) (branch : RewriteContext)
    (outer : List RewriteContext) : RewriteParseProgress :=
  match skipSeparators state.unread with
  | [] =>
    .fail (if branch.afterArgument then .expectedBranchClose else .expectedBranchBody)
      (insertionSpan tokens.finish) ⟨branch.openingSpan.begin,tokens.finish⟩ branch.openingSpan
  | token :: rest =>
    let context := ⟨branch.openingSpan.begin,token.span.finish⟩
    if branch.afterArgument then
      if token.kind = .rightBrace then finishFanoutBranch state branch outer token rest
      else .fail .expectedBranchClose token.span context branch.openingSpan
    else if token.kind = .rightBrace then
      .fail .expectedBranchBody (insertionSpan token.span.begin) context branch.openingSpan
    else readToken tokens { state with unread := token :: rest }

def readFanout (tokens : RewriteTokens) (state : RewriteParseState) (fanout : RewriteContext)
    (outer : List RewriteContext) : RewriteParseProgress :=
  match skipSeparators state.unread with
  | [] =>
    .fail (if fanout.afterArgument then .missingFanoutClose else .expectedFanoutOperand)
      (insertionSpan tokens.finish) ⟨fanout.nameSpan.begin,tokens.finish⟩ fanout.openingSpan
  | token :: rest =>
    let context := ⟨fanout.nameSpan.begin,token.span.finish⟩
    if fanout.afterArgument then
      if token.kind = .rightBracket then
        if fanout.argumentCount = 1 then
          .fail .expectedFanoutBranch (insertionSpan token.span.begin) context
            fanout.openingSpan
        else
          .again (({ state with contexts := outer } : RewriteParseState).complete
            (finishFanout state.program state.pendingArguments fanout token.span) rest)
      else if token.kind ≠ .leftBrace then
        .fail .expectedBranchOpen token.span context fanout.openingSpan
      else if (state.unread.head?.map isSeparator).getD false = false then
        .fail .missingSeparator token.span context fanout.openingSpan
      else
        .again { state with
          contexts :=
            openContext .fanoutBranch token.span token.span (insertionSpan token.span.finish)
              [] :: state.contexts
          unread := rest }
    else if token.kind = .rightBracket then
      .fail .expectedFanoutOperand (insertionSpan token.span.begin) context fanout.openingSpan
    else readToken tokens { state with unread := token :: rest }

def closeDelimited (state : RewriteParseState) (context : RewriteContext)
    (outer : List RewriteContext) (closing : RewriteToken) (rest : List RewriteToken) :
    RewriteParseProgress :=
  .again (({ state with contexts := outer } : RewriteParseState).complete
    (finishDelimited state.program state.pendingArguments context closing.span) rest)

/-- A bracket or tuple context where an element or the closing bracket comes next. -/
def readElement (tokens : RewriteTokens) (state : RewriteParseState)
    (context : RewriteContext) (outer : List RewriteContext) : RewriteParseProgress :=
  match state.unread with
  | [] =>
    .fail .missingDelimiter (insertionSpan tokens.finish) (rewriteContextSpan tokens context)
      context.openingSpan
  | token :: rest =>
    if token.kind = .rightBracket then closeDelimited state context outer token rest
    else if token.kind = .rightParenthesis then
      .fail .mismatchedDelimiter token.span (rewriteContextSpan tokens context)
        context.openingSpan
    else readToken tokens state

def readDelimited (tokens : RewriteTokens) (state : RewriteParseState)
    (context : RewriteContext) (outer : List RewriteContext) : RewriteParseProgress :=
  if context.afterArgument = false then readElement tokens state context outer
  else
    match state.unread with
    | [] =>
      .fail .missingDelimiter (insertionSpan tokens.finish)
        (rewriteContextSpan tokens context) context.openingSpan
    | token :: rest =>
      if token.kind = .rightBracket then closeDelimited state context outer token rest
      else if isSeparator token then
        let unread := skipSeparators rest
        if nextIs .rightBracket unread then .again { state with unread }
        else
          let context := { context with afterArgument := false }
          readElement tokens { state with unread, contexts := context :: outer } context outer
      else if token.kind = .rightParenthesis then
        .fail .mismatchedDelimiter token.span (rewriteContextSpan tokens context)
          context.openingSpan
      else
        .fail (if token.kind = .invalid then .invalidByte else .missingSeparator) token.span
          (rewriteContextSpan tokens context) context.openingSpan

/-- One round of the main loop. -/
def parseStep (tokens : RewriteTokens) (state : RewriteParseState) : RewriteParseProgress :=
  if state.haveExpression then placeExpression state
  else
    match state.contexts with
    | [] =>
      match skipSeparators state.unread with
      | [] => .done (.ok state.program)
      | token :: rest => readToken tokens { state with unread := token :: rest }
    | context :: outer =>
      match context.kind with
      | .fanoutBranch => readBranch tokens state context outer
      | .fanout => readFanout tokens state context outer
      | .bracketCall | .tupleLiteral => readDelimited tokens state context outer
      | .prefixCall => readToken tokens state

def parseLoop (tokens : RewriteTokens) : Nat → RewriteParseState → Option RewriteParseResult
  | 0,_ => none
  | fuel + 1,state =>
    match parseStep tokens state with
    | .again state => parseLoop tokens fuel state
    | .done result => some result

/-- Rounds enough for the main loop: each reads a token or places an expression. -/
def parseFuel (unread : List RewriteToken) : Nat := 2 * unread.length + 2

/-- `parse_rewrite`. `none` would be a main loop that does not end. -/
def parseRewrite (parser : RewriteDoubleParser) (source : Text) :
    Option RewriteParseResult :=
  let tokens := tokenizeRewrite parser source
  match parseParameterHeader tokens tokens.tokens with
  | .error diagnostic => some (.error diagnostic)
  | .ok (parameterHeader,unread) =>
    parseLoop tokens (parseFuel unread)
      ⟨{ emptyProgram source with parameterHeader },[],[],unread,0,false⟩

end Bennu
