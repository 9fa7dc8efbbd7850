import Bennu.ParserLanguage
import Bennu.TokenTiling

/-! The parser with its accesses spelled out. `tokens.tokens[token_index]` is the first of the
unread tokens and undefined when there is none; so are the back of the contexts, the front
of the roots, a pending argument and what an optional holds where there is nothing. A loop
that runs out of rounds is undefined as well. -/
namespace Bennu.Checked

/-- `tokens.tokens[token_index + k]`. -/
def tokenAt (unread : List RewriteToken) (k : Nat) : Option RewriteToken := unread[k]?

/-- `token_index += n`, which may reach the end of the table and not pass it. -/
def advance (unread : List RewriteToken) (n : Nat) : Option (List RewriteToken) :=
  if n ≤ unread.length then some (unread.drop n) else none

/-- `token_index == tokens.tokens.size()`. -/
def atEnd (unread : List RewriteToken) : Bool := unread.length == 0

/-- `while (token_index < tokens.tokens.size() && ...) ++token_index`. -/
def skipRounds (skips : RewriteToken → Bool) : Nat → List RewriteToken → Option (List RewriteToken)
  | 0,_ => none
  | rounds + 1,unread =>
    if atEnd unread then some unread
    else do
      let token ← tokenAt unread 0
      if skips token then skipRounds skips rounds (← advance unread 1)
      else some unread

def skipSeparators (unread : List RewriteToken) : Option (List RewriteToken) :=
  skipRounds isSeparator (unread.length + 1) unread

def skipHorizontalSpace (unread : List RewriteToken) : Option (List RewriteToken) :=
  skipRounds (fun token => token.kind == .horizontalSpace) (unread.length + 1) unread

def delimitedContextSpan (tokens : RewriteTokens) (openingTokens : List RewriteToken)
    (closing : RewriteTokenKind) : Option RewriteSpan := do
  let opening ← tokenAt openingTokens 0
  some (closingSpanFrom opening.kind closing opening.span.begin tokens.finish 0 openingTokens)

def rewriteContextSpan (tokens : RewriteTokens) (context : RewriteContext) : Option RewriteSpan :=
  if context.kind = .tupleLiteral then
    delimitedContextSpan tokens context.openingTokens .rightBracket
  else
    some (closingSpanFrom .leftBracket .rightBracket context.nameSpan.begin tokens.finish 0 context.openingTokens)

/-! ### Vector literals -/

def insideVector (tokens : RewriteTokens) (openingTokens : List RewriteToken)
    (opening token : RewriteToken) (error : RewriteParseError) : Option RewriteDiagnostic := do
  let context ← delimitedContextSpan tokens openingTokens .rightParenthesis
  some (diagnostic error token.span context opening.span)

def parseVectorElements (tokens : RewriteTokens) (openingTokens : List RewriteToken)
    (opening : RewriteToken) (elementType : ScalarType) :
    Nat → RewriteProgram → Nat → List RewriteToken → Option (Except RewriteDiagnostic VectorElements)
  | 0,_,_,_ => none
  | rounds + 1,program,count,unread => do
    let element ← tokenAt unread 0
    if isScalarToken element.kind = false then
      some (.error (← insideVector tokens openingTokens opening element (vectorElementError element)))
    else if scalarTokenType element.kind ≠ elementType then
      some (.error (← insideVector tokens openingTokens opening element .heterogeneousVector))
    else
      let program := appendVectorElement program element elementType
      let unread ← advance unread 1
      if atEnd unread then some (.error (missingVectorClose tokens opening))
      else
        let next ← tokenAt unread 0
        if next.kind = .rightParenthesis then some (.ok ⟨program,count + 1,next,← advance unread 1⟩)
        else if next.kind = .rightBracket then some (.error (mismatchedVectorClose opening next))
        else if isSeparator next = false then
          some (.error (← insideVector tokens openingTokens opening next
            (if next.kind = .invalid then .invalidByte else .missingSeparator)))
        else
          let unread ← skipSeparators unread
          if atEnd unread then some (.error (missingVectorClose tokens opening))
          else
            let next ← tokenAt unread 0
            if next.kind = .rightParenthesis then some (.ok ⟨program,count + 1,next,← advance unread 1⟩)
            else if next.kind = .rightBracket then some (.error (mismatchedVectorClose opening next))
            else parseVectorElements tokens openingTokens opening elementType rounds program (count + 1) unread

/-- `opening_index` and `token_index` are both at the opening parenthesis. -/
def parseVectorLiteral (tokens : RewriteTokens) (program : RewriteProgram) (unread : List RewriteToken) :
    Option (Except RewriteDiagnostic (RewriteProgram × List RewriteToken)) := do
  let openingTokens := unread
  let opening ← tokenAt unread 0
  let unread ← skipSeparators (← advance unread 1)
  if atEnd unread then some (.error (missingVectorClose tokens opening))
  else
    let first ← tokenAt unread 0
    if first.kind = .rightParenthesis then
      let complete := ⟨opening.span.begin,first.span.finish⟩
      some (.error (diagnostic .bareEmptyVector complete complete opening.span))
    else if first.kind = .rightBracket then some (.error (mismatchedVectorClose opening first))
    else if isScalarToken first.kind = false then
      some (.error (← insideVector tokens openingTokens opening first (vectorElementError first)))
    else
      let elementType := scalarTokenType first.kind
      match ← parseVectorElements tokens openingTokens opening elementType unread.length program 0 unread with
      | .error diagnostic => some (.error diagnostic)
      | .ok elements =>
        some (.ok (elements.program.addNode
          (vectorNode program ⟨opening.span.begin,elements.closing.span.finish⟩ elementType
            elements.elementCount),elements.rest))

/-! ### Completing contexts -/

/-- The links of the pending entries, followed to the last. -/
def pendingNodes (pending : List RewritePendingArgument) : Nat → Option Nat → Option (List Nat)
  | _,none => some []
  | 0,some _ => none
  | rounds + 1,some index => do
    let entry ← pending[index]?
    some (entry.node :: (← pendingNodes pending rounds entry.next))

def contextNodes (pending : List RewritePendingArgument) (context : RewriteContext) : Option (List Nat) :=
  pendingNodes pending pending.length context.firstPendingArgument

def appendPendingArgument (pending : List RewritePendingArgument) (context : RewriteContext) (node : Nat) :
    Option (List RewritePendingArgument × RewriteContext) :=
  let index := pending.length
  let appended := pending ++ [⟨node,none⟩]
  let completed :=
    { context with lastPendingArgument := some index, argumentCount := context.argumentCount + 1 }
  match context.firstPendingArgument with
  | none => some (appended,{ completed with firstPendingArgument := some index })
  | some _ => do
    let last ← context.lastPendingArgument
    let _ ← appended[last]?
    some (setNext appended last index,completed)

/-- `finish_call` appends what the links of the context lead to. -/
def finishCall (program : RewriteProgram) (pending : List RewritePendingArgument) (context : RewriteContext)
    (closingSpan completeSpan : RewriteSpan) : Option RewriteProgram := do
  let nodes ← contextNodes pending context
  some { program with
    arguments := program.arguments ++ nodes
    argumentSpans := program.argumentSpans ++ nodes.map program.spanOf
    calls := program.calls ++
      [⟨if context.kind = .bracketCall then .bracketed else .prefixed,context.nameSpan,context.openingSpan,
        closingSpan,context.separatorSpan,completeSpan,program.arguments.length,context.argumentCount,none⟩]
    nodes := program.nodes ++ [{ blankNode .primitiveCall completeSpan with callIndex := program.calls.length }] }

def finishTuple (program : RewriteProgram) (pending : List RewritePendingArgument) (context : RewriteContext)
    (closingSpan : RewriteSpan) : Option RewriteProgram := do
  let nodes ← contextNodes pending context
  some { program with
    tupleElements := program.tupleElements ++ nodes
    tupleElementSpans := program.tupleElementSpans ++ nodes.map program.spanOf
    nodes := program.nodes ++
      [{ blankNode .tupleLiteral ⟨context.openingSpan.begin,closingSpan.finish⟩ with
        firstElement := program.tupleElements.length
        elementCount := context.argumentCount
        firstElementSpan := program.tupleElementSpans.length }] }

def finishDelimited (program : RewriteProgram) (pending : List RewritePendingArgument) (context : RewriteContext)
    (closingSpan : RewriteSpan) : Option RewriteProgram :=
  if context.kind = .tupleLiteral then finishTuple program pending context closingSpan
  else finishCall program pending context closingSpan ⟨context.nameSpan.begin,closingSpan.finish⟩

/-- `values[first]` to `values[first + count - 1]`. -/
def accesses (values : List Nat) (first count : Nat) : Option (List Nat) :=
  let slice := (values.drop first).take count
  if slice.length < count then none else some slice

/-- `inspect_branch_placeholder`, one round for each call on the way down. -/
def inspectBranchPlaceholder (program : RewriteProgram) :
    Nat → Nat → Bool → PlaceholderInspection → Option PlaceholderInspection
  | 0,_,_,_ => none
  | rounds + 1,index,ownedPosition,found => do
    let node ← program.nodes[index]?
    match node.kind with
    | .placeholder =>
      some ⟨found.count + 1,found.firstSpan <|> some node.span,found.hasOwnedPosition || ownedPosition⟩
    | .primitiveCall =>
      let call ← program.calls[node.callIndex]?
      (← accesses program.arguments call.firstArgument call.argumentCount).foldlM
        (fun found child => inspectBranchPlaceholder program rounds child ownedPosition found) found
    | .tupleLiteral =>
      (← accesses program.tupleElements node.firstElement node.elementCount).foldlM
        (fun found child => inspectBranchPlaceholder program rounds child true found) found
    | _ => some found

def finishFanout (program : RewriteProgram) (pending : List RewritePendingArgument) (context : RewriteContext)
    (closingSpan : RewriteSpan) : Option RewriteProgram := do
  let entry ← pending[← context.firstPendingArgument]?
  let branchCount := context.argumentCount - 1
  let firstBranch := program.fanoutBranches.length - branchCount
  let complete : RewriteSpan := ⟨context.nameSpan.begin,closingSpan.finish⟩
  some { program with
    fanouts := program.fanouts ++
      [⟨context.nameSpan,context.openingSpan,closingSpan,complete,program.spanOf entry.node,entry.node,firstBranch,
        branchCount⟩]
    nodes := program.nodes ++
      [{ blankNode .fanout complete with
        firstElement := firstBranch
        elementCount := branchCount
        callIndex := program.fanouts.length }] }

/-! ### The parameter header -/

/-- The loop over the declarations. -/
def parseDeclarations (tokens : RewriteTokens) (keyword opening : RewriteToken) :
    Nat → List RewriteParameterDeclaration → List RewriteToken →
      Option (Except RewriteDiagnostic (List RewriteParameterDeclaration × RewriteToken × List RewriteToken))
  | 0,_,_ => none
  | rounds + 1,declarations,unread =>
    if atEnd unread then
      some (.error (parameterDiagnostic .missingHeaderClose .missingDelimiter (insertionSpan tokens.finish)
        ⟨keyword.span.begin,tokens.finish⟩ opening.span))
    else do
      let name ← tokenAt unread 0
      let spelling := rewriteTokenSpelling tokens name
      if name.kind = .rightBracket then some (.ok (declarations,name,← advance unread 1))
      else if parameterNameSpelling spelling = false then
        some (.error (parameterDiagnostic
          (if (parameterType name.kind).isSome then .expectedParameterName else .unexpectedHeaderToken)
          .expectedExpression name.span ⟨keyword.span.begin,name.span.finish⟩ opening.span))
      else
        let unread ← advance unread 1
        if atEnd unread then
          some (.error (parameterDiagnostic .expectedParameterType .expectedExpression
            (insertionSpan tokens.finish) name.span name.span))
        else
          let separator ← tokenAt unread 0
          if isSeparator separator = false then
            if separator.kind = .rightBracket then
              some (.error (parameterDiagnostic .expectedParameterType .expectedExpression
                (insertionSpan separator.span.begin) name.span name.span))
            else
              some (.error (parameterDiagnostic .unexpectedHeaderToken .expectedExpression separator.span name.span
                name.span))
          else
            let unread ← skipSeparators unread
            if atEnd unread then
              some (.error (parameterDiagnostic .expectedParameterType .expectedExpression
                (insertionSpan tokens.finish) name.span name.span))
            else
              let type ← tokenAt unread 0
              match parameterType type.kind with
              | none =>
                if type.kind = .rightBracket then
                  some (.error (parameterDiagnostic .expectedParameterType .expectedExpression
                    (insertionSpan type.span.begin) name.span name.span))
                else
                  some (.error (parameterDiagnostic .unexpectedHeaderToken .expectedExpression type.span name.span
                    name.span))
              | some scalarType =>
                let declarations := declarations ++
                  [⟨spelling,scalarType,⟨name.span.begin,type.span.finish⟩,name.span,type.span⟩]
                let unread ← advance unread 1
                if atEnd unread then parseDeclarations tokens keyword opening rounds declarations unread
                else
                  let next ← tokenAt unread 0
                  if next.kind ≠ .rightBracket ∧ isSeparator next = false then
                    some (.error (parameterDiagnostic .unexpectedHeaderToken .expectedExpression next.span
                      ⟨keyword.span.begin,next.span.finish⟩ type.span))
                  else
                    parseDeclarations tokens keyword opening rounds declarations (← skipSeparators unread)

def parseParameterHeader (tokens : RewriteTokens) (unread : List RewriteToken) :
    Option (Except RewriteDiagnostic (RewriteParameterHeader × List RewriteToken)) := do
  let first ← skipSeparators unread
  if atEnd first then some (.ok (emptyHeader,unread))
  else
    let keyword ← tokenAt first 0
    if keyword.kind ≠ .name ∨ rewriteTokenSpelling tokens keyword ≠ "parameters".toList then
      some (.ok (emptyHeader,unread))
    else if first.length ≤ 1 then
      some (.error (parameterDiagnostic .expectedHeaderOpen .expectedExpression (insertionSpan tokens.finish)
        keyword.span keyword.span))
    else
      let opening ← tokenAt first 1
      if opening.kind ≠ .leftBracket then
        some (.error (parameterDiagnostic .expectedHeaderOpen .expectedExpression opening.span keyword.span
          keyword.span))
      else
        let body ← advance first 2
        match ← parseDeclarations tokens keyword opening (body.length + 1) [] (← skipSeparators body) with
        | .error diagnostic => some (.error diagnostic)
        | .ok (declarations,closing,afterClosing) =>
          let span := ⟨keyword.span.begin,closing.span.finish⟩
          let header := ⟨true,span,keyword.span,opening.span,closing.span,declarations⟩
          let unread ← skipHorizontalSpace afterClosing
          if atEnd unread then some (.ok (header,unread))
          else
            let next ← tokenAt unread 0
            if next.kind ≠ .lineTerminator then
              some (.error (parameterDiagnostic .trailingHeaderBytes .trailingInput next.span span span))
            else some (.ok (header,← advance unread 1))

/-! ### The main loop -/

/-- `contexts.pop_back()`. -/
def popBack (contexts : List RewriteContext) : Option (List RewriteContext) :=
  match contexts with
  | [] => none
  | _ :: outer => some outer

/-- `token_index + k < tokens.tokens.size() && tokens.tokens[token_index + k].kind == kind`. -/
def kindAt (unread : List RewriteToken) (k : Nat) (kind : RewriteTokenKind) : Option Bool :=
  if k < unread.length then do
    let token ← tokenAt unread k
    some (token.kind == kind)
  else some false

def foldPrefixCalls : Nat → RewriteParseState → Option RewriteParseState
  | 0,_ => none
  | rounds + 1,state =>
    if state.contexts.isEmpty then some state
    else do
      let context ← state.contexts.head?
      if context.kind = .prefixCall then
        let contexts ← popBack state.contexts
        let appended ← appendPendingArgument state.pendingArguments context state.completedNode
        let program ← finishCall state.program appended.1 appended.2 (insertionSpan context.separatorSpan.finish)
          ⟨context.nameSpan.begin,(state.program.spanOf state.completedNode).finish⟩
        foldPrefixCalls rounds
          { state with
            program, contexts, pendingArguments := appended.1, completedNode := program.nodes.length - 1 }
      else some state

def placeExpression (state : RewriteParseState) : Option RewriteParseProgress := do
  let state ← foldPrefixCalls (state.contexts.length + 1) state
  if state.contexts.isEmpty = false then
    let context ← state.contexts.head?
    let appended ← appendPendingArgument state.pendingArguments context state.completedNode
    some (.again { state with
      contexts := { appended.2 with afterArgument := true } :: (← popBack state.contexts)
      pendingArguments := appended.1
      haveExpression := false })
  else
    let program := { state.program with roots := state.program.roots ++ [state.completedNode] }
    let unread ← skipHorizontalSpace state.unread
    if atEnd unread then some (.done (.ok program))
    else
      let token ← tokenAt unread 0
      if token.kind = .lineTerminator then
        some (.again { state with program, unread := (← advance unread 1), haveExpression := false })
      else
        some (.fail (trailingError token) token.span (program.spanOf state.completedNode)
          (program.spanOf state.completedNode))

/-- `finish_fanout_branch`; `unread` begins behind the closing brace. -/
def finishFanoutBranch (state : RewriteParseState) (closing : RewriteToken) (unread : List RewriteToken) :
    Option RewriteParseProgress := do
  let branch ← state.contexts.head?
  let contexts ← popBack state.contexts
  let complete : RewriteSpan := ⟨branch.openingSpan.begin,closing.span.finish⟩
  if branch.argumentCount = 0 then
    some (.fail .expectedBranchBody (insertionSpan closing.span.begin) complete branch.openingSpan)
  else
    let entry ← state.pendingArguments[← branch.firstPendingArgument]?
    let root := entry.node
    let inspected ← inspectBranchPlaceholder state.program (root + 1) root false ⟨0,none,false⟩
    let node ← state.program.nodes[root]?
    if node.kind ≠ .primitiveCall then
      some (.fail .branchRootNotPrimitiveCall node.span complete branch.openingSpan)
    else if inspected.count ≠ 1 then
      some (.fail .placeholderCount (inspected.firstSpan.getD node.span) complete branch.openingSpan)
    else
      let placeholder ← inspected.firstSpan
      if inspected.hasOwnedPosition then
        some (.fail .placeholderOwnedPosition placeholder complete branch.openingSpan)
      else
        let program :=
          { state.program with
            fanoutBranches := state.program.fanoutBranches ++
              [⟨complete,branch.openingSpan,closing.span,node.span,placeholder,root⟩] }
        let fanout ← contexts.head?
        let appended ← appendPendingArgument state.pendingArguments fanout root
        some (.again { state with
          program
          contexts := { appended.2 with afterArgument := true } :: (← popBack contexts)
          pendingArguments := appended.1
          unread })

/-- A `parameters` at the start of a root. -/
def misplacedHeader (program : RewriteProgram) (token : RewriteToken) : Option RewriteDiagnostic :=
  if program.parameterHeader.present then
    some (parameterDiagnostic .secondParameterHeader .trailingInput token.span token.span
      program.parameterHeader.span)
  else do
    let root ← program.roots.head?
    some (parameterDiagnostic .parameterHeaderAfterRoot .trailingInput token.span token.span (program.spanOf root))

def readFanoutKeyword (tokens : RewriteTokens) (state : RewriteParseState) (token : RewriteToken) :
    Option RewriteParseProgress :=
  if state.contexts.any isFanoutContext then some (.fail .nestedFanout token.span token.span token.span)
  else if state.unread.length ≤ 1 then
    some (.fail .expectedFanoutOpen (insertionSpan tokens.finish) token.span token.span)
  else do
    let opening ← tokenAt state.unread 1
    if opening.kind ≠ .leftBracket then some (.fail .expectedFanoutOpen opening.span token.span token.span)
    else
      some (.again { state with
        contexts :=
          openContext .fanout token.span opening.span (insertionSpan opening.span.finish)
            (← advance state.unread 1) :: state.contexts
        unread := (← advance state.unread 2) })

/-- The innermost context, if there is one, is a bracket. -/
def insideBracket (contexts : List RewriteContext) : Option Bool :=
  if contexts.isEmpty then some false
  else do
    let context ← contexts.head?
    some (isBracketContext context)

/-- No argument follows on the line. -/
def lineEnds (later : List RewriteToken) : Option Bool :=
  if atEnd later then some true else kindAt later 0 .lineTerminator

def nextSpan (tokens : RewriteTokens) (later : List RewriteToken) : Option RewriteSpan :=
  if atEnd later then some (insertionSpan tokens.finish)
  else do
    let next ← tokenAt later 0
    some next.span

/-- A name that refers to no parameter begins a call or stays unresolved. -/
def readCallee (tokens : RewriteTokens) (state : RewriteParseState) (token : RewriteToken)
    (adjacentBracket adjacentSpace : Bool) : Option RewriteParseProgress := do
  if adjacentBracket then
    let opening ← tokenAt state.unread 1
    some (.again { state with
      contexts :=
        openContext .bracketCall token.span opening.span (insertionSpan opening.span.finish)
          (← advance state.unread 1) :: state.contexts
      unread := (← skipSeparators (← advance state.unread 2)) })
  else if adjacentSpace then
    let separator ← tokenAt state.unread 1
    let later ← advance state.unread 2
    if ← lineEnds later then
      let primary ← nextSpan tokens later
      some (.fail .expectedExpression primary ⟨token.span.begin,primary.finish⟩ separator.span)
    else
      some (.again { state with
        contexts :=
          openContext .prefixCall token.span (insertionSpan separator.span.begin) separator.span [] ::
            state.contexts
        unread := later })
  else
    some (.again (state.complete
      (state.program.addNode (blankNode .unresolvedName token.span)) (← advance state.unread 1)))

def readName (tokens : RewriteTokens) (state : RewriteParseState) (token : RewriteToken) :
    Option RewriteParseProgress := do
  let spelling := rewriteTokenSpelling tokens token
  if spelling = "fanout".toList then readFanoutKeyword tokens state token
  else
    let insideBracket ← insideBracket state.contexts
    let adjacentBracket ← kindAt state.unread 1 .leftBracket
    let adjacentSpace ← kindAt state.unread 1 .horizontalSpace
    let rootPrefix := state.contexts.isEmpty && adjacentSpace
    let reference :=
      if adjacentBracket = false ∧ (insideBracket = true ∨ rootPrefix = false) then
        (findParameter state.program spelling).bind fun index =>
          state.program.parameterHeader.declarations[index]?.map (index,·)
      else none
    match reference with
    | some (index,declaration) =>
      some (.again (state.complete
        (state.program.addNode (parameterReferenceNode declaration index token.span)) (← advance state.unread 1)))
    | none => readCallee tokens state token adjacentBracket adjacentSpace

def fanoutOperand (state : RewriteParseState) : Option (Option Nat) :=
  match state.contexts.find? (fun context => context.kind == .fanout) with
  | none => some none
  | some context => match context.firstPendingArgument with
    | none => some none
    | some index => do
      let entry ← state.pendingArguments[index]?
      some (some entry.node)

def readEmptyVector (state : RewriteParseState) (token : RewriteToken) (type : ScalarType) :
    Option RewriteParseProgress := do
  let invalid := .fail .invalidVectorElement token.span token.span token.span
  if 2 < state.unread.length then
    if ← kindAt state.unread 1 .leftParenthesis then
      let closing ← tokenAt state.unread 2
      if closing.kind = .rightParenthesis then
        some (.again (state.complete
          (state.program.addNode (vectorNode state.program ⟨token.span.begin,closing.span.finish⟩ type 0))
          (← advance state.unread 3)))
      else some invalid
    else some invalid
  else some invalid

def readToken (tokens : RewriteTokens) (state : RewriteParseState) : Option RewriteParseProgress := do
  let token ← tokenAt state.unread 0
  if state.contexts.isEmpty ∧ token.kind = .name ∧ rewriteTokenSpelling tokens token = "parameters".toList then
    some (.done (.error (← misplacedHeader state.program token)))
  else
    match token.kind with
    | .boolLiteral | .intLiteral | .doubleLiteral =>
      some (.again (state.complete (state.program.addNode (scalarNode token)) (← advance state.unread 1)))
    | .leftBracket =>
      some (.again { state with
        contexts :=
          openContext .tupleLiteral token.span token.span (insertionSpan token.span.finish) state.unread ::
            state.contexts
        unread := (← skipSeparators (← advance state.unread 1)) })
    | .leftParenthesis =>
      match ← parseVectorLiteral tokens state.program state.unread with
      | .error diagnostic => some (.done (.error diagnostic))
      | .ok (program,unread) => some (.again (state.complete program unread))
    | .boolType => readEmptyVector state token .boolean
    | .intType => readEmptyVector state token .integer
    | .doubleType => readEmptyVector state token .doublePrecision
    | .name => readName tokens state token
    | .placeholder =>
      match ← fanoutOperand state with
      | none => some (.fail .unexpectedFanoutToken token.span token.span token.span)
      | some operand =>
        some (.again (state.complete
          (state.program.addNode { blankNode .placeholder token.span with firstElement := operand })
          (← advance state.unread 1)))
    | .malformedLiteral => some (.fail (literalParseError token) token.span token.span token.span)
    | .invalid => some (.fail .invalidByte token.span token.span token.span)
    | .rightBracket | .rightParenthesis => some (.fail .mismatchedDelimiter token.span token.span token.span)
    | .leftBrace | .rightBrace | .horizontalSpace | .lineTerminator =>
      some (.fail .invalidByte token.span token.span token.span)

def readBranch (tokens : RewriteTokens) (state : RewriteParseState) (branch : RewriteContext) :
    Option RewriteParseProgress := do
  let unread ← skipSeparators state.unread
  if atEnd unread then
    some (.fail (if branch.afterArgument then .expectedBranchClose else .expectedBranchBody)
      (insertionSpan tokens.finish) ⟨branch.openingSpan.begin,tokens.finish⟩ branch.openingSpan)
  else
    let token ← tokenAt unread 0
    let context := ⟨branch.openingSpan.begin,token.span.finish⟩
    if branch.afterArgument then
      if token.kind ≠ .rightBrace then some (.fail .expectedBranchClose token.span context branch.openingSpan)
      else finishFanoutBranch state token (← advance unread 1)
    else if token.kind = .rightBrace then
      some (.fail .expectedBranchBody (insertionSpan token.span.begin) context branch.openingSpan)
    else readToken tokens { state with unread }

/-- The next token, if there is one, is a separator. -/
def separatorNext (unread : List RewriteToken) : Option Bool :=
  if atEnd unread then some false
  else do
    let token ← tokenAt unread 0
    some (isSeparator token)

def readFanout (tokens : RewriteTokens) (state : RewriteParseState) (fanout : RewriteContext) :
    Option RewriteParseProgress := do
  let hadSeparator ← separatorNext state.unread
  let unread ← skipSeparators state.unread
  if atEnd unread then
    some (.fail (if fanout.afterArgument then .missingFanoutClose else .expectedFanoutOperand)
      (insertionSpan tokens.finish) ⟨fanout.nameSpan.begin,tokens.finish⟩ fanout.openingSpan)
  else
    let token ← tokenAt unread 0
    let context := ⟨fanout.nameSpan.begin,token.span.finish⟩
    if fanout.afterArgument then
      if token.kind = .rightBracket then
        if fanout.argumentCount = 1 then
          some (.fail .expectedFanoutBranch (insertionSpan token.span.begin) context fanout.openingSpan)
        else
          let contexts ← popBack state.contexts
          let program ← finishFanout state.program state.pendingArguments fanout token.span
          some (.again (({ state with contexts } : RewriteParseState).complete program (← advance unread 1)))
      else if token.kind ≠ .leftBrace then
        some (.fail .expectedBranchOpen token.span context fanout.openingSpan)
      else if hadSeparator = false then
        some (.fail .missingSeparator token.span context fanout.openingSpan)
      else
        some (.again { state with
          contexts :=
            openContext .fanoutBranch token.span token.span (insertionSpan token.span.finish) [] :: state.contexts
          unread := (← advance unread 1) })
    else if token.kind = .rightBracket then
      some (.fail .expectedFanoutOperand (insertionSpan token.span.begin) context fanout.openingSpan)
    else readToken tokens { state with unread }

/-- The closing bracket is the next token. -/
def closeDelimited (state : RewriteParseState) (context : RewriteContext) (closing : RewriteToken) :
    Option RewriteParseProgress := do
  let unread ← advance state.unread 1
  let contexts ← popBack state.contexts
  let program ← finishDelimited state.program state.pendingArguments context closing.span
  some (.again (({ state with contexts } : RewriteParseState).complete program unread))

def readElement (tokens : RewriteTokens) (state : RewriteParseState) (context : RewriteContext) :
    Option RewriteParseProgress :=
  if atEnd state.unread then do
    some (.fail .missingDelimiter (insertionSpan tokens.finish) (← rewriteContextSpan tokens context)
      context.openingSpan)
  else do
    let token ← tokenAt state.unread 0
    if token.kind = .rightBracket then closeDelimited state context token
    else if token.kind = .rightParenthesis then
      some (.fail .mismatchedDelimiter token.span (← rewriteContextSpan tokens context) context.openingSpan)
    else readToken tokens state

def readDelimited (tokens : RewriteTokens) (state : RewriteParseState) (context : RewriteContext) :
    Option RewriteParseProgress :=
  if context.afterArgument = false then readElement tokens state context
  else if atEnd state.unread then do
    some (.fail .missingDelimiter (insertionSpan tokens.finish) (← rewriteContextSpan tokens context)
      context.openingSpan)
  else do
    let token ← tokenAt state.unread 0
    if token.kind = .rightBracket then closeDelimited state context token
    else if isSeparator token then
      let unread ← skipSeparators state.unread
      if ← kindAt unread 0 .rightBracket then some (.again { state with unread })
      else
        let context := { context with afterArgument := false }
        readElement tokens { state with unread, contexts := context :: (← popBack state.contexts) } context
    else if token.kind = .rightParenthesis then
      some (.fail .mismatchedDelimiter token.span (← rewriteContextSpan tokens context) context.openingSpan)
    else
      some (.fail (if token.kind = .invalid then .invalidByte else .missingSeparator) token.span
        (← rewriteContextSpan tokens context) context.openingSpan)

/-- One round of the main loop. -/
def parseStep (tokens : RewriteTokens) (state : RewriteParseState) : Option RewriteParseProgress :=
  if state.haveExpression then placeExpression state
  else if state.contexts.isEmpty then do
    let unread ← skipSeparators state.unread
    if atEnd unread then some (.done (.ok state.program))
    else readToken tokens { state with unread }
  else do
    let context ← state.contexts.head?
    match context.kind with
    | .fanoutBranch => readBranch tokens state context
    | .fanout => readFanout tokens state context
    | .bracketCall | .tupleLiteral => readDelimited tokens state context
    | .prefixCall => readToken tokens state

def parseLoop (tokens : RewriteTokens) : Nat → RewriteParseState → Option RewriteParseResult
  | 0,_ => none
  | rounds + 1,state => do
    match ← parseStep tokens state with
    | .again state => parseLoop tokens rounds state
    | .done result => some result

def parseRewrite (parser : RewriteDoubleParser) (source : Text) : Option RewriteParseResult := do
  let tokens := tokenizeRewrite parser source
  match ← parseParameterHeader tokens tokens.tokens with
  | .error diagnostic => some (.error diagnostic)
  | .ok (parameterHeader,unread) =>
    parseLoop tokens (parseFuel unread)
      ⟨{ emptyProgram source with parameterHeader },[],[],unread,0,false⟩

end Bennu.Checked
