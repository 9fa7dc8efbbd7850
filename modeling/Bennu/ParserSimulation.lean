import Bennu.ParserGrammar
import Bennu.PendingArguments
import Bennu.TableLayout

/-! The parser follows the machine round by round: its contexts, pending links and tables
hold what laying out the machine's trees would have put there. -/
namespace Bennu

variable {tokens : RewriteTokens} {token : RewriteToken} {unread rest : List RewriteToken}
  {program : RewriteProgram} {shape : ProgramShape} {layout : Layout}

/-! ### Tokens as lexemes -/

@[simp] theorem tokenLexeme_isSeparator {spelling : Text} :
    (tokenLexeme spelling token).isSeparator = isSeparator token := by
  cases kind : token.kind <;> simp [tokenLexeme,isSeparator,Lexeme.isSeparator,kind]

@[simp] theorem lexemes_nil : lexemes tokens [] = [] := rfl

@[simp] theorem lexemes_cons : lexemes tokens (token :: rest) =
    tokenLexeme (rewriteTokenSpelling tokens token) token :: lexemes tokens rest := rfl

@[simp] theorem lexemes_eq_nil : lexemes tokens unread = [] ↔ unread = [] :=
  List.map_eq_nil_iff

theorem skipBlank_lexemes :
    skipBlank (lexemes tokens unread) = lexemes tokens (skipSeparators unread) := by
  induction unread with
  | nil => rfl
  | cons token rest ih =>
    simp only [skipBlank,skipSeparators,lexemes_cons,List.dropWhile_cons,
      tokenLexeme_isSeparator] at ih ⊢
    split
    · exact ih
    · rfl

theorem skipSpaces_lexemes :
    skipSpaces (lexemes tokens unread) = lexemes tokens (skipHorizontalSpace unread) := by
  induction unread with
  | nil => rfl
  | cons token rest ih =>
    simp only [skipSpaces,skipHorizontalSpace,lexemes_cons,List.dropWhile_cons,beq_iff_eq,
      tokenLexeme_horizontalSpace] at ih ⊢
    split
    · exact ih
    · rfl

theorem nextIs_leftBracket :
    nextIs .leftBracket unread = true ↔ (lexemes tokens unread).head? = some .leftBracket := by
  cases unread <;> simp [nextIs]

theorem nextIs_rightBracket :
    nextIs .rightBracket unread = true ↔
      (lexemes tokens unread).head? = some .rightBracket := by
  cases unread <;> simp [nextIs]

theorem nextIs_horizontalSpace :
    nextIs .horizontalSpace unread = true ↔
      (lexemes tokens unread).head? = some .horizontalSpace := by
  cases unread <;> simp [nextIs]

theorem nextIs_lineTerminator :
    nextIs .lineTerminator unread = true ↔
      (lexemes tokens unread).head? = some .lineTerminator := by
  cases unread <;> simp [nextIs]

/-! ### What the parser adds to its tables -/

/-- The two tables of tuple elements are of one length. -/
def SpansPaired (program : RewriteProgram) : Prop :=
  program.tupleElementSpans.length = program.tupleElements.length

/-- `after` is `program` with its tables grown to `shape`. -/
structure Becomes (program : RewriteProgram) (shape : ProgramShape) (after : RewriteProgram) :
    Prop where
  source : after.source = program.source
  header : after.parameterHeader = program.parameterHeader
  shape : after.shape = shape
  paired : SpansPaired program → SpansPaired after

theorem Becomes.refl (program : RewriteProgram) : Becomes program program.shape program :=
  ⟨rfl,rfl,rfl,id⟩

theorem Becomes.trans (first : Becomes program middle between)
    (second : Becomes between shape after) : Becomes program shape after :=
  ⟨second.source.trans first.source,second.header.trans first.header,second.shape,
    second.paired ∘ first.paired⟩

theorem addNode_becomes (node : RewriteNode) :
    Becomes program (program.shape.add node.shape) (program.addNode node) :=
  ⟨rfl,rfl,by simp [RewriteProgram.addNode,RewriteProgram.shape,ProgramShape.add],id⟩

theorem appendVectorElement_becomes {literal : Literal}
    (same : LiteralOf parser literal token) (type : ScalarType) :
    Becomes program (ProgramShape.addElement parser type program.shape literal)
      (appendVectorElement program token type) := by
  cases type <;> constructor <;>
    simp [appendVectorElement,RewriteProgram.shape,ProgramShape.addElement,same.boolean,
      same.integer,same.double,SpansPaired]

theorem finishCall_becomes (pending : List RewritePendingArgument) (context : RewriteContext)
    (closing complete : RewriteSpan)
    (count : context.argumentCount = (contextNodes pending context).length) :
    Becomes program
      (program.shape.addCall (if context.kind = .bracketCall then .bracketed else .prefixed)
        (spanSpelling program.source context.nameSpan) (contextNodes pending context))
      (finishCall program pending context closing complete) := by
  refine ⟨rfl,rfl,?_,id⟩
  simp [finishCall,RewriteProgram.shape,ProgramShape.addCall,RewriteCall.shape,count,
    RewriteNode.shape,blankNode,ProgramShape.callNode,ProgramShape.blank]

theorem finishTuple_becomes (pending : List RewritePendingArgument) (context : RewriteContext)
    (closing : RewriteSpan) (paired : SpansPaired program)
    (count : context.argumentCount = (contextNodes pending context).length) :
    Becomes program (program.shape.addTuple (contextNodes pending context))
      (finishTuple program pending context closing) := by
  refine ⟨rfl,rfl,?_,fun _ => by simpa [finishTuple,SpansPaired] using paired⟩
  rw [SpansPaired] at paired
  simp [finishTuple,RewriteProgram.shape,ProgramShape.addTuple,count,RewriteNode.shape,
    blankNode,ProgramShape.tupleNode,ProgramShape.blank,paired]

theorem finishFanout_becomes (pending : List RewritePendingArgument) (context : RewriteContext)
    (closing : RewriteSpan)
    (operand : (context.firstPendingArgument.bind (pending[·]?)).map (·.node) = some node) :
    Becomes program (program.shape.addFanout node (context.argumentCount - 1))
      (finishFanout program pending context closing) := by
  refine ⟨rfl,rfl,?_,id⟩
  simp [finishFanout,RewriteProgram.shape,ProgramShape.addFanout,RewriteNode.shape,
    RewriteFanout.shape,operand,blankNode,ProgramShape.fanoutNode,ProgramShape.blank]

/-! ### Vectors -/

/-- A reader that may fail and its counterpart on lexemes do the same. -/
def Agrees {ε α β : Type} (good : α → β → Prop) : Except ε α → Option β → Prop
  | .ok left,some right => good left right
  | .error _,none => True
  | _,_ => False

/-- Every token still to be read is one the tokenizer made. -/
def AllSpelled (parser : RewriteDoubleParser) (tokens : RewriteTokens)
    (unread : List RewriteToken) : Prop :=
  ∀ token ∈ unread, Spelled parser tokens.source token

theorem AllSpelled.tail (spelled : AllSpelled parser tokens (token :: rest)) :
    AllSpelled parser tokens rest :=
  fun other member => spelled other (List.mem_cons_of_mem _ member)

theorem AllSpelled.skip (spelled : AllSpelled parser tokens unread) :
    AllSpelled parser tokens (skipSeparators unread) :=
  fun other member => spelled other ((List.dropWhile_sublist _).subset member)

theorem AllSpelled.literal (spelled : AllSpelled parser tokens (token :: rest))
    (scalar : isScalarToken token.kind = true) :
    LiteralOf parser (tokenLiteral (rewriteTokenSpelling tokens token) token) token :=
  (spelled token List.mem_cons_self).literal scalar

theorem parseVectorElements_agrees (openingTokens : List RewriteToken) (opening : RewriteToken)
    (type : ScalarType) (fuel : Nat) :
    ∀ program count unread, AllSpelled parser tokens unread →
      Agrees (fun (elements : VectorElements) (read : List Literal × List Lexeme) =>
          Becomes program (read.1.foldl (ProgramShape.addElement parser type) program.shape)
            elements.program ∧
          elements.elementCount = count + read.1.length ∧
          lexemes tokens elements.rest = read.2 ∧ AllSpelled parser tokens elements.rest)
        (parseVectorElements tokens openingTokens opening type fuel program count unread)
        (readElements type fuel (lexemes tokens unread)) := by
  induction fuel with
  | zero => intro program count unread _; cases unread <;> trivial
  | succ fuel ih =>
    intro program count unread spelled
    cases unread with
    | nil => trivial
    | cons element rest =>
      simp only [parseVectorElements,lexemes_cons,readElements]
      by_cases scalar : isScalarToken element.kind = true
      · rw [if_neg (by simp [scalar]),tokenLexeme_scalar scalar]
        have literal := spelled.literal scalar
        simp only [literal.type]
        split
        · trivial
        cases rest with
        | nil => trivial
        | cons next later =>
          have appended := @appendVectorElement_becomes _ program _ _ literal type
          have afterNext := spelled.tail.tail
          simp only [lexemes_cons,tokenLexeme_rightParenthesis,tokenLexeme_isSeparator]
          split
          · exact ⟨appended,rfl,rfl,afterNext⟩
          by_cases bracket : next.kind = .rightBracket
          · have notSeparator : isSeparator next = false := by simp [isSeparator,bracket]
            rw [if_pos bracket,if_pos notSeparator]
            trivial
          rw [if_neg bracket]
          split
          · trivial
          rw [skipBlank_lexemes]
          have skippedSpelled := afterNext.skip
          cases skipped : skipSeparators later with
          | nil => trivial
          | cons next later =>
            rw [skipped] at skippedSpelled
            simp only [lexemes_cons,tokenLexeme_rightParenthesis]
            split
            · exact ⟨appended,rfl,rfl,skippedSpelled.tail⟩
            have again := ih (appendVectorElement program element type) (count + 1)
              (next :: later) skippedSpelled
            simp only [lexemes_cons] at again
            by_cases bracket : next.kind = .rightBracket
            · -- The machine finds the bracket when it looks for the next element.
              rw [if_pos bracket,tokenLexeme_rightBracket.mpr bracket]
              cases fuel <;> trivial
            rw [if_neg bracket]
            revert again
            generalize parseVectorElements tokens openingTokens opening type fuel
              (appendVectorElement program element type) (count + 1) (next :: later) = parsed
            generalize readElements type fuel _ = read
            intro again
            cases parsed with
            | error => cases read with
              | none => trivial
              | some => exact again
            | ok elements => cases read with
              | none => exact again
              | some read =>
                obtain ⟨becomes,total,left,leftSpelled⟩ := again
                refine ⟨?_,?_,left,leftSpelled⟩
                · rw [appended.shape] at becomes
                  exact appended.trans becomes
                · rw [total,List.length_cons]
                  omega
      · rw [if_pos (by simpa using scalar)]
        cases kind : element.kind <;> simp_all [tokenLexeme,isScalarToken] <;> trivial

theorem vectorNode_shape (span : RewriteSpan) (type : ScalarType) (count : Nat) :
    (vectorNode program span type count).shape =
      ProgramShape.vectorNode type (program.shape.payloadSize type) count
        program.shape.elementTotal := by
  cases type <;>
    simp [vectorNode,RewriteNode.shape,blankNode,ProgramShape.vectorNode,ProgramShape.blank,
      vectorPayloadSize,ProgramShape.payloadSize,RewriteProgram.shape]

theorem parseVectorLiteral_agrees (opening : RewriteToken)
    (spelled : AllSpelled layout.parser tokens unread) (scope : Option Nat) :
    Agrees (fun (parsed : RewriteProgram × List RewriteToken) (read : Expr × List Lexeme) =>
        Becomes program (layout.emit scope read.1 program.shape) parsed.1 ∧
        lexemes tokens parsed.2 = read.2 ∧ AllSpelled layout.parser tokens parsed.2)
      (parseVectorLiteral tokens program opening unread) (readVector (lexemes tokens unread)) := by
  have skippedSpelled := spelled.skip
  simp only [parseVectorLiteral,readVector,skipBlank_lexemes]
  cases skipped : skipSeparators unread with
  | nil => trivial
  | cons first rest =>
    rw [skipped] at skippedSpelled
    by_cases scalar : isScalarToken first.kind = true
    · have notClosing : first.kind ≠ .rightParenthesis ∧ first.kind ≠ .rightBracket := by
        constructor <;> intro kind <;> simp [kind,isScalarToken] at scalar
      have literal := skippedSpelled.literal scalar
      simp only [if_neg notClosing.1,if_neg notClosing.2,scalar,Bool.true_eq_false,if_false,
        lexemes_cons,tokenLexeme_scalar scalar]
      have elements := parseVectorElements_agrees (opening :: unread) opening
        (scalarTokenType first.kind) (first :: rest).length program 0 (first :: rest)
        skippedSpelled
      rw [lexemes_cons,tokenLexeme_scalar scalar] at elements
      have enough : (first :: rest).length = (lexemes tokens rest).length + 1 := by
        simp [lexemes]
      rw [← enough,literal.type]
      revert elements
      generalize parseVectorElements tokens (opening :: unread) opening
        (scalarTokenType first.kind) (first :: rest).length program 0 (first :: rest) = parsed
      generalize readElements (scalarTokenType first.kind) (first :: rest).length _ = read
      intro elements
      cases parsed with
      | error => cases read with
        | none => trivial
        | some => exact elements
      | ok parsed => cases read with
        | none => exact elements
        | some read =>
          obtain ⟨becomes,total,left,leftSpelled⟩ := elements
          refine ⟨becomes.trans ?_,left,leftSpelled⟩
          have added := @addNode_becomes parsed.program
            (vectorNode program ⟨opening.span.begin,parsed.closing.span.finish⟩
              (scalarTokenType first.kind) parsed.elementCount)
          rw [becomes.shape,vectorNode_shape,total,Nat.zero_add] at added
          rw [total,Nat.zero_add]
          exact added
    · cases kind : first.kind <;> simp [kind,isScalarToken] at scalar <;>
        simp [tokenLexeme,kind,isScalarToken,Agrees]

/-! ### Contexts as frames -/

/-- What the trees a frame has collected put in the tables: the tables after them, the
indices of their roots, and the operand a placeholder read next stands for. -/
structure Collected where
  shape : ProgramShape
  nodes : List Nat
  scope : Option Nat

def Layout.collect (layout : Layout) (scope : Option Nat) (shape : ProgramShape) :
    Frame → Collected
  | .bracketCall _ trees _ | .tuple trees _ =>
    ⟨(layout.emitAll scope trees shape).1,(layout.emitAll scope trees shape).2,scope⟩
  | .prefixCall _ | .branch none => ⟨shape,[],scope⟩
  | .fanout none _ => ⟨shape,[],none⟩
  | .fanout (some operand) branches =>
    let emitted := layout.emit none operand shape
    let later := layout.emitBranches emitted.last branches emitted
    ⟨later.1,emitted.last :: later.2,some emitted.last⟩
  | .branch (some body) =>
    let emitted := layout.emit scope body shape
    ⟨emitted,[emitted.last],scope⟩

/-- The tables after the trees of all frames, the outermost first, and the operand in scope. -/
def Layout.collectAll (layout : Layout) (base : ProgramShape) :
    List Frame → ProgramShape × Option Nat
  | [] => (base,none)
  | frame :: outer =>
    let below := layout.collectAll base outer
    let collected := layout.collect below.2 below.1 frame
    (collected.shape,collected.scope)

def ContextOf (source : Text) (context : RewriteContext) : Frame → Prop
  | .bracketCall name _ after =>
    context.kind = .bracketCall ∧ context.afterArgument = after ∧
      spanSpelling source context.nameSpan = name
  | .tuple _ after => context.kind = .tupleLiteral ∧ context.afterArgument = after
  | .prefixCall name =>
    context.kind = .prefixCall ∧ spanSpelling source context.nameSpan = name
  | .fanout operand branches =>
    context.kind = .fanout ∧ context.afterArgument = operand.isSome ∧
      (operand = none → branches = [])
  | .branch body => context.kind = .fanoutBranch ∧ context.afterArgument = body.isSome

/-- The contexts hold what the frames have collected, each in pending entries of its own. -/
def Stacked (layout : Layout) (source : Text) (pending : List RewritePendingArgument)
    (base : ProgramShape) : List RewriteContext → List Frame → Nat → Prop
  | [],[],_ => True
  | context :: contexts,frame :: frames,high =>
    ContextOf source context frame ∧
    ∃ low ≤ high,
      Linked pending low high context
        (layout.collect (layout.collectAll base frames).2
          (layout.collectAll base frames).1 frame).nodes ∧
      Stacked layout source pending base contexts frames low
  | _,_,_ => False

section Stacks
variable {source : Text} {pending : List RewritePendingArgument} {base : ProgramShape}
  {contexts : List RewriteContext} {frames : List Frame} {high : Nat}

theorem Stacked.congr (same : ∀ id < high, pending'[id]? = pending[id]?)
    (stacked : Stacked layout source pending base contexts frames high) :
    Stacked layout source pending' base contexts frames high := by
  induction contexts generalizing frames high with
  | nil => cases frames with
    | nil => trivial
    | cons => exact stacked.elim
  | cons context contexts ih => cases frames with
    | nil => exact stacked.elim
    | cons frame frames =>
      obtain ⟨contextOf,low,order,linked,below⟩ := stacked
      exact ⟨contextOf,low,order,linked.congr same,
        ih (fun id less => same id (Nat.lt_of_lt_of_le less order)) below⟩

theorem Stacked.raise (stacked : Stacked layout source pending base contexts frames high)
    (higher : high ≤ high') : Stacked layout source pending base contexts frames high' := by
  cases contexts with
  | nil => cases frames with
    | nil => trivial
    | cons => exact stacked.elim
  | cons context contexts => cases frames with
    | nil => exact stacked.elim
    | cons frame frames =>
      obtain ⟨contextOf,low,order,linked,below⟩ := stacked
      obtain ⟨ids,chain,increasing,bounds,rest⟩ := linked
      exact ⟨contextOf,low,Nat.le_trans order higher,
        ⟨ids,chain,increasing,fun id member =>
          ⟨(bounds id member).1,Nat.lt_of_lt_of_le (bounds id member).2 higher⟩,rest⟩,below⟩

theorem Stacked.isEmpty (stacked : Stacked layout source pending base contexts frames high) :
    contexts.isEmpty = frames.isEmpty := by
  cases contexts <;> cases frames <;> first | rfl | exact stacked.elim

theorem ContextOf.isFanout (contextOf : ContextOf source context frame) :
    isFanoutContext context = frame.isFanout := by
  cases frame <;> simp_all [ContextOf,isFanoutContext,Frame.isFanout]

theorem ContextOf.isBracket (contextOf : ContextOf source context frame) :
    isBracketContext context = frame.isBracket := by
  cases frame <;> simp_all [ContextOf,isBracketContext,Frame.isBracket]

theorem Stacked.anyFanout (stacked : Stacked layout source pending base contexts frames high) :
    contexts.any isFanoutContext = frames.any Frame.isFanout := by
  induction contexts generalizing frames high with
  | nil => cases frames with
    | nil => rfl
    | cons => exact stacked.elim
  | cons context contexts ih => cases frames with
    | nil => exact stacked.elim
    | cons frame frames =>
      obtain ⟨contextOf,low,_,_,below⟩ := stacked
      rw [List.any_cons,List.any_cons,contextOf.isFanout,ih below]

theorem Stacked.insideBracket
    (stacked : Stacked layout source pending base contexts frames high) :
    (contexts.head?.map isBracketContext).getD false =
      (frames.head?.map Frame.isBracket).getD false := by
  cases contexts with
  | nil => cases frames with
    | nil => rfl
    | cons => exact stacked.elim
  | cons context contexts => cases frames with
    | nil => exact stacked.elim
    | cons frame frames => simp [stacked.1.isBracket]

/-- The operand the parser finds for a placeholder is the one in scope. -/
theorem Stacked.operand (stacked : Stacked layout source pending base contexts frames high)
    (program : RewriteProgram) (unread : List RewriteToken) (completed : Nat) (have_ : Bool) :
    fanoutOperand ⟨program,contexts,pending,unread,completed,have_⟩ =
      (layout.collectAll base frames).2 := by
  induction contexts generalizing frames high with
  | nil => cases frames with
    | nil => rfl
    | cons => exact stacked.elim
  | cons context contexts ih => cases frames with
    | nil => exact stacked.elim
    | cons frame frames =>
      obtain ⟨contextOf,low,_,linked,below⟩ := stacked
      have outer := ih below
      simp only [fanoutOperand] at outer ⊢
      cases frame with
      | fanout operand branches =>
        have kind : context.kind = .fanout := contextOf.1
        have first := linked.first
        cases operand with
        | none => simpa [kind,Layout.collectAll,Layout.collect] using first
        | some operand => simpa [kind,Layout.collectAll,Layout.collect] using first
      | branch body =>
        have kind : context.kind = .fanoutBranch := contextOf.1
        cases body <;> simpa [kind,Layout.collectAll,Layout.collect] using outer
      | bracketCall =>
        have kind : context.kind = .bracketCall := contextOf.1
        simpa [kind,Layout.collectAll,Layout.collect] using outer
      | tuple =>
        have kind : context.kind = .tupleLiteral := contextOf.1
        simpa [kind,Layout.collectAll,Layout.collect] using outer
      | prefixCall =>
        have kind : context.kind = .prefixCall := contextOf.1
        simpa [kind,Layout.collectAll,Layout.collect] using outer

theorem operandRead_scope (layout : Layout) (base : ProgramShape) (frames : List Frame) :
    operandRead frames = (layout.collectAll base frames).2.isSome := by
  induction frames with
  | nil => rfl
  | cons frame outer ih =>
    cases frame with
    | fanout operand _ => cases operand <;> rfl
    | branch body => cases body <;> exact ih
    | _ => exact ih

end Stacks

/-! ### The placeholders of a branch -/

mutual

theorem Expr.owned_placeholders :
    (tree : Expr) → tree.ownedPlaceholder = true → tree.placeholders ≠ 0
  | .bracketCall _ arguments,owned => Expr.ownedIn_placeholders arguments owned
  | .prefixCall _ argument,owned => Expr.owned_placeholders argument owned
  | .tuple _,owned => by simpa [Expr.ownedPlaceholder,Expr.placeholders] using owned

theorem Expr.ownedIn_placeholders :
    (trees : List Expr) → Expr.ownedPlaceholderIn trees = true → Expr.placeholdersIn trees ≠ 0
  | tree :: rest,owned => by
    simp only [Expr.ownedPlaceholderIn,Bool.or_eq_true] at owned
    rw [Expr.placeholdersIn]
    rcases owned with owned | owned
    · have := Expr.owned_placeholders tree owned
      omega
    · have := Expr.ownedIn_placeholders rest owned
      omega

end

/-- What inspecting a tree adds to what has been found before it. -/
def Inspects (owned : Bool) (placeholders : Nat) (ownedPlaceholder : Bool)
    (before after : PlaceholderInspection) : Prop :=
  after.count = before.count + placeholders ∧
    after.hasOwnedPosition =
      (before.hasOwnedPosition || ((owned && placeholders != 0) || ownedPlaceholder))

theorem Inspects.none (owned : Bool) (found : PlaceholderInspection) :
    Inspects owned 0 false found found := by
  simp [Inspects]

theorem call_of_shape {index : Nat} {call : CallShape}
    (found : program.shape.calls[index]? = some call) :
    ∃ written : RewriteCall, program.calls[index]? = some written ∧
      written.firstArgument = call.firstArgument ∧
      written.argumentCount = call.argumentCount := by
  simp only [RewriteProgram.shape,List.getElem?_map,Option.map_eq_some_iff] at found
  obtain ⟨written,at_,rfl⟩ := found
  exact ⟨written,at_,rfl,rfl⟩

theorem node_of_shape {index : Nat} {node : NodeShape}
    (found : program.shape.nodes[index]? = some node) :
    ∃ written : RewriteNode, program.nodes[index]? = some written ∧ written.shape = node := by
  simpa only [RewriteProgram.shape,List.getElem?_map,Option.map_eq_some_iff] using found

/-- Nodes that are neither placeholders nor have arguments or elements. -/
theorem inspect_leaf {index : Nat} {node : NodeShape} (fuel : Nat) (owned : Bool)
    (found : PlaceholderInspection) (at_ : program.shape.nodes[index]? = some node)
    (leaf : node.kind ≠ .placeholder ∧ node.kind ≠ .primitiveCall ∧
      node.kind ≠ .tupleLiteral) :
    Inspects owned 0 false found
      (inspectBranchPlaceholder program (fuel + 1) index owned found) := by
  obtain ⟨written,writtenAt,rfl⟩ := node_of_shape at_
  obtain ⟨notPlaceholder,notCall,notTuple⟩ := leaf
  rw [inspectBranchPlaceholder,writtenAt]
  dsimp only
  split
  · contradiction
  · contradiction
  · contradiction
  · exact .none owned found

mutual

theorem inspect_laid (program : RewriteProgram) : (tree : Expr) →
    ∀ {operand index} fuel owned found, Laid layout program.shape operand tree index →
      index < fuel →
      Inspects owned tree.placeholders tree.ownedPlaceholder found
        (inspectBranchPlaceholder program fuel index owned found)
  | tree,_,_,0,_,_,_,less => absurd less (Nat.not_lt_zero _)
  | .scalar _,_,_,fuel + 1,owned,found,laid,_ =>
    inspect_leaf fuel owned found laid (by simp [ProgramShape.scalarNode,ProgramShape.blank])
  | .vector _ _,_,_,fuel + 1,owned,found,⟨_,_,laid,_⟩,_ =>
    inspect_leaf fuel owned found laid (by simp [ProgramShape.vectorNode,ProgramShape.blank])
  | .parameter _,_,_,fuel + 1,owned,found,laid,_ =>
    inspect_leaf fuel owned found laid
      (by simp [ProgramShape.parameterNode,ProgramShape.blank])
  | .unresolved _,_,_,fuel + 1,owned,found,laid,_ =>
    inspect_leaf fuel owned found laid (by simp [ProgramShape.blank])
  | .fanout _ _,_,_,fuel + 1,owned,found,⟨_,_,_,_,laid,_⟩,_ =>
    inspect_leaf fuel owned found laid (by simp [ProgramShape.fanoutNode,ProgramShape.blank])
  | .placeholder,_,_,fuel + 1,owned,found,laid,_ => by
    obtain ⟨written,at_,same⟩ := node_of_shape laid
    have kind : written.kind = .placeholder := congrArg NodeShape.kind same
    simp only [inspectBranchPlaceholder,at_,kind]
    simp [Inspects,Expr.placeholders,Expr.ownedPlaceholder]
  | .bracketCall _ arguments,_,index,fuel + 1,owned,found,
      ⟨call,_,_,laid,calls,children,argumentsLaid⟩,less => by
    obtain ⟨written,at_,same⟩ := node_of_shape laid
    obtain ⟨record,recordAt,first,count⟩ := call_of_shape calls
    have kind : written.kind = .primitiveCall := congrArg NodeShape.kind same
    have callIndex : written.callIndex = call := congrArg NodeShape.callIndex same
    simp only [inspectBranchPlaceholder,at_,kind,callIndex,recordAt,first,count]
    rw [show (List.drop _ program.arguments).take _ = _ from children]
    exact inspectAll_laid program arguments fuel owned found argumentsLaid
      (Nat.le_of_lt_succ less)
  | .prefixCall _ argument,_,index,fuel + 1,owned,found,
      ⟨call,_,child,laid,calls,children,below,argumentLaid⟩,less => by
    obtain ⟨written,at_,same⟩ := node_of_shape laid
    obtain ⟨record,recordAt,first,count⟩ := call_of_shape calls
    have kind : written.kind = .primitiveCall := congrArg NodeShape.kind same
    have callIndex : written.callIndex = call := congrArg NodeShape.callIndex same
    simp only [inspectBranchPlaceholder,at_,kind,callIndex,recordAt,first,count]
    rw [show (List.drop _ program.arguments).take _ = _ from children]
    exact inspect_laid program argument fuel owned found argumentLaid
      (Nat.lt_of_lt_of_le below (Nat.le_of_lt_succ less))
  | .tuple elements,_,index,fuel + 1,owned,found,⟨first,_,laid,children,elementsLaid⟩,less => by
    obtain ⟨written,at_,same⟩ := node_of_shape laid
    have kind : written.kind = .tupleLiteral := congrArg NodeShape.kind same
    have firstElement : written.firstElement = first := congrArg NodeShape.firstElement same
    have count : written.elementCount = elements.length :=
      congrArg NodeShape.elementCount same
    simp only [inspectBranchPlaceholder,at_,kind,firstElement,count]
    rw [show (List.drop _ program.tupleElements).take _ = _ from children]
    have inside := inspectAll_laid program elements fuel true found elementsLaid
      (Nat.le_of_lt_succ less)
    refine ⟨inside.1,inside.2.trans ?_⟩
    have implied := Expr.ownedIn_placeholders elements
    simp only [Expr.placeholders,Expr.ownedPlaceholder]
    by_cases none : Expr.placeholdersIn elements = 0
    · have notOwned : Expr.ownedPlaceholderIn elements = false := by
        simpa [none] using implied
      simp [none,notOwned]
    · have some : (Expr.placeholdersIn elements != 0) = true := by simpa using none
      simp [some]

theorem inspectAll_laid (program : RewriteProgram) : (trees : List Expr) →
    ∀ {operand indexes bound} fuel owned found,
      LaidAll layout program.shape operand trees indexes bound → bound ≤ fuel →
      Inspects owned (Expr.placeholdersIn trees) (Expr.ownedPlaceholderIn trees) found
        (indexes.foldl (fun found child =>
          inspectBranchPlaceholder program fuel child owned found) found)
  | [],_,[],_,_,owned,found,_,_ => .none owned found
  | [],_,_ :: _,_,_,_,_,laid,_ => absurd laid (by simp [LaidAll])
  | _ :: _,_,[],_,_,_,_,laid,_ => absurd laid (by simp [LaidAll])
  | tree :: rest,_,index :: indexes,bound,fuel,owned,found,laid,enough => by
    simp only [LaidAll] at laid
    have first := inspect_laid program tree fuel owned found laid.1.2
      (Nat.lt_of_lt_of_le laid.1.1 enough)
    have later := inspectAll_laid program rest fuel owned
      (inspectBranchPlaceholder program fuel index owned found) laid.2 enough
    simp only [List.foldl_cons,Expr.placeholdersIn,Expr.ownedPlaceholderIn]
    refine ⟨by rw [later.1,first.1,Nat.add_assoc],?_⟩
    rw [later.2,first.2]
    have sum : (tree.placeholders + Expr.placeholdersIn rest != 0) =
        (tree.placeholders != 0 || Expr.placeholdersIn rest != 0) := by
      cases tree.placeholders <;> cases Expr.placeholdersIn rest <;> simp
    rw [sum,Bool.and_or_distrib_left]
    ac_rfl

end

/-! ### States as machines -/

/-- The tables and the operand in scope when the machine's frames have been collected. -/
def Layout.reached (layout : Layout) (roots : List Expr) (frames : List Frame) :
    ProgramShape × Option Nat :=
  layout.collectAll (layout.emitRoots roots emptyShape) frames

/-- The state of the parser that stands for a machine. -/
structure Simulates (tokens : RewriteTokens) (layout : Layout)
    (header : RewriteParameterHeader) (state : RewriteParseState) (machine : Machine) :
    Prop where
  source : state.program.source = tokens.source
  header : state.program.parameterHeader = header
  paired : SpansPaired state.program
  unread : lexemes tokens state.unread = machine.unread
  spelled : AllSpelled layout.parser tokens state.unread
  stacked : Stacked layout tokens.source state.pendingArguments
    (layout.emitRoots machine.roots emptyShape) state.contexts machine.frames
    state.pendingArguments.length
  expression : match machine.current with
    | none => state.haveExpression = false ∧
        state.program.shape = (layout.reached machine.roots machine.frames).1
    | some tree => state.haveExpression = true ∧
        state.program.shape = layout.emit (layout.reached machine.roots machine.frames).2 tree
          (layout.reached machine.roots machine.frames).1 ∧
        state.completedNode = state.program.shape.last

/-- A parse that has ended with these roots. -/
structure Finished (tokens : RewriteTokens) (layout : Layout)
    (header : RewriteParameterHeader) (program : RewriteProgram) (roots : List Expr) :
    Prop where
  source : program.source = tokens.source
  header : program.parameterHeader = header
  shape : program.shape = layout.emitRoots roots emptyShape

/-- A round of the parser does what the machine's round does. -/
def Follows (tokens : RewriteTokens) (layout : Layout) (header : RewriteParameterHeader) :
    RewriteParseProgress → MachineProgress → Prop
  | .again state,.again machine => Simulates tokens layout header state machine
  | .done (.ok program),.accept roots => Finished tokens layout header program roots
  | .done (.error _),.reject => True
  | _,_ => False

section Rounds
variable {header : RewriteParameterHeader} {state : RewriteParseState} {machine : Machine}

theorem shape_last (program : RewriteProgram) :
    program.shape.last = program.nodes.length - 1 := by
  simp [ProgramShape.last,RewriteProgram.shape]

theorem Simulates.skip (simulates : Simulates tokens layout header state machine)
    (left : lexemes tokens unread = remaining)
    (spelled : AllSpelled layout.parser tokens unread) :
    Simulates tokens layout header { state with unread } { machine with unread := remaining } :=
  { simulates with unread := left, spelled }

theorem Simulates.tables (simulates : Simulates tokens layout header state machine)
    (idle : machine.current = none) :
    state.program.shape = (layout.reached machine.roots machine.frames).1 := by
  have expression := simulates.expression
  rw [idle] at expression
  exact expression.2

theorem Simulates.complete {tree : Expr}
    (simulates : Simulates tokens layout header state machine) (idle : machine.current = none)
    (becomes : Becomes state.program
      (layout.emit (layout.reached machine.roots machine.frames).2 tree state.program.shape)
      program)
    (left : lexemes tokens rest = remaining) (spelled : AllSpelled layout.parser tokens rest) :
    Simulates tokens layout header (state.complete program rest)
      (machine.complete tree remaining) where
  source := becomes.source.trans simulates.source
  header := becomes.header.trans simulates.header
  paired := becomes.paired simulates.paired
  unread := left
  spelled := spelled
  stacked := simulates.stacked
  expression := by
    refine ⟨rfl,?_,(shape_last program).symm⟩
    have shape := becomes.shape
    rw [simulates.tables idle] at shape
    exact shape

/-- A frame that has collected nothing. -/
def Frame.isFresh : Frame → Prop
  | .bracketCall _ trees after | .tuple trees after => trees = [] ∧ after = false
  | .prefixCall _ => True
  | .fanout operand branches => operand = none ∧ branches = []
  | .branch body => body = none

theorem Frame.isFresh.collect {frame : Frame} (fresh : frame.isFresh) (layout : Layout)
    (scope : Option Nat) (shape : ProgramShape) :
    (layout.collect scope shape frame).nodes = [] ∧
      (layout.collect scope shape frame).shape = shape := by
  cases frame with
  | bracketCall => cases fresh.1; exact ⟨rfl,rfl⟩
  | tuple => cases fresh.1; exact ⟨rfl,rfl⟩
  | prefixCall => exact ⟨rfl,rfl⟩
  | fanout => cases fresh.1; exact ⟨rfl,rfl⟩
  | branch => cases fresh; exact ⟨rfl,rfl⟩

theorem Simulates.push {frame : Frame} {kind : RewriteContextKind}
    {nameSpan openingSpan separatorSpan : RewriteSpan} {openingTokens : List RewriteToken}
    (simulates : Simulates tokens layout header state machine) (idle : machine.current = none)
    (contextOf : ContextOf tokens.source
      (openContext kind nameSpan openingSpan separatorSpan openingTokens) frame)
    (fresh : frame.isFresh)
    (left : lexemes tokens rest = remaining) (spelled : AllSpelled layout.parser tokens rest) :
    Simulates tokens layout header
      { state with
        contexts :=
          openContext kind nameSpan openingSpan separatorSpan openingTokens :: state.contexts
        unread := rest }
      (machine.push frame remaining) where
  source := simulates.source
  header := simulates.header
  paired := simulates.paired
  unread := left
  spelled := spelled
  stacked := by
    refine ⟨contextOf,_,Nat.le_refl _,?_,simulates.stacked⟩
    rw [(fresh.collect layout _ _).1]
    exact Linked.fresh _ _ _ rfl rfl rfl
  expression := by
    have expression := simulates.expression
    rw [idle] at expression
    simp only [Machine.push,idle]
    exact ⟨expression.1,expression.2.trans (fresh.collect layout _ _).2.symm⟩

/-! ### One round -/

def RewriteParameterHeader.names (header : RewriteParameterHeader) : List Text :=
  header.declarations.map (·.name)

theorem readFanoutKeyword_follows (token : RewriteToken)
    (simulates : Simulates tokens layout header state machine) (idle : machine.current = none)
    (spelled : AllSpelled layout.parser tokens rest) :
    Follows tokens layout header (readFanoutKeyword tokens state token rest)
      (machine.readFanoutKeyword (lexemes tokens rest)) := by
  simp only [readFanoutKeyword,Machine.readFanoutKeyword,simulates.stacked.anyFanout]
  split
  · trivial
  cases rest with
  | nil => trivial
  | cons opening later =>
    simp only [lexemes_cons,ne_eq,tokenLexeme_leftBracket]
    split
    · trivial
    · exact simulates.push idle ⟨rfl,rfl,fun _ => rfl⟩ ⟨rfl,rfl⟩ rfl spelled.tail

/-- The parameter a name refers to is the machine's, with its declaration. -/
theorem findParameter_eq (program : RewriteProgram) (name : Text) :
    findParameter program name =
      (program.parameterHeader.names.findIdx? (· == name)) := by
  simp only [findParameter,RewriteParameterHeader.names,List.findIdx?_map]
  rfl

theorem parameterNode_becomes {declaration : RewriteParameterDeclaration}
    (types : layout.types = header.declarations.map (·.type))
    (at_ : header.declarations[index]? = some declaration) (span : RewriteSpan)
    (scope : Option Nat) :
    Becomes program (layout.emit scope (.parameter index) program.shape)
      (program.addNode (parameterReferenceNode declaration index span)) := by
  have added := @addNode_becomes program
    (parameterReferenceNode declaration index span)
  have type : layout.types.getD index .boolean = declaration.type := by
    simp [types,List.getD_eq_getElem?_getD,at_]
  rw [Layout.emit,ProgramShape.parameterNode,type]
  exact added

theorem readName_follows (types : layout.types = header.declarations.map (·.type))
    (simulates : Simulates tokens layout header state machine) (idle : machine.current = none)
    (spelled : AllSpelled layout.parser tokens rest) :
    Follows tokens layout header (readName tokens state token rest)
      (machine.readName header.names (rewriteTokenSpelling tokens token)
        (lexemes tokens rest)) := by
  simp only [readName,Machine.readName]
  split
  · exact readFanoutKeyword_follows token simulates idle spelled
  have unresolved : Follows tokens layout header
      (.again (state.complete
        (state.program.addNode (blankNode .unresolvedName token.span)) rest))
      (.again (machine.complete (.unresolved (rewriteTokenSpelling tokens token))
        (lexemes tokens rest))) :=
    simulates.complete idle
      (by rw [Layout.emit]; exact addNode_becomes (blankNode .unresolvedName token.span)) rfl spelled
  -- Both find the same parameter, or none.
  have referenced : (if nextIs .leftBracket rest = false ∧
      ((state.contexts.head?.map isBracketContext).getD false = true ∨
        (state.contexts.isEmpty && nextIs .horizontalSpace rest) = false) then
        (findParameter state.program (rewriteTokenSpelling tokens token)).bind fun index =>
          state.program.parameterHeader.declarations[index]?.map (index,·)
      else none) =
      (machine.reference header.names (rewriteTokenSpelling tokens token)
        (lexemes tokens rest)).bind fun index =>
          header.declarations[index]?.map (index,·) := by
    simp only [Machine.reference,simulates.stacked.insideBracket,simulates.stacked.isEmpty,
      findParameter_eq,simulates.header]
    have bracket : nextIs .leftBracket rest = false ↔
        (lexemes tokens rest).head? ≠ some .leftBracket := by
      rw [← Bool.not_eq_true,nextIs_leftBracket]
    have space : nextIs .horizontalSpace rest =
        ((lexemes tokens rest).head? == some .horizontalSpace) := by
      rw [Bool.eq_iff_iff,nextIs_horizontalSpace,beq_iff_eq]
    simp only [bracket,space]
    split
    · rfl
    · rfl
  rw [referenced]
  have cases_ := Vocabulary.reference_cases header.names machine
    (rewriteTokenSpelling tokens token) (lexemes tokens rest)
  cases reference : machine.reference header.names (rewriteTokenSpelling tokens token)
      (lexemes tokens rest) with
  | some index =>
    rw [reference] at cases_
    obtain ⟨declaration,at_⟩ : ∃ declaration, header.declarations[index]? = some declaration :=
      ⟨_,List.getElem?_eq_getElem (by simpa [RewriteParameterHeader.names] using cases_)⟩
    simp only [Option.bind_some,at_,Option.map_some]
    exact simulates.complete idle (parameterNode_becomes types at_ _ _) rfl spelled
  | none =>
    simp only [Option.bind_none]
    cases rest with
    | nil => exact unresolved
    | cons next later =>
      simp only [lexemes_cons,tokenLexeme_leftBracket,tokenLexeme_horizontalSpace]
      split
      · exact simulates.push idle ⟨rfl,rfl,rfl⟩ ⟨rfl,rfl⟩ skipBlank_lexemes.symm
          spelled.tail.skip
      split
      · have none : (later.isEmpty ∨ nextIs .lineTerminator later = true) ↔
            (lexemes tokens later = [] ∨
              (lexemes tokens later).head? = some .lineTerminator) := by
          rw [lexemes_eq_nil,List.isEmpty_iff,nextIs_lineTerminator]
        simp only [none]
        split
        · trivial
        · exact simulates.push idle ⟨rfl,rfl⟩ trivial rfl spelled.tail
      · exact unresolved

theorem emptyVector_follows (token : RewriteToken) (type : ScalarType)
    (simulates : Simulates tokens layout header state machine) (idle : machine.current = none)
    (spelled : AllSpelled layout.parser tokens rest) :
    Follows tokens layout header (readEmptyVector state token type rest)
      (machine.readEmptyVector type (lexemes tokens rest)) := by
  simp only [readEmptyVector,Machine.readEmptyVector]
  cases rest with
  | nil => trivial
  | cons opening rest => cases rest with
    | nil => trivial
    | cons closing later =>
      simp only [lexemes_cons,tokenLexeme_leftParenthesis,tokenLexeme_rightParenthesis]
      split
      · apply simulates.complete idle _ rfl spelled.tail.tail
        have added := @addNode_becomes state.program
          (vectorNode state.program ⟨token.span.begin,closing.span.finish⟩ type 0)
        rw [vectorNode_shape] at added
        rw [Layout.emit]
        exact added
      · trivial

theorem readToken_follows (types : layout.types = header.declarations.map (·.type))
    (simulates : Simulates tokens layout header state machine)
    (idle : machine.current = none) :
    Follows tokens layout header (readToken tokens state)
      (machine.readToken header.names) := by
  have left := simulates.unread
  have spelled := simulates.spelled
  simp only [readToken,Machine.readToken]
  cases unread : state.unread with
  | nil =>
    rw [unread] at left
    rw [← left]
    trivial
  | cons token rest =>
    rw [unread] at left spelled
    rw [← left]
    simp only [lexemes_cons,simulates.stacked.isEmpty,tokenLexeme_name]
    split
    · trivial
    have scalar : isScalarToken token.kind = true →
        Follows tokens layout header
          (.again (state.complete (state.program.addNode (scalarNode token)) rest))
          (.again (machine.complete
            (.scalar (tokenLiteral (rewriteTokenSpelling tokens token) token))
            (lexemes tokens rest))) := by
      intro scalar
      have literal := spelled.literal scalar
      apply simulates.complete idle _ rfl spelled.tail
      rw [Layout.emit,ProgramShape.scalarNode,literal.type,literal.boolean,literal.integer,
        literal.double]
      exact addNode_becomes (scalarNode token)
    cases kind : token.kind with
    | name =>
      simp only [tokenLexeme,kind]
      exact readName_follows types simulates idle spelled.tail
    | boolLiteral => simpa only [tokenLexeme,kind] using scalar (by rw [kind]; rfl)
    | intLiteral => simpa only [tokenLexeme,kind] using scalar (by rw [kind]; rfl)
    | doubleLiteral => simpa only [tokenLexeme,kind] using scalar (by rw [kind]; rfl)
    | boolType =>
      simp only [tokenLexeme,kind]
      exact emptyVector_follows token .boolean simulates idle spelled.tail
    | intType =>
      simp only [tokenLexeme,kind]
      exact emptyVector_follows token .integer simulates idle spelled.tail
    | doubleType =>
      simp only [tokenLexeme,kind]
      exact emptyVector_follows token .doublePrecision simulates idle spelled.tail
    | leftBracket =>
      simp only [tokenLexeme,kind]
      exact simulates.push idle ⟨rfl,rfl⟩ ⟨rfl,rfl⟩ skipBlank_lexemes.symm spelled.tail.skip
    | leftParenthesis =>
      simp only [tokenLexeme,kind]
      have agrees := @parseVectorLiteral_agrees _ _ state.program _ token spelled.tail
        (layout.reached machine.roots machine.frames).2
      revert agrees
      generalize parseVectorLiteral tokens state.program token rest = parsed
      generalize readVector (lexemes tokens rest) = read
      intro agrees
      cases parsed with
      | error => cases read with
        | none => trivial
        | some => exact agrees
      | ok parsed => cases read with
        | none => exact agrees
        | some read => exact simulates.complete idle agrees.1 agrees.2.1 agrees.2.2
    | placeholder =>
      simp only [tokenLexeme,kind]
      have operand := simulates.stacked.operand state.program state.unread state.completedNode
        state.haveExpression
      rw [operandRead_scope layout (layout.emitRoots machine.roots emptyShape)]
      rw [show fanoutOperand state = _ from operand]
      cases scope : (layout.collectAll (layout.emitRoots machine.roots emptyShape)
          machine.frames).2 with
      | none => trivial
      | some operand =>
        apply simulates.complete idle _ rfl spelled.tail
        rw [Layout.emit,show (layout.reached machine.roots machine.frames).2 = _ from scope]
        exact addNode_becomes { blankNode .placeholder token.span with firstElement := operand }
    | malformedLiteral | invalid | rightBracket | rightParenthesis | leftBrace | rightBrace
    | horizontalSpace | lineTerminator =>
      simp only [tokenLexeme,kind]
      trivial

/-! ### Placing a tree -/

/-- A state with a completed tree, as the machine that holds it. -/
theorem Simulates.placed {tree : Expr} {frames : List Frame}
    (simulates : Simulates tokens layout header state ⟨roots,frames,some tree,remaining⟩) :
    state.program.shape =
        layout.emit (layout.reached roots frames).2 tree (layout.reached roots frames).1 ∧
      state.completedNode = state.program.shape.last :=
  simulates.expression.2

theorem foldPrefixCalls_simulates (contexts : List RewriteContext) :
    ∀ (state : RewriteParseState) (frames : List Frame) (tree : Expr),
      Simulates tokens layout header { state with contexts }
        ⟨roots,frames,some tree,remaining⟩ →
      Simulates tokens layout header (foldPrefixCalls contexts state)
        ⟨roots,(foldPrefix frames tree).1,some (foldPrefix frames tree).2,remaining⟩ := by
  induction contexts with
  | nil =>
    intro state frames tree simulates
    cases frames with
    | cons => exact simulates.stacked.elim
    | nil => exact simulates
  | cons context outer ih =>
    intro state frames tree simulates
    cases frames with
    | nil => exact simulates.stacked.elim
    | cons frame frames =>
      obtain ⟨contextOf,low,order,linked,below⟩ := simulates.stacked
      rw [foldPrefixCalls]
      cases frame with
      | prefixCall name =>
        rw [if_pos contextOf.1]
        obtain ⟨appended,grown,kept,_,completed⟩ :=
          linked.append order (Nat.le_refl _) state.completedNode
        obtain ⟨shape,last⟩ := simulates.placed
        simp only [Layout.collect,List.nil_append] at appended
        have nodes := appended.contextNodes (Nat.le_refl _)
        have becomes := @finishCall_becomes state.program
          (appendPendingArgument state.pendingArguments context state.completedNode).1
          (appendPendingArgument state.pendingArguments context state.completedNode).2
          (insertionSpan context.separatorSpan.finish)
          ⟨context.nameSpan.begin,(state.program.spanOf state.completedNode).finish⟩
          (by rw [nodes,appended.argumentCount])
        rw [nodes] at becomes
        have higher : low ≤ (appendPendingArgument state.pendingArguments context
            state.completedNode).1.length := by
          rw [grown]
          exact Nat.le_succ_of_le order
        have kind : (appendPendingArgument state.pendingArguments context
            state.completedNode).2.kind = .prefixCall := by rw [completed]; exact contextOf.1
        have named : spanSpelling state.program.source (appendPendingArgument
            state.pendingArguments context state.completedNode).2.nameSpan = name := by
          rw [completed,show state.program.source = tokens.source from simulates.source]
          exact contextOf.2
        rw [kind,named] at becomes
        exact ih _ frames (.prefixCall name tree) {
          source := becomes.source.trans simulates.source
          header := becomes.header.trans simulates.header
          paired := becomes.paired simulates.paired
          unread := simulates.unread
          spelled := simulates.spelled
          stacked := (below.congr kept).raise higher
          expression := by
            refine ⟨simulates.expression.1,?_,(shape_last _).symm⟩
            refine becomes.shape.trans ?_
            rw [last,shape]
            rfl }
      | bracketCall | tuple | fanout | branch =>
        rw [if_neg (by rw [contextOf.1]; decide)]
        exact simulates

def Frame.isPrefix : Frame → Bool
  | .prefixCall _ => true
  | _ => false

theorem foldPrefix_isPrefix (frames : List Frame) :
    ∀ tree frame outer, (foldPrefix frames tree).1 = frame :: outer →
      frame.isPrefix = false := by
  induction frames with
  | nil => intro tree frame outer same; simp [foldPrefix] at same
  | cons first rest ih =>
    intro tree frame outer same
    cases first with
    | prefixCall name => exact ih _ _ _ same
    | _ =>
      simp only [foldPrefix,List.cons.injEq] at same
      rw [← same.1]
      rfl

/-- Taking a tree lays it out behind what the frame has collected. -/
theorem collect_take (frame : Frame) (tree : Expr) (notPrefix : frame.isPrefix = false)
    (awaiting : Awaiting (frame :: outer)) (scope : Option Nat) (shape : ProgramShape)
    (contextOf : ContextOf source context frame) :
    let before := layout.collect scope shape frame
    let emitted := layout.emit before.scope tree before.shape
    (layout.collect scope shape (frame.take tree)).shape = emitted ∧
      (layout.collect scope shape (frame.take tree)).nodes = before.nodes ++ [emitted.last] := by
  cases frame with
  | prefixCall => contradiction
  | bracketCall name trees after => simp [Frame.take,Layout.collect,emitAll_append]
  | tuple trees after => simp [Frame.take,Layout.collect,emitAll_append]
  | fanout operand branches =>
    cases (show operand = none from awaiting)
    cases contextOf.2.2 rfl
    exact ⟨rfl,rfl⟩
  | branch body =>
    cases (show body = none from awaiting)
    exact ⟨rfl,rfl⟩

theorem ContextOf.take (contextOf : ContextOf source context frame)
    (notPrefix : frame.isPrefix = false) (tree : Expr) (first : Option Nat) (last count : Nat) :
    ContextOf source
      { context with
        firstPendingArgument := first, lastPendingArgument := some last,
        argumentCount := count, afterArgument := true } (frame.take tree) := by
  cases frame with
  | prefixCall => contradiction
  | bracketCall => exact ⟨contextOf.1,rfl,contextOf.2.2⟩
  | tuple => exact ⟨contextOf.1,rfl⟩
  | fanout => exact ⟨contextOf.1,rfl,by simp⟩
  | branch => exact ⟨contextOf.1,rfl⟩

theorem Linked.after (linked : Linked pending low high context nodes) (after : Bool) :
    Linked pending low high { context with afterArgument := after } nodes :=
  linked

theorem Simulates.take {frame : Frame} {outer : List Frame} {context : RewriteContext}
    {contexts : List RewriteContext} {tree : Expr}
    (simulates : Simulates tokens layout header state
      ⟨roots,frame :: outer,some tree,remaining⟩)
    (contextsIs : state.contexts = context :: contexts)
    (awaiting : Awaiting (frame :: outer)) (notPrefix : frame.isPrefix = false) :
    let appended := appendPendingArgument state.pendingArguments context state.completedNode
    Simulates tokens layout header
      { state with
        contexts := { appended.2 with afterArgument := true } :: contexts
        pendingArguments := appended.1
        haveExpression := false }
      ⟨roots,frame.take tree :: outer,none,remaining⟩ := by
  have stacked := simulates.stacked
  rw [contextsIs] at stacked
  obtain ⟨contextOf,low,order,linked,below⟩ := stacked
  obtain ⟨appended,grown,kept,first,completed⟩ :=
    linked.append order (Nat.le_refl _) state.completedNode
  obtain ⟨shape,last⟩ := simulates.placed
  obtain ⟨takenShape,takenNodes⟩ := @collect_take layout _ _ _ frame tree notPrefix awaiting
    (layout.reached roots outer).2 (layout.reached roots outer).1 contextOf
  have nodes : (layout.collect (layout.reached roots outer).2 (layout.reached roots outer).1
      (frame.take tree)).nodes = (layout.collect (layout.reached roots outer).2
        (layout.reached roots outer).1 frame).nodes ++ [state.completedNode] := by
    rw [takenNodes,last,shape]
    rfl
  exact {
    source := simulates.source
    header := simulates.header
    paired := simulates.paired
    unread := simulates.unread
    spelled := simulates.spelled
    stacked := by
      refine ⟨?_,low,?_,?_,below.congr kept⟩
      · rw [completed]
        exact contextOf.take notPrefix tree first _ _
      · rw [grown]
        exact Nat.le_succ_of_le order
      · exact nodes ▸ appended.after true
    expression := ⟨rfl,shape.trans takenShape.symm⟩ }

theorem placeExpression_follows {vocabulary : Vocabulary} {tree : Expr}
    (simulates : Simulates tokens layout header state machine)
    (current : machine.current = some tree) (formed : vocabulary.Formed machine) :
    Follows tokens layout header (placeExpression state) (machine.place tree) := by
  obtain ⟨roots,frames,_,remaining⟩ := machine
  cases current
  obtain ⟨awaiting,allowed⟩ := formed.current tree rfl
  have foldedAwaiting :=
    (Vocabulary.foldPrefix_allowed frames tree formed.frames awaiting allowed).2.1
  have folded := foldPrefixCalls_simulates state.contexts state frames tree simulates
  have notPrefix := foldPrefix_isPrefix frames tree
  simp only [placeExpression,Machine.place]
  generalize foldPrefixCalls state.contexts state = state' at folded
  generalize foldPrefix frames tree = place at folded foldedAwaiting notPrefix
  obtain ⟨frames',tree'⟩ := place
  have stacked := folded.stacked
  cases contexts : state'.contexts with
  | nil =>
    rw [contexts] at stacked
    cases frames' with
    | cons => exact stacked.elim
    | nil =>
      obtain ⟨shape,last⟩ := folded.placed
      have left : lexemes tokens state'.unread = remaining := folded.unread
      have spelled := folded.spelled
      have rooted : (state'.program.shape).addRoot state'.completedNode =
          layout.emitRoots (roots ++ [tree']) emptyShape := by
        rw [emitRoots_append,last,shape]
        rfl
      simp only [← left,skipSpaces_lexemes]
      cases skipped : skipHorizontalSpace state'.unread with
      | nil => exact ⟨folded.source,folded.header,rooted⟩
      | cons token rest =>
        have restSpelled : AllSpelled layout.parser tokens (token :: rest) := by
          intro other member
          rw [← skipped] at member
          exact spelled other ((List.dropWhile_sublist _).subset member)
        simp only [lexemes_cons,tokenLexeme_lineTerminator]
        split
        · exact {
            source := folded.source
            header := folded.header
            paired := folded.paired
            unread := rfl
            spelled := restSpelled.tail
            stacked := trivial
            expression := ⟨rfl,rooted⟩ }
        · trivial
  | cons context outer =>
    rw [contexts] at stacked
    cases frames' with
    | nil => exact stacked.elim
    | cons frame frames' =>
      exact folded.take contexts foldedAwaiting (notPrefix frame frames' rfl)

/-! ### Closing a branch, a fanout, a bracket -/

theorem Laid.kind {tree : Expr} (laid : Laid layout program.shape operand tree index) :
    (program.nodes[index]?.map (·.kind)) = some .primitiveCall ↔ tree.isCall = true := by
  have kindOf : ∀ {node : NodeShape}, program.shape.nodes[index]? = some node →
      program.nodes[index]?.map (·.kind) = some node.kind := by
    intro node at_
    obtain ⟨written,writtenAt,rfl⟩ := node_of_shape at_
    rw [writtenAt]
    rfl
  cases tree with
  | vector => obtain ⟨_,_,laid,_⟩ := laid; rw [kindOf laid]; simp [ProgramShape.vectorNode,ProgramShape.blank,Expr.isCall]
  | bracketCall => obtain ⟨_,_,_,laid,_⟩ := laid; rw [kindOf laid]; simp [ProgramShape.callNode,ProgramShape.blank,Expr.isCall]
  | prefixCall => obtain ⟨_,_,_,laid,_⟩ := laid; rw [kindOf laid]; simp [ProgramShape.callNode,ProgramShape.blank,Expr.isCall]
  | tuple => obtain ⟨_,_,laid,_⟩ := laid; rw [kindOf laid]; simp [ProgramShape.tupleNode,ProgramShape.blank,Expr.isCall]
  | fanout => obtain ⟨_,_,_,_,laid,_⟩ := laid; rw [kindOf laid]; simp [ProgramShape.fanoutNode,ProgramShape.blank,Expr.isCall]
  | scalar => rw [kindOf laid]; simp [ProgramShape.scalarNode,ProgramShape.blank,Expr.isCall]
  | parameter => rw [kindOf laid]; simp [ProgramShape.parameterNode,ProgramShape.blank,Expr.isCall]
  | unresolved => rw [kindOf laid]; simp [ProgramShape.blank,Expr.isCall]
  | placeholder => rw [kindOf laid]; simp [ProgramShape.placeholderNode,ProgramShape.blank,Expr.isCall]

/-- Entering a branch in the tables and in its fanout. -/
theorem collect_branch (layout : Layout) (scope : Option Nat) (shape : ProgramShape)
    (operand body : Expr) (branches : List Expr) :
    let fanout := layout.collect scope shape (.fanout (some operand) branches)
    let branch := layout.collect fanout.scope fanout.shape (.branch (some body))
    let after := layout.collect scope shape (.fanout (some operand) (branches ++ [body]))
    after.shape = branch.shape.addBranch branch.shape.last ∧
      after.nodes = fanout.nodes ++ branch.nodes ∧ after.scope = fanout.scope := by
  simp [Layout.collect,emitBranches_append]

theorem finishFanoutBranch_follows {vocabulary : Vocabulary} {body : Expr}
    {outer : List Frame} {branch : RewriteContext} {contexts : List RewriteContext}
    (closing : RewriteToken)
    (simulates : Simulates tokens layout header state
      ⟨roots,.branch (some body) :: outer,none,remaining⟩)
    (contextsIs : state.contexts = branch :: contexts)
    (allowed : vocabulary.FramesAllowed (.branch (some body) :: outer))
    (spelled : AllSpelled layout.parser tokens rest) :
    Follows tokens layout header (finishFanoutBranch state branch contexts closing rest)
      (Machine.closeBranch ⟨roots,.branch (some body) :: outer,none,remaining⟩ body outer
        (lexemes tokens rest)) := by
  have stacked := simulates.stacked
  rw [contextsIs] at stacked
  obtain ⟨contextOf,low,order,linked,below⟩ := stacked
  obtain ⟨bodyAllowed,⟨operand,branches,outer,rfl⟩,_⟩ := allowed
  cases contexts with
  | nil => exact below.elim
  | cons fanout contexts =>
    obtain ⟨fanoutOf,fanoutLow,fanoutOrder,fanoutLinked,outside⟩ := below
    have shape : state.program.shape = layout.emit
        (layout.reached roots (.fanout (some operand) branches :: outer)).2 body
        (layout.reached roots (.fanout (some operand) branches :: outer)).1 :=
      simulates.tables rfl
    have laid : Laid layout state.program.shape
        (layout.reached roots (.fanout (some operand) branches :: outer)).2 body
        state.program.shape.last := by
      rw [shape]
      exact emit_laid layout body _ _ (bodyAllowed body rfl)
    have count : branch.argumentCount = 1 := linked.argumentCount
    obtain ⟨entry,found,rootIs⟩ : ∃ entry, branch.firstPendingArgument.bind
        (state.pendingArguments[·]?) = some entry ∧ entry.node = state.program.shape.last := by
      rw [← Option.map_eq_some_iff,shape]
      exact linked.first
    have inspected := inspect_laid state.program body (entry.node + 1) false ⟨0,none,false⟩
      (rootIs ▸ laid) (Nat.lt_succ_self _)
    have kind := @Laid.kind state.program _ _ _ _ (rootIs ▸ laid)
    simp only [finishFanoutBranch,Machine.closeBranch,count,Nat.one_ne_zero,if_false,found]
    generalize inspectBranchPlaceholder state.program (entry.node + 1) entry.node false
      ⟨0,none,false⟩ = inspection at inspected
    obtain ⟨counted,owned⟩ := inspected
    have isBranch : body.isBranch = true ↔
        (state.program.nodes[entry.node]?.map (·.kind)) = some .primitiveCall ∧
          inspection.count = 1 ∧ inspection.hasOwnedPosition = false := by
      rw [kind,counted,owned]
      simp [Expr.isBranch,and_assoc]
    split
    next notCall => rw [if_neg (fun is => notCall (isBranch.mp is).1)]; trivial
    split
    next notOne => rw [if_neg (fun is => notOne (isBranch.mp is).2.1)]; trivial
    split
    next isOwned =>
      rw [if_neg (fun is => by rw [(isBranch.mp is).2.2] at isOwned; contradiction)]
      trivial
    next isCall isOne notOwned =>
      rw [if_pos (isBranch.mpr ⟨not_not.mp isCall,not_not.mp isOne,by simpa using notOwned⟩)]
      obtain ⟨enteredShape,enteredNodes,_⟩ := collect_branch layout
        (layout.reached roots outer).2 (layout.reached roots outer).1 operand body branches
      obtain ⟨appended,grown,kept,first,completed⟩ := fanoutLinked.append fanoutOrder order
        entry.node
      have nodes : (layout.collect (layout.reached roots outer).2
          (layout.reached roots outer).1 (.fanout (some operand) branches)).nodes ++
            [entry.node] = (layout.collect (layout.reached roots outer).2
              (layout.reached roots outer).1
              (.fanout (some operand) (branches ++ [body]))).nodes := by
        rw [rootIs,shape]
        exact enteredNodes.symm
      exact {
        source := simulates.source
        header := simulates.header
        paired := simulates.paired
        unread := rfl
        spelled := spelled
        stacked := by
          refine ⟨?_,fanoutLow,?_,?_,outside.congr kept⟩
          · rw [completed]
            exact ⟨fanoutOf.1,rfl,by simp⟩
          · rw [grown]
            omega
          · exact nodes ▸ appended.after true
        expression := by
          refine ⟨simulates.expression.1,?_⟩
          refine Eq.trans ?_ enteredShape.symm
          have added : ∀ record : RewriteFanoutBranch, record.root = entry.node →
              ({ state.program with
                fanoutBranches := state.program.fanoutBranches ++ [record] } :
                RewriteProgram).shape = state.program.shape.addBranch entry.node := by
            intro record same
            simp [RewriteProgram.shape,ProgramShape.addBranch,same]
          refine (added _ rfl).trans ?_
          rw [rootIs,shape]
          rfl }

/-- The state of the machine with its outermost frame removed and a tree in hand. -/
theorem Simulates.closed {frame : Frame} {outer : List Frame} {context : RewriteContext}
    {contexts : List RewriteContext} {tree : Expr}
    (simulates : Simulates tokens layout header state ⟨roots,frame :: outer,none,remaining⟩)
    (contextsIs : state.contexts = context :: contexts)
    (becomes : Becomes state.program
      (layout.emit (layout.reached roots outer).2 tree (layout.reached roots outer).1) program)
    (spelled : AllSpelled layout.parser tokens rest) :
    Simulates tokens layout header
      (({ state with contexts } : RewriteParseState).complete program rest)
      ⟨roots,outer,some tree,lexemes tokens rest⟩ := by
  have stacked := simulates.stacked
  rw [contextsIs] at stacked
  obtain ⟨_,low,order,_,below⟩ := stacked
  exact {
    source := becomes.source.trans simulates.source
    header := becomes.header.trans simulates.header
    paired := becomes.paired simulates.paired
    unread := rfl
    spelled
    stacked := below.raise order
    expression := ⟨rfl,becomes.shape,(shape_last program).symm⟩ }

theorem readBranch_follows {vocabulary : Vocabulary} {body : Option Expr} {outer : List Frame}
    {branch : RewriteContext} {contexts : List RewriteContext}
    (types : layout.types = header.declarations.map (·.type))
    (simulates : Simulates tokens layout header state
      ⟨roots,.branch body :: outer,none,remaining⟩)
    (contextsIs : state.contexts = branch :: contexts)
    (allowed : vocabulary.FramesAllowed (.branch body :: outer)) :
    Follows tokens layout header (readBranch tokens state branch contexts)
      (Machine.readBranch header.names ⟨roots,.branch body :: outer,none,remaining⟩ body
        outer) := by
  have left : lexemes tokens state.unread = remaining := simulates.unread
  have spelled := simulates.spelled.skip
  have stacked := simulates.stacked
  rw [contextsIs] at stacked
  have after : branch.afterArgument = body.isSome := stacked.1.2
  simp only [readBranch,Machine.readBranch,← left,skipBlank_lexemes]
  cases skipped : skipSeparators state.unread with
  | nil => trivial
  | cons token rest =>
    rw [skipped] at spelled
    simp only [lexemes_cons,tokenLexeme_rightBrace,after]
    cases body with
    | some body =>
      simp only [Option.isSome_some,if_true]
      split
      · rw [left]
        exact finishFanoutBranch_follows token simulates contextsIs allowed spelled.tail
      · trivial
    | none =>
      simp only [Option.isSome_none,Bool.false_eq_true,if_false]
      split
      · trivial
      · exact readToken_follows types (simulates.skip rfl spelled) rfl

theorem readFanout_follows {operand : Option Expr} {branches : List Expr}
    {outer : List Frame} {fanout : RewriteContext} {contexts : List RewriteContext}
    (types : layout.types = header.declarations.map (·.type))
    (simulates : Simulates tokens layout header state
      ⟨roots,.fanout operand branches :: outer,none,remaining⟩)
    (contextsIs : state.contexts = fanout :: contexts) :
    Follows tokens layout header (readFanout tokens state fanout contexts)
      (Machine.readFanout header.names ⟨roots,.fanout operand branches :: outer,none,remaining⟩
        operand branches outer) := by
  have left : lexemes tokens state.unread = remaining := simulates.unread
  have spelled := simulates.spelled.skip
  have stacked := simulates.stacked
  rw [contextsIs] at stacked
  obtain ⟨⟨_,after,_⟩,low,order,linked,below⟩ := stacked
  simp only [readFanout,Machine.readFanout,← left,skipBlank_lexemes]
  cases skipped : skipSeparators state.unread with
  | nil => trivial
  | cons token rest =>
    rw [skipped] at spelled
    simp only [lexemes_cons,tokenLexeme_rightBracket,tokenLexeme_leftBrace,ne_eq,after]
    cases operand with
    | some operand =>
      have count : fanout.argumentCount = branches.length + 1 := by
        rw [linked.argumentCount]
        simp [Layout.collect,emitBranches_length]
      simp only [Option.isSome_some,if_true]
      split
      · have none : fanout.argumentCount = 1 ↔ branches.isEmpty = true := by
          rw [count,List.isEmpty_iff,← List.length_eq_zero_iff]
          omega
        simp only [none]
        split
        · trivial
        have becomes := @finishFanout_becomes state.program _ _ fanout token.span
          linked.first
        rw [count,Nat.add_sub_cancel,simulates.tables rfl] at becomes
        exact simulates.closed contextsIs becomes spelled.tail
      split
      · trivial
      have separated : (state.unread.head?.map isSeparator).getD false =
          ((lexemes tokens state.unread).head?.map Lexeme.isSeparator).getD false := by
        cases state.unread <;> simp
      rw [separated]
      split
      · trivial
      · exact simulates.push rfl ⟨rfl,rfl⟩ rfl rfl spelled.tail
    | none =>
      simp only [Option.isSome_none,Bool.false_eq_true,if_false]
      split
      · trivial
      · exact readToken_follows types (simulates.skip rfl spelled) rfl

open Machine (Bracket)

theorem Bracket.closed_follows {bracket : Bracket} {collected : List Expr} {after : Bool}
    {outer : List Frame} {context : RewriteContext} {contexts : List RewriteContext}
    (simulates : Simulates tokens layout header state
      ⟨roots,bracket.frame collected after :: outer,none,remaining⟩)
    (contextsIs : state.contexts = context :: contexts)
    (spelled : AllSpelled layout.parser tokens rest) (closing : RewriteToken) :
    Follows tokens layout header (closeDelimited state context contexts closing rest)
      (Machine.close ⟨roots,bracket.frame collected after :: outer,none,remaining⟩
        (bracket.tree collected) outer (lexemes tokens rest)) := by
  have stacked := simulates.stacked
  rw [contextsIs] at stacked
  obtain ⟨contextOf,low,order,linked,below⟩ := stacked
  have nodes := linked.contextNodes (Nat.le_refl _)
  have count := linked.argumentCount
  rw [← nodes] at count
  have shape := simulates.tables rfl
  apply simulates.closed contextsIs _ spelled
  cases bracket with
  | call name =>
    have becomes := @finishCall_becomes state.program _ context closing.span
      ⟨context.nameSpan.begin,closing.span.finish⟩ count
    rw [finishDelimited,if_neg (by rw [contextOf.1]; decide)]
    rw [contextOf.1,show state.program.source = tokens.source from simulates.source,
      contextOf.2.2,nodes,shape] at becomes
    exact becomes
  | tuple =>
    have becomes := @finishTuple_becomes state.program _ context closing.span
      simulates.paired count
    rw [finishDelimited,if_pos contextOf.1]
    rw [nodes,shape] at becomes
    exact becomes

theorem readElement_follows {bracket : Bracket} {collected : List Expr} {after : Bool}
    {outer : List Frame} {context : RewriteContext} {contexts : List RewriteContext}
    (types : layout.types = header.declarations.map (·.type))
    (simulates : Simulates tokens layout header state
      ⟨roots,bracket.frame collected after :: outer,none,remaining⟩)
    (contextsIs : state.contexts = context :: contexts) :
    Follows tokens layout header (readElement tokens state context contexts)
      (Machine.readElement header.names
        ⟨roots,bracket.frame collected after :: outer,none,remaining⟩
        (bracket.tree collected) outer) := by
  have left : lexemes tokens state.unread = remaining := simulates.unread
  have spelled := simulates.spelled
  have read := readToken_follows types simulates rfl
  simp only [readElement,Machine.readElement,← left]
  rw [← left] at read
  cases unread : state.unread with
  | nil => trivial
  | cons token rest =>
    rw [unread] at spelled read
    simp only [lexemes_cons,tokenLexeme_rightBracket,tokenLexeme_rightParenthesis]
    split
    · have closed := Bracket.closed_follows simulates contextsIs spelled.tail token
      exact closed
    split
    · trivial
    · exact read

theorem readDelimited_follows {bracket : Bracket} {collected : List Expr} {after : Bool}
    {outer : List Frame} {context : RewriteContext} {contexts : List RewriteContext}
    (types : layout.types = header.declarations.map (·.type))
    (simulates : Simulates tokens layout header state
      ⟨roots,bracket.frame collected after :: outer,none,remaining⟩)
    (contextsIs : state.contexts = context :: contexts) :
    Follows tokens layout header (readDelimited tokens state context contexts)
      (Machine.readDelimited header.names
        ⟨roots,bracket.frame collected after :: outer,none,remaining⟩
        (bracket.tree collected) (bracket.frame collected false) after outer) := by
  have left : lexemes tokens state.unread = remaining := simulates.unread
  have spelled := simulates.spelled
  have stacked := simulates.stacked
  rw [contextsIs] at stacked
  have afterIs : context.afterArgument = after := by
    cases bracket with
    | call => exact stacked.1.2.1
    | tuple => exact stacked.1.2
  simp only [readDelimited,Machine.readDelimited,afterIs]
  split
  · exact readElement_follows types simulates contextsIs
  simp only [← left]
  cases unread : state.unread with
  | nil => trivial
  | cons token rest =>
    rw [unread] at spelled
    have skipped := spelled.tail.skip
    simp only [lexemes_cons,tokenLexeme_rightBracket,tokenLexeme_isSeparator]
    split
    · exact Bracket.closed_follows simulates contextsIs spelled.tail token
    split
    · simp only [skipBlank_lexemes]
      by_cases closes : (lexemes tokens (skipSeparators rest)).head? = some .rightBracket
      · rw [if_pos (nextIs_rightBracket.mpr closes),if_pos closes]
        exact simulates.skip rfl skipped
      · rw [if_neg (fun next => closes (nextIs_rightBracket.mp next)),if_neg closes]
        -- The separator has been read: the context waits for an element again.
        have reopened : Simulates tokens layout header
            { state with
              unread := skipSeparators rest
              contexts := { context with afterArgument := false } :: contexts }
            ⟨roots,bracket.frame collected false :: outer,none,
              lexemes tokens (skipSeparators rest)⟩ :=
          { simulates with
            unread := rfl
            spelled := skipped
            stacked := by
              obtain ⟨contextOf,low,order,linked,below⟩ := stacked
              cases bracket with
              | call => exact ⟨⟨contextOf.1,rfl,contextOf.2.2⟩,low,order,linked,below⟩
              | tuple => exact ⟨⟨contextOf.1,rfl⟩,low,order,linked,below⟩
            expression := by
              have expression := simulates.expression
              cases bracket <;> exact expression }
        exact readElement_follows types reopened rfl
    · split
      · trivial
      · trivial

theorem parseStep_follows {vocabulary : Vocabulary}
    (types : layout.types = header.declarations.map (·.type))
    (simulates : Simulates tokens layout header state machine)
    (formed : vocabulary.Formed machine) :
    Follows tokens layout header (parseStep tokens state) (machine.step header.names) := by
  obtain ⟨roots,frames,current,remaining⟩ := machine
  have expression := simulates.expression
  cases current with
  | some tree =>
    rw [parseStep,if_pos expression.1]
    exact placeExpression_follows simulates rfl formed
  | none =>
    rw [parseStep,if_neg (by rw [expression.1]; simp)]
    have stacked := simulates.stacked
    cases contexts : state.contexts with
    | nil =>
      rw [contexts] at stacked
      cases frames with
      | cons => exact stacked.elim
      | nil =>
        have left : lexemes tokens state.unread = remaining := simulates.unread
        have spelled := simulates.spelled.skip
        simp only [Machine.step,← left,skipBlank_lexemes]
        cases skipped : skipSeparators state.unread with
        | nil => exact ⟨simulates.source,simulates.header,expression.2⟩
        | cons token rest =>
          rw [skipped] at spelled
          have reading := simulates.skip rfl spelled
          rw [contexts] at reading
          exact readToken_follows types reading rfl
    | cons context outer =>
      rw [contexts] at stacked
      cases frames with
      | nil => exact stacked.elim
      | cons frame frames =>
        have contextOf := stacked.1
        cases frame with
        | bracketCall name trees after =>
          dsimp only
          rw [contextOf.1]
          exact @readDelimited_follows _ _ _ _ _ _ (.call name) _ _ _ _ _ types simulates contexts
        | tuple trees after =>
          dsimp only
          rw [contextOf.1]
          exact @readDelimited_follows _ _ _ _ _ _ .tuple _ _ _ _ _ types simulates contexts
        | prefixCall =>
          dsimp only
          rw [contextOf.1]
          exact readToken_follows types simulates rfl
        | fanout =>
          dsimp only
          rw [contextOf.1]
          exact readFanout_follows types simulates contexts
        | branch =>
          dsimp only
          rw [contextOf.1]
          exact readBranch_follows types simulates contexts formed.frames

/-! ### Whole runs -/

theorem parseLoop_follows {vocabulary : Vocabulary} (leaves : vocabulary.leaves = true)
    (declared : vocabulary.declared = header.names)
    (types : layout.types = header.declarations.map (·.type)) (fuel : Nat) :
    ∀ (state : RewriteParseState) (machine : Machine),
      Simulates tokens layout header state machine → vocabulary.Formed machine →
      machine.measure < fuel →
      ∃ result, parseLoop tokens fuel state = some result ∧
        (∀ program, result = .ok program → ∃ roots,
          Machine.Accepts header.names machine roots ∧
            Finished tokens layout header program roots) ∧
        ∀ roots, Machine.Accepts header.names machine roots → ∃ program, result = .ok program := by
  induction fuel with
  | zero => intro _ _ _ _ enough; contradiction
  | succ fuel ih =>
    intro state machine simulates formed enough
    have follows := parseStep_follows types simulates formed
    rw [parseLoop]
    cases step : machine.step header.names with
    | again later =>
      rw [step] at follows
      cases parsed : parseStep tokens state with
      | done => rw [parsed] at follows; cases ‹RewriteParseResult› <;> exact follows.elim
      | again state' =>
        rw [parsed] at follows
        have less := Machine.step_measure step
        obtain ⟨result,runs,sound,complete⟩ := ih state' later follows
          (Vocabulary.step_formed leaves formed (by rw [declared]; exact step)) (by omega)
        refine ⟨result,runs,?_,?_⟩
        · intro program ok
          obtain ⟨roots,accepts,finished⟩ := sound program ok
          exact ⟨roots,.again step accepts,finished⟩
        · intro roots accepts
          cases accepts with
          | accept other => rw [step] at other; contradiction
          | again other accepts =>
            rw [step] at other
            cases other
            exact complete roots accepts
    | accept roots =>
      rw [step] at follows
      cases parsed : parseStep tokens state with
      | again => rw [parsed] at follows; exact follows.elim
      | done result =>
        rw [parsed] at follows
        cases result with
        | error => exact follows.elim
        | ok program =>
          refine ⟨.ok program,rfl,?_,fun _ _ => ⟨program,rfl⟩⟩
          intro other same
          cases same
          exact ⟨roots,.accept step,follows⟩
    | reject =>
      rw [step] at follows
      cases parsed : parseStep tokens state with
      | again => rw [parsed] at follows; exact follows.elim
      | done result =>
        rw [parsed] at follows
        cases result with
        | ok => exact follows.elim
        | error diagnostic =>
          refine ⟨.error diagnostic,rfl,(fun _ same => nomatch same),?_⟩
          intro roots accepts
          cases accepts with
          | accept other => rw [step] at other; contradiction
          | again other _ => rw [step] at other; contradiction

end Rounds

end Bennu
