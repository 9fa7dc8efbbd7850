import Bennu.CheckedParser
import Bennu.ParserSpans

/-! No access of the parser is undefined, its loops end, and what it rejects with points into
the source: each round of the checked parser is a round of the parser, by an invariant on
where the tokens, the nodes and the contexts of a state stand. -/
namespace Bennu.Checked

section accesses

variable {token next : RewriteToken} {rest unread : List RewriteToken}

@[simp] theorem tokenAt_zero : tokenAt (token :: rest) 0 = some token := rfl
@[simp] theorem tokenAt_one : tokenAt (token :: next :: rest) 1 = some next := rfl
@[simp] theorem tokenAt_two {last : RewriteToken} : tokenAt (token :: next :: last :: rest) 2 = some last := rfl
@[simp] theorem atEnd_nil : atEnd [] = true := rfl
@[simp] theorem atEnd_cons : atEnd (token :: rest) = false := rfl
@[simp] theorem advance_one : advance (token :: rest) 1 = some rest := by simp [advance]
@[simp] theorem advance_two : advance (token :: next :: rest) 2 = some rest := by simp [advance]
@[simp] theorem advance_three {last : RewriteToken} : advance (token :: next :: last :: rest) 3 = some rest := by
  simp [advance]

@[simp] theorem kindAt_zero {kind : RewriteTokenKind} : kindAt unread 0 kind = some (nextIs kind unread) := by
  cases unread with
  | nil => rfl
  | cons => simp [kindAt,nextIs]

@[simp] theorem kindAt_one {kind : RewriteTokenKind} : kindAt (token :: rest) 1 kind = some (nextIs kind rest) := by
  cases rest with
  | nil => rfl
  | cons => simp [kindAt,nextIs]

theorem skipRounds_eq (skips : RewriteToken → Bool) (unread : List RewriteToken) :
    ∀ rounds, unread.length < rounds → skipRounds skips rounds unread = some (unread.dropWhile skips) := by
  induction unread with
  | nil =>
    intro rounds enough
    obtain ⟨rounds,rfl⟩ := Nat.exists_eq_succ_of_ne_zero (Nat.ne_of_gt enough)
    rfl
  | cons token rest ih =>
    intro rounds enough
    obtain ⟨rounds,rfl⟩ := Nat.exists_eq_succ_of_ne_zero (Nat.ne_of_gt (Nat.lt_of_le_of_lt (Nat.zero_le _) enough))
    rw [List.length_cons] at enough
    cases skip : skips token with
    | true => simp [skipRounds,skip,ih rounds (by omega)]
    | false => simp [skipRounds,skip]

@[simp] theorem skipSeparators_eq (unread : List RewriteToken) :
    skipSeparators unread = some (Bennu.skipSeparators unread) :=
  skipRounds_eq isSeparator unread _ (Nat.lt_succ_self _)

@[simp] theorem skipHorizontalSpace_eq (unread : List RewriteToken) :
    skipHorizontalSpace unread = some (Bennu.skipHorizontalSpace unread) :=
  skipRounds_eq _ unread _ (Nat.lt_succ_self _)

theorem rewriteContextSpan_eq (tokens : RewriteTokens) {context : RewriteContext}
    (opened : context.kind = .tupleLiteral → context.openingTokens ≠ []) :
    rewriteContextSpan tokens context = some (Bennu.rewriteContextSpan tokens context) := by
  unfold rewriteContextSpan Bennu.rewriteContextSpan
  split
  · rename_i tuple
    obtain ⟨token,rest,same⟩ := List.exists_cons_of_ne_nil (opened tuple)
    rw [same]
    rfl
  · rfl

theorem insideVector_eq (tokens : RewriteTokens) (opening element : RewriteToken) (error : RewriteParseError) :
    insideVector tokens (token :: rest) opening element error =
      some (Bennu.insideVector tokens (token :: rest) opening element error) := rfl

theorem parseVectorElements_eq (tokens : RewriteTokens) (before : RewriteToken) (behind : List RewriteToken)
    (opening : RewriteToken) (elementType : ScalarType) (rounds : Nat) :
    ∀ (program : RewriteProgram) (count : Nat) (unread : List RewriteToken), unread ≠ [] → unread.length ≤ rounds →
      parseVectorElements tokens (before :: behind) opening elementType rounds program count unread =
        some (Bennu.parseVectorElements tokens (before :: behind) opening elementType rounds program count unread) := by
  induction rounds with
  | zero => exact fun _ _ unread some_left enough => absurd (List.length_eq_zero_iff.mp (Nat.le_zero.mp enough)) some_left
  | succ rounds ih =>
    intro program count unread some_left enough
    obtain ⟨element,rest,rfl⟩ := List.exists_cons_of_ne_nil some_left
    rw [parseVectorElements,Bennu.parseVectorElements]
    simp only [tokenAt_zero,Option.bind_eq_bind,Option.bind_some,insideVector_eq]
    by_cases scalar : isScalarToken element.kind = false
    · rw [if_pos scalar,if_pos scalar]
    rw [if_neg scalar,if_neg scalar]
    by_cases other : scalarTokenType element.kind ≠ elementType
    · rw [if_pos other,if_pos other]
    rw [if_neg other,if_neg other]
    cases rest with
    | nil => rfl
    | cons next later =>
      simp only [advance_one,Option.bind_some,atEnd_cons,tokenAt_zero,Bool.false_eq_true,if_false]
      by_cases closes : next.kind = .rightParenthesis
      · rw [if_pos closes,if_pos closes]
      rw [if_neg closes,if_neg closes]
      by_cases bracket : next.kind = .rightBracket
      · rw [if_pos bracket,if_pos bracket]
      rw [if_neg bracket,if_neg bracket]
      by_cases apart : isSeparator next = false
      · rw [if_pos apart,if_pos apart]
      rw [if_neg apart,if_neg apart,skipSeparators_eq]
      have skipped : Bennu.skipSeparators (next :: later) = Bennu.skipSeparators later := by
        simp [Bennu.skipSeparators,apart]
      have shorter := List.length_dropWhile_le isSeparator later
      rw [skipped,Option.bind_some]
      cases behind : Bennu.skipSeparators later with
      | nil => rfl
      | cons last rest =>
        simp only [advance_one,Option.bind_some,atEnd_cons,tokenAt_zero,Bool.false_eq_true,if_false]
        by_cases closes : last.kind = .rightParenthesis
        · rw [if_pos closes,if_pos closes]
        rw [if_neg closes,if_neg closes]
        by_cases bracket : last.kind = .rightBracket
        · rw [if_pos bracket,if_pos bracket]
        rw [if_neg bracket,if_neg bracket]
        refine ih _ _ _ (List.cons_ne_nil _ _) ?_
        rw [Bennu.skipSeparators] at behind
        rw [behind] at shorter
        simp only [List.length_cons] at enough shorter ⊢
        omega

theorem parseVectorLiteral_eq (tokens : RewriteTokens) (program : RewriteProgram) (opening : RewriteToken)
    (unread : List RewriteToken) :
    parseVectorLiteral tokens program (opening :: unread) =
      some (Bennu.parseVectorLiteral tokens program opening unread) := by
  rw [parseVectorLiteral,Bennu.parseVectorLiteral]
  simp only [tokenAt_zero,advance_one,skipSeparators_eq,Option.bind_eq_bind,Option.bind_some,insideVector_eq]
  cases Bennu.skipSeparators unread with
  | nil => rfl
  | cons first rest =>
    simp only [atEnd_cons,tokenAt_zero,Option.bind_some,Bool.false_eq_true,if_false]
    by_cases empty : first.kind = .rightParenthesis
    · rw [if_pos empty,if_pos empty]
    rw [if_neg empty,if_neg empty]
    by_cases bracket : first.kind = .rightBracket
    · rw [if_pos bracket,if_pos bracket]
    rw [if_neg bracket,if_neg bracket]
    by_cases scalar : isScalarToken first.kind = false
    · rw [if_pos scalar,if_pos scalar]
    have read := parseVectorElements_eq tokens opening unread opening (scalarTokenType first.kind)
      (first :: rest).length program 0 (first :: rest) (List.cons_ne_nil _ _) (Nat.le_refl _)
    rw [if_neg scalar,if_neg scalar,read,Option.bind_some]
    cases Bennu.parseVectorElements tokens (opening :: unread) opening (scalarTokenType first.kind)
      (first :: rest).length program 0 (first :: rest) <;> rfl

theorem parseDeclarations_eq (tokens : RewriteTokens) (keyword opening : RewriteToken) (rounds : Nat) :
    ∀ (declarations : List RewriteParameterDeclaration) (unread : List RewriteToken), unread.length < rounds →
      parseDeclarations tokens keyword opening rounds declarations unread =
        some (Bennu.parseDeclarations tokens keyword opening rounds declarations unread) := by
  induction rounds with
  | zero => exact fun _ _ enough => absurd enough (Nat.not_lt_zero _)
  | succ rounds ih =>
    intro declarations unread enough
    cases unread with
    | nil => rfl
    | cons name afterName =>
      simp only [parseDeclarations,Bennu.parseDeclarations,atEnd_cons,tokenAt_zero,advance_one,Option.bind_eq_bind,Option.bind_some,Bool.false_eq_true,if_false]
      by_cases closes : name.kind = .rightBracket
      · rw [if_pos closes,if_pos closes]
      rw [if_neg closes,if_neg closes]
      by_cases misspelled : parameterNameSpelling (rewriteTokenSpelling tokens name) = false
      · rw [if_pos misspelled,if_pos misspelled]
      rw [if_neg misspelled,if_neg misspelled]
      cases afterName with
      | nil => rfl
      | cons separator afterSeparator =>
        simp only [atEnd_cons,tokenAt_zero,Option.bind_some,Bool.false_eq_true,if_false]
        by_cases apart : isSeparator separator = false
        · rw [if_pos apart,if_pos apart]
          split <;> rfl
        have skipped : Bennu.skipSeparators (separator :: afterSeparator) = Bennu.skipSeparators afterSeparator := by
          simp [Bennu.skipSeparators,apart]
        have shorter := List.length_dropWhile_le isSeparator afterSeparator
        rw [if_neg apart,if_neg apart,skipSeparators_eq,skipped,Option.bind_some]
        cases behind : Bennu.skipSeparators afterSeparator with
        | nil => rfl
        | cons type afterType =>
          simp only [atEnd_cons,tokenAt_zero,advance_one,Option.bind_some,Bool.false_eq_true,if_false]
          rw [Bennu.skipSeparators] at behind
          rw [behind] at shorter
          simp only [List.length_cons] at enough shorter
          cases parameterType type.kind with
          | none =>
            dsimp only
            split <;> rfl
          | some scalarType =>
            dsimp only
            cases afterType with
            | nil => exact ih _ [] (by simp only [List.length_nil] at shorter ⊢; omega)
            | cons next later =>
              simp only [atEnd_cons,tokenAt_zero,Option.bind_some,Bool.false_eq_true,if_false]
              by_cases last : next.kind = .rightBracket ∨ isSeparator next = true
              · have goes : ¬(next.kind ≠ .rightBracket ∧ isSeparator next = false) := by
                  rintro ⟨other,apart⟩
                  exact last.elim other (by simp [apart])
                rw [if_pos last,if_neg goes,skipSeparators_eq,Option.bind_some]
                have rest := List.length_dropWhile_le isSeparator (next :: later)
                refine ih _ _ ?_
                rw [Bennu.skipSeparators]
                simp only [List.length_cons] at rest shorter
                omega
              · rw [if_neg last,if_pos (by simpa [not_or] using last)]

theorem parseParameterHeader_eq (tokens : RewriteTokens) (unread : List RewriteToken) :
    parseParameterHeader tokens unread = some (Bennu.parseParameterHeader tokens unread) := by
  rw [parseParameterHeader,Bennu.parseParameterHeader]
  simp only [skipSeparators_eq,Option.bind_eq_bind,Option.bind_some]
  cases Bennu.skipSeparators unread with
  | nil => rfl
  | cons keyword afterKeyword =>
    simp only [atEnd_cons,tokenAt_zero,Option.bind_some,Bool.false_eq_true,if_false]
    by_cases other : keyword.kind ≠ .name ∨ rewriteTokenSpelling tokens keyword ≠ "parameters".toList
    · rw [if_pos other,if_pos other]
    rw [if_neg other,if_neg other]
    cases afterKeyword with
    | nil => rfl
    | cons opening body =>
      rw [if_neg (by simp)]
      simp only [tokenAt_one,advance_two,Option.bind_some]
      by_cases open_missing : opening.kind ≠ .leftBracket
      · rw [if_pos open_missing,if_pos open_missing]
      have shorter := List.length_dropWhile_le isSeparator body
      have read := parseDeclarations_eq tokens keyword opening (body.length + 1) [] (Bennu.skipSeparators body)
        (Nat.lt_succ_of_le shorter)
      rw [if_neg open_missing,if_neg open_missing,read,Option.bind_some]
      cases Bennu.parseDeclarations tokens keyword opening (body.length + 1) [] (Bennu.skipSeparators body) with
      | error diagnostic => rfl
      | ok read =>
        simp only [skipHorizontalSpace_eq,Option.bind_some]
        cases Bennu.skipHorizontalSpace read.2.2 with
        | nil => rfl
        | cons next later =>
          simp only [atEnd_cons,tokenAt_zero,advance_one,Option.bind_some,Bool.false_eq_true,if_false]
          split <;> rfl

end accesses

/-! ### Pending arguments -/

section pending

variable {pending pending' : List RewritePendingArgument} {context : RewriteContext} {contexts : List RewriteContext}
  {ids nodes : List Nat} {low high : Nat}

theorem pendingNodes_chain (chain : Chain pending ids nodes) :
    ∀ rounds, ids.length ≤ rounds → pendingNodes pending rounds ids.head? = some nodes := by
  induction ids generalizing nodes with
  | nil =>
    intro rounds _
    cases nodes with
    | nil => cases rounds <;> rfl
    | cons => simp [Chain] at chain
  | cons id ids ih =>
    intro rounds enough
    cases nodes with
    | nil => simp [Chain] at chain
    | cons node nodes =>
      obtain ⟨rounds,rfl⟩ := Nat.exists_eq_succ_of_ne_zero (Nat.ne_of_gt (Nat.lt_of_lt_of_le (Nat.succ_pos _) enough))
      obtain ⟨entry,later⟩ := chain
      simp only [List.head?_cons,pendingNodes,entry,Option.bind_eq_bind,Option.bind_some]
      rw [ih later rounds (by simpa using enough),Option.bind_some]

theorem contextNodes_eq (linked : Linked pending low high context nodes) (bound : high ≤ pending.length) :
    contextNodes pending context = some (Bennu.contextNodes pending context) := by
  rw [linked.contextNodes bound]
  obtain ⟨ids,chain,increasing,bounds,first,_⟩ := linked
  have short := increasing_length ids high low increasing bounds
  rw [contextNodes,first]
  exact pendingNodes_chain chain _ (by omega)

theorem appendPendingArgument_eq (linked : Linked pending low high context nodes) (bound : high ≤ pending.length)
    (node : Nat) :
    appendPendingArgument pending context node = some (Bennu.appendPendingArgument pending context node) := by
  obtain ⟨ids,_,_,bounds,first,last,_⟩ := linked
  unfold appendPendingArgument Bennu.appendPendingArgument
  cases ids with
  | nil => rw [first]; rfl
  | cons id ids =>
    obtain ⟨final,finalIs⟩ : ∃ final, (id :: ids).getLast? = some final :=
      ⟨_,List.getLast?_eq_some_getLast (List.cons_ne_nil _ _)⟩
    have inside := (bounds final (List.mem_of_getLast? finalIs)).2
    have longer : final < (pending ++ [(⟨node,none⟩ : RewritePendingArgument)]).length := by
      rw [List.length_append]
      omega
    have found := List.getElem?_eq_getElem longer
    rw [first,last,finalIs]
    simp only [List.head?_cons,Option.bind_eq_bind,Option.bind_some,found]

theorem finishCall_eq (linked : Linked pending low high context nodes) (bound : high ≤ pending.length)
    (program : RewriteProgram) (closing complete : RewriteSpan) :
    finishCall program pending context closing complete =
      some (Bennu.finishCall program pending context closing complete) := by
  rw [finishCall,contextNodes_eq linked bound]
  rfl

theorem finishDelimited_eq (linked : Linked pending low high context nodes) (bound : high ≤ pending.length)
    (program : RewriteProgram) (closing : RewriteSpan) :
    finishDelimited program pending context closing =
      some (Bennu.finishDelimited program pending context closing) := by
  unfold finishDelimited Bennu.finishDelimited
  split
  · rw [finishTuple,contextNodes_eq linked bound]
    rfl
  · exact finishCall_eq linked bound _ _ _

/-- The contexts hold their arguments in entries of their own. -/
def Separate (pending : List RewritePendingArgument) : List RewriteContext → Nat → Prop
  | [],_ => True
  | context :: outer,high =>
    ∃ low ≤ high, (∃ nodes, Linked pending low high context nodes) ∧ Separate pending outer low

theorem Separate.of_stacked {source : Text} {base : ProgramShape} {layout : Layout} {frames : List Frame}
    (stacked : Stacked layout source pending base contexts frames high) : Separate pending contexts high := by
  induction contexts generalizing frames high with
  | nil => trivial
  | cons context contexts ih =>
    cases frames with
    | nil => exact stacked.elim
    | cons frame frames =>
      obtain ⟨-,low,order,linked,below⟩ := stacked
      exact ⟨low,order,⟨_,linked⟩,ih below⟩

theorem Separate.congr (separate : Separate pending contexts high)
    (same : ∀ id < high, pending'[id]? = pending[id]?) : Separate pending' contexts high := by
  induction contexts generalizing high with
  | nil => trivial
  | cons context contexts ih =>
    obtain ⟨low,order,⟨nodes,linked⟩,below⟩ := separate
    exact ⟨low,order,⟨nodes,linked.congr same⟩,ih below fun id less => same id (Nat.lt_of_lt_of_le less order)⟩

theorem Separate.raise (separate : Separate pending contexts low) (order : low ≤ high) :
    Separate pending contexts high := by
  cases contexts with
  | nil => trivial
  | cons context contexts =>
    obtain ⟨lowest,first,⟨nodes,ids,chain,increasing,bounds,rest⟩,below⟩ := separate
    exact ⟨lowest,Nat.le_trans first order,⟨nodes,ids,chain,increasing,fun id member =>
      ⟨(bounds id member).1,Nat.lt_of_lt_of_le (bounds id member).2 order⟩,rest⟩,below⟩

theorem Separate.linked (separate : Separate pending contexts high) (bound : high ≤ pending.length)
    (member : context ∈ contexts) :
    ∃ low high nodes, high ≤ pending.length ∧ Linked pending low high context nodes := by
  induction contexts generalizing high with
  | nil => cases member
  | cons first contexts ih =>
    obtain ⟨low,order,⟨nodes,linked⟩,below⟩ := separate
    rcases List.mem_cons.mp member with rfl | member
    · exact ⟨low,high,nodes,bound,linked⟩
    · exact ih below (Nat.le_trans order bound) member

/-- The first argument of a context is in the list. -/
theorem linked_first (linked : Linked pending low high context nodes) {index : Nat}
    (first : context.firstPendingArgument = some index) : ∃ entry, pending[index]? = some entry := by
  obtain ⟨ids,chain,-,-,firstIs,-⟩ := linked
  cases ids with
  | nil => simp [first] at firstIs
  | cons id ids =>
    cases nodes with
    | nil => exact chain.elim
    | cons node nodes =>
      rw [first,List.head?_cons,Option.some.injEq] at firstIs
      rw [firstIs]
      exact ⟨_,chain.1⟩

theorem fanoutOperand_eq {state : RewriteParseState}
    (separate : Separate state.pendingArguments state.contexts state.pendingArguments.length) :
    fanoutOperand state = some (Bennu.fanoutOperand state) := by
  unfold fanoutOperand Bennu.fanoutOperand
  cases found : state.contexts.find? (fun context => context.kind == .fanout) with
  | none => rfl
  | some context =>
    obtain ⟨low,high,nodes,_,linked⟩ := separate.linked (Nat.le_refl _) (List.mem_of_find?_eq_some found)
    dsimp only
    cases first : context.firstPendingArgument with
    | none => rfl
    | some index =>
      obtain ⟨entry,at_⟩ := linked_first linked first
      simp [at_]

end pending

/-! ### Placing an expression -/

section placing

@[simp] theorem popBack_cons {context : RewriteContext} {outer : List RewriteContext} :
    popBack (context :: outer) = some outer := rfl

/-- Folding is defined and leaves the contexts as separate as they were. -/
theorem foldPrefixCalls_eq (contexts : List RewriteContext) :
    ∀ (rounds : Nat) (state : RewriteParseState), contexts.length < rounds →
      Separate state.pendingArguments contexts state.pendingArguments.length →
      foldPrefixCalls rounds { state with contexts } = some (Bennu.foldPrefixCalls contexts state) ∧
        Separate (Bennu.foldPrefixCalls contexts state).pendingArguments
          (Bennu.foldPrefixCalls contexts state).contexts
          (Bennu.foldPrefixCalls contexts state).pendingArguments.length := by
  induction contexts with
  | nil =>
    intro rounds state enough _
    obtain ⟨rounds,rfl⟩ := Nat.exists_eq_succ_of_ne_zero (Nat.ne_of_gt enough)
    exact ⟨rfl,trivial⟩
  | cons context outer ih =>
    intro rounds state enough separate
    obtain ⟨rounds,rfl⟩ := Nat.exists_eq_succ_of_ne_zero (Nat.ne_of_gt (Nat.lt_of_le_of_lt (Nat.zero_le _) enough))
    obtain ⟨low,order,⟨nodes,linked⟩,below⟩ := separate
    rw [foldPrefixCalls,Bennu.foldPrefixCalls]
    simp only [List.isEmpty_cons,Bool.false_eq_true,if_false,List.head?_cons,Option.bind_eq_bind,Option.bind_some]
    by_cases isPrefix : context.kind = .prefixCall
    · rw [if_pos isPrefix,if_pos isPrefix]
      obtain ⟨appended,grown,kept,-⟩ := linked.append order (Nat.le_refl _) state.completedNode
      have call := finishCall_eq appended (Nat.le_refl _) state.program (insertionSpan context.separatorSpan.finish)
        ⟨context.nameSpan.begin,(state.program.spanOf state.completedNode).finish⟩
      rw [popBack_cons,Option.bind_some,appendPendingArgument_eq linked (Nat.le_refl _),Option.bind_some,call,
        Option.bind_some]
      let later := Bennu.appendPendingArgument state.pendingArguments context state.completedNode
      let program := Bennu.finishCall state.program later.1 later.2 (insertionSpan context.separatorSpan.finish)
        ⟨context.nameSpan.begin,(state.program.spanOf state.completedNode).finish⟩
      exact ih rounds
        { state with program, pendingArguments := later.1, completedNode := program.nodes.length - 1 }
        (by simpa using enough) ((below.congr kept).raise (by rw [grown]; omega))
    · rw [if_neg isPrefix,if_neg isPrefix]
      exact ⟨rfl,low,order,⟨nodes,linked⟩,below⟩

theorem placeExpression_eq {state : RewriteParseState}
    (separate : Separate state.pendingArguments state.contexts state.pendingArguments.length) :
    placeExpression state = some (Bennu.placeExpression state) := by
  obtain ⟨folded,after⟩ := foldPrefixCalls_eq state.contexts (state.contexts.length + 1) state
    (Nat.lt_succ_self _) separate
  rw [placeExpression,Bennu.placeExpression,folded]
  simp only [Option.bind_eq_bind,Option.bind_some]
  generalize Bennu.foldPrefixCalls state.contexts state = state at after
  obtain ⟨program,contexts,pending,unread,completed,haveExpression⟩ := state
  cases contexts with
  | nil =>
    simp only [List.isEmpty_nil,Bool.true_eq_false,if_false,skipHorizontalSpace_eq,Option.bind_some]
    cases Bennu.skipHorizontalSpace unread with
    | nil => rfl
    | cons token rest =>
      simp only [atEnd_cons,tokenAt_zero,advance_one,Option.bind_some,Bool.false_eq_true,if_false]
      split <;> rfl
  | cons context outer =>
    obtain ⟨low,order,⟨nodes,linked⟩,below⟩ := after
    simp only [List.isEmpty_cons,if_true,List.head?_cons,Option.bind_some,popBack_cons]
    rw [appendPendingArgument_eq linked (Nat.le_refl _)]
    rfl

end placing

/-! ### Inspecting a branch -/

section inspecting

variable {layout : Layout} {program : RewriteProgram}

theorem accesses_slice {values indexes : List Nat} {first count : Nat} (children : slice values first count = indexes)
    (long : indexes.length = count) : accesses values first count = some indexes := by
  rw [slice] at children
  simp [accesses,children,long]

theorem inspect_plain {index : Nat} {node : NodeShape} (rounds : Nat) (owned : Bool) (found : PlaceholderInspection)
    (at_ : program.shape.nodes[index]? = some node) (plain : node.kind ≠ .primitiveCall ∧ node.kind ≠ .tupleLiteral) :
    inspectBranchPlaceholder program (rounds + 1) index owned found =
      some (Bennu.inspectBranchPlaceholder program (rounds + 1) index owned found) := by
  obtain ⟨written,writtenAt,rfl⟩ := node_of_shape at_
  obtain ⟨notCall,notTuple⟩ := plain
  rw [inspectBranchPlaceholder,Bennu.inspectBranchPlaceholder,writtenAt]
  simp only [Option.bind_eq_bind,Option.bind_some]
  cases kind : written.kind <;> first | exact absurd kind notCall | exact absurd kind notTuple | rfl

mutual

/-- What is laid out is inspected without an undefined access, a round for each node on the way down. -/
theorem inspect_eq (program : RewriteProgram) : (tree : Expr) →
    ∀ {operand index} rounds owned found, Laid layout program.shape operand tree index → index < rounds →
      inspectBranchPlaceholder program rounds index owned found =
        some (Bennu.inspectBranchPlaceholder program rounds index owned found)
  | tree,_,_,0,_,_,_,less => absurd less (Nat.not_lt_zero _)
  | .scalar _,_,_,rounds + 1,owned,found,laid,_ =>
    inspect_plain rounds owned found laid (by simp [ProgramShape.scalarNode,ProgramShape.blank])
  | .vector _ _,_,_,rounds + 1,owned,found,⟨_,_,laid,_⟩,_ =>
    inspect_plain rounds owned found laid (by simp [ProgramShape.vectorNode,ProgramShape.blank])
  | .parameter _,_,_,rounds + 1,owned,found,laid,_ =>
    inspect_plain rounds owned found laid (by simp [ProgramShape.parameterNode,ProgramShape.blank])
  | .unresolved _,_,_,rounds + 1,owned,found,laid,_ =>
    inspect_plain rounds owned found laid (by simp [ProgramShape.blank])
  | .placeholder,_,_,rounds + 1,owned,found,laid,_ =>
    inspect_plain rounds owned found laid (by simp [ProgramShape.placeholderNode,ProgramShape.blank])
  | .fanout _ _,_,_,rounds + 1,owned,found,⟨_,_,_,_,laid,_⟩,_ =>
    inspect_plain rounds owned found laid (by simp [ProgramShape.fanoutNode,ProgramShape.blank])
  | .bracketCall _ arguments,_,index,rounds + 1,owned,found,⟨call,_,_,laid,calls,children,argumentsLaid⟩,less => by
    obtain ⟨written,at_,same⟩ := node_of_shape laid
    obtain ⟨record,recordAt,first,count⟩ := call_of_shape calls
    have kind : written.kind = .primitiveCall := congrArg NodeShape.kind same
    have callIndex : written.callIndex = call := congrArg NodeShape.callIndex same
    have read := accesses_slice children argumentsLaid.length
    rw [slice] at children
    simp only [inspectBranchPlaceholder,Bennu.inspectBranchPlaceholder,at_,kind,callIndex,recordAt,first,count,
      Option.bind_eq_bind,Option.bind_some]
    rw [show accesses program.arguments _ _ = _ from read,
      show (List.drop _ program.arguments).take _ = _ from children,Option.bind_some]
    exact inspectAll_eq program arguments rounds owned found argumentsLaid (Nat.le_of_lt_succ less)
  | .prefixCall _ argument,_,index,rounds + 1,owned,found,
      ⟨call,_,child,laid,calls,children,below,argumentLaid⟩,less => by
    obtain ⟨written,at_,same⟩ := node_of_shape laid
    obtain ⟨record,recordAt,first,count⟩ := call_of_shape calls
    have kind : written.kind = .primitiveCall := congrArg NodeShape.kind same
    have callIndex : written.callIndex = call := congrArg NodeShape.callIndex same
    have read := accesses_slice children rfl
    rw [slice] at children
    simp only [inspectBranchPlaceholder,Bennu.inspectBranchPlaceholder,at_,kind,callIndex,recordAt,first,count,
      Option.bind_eq_bind,Option.bind_some]
    rw [show accesses program.arguments _ _ = _ from read,
      show (List.drop _ program.arguments).take _ = _ from children,Option.bind_some]
    rw [List.foldlM_cons,List.foldl_cons,inspect_eq program argument rounds owned found argumentLaid
      (Nat.lt_of_lt_of_le below (Nat.le_of_lt_succ less))]
    rfl
  | .tuple elements,_,index,rounds + 1,owned,found,⟨first,_,laid,children,elementsLaid⟩,less => by
    obtain ⟨written,at_,same⟩ := node_of_shape laid
    have kind : written.kind = .tupleLiteral := congrArg NodeShape.kind same
    have firstElement : written.firstElement = first := congrArg NodeShape.firstElement same
    have count : written.elementCount = elements.length := congrArg NodeShape.elementCount same
    have read := accesses_slice children elementsLaid.length
    rw [slice] at children
    simp only [inspectBranchPlaceholder,Bennu.inspectBranchPlaceholder,at_,kind,firstElement,count,
      Option.bind_eq_bind,Option.bind_some]
    rw [show accesses program.tupleElements _ _ = _ from read,
      show (List.drop _ program.tupleElements).take _ = _ from children,Option.bind_some]
    exact inspectAll_eq program elements rounds true found elementsLaid (Nat.le_of_lt_succ less)

theorem inspectAll_eq (program : RewriteProgram) : (trees : List Expr) →
    ∀ {operand indexes bound} rounds owned found,
      LaidAll layout program.shape operand trees indexes bound → bound ≤ rounds →
      indexes.foldlM (fun found child => inspectBranchPlaceholder program rounds child owned found) found =
        some (indexes.foldl (fun found child => Bennu.inspectBranchPlaceholder program rounds child owned found) found)
  | [],_,[],_,_,_,_,_,_ => rfl
  | [],_,_ :: _,_,_,_,_,laid,_ => absurd laid (by simp [LaidAll])
  | _ :: _,_,[],_,_,_,_,laid,_ => absurd laid (by simp [LaidAll])
  | tree :: rest,_,index :: indexes,bound,rounds,owned,found,laid,enough => by
    simp only [LaidAll] at laid
    rw [List.foldlM_cons,List.foldl_cons,inspect_eq program tree rounds owned found laid.1.2
      (Nat.lt_of_lt_of_le laid.1.1 enough)]
    exact inspectAll_eq program rest rounds owned _ laid.2 enough

end

end inspecting

/-! ### Reading tokens -/

section reading

variable {tokens : RewriteTokens} {state : RewriteParseState} {token : RewriteToken} {rest : List RewriteToken}

theorem misplacedHeader_eq {program : RewriteProgram}
    (rooted : program.parameterHeader.present = true ∨ program.roots ≠ []) (token : RewriteToken) :
    misplacedHeader program token = some (Bennu.misplacedHeader program token) := by
  unfold misplacedHeader Bennu.misplacedHeader
  split
  · rfl
  · rename_i absent
    obtain ⟨root,roots,same⟩ := List.exists_cons_of_ne_nil (rooted.resolve_left absent)
    rw [same]
    rfl

theorem readFanoutKeyword_eq (unread : state.unread = token :: rest) :
    readFanoutKeyword tokens state token = some (Bennu.readFanoutKeyword tokens state token rest) := by
  unfold readFanoutKeyword Bennu.readFanoutKeyword
  split
  · rfl
  rw [unread]
  cases rest with
  | nil => rfl
  | cons opening later =>
    rw [if_neg (by simp)]
    simp only [tokenAt_one,advance_one,advance_two,Option.bind_eq_bind,Option.bind_some]
    split <;> rfl

theorem readEmptyVector_eq (unread : state.unread = token :: rest) (type : ScalarType) :
    readEmptyVector state token type = some (Bennu.readEmptyVector state token type rest) := by
  unfold readEmptyVector Bennu.readEmptyVector
  rw [unread]
  match rest with
  | [] => rfl
  | [_] => rfl
  | opening :: closing :: later =>
    rw [if_pos (by simp)]
    simp only [kindAt_one,tokenAt_two,advance_three,nextIs,Option.bind_eq_bind,Option.bind_some,beq_iff_eq]
    by_cases opens : opening.kind = .leftParenthesis
    · rw [if_pos opens]
      by_cases closes : closing.kind = .rightParenthesis
      · rw [if_pos closes,if_pos ⟨opens,closes⟩]
      · rw [if_neg closes,if_neg fun both => closes both.2]
    · rw [if_neg opens,if_neg fun both => opens both.1]

@[simp] theorem insideBracket_eq (contexts : List RewriteContext) :
    insideBracket contexts = some ((contexts.head?.map isBracketContext).getD false) := by
  cases contexts <;> rfl

@[simp] theorem nextSpan_eq (later : List RewriteToken) :
    nextSpan tokens later = some (Bennu.nextSpan tokens later) := by
  cases later <;> rfl

@[simp] theorem lineEnds_eq (later : List RewriteToken) :
    lineEnds later = some (later.isEmpty || nextIs .lineTerminator later) := by
  cases later with
  | nil => rfl
  | cons next later => simp [lineEnds]

/-- What a name that refers to no parameter does. -/
theorem readCallee_eq (tokens : RewriteTokens) (state : RewriteParseState) (token : RewriteToken) :
    ∀ rest, state.unread = token :: rest →
      readCallee tokens state token (nextIs .leftBracket rest) (nextIs .horizontalSpace rest) =
      some (match rest with
        | [] => .again (state.complete (state.program.addNode (blankNode .unresolvedName token.span)) rest)
        | next :: later =>
          if next.kind = .leftBracket then
            .again { state with
              contexts :=
                openContext .bracketCall token.span next.span (insertionSpan next.span.finish) rest :: state.contexts
              unread := Bennu.skipSeparators later }
          else if next.kind = .horizontalSpace then
            if later.isEmpty ∨ nextIs .lineTerminator later = true then
              .fail .expectedExpression (Bennu.nextSpan tokens later)
                ⟨token.span.begin,(Bennu.nextSpan tokens later).finish⟩ next.span
            else
              .again { state with
                contexts :=
                  openContext .prefixCall token.span (insertionSpan next.span.begin) next.span [] :: state.contexts
                unread := later }
          else .again (state.complete (state.program.addNode (blankNode .unresolvedName token.span)) rest)) := by
  intro rest unread
  unfold readCallee
  rw [unread]
  cases rest with
  | nil => rfl
  | cons next later =>
    have nextKind : ∀ kind, nextIs kind (next :: later) = (next.kind == kind) := fun _ => rfl
    simp only [nextKind,beq_iff_eq,tokenAt_one,advance_one,advance_two,skipSeparators_eq,lineEnds_eq,nextSpan_eq,
      Option.bind_eq_bind,Option.bind_some,Bool.or_eq_true]
    by_cases bracket : next.kind = .leftBracket
    · rw [if_pos bracket,if_pos bracket]
    rw [if_neg bracket,if_neg bracket]
    by_cases space : next.kind = .horizontalSpace
    · rw [if_pos space,if_pos space]
      by_cases ends : later.isEmpty = true ∨ nextIs .lineTerminator later = true
      · rw [if_pos ends,if_pos ends]
      · rw [if_neg ends,if_neg ends]
    · rw [if_neg space,if_neg space]

theorem readName_eq (unread : state.unread = token :: rest) :
    readName tokens state token = some (Bennu.readName tokens state token rest) := by
  unfold readName Bennu.readName
  dsimp only
  by_cases keyword : rewriteTokenSpelling tokens token = "fanout".toList
  · rw [if_pos keyword,if_pos keyword]
    exact readFanoutKeyword_eq unread
  rw [if_neg keyword,if_neg keyword,unread]
  simp only [Option.bind_eq_bind,insideBracket_eq,kindAt_one,Option.bind_some,advance_one]
  generalize (findParameter state.program (rewriteTokenSpelling tokens token)).bind _ = declared
  by_cases plain : nextIs .leftBracket rest = false ∧ ((state.contexts.head?.map isBracketContext).getD false = true ∨
      (state.contexts.isEmpty && nextIs .horizontalSpace rest) = false)
  · simp only [if_pos plain]
    cases declared with
    | some reference => rfl
    | none => exact readCallee_eq tokens state token rest unread
  · simp only [if_neg plain]
    exact readCallee_eq tokens state token rest unread

/-- The state has read a header or a root, or the token is none a header starts with. -/
def HeaderPlaced (tokens : RewriteTokens) (state : RewriteParseState) (token : RewriteToken) : Prop :=
  state.contexts = [] → token.kind = .name → rewriteTokenSpelling tokens token = "parameters".toList →
    state.program.parameterHeader.present = true ∨ state.program.roots ≠ []

theorem readToken_eq (unread : state.unread = token :: rest)
    (separate : Separate state.pendingArguments state.contexts state.pendingArguments.length)
    (placed : HeaderPlaced tokens state token) :
    readToken tokens state = some (Bennu.readToken tokens state) := by
  unfold readToken Bennu.readToken
  rw [unread]
  simp only [tokenAt_zero,Option.bind_eq_bind,Option.bind_some]
  split
  · rename_i header
    obtain ⟨outermost,name,spelled⟩ := header
    rw [misplacedHeader_eq (placed (List.isEmpty_iff.mp outermost) name spelled)]
    rfl
  · cases kind : token.kind with
    | leftParenthesis =>
      simp only [parseVectorLiteral_eq,Option.bind_some]
      cases Bennu.parseVectorLiteral tokens state.program token rest <;> rfl
    | boolType => exact readEmptyVector_eq unread _
    | intType => exact readEmptyVector_eq unread _
    | doubleType => exact readEmptyVector_eq unread _
    | name => exact readName_eq unread
    | placeholder =>
      simp only [fanoutOperand_eq separate,Option.bind_some]
      cases Bennu.fanoutOperand state <;> simp
    | _ => simp

end reading

/-! ### One round -/

section rounds

variable {tokens : RewriteTokens} {layout : Layout} {header : RewriteParameterHeader} {vocabulary : Vocabulary}
  {state : RewriteParseState} {machine : Machine} {context : RewriteContext} {contexts : List RewriteContext}
  {source : Text} {reached : Nat} {roots : List Expr} {remaining : List Lexeme} {outer : List Frame}

theorem laid_node {program : RewriteProgram} {operand : Option Nat} {tree : Expr} {index : Nat}
    (laid : Laid layout program.shape operand tree index) : ∃ node, program.nodes[index]? = some node := by
  have written : ∃ node, program.shape.nodes[index]? = some node := by
    cases tree with
    | vector => obtain ⟨_,_,laid,_⟩ := laid; exact ⟨_,laid⟩
    | bracketCall => obtain ⟨_,_,_,laid,_⟩ := laid; exact ⟨_,laid⟩
    | prefixCall => obtain ⟨_,_,_,laid,_⟩ := laid; exact ⟨_,laid⟩
    | tuple => obtain ⟨_,_,laid,_⟩ := laid; exact ⟨_,laid⟩
    | fanout => obtain ⟨_,_,_,_,laid,_⟩ := laid; exact ⟨_,laid⟩
    | scalar | parameter | unresolved | placeholder => exact ⟨_,laid⟩
  obtain ⟨node,at_⟩ := written
  obtain ⟨node,at_,-⟩ := node_of_shape at_
  exact ⟨node,at_⟩

theorem finishFanoutBranch_eq {body : Expr} (closing : RewriteToken) (rest : List RewriteToken)
    (simulates : Simulates tokens layout header state ⟨roots,.branch (some body) :: outer,none,remaining⟩)
    (contextsIs : state.contexts = context :: contexts)
    (allowed : vocabulary.FramesAllowed (.branch (some body) :: outer)) :
    finishFanoutBranch state closing rest = some (Bennu.finishFanoutBranch state context contexts closing rest) := by
  have stacked := simulates.stacked
  rw [contextsIs] at stacked
  obtain ⟨-,low,order,linked,below⟩ := stacked
  obtain ⟨bodyAllowed,⟨operand,branches,outer,rfl⟩,_⟩ := allowed
  cases contexts with
  | nil => exact below.elim
  | cons fanout contexts =>
    obtain ⟨-,fanoutLow,fanoutOrder,fanoutLinked,-⟩ := below
    have shape : state.program.shape = layout.emit
        (layout.reached roots (.fanout (some operand) branches :: outer)).2 body
        (layout.reached roots (.fanout (some operand) branches :: outer)).1 := simulates.tables rfl
    have laid : Laid layout state.program.shape
        (layout.reached roots (.fanout (some operand) branches :: outer)).2 body state.program.shape.last := by
      rw [shape]
      exact emit_laid layout body _ _ (bodyAllowed body rfl)
    have count : context.argumentCount = 1 := linked.argumentCount
    obtain ⟨entry,found,rootIs⟩ : ∃ entry, context.firstPendingArgument.bind (state.pendingArguments[·]?) = some entry ∧
        entry.node = state.program.shape.last := by
      rw [← Option.map_eq_some_iff,shape]
      exact linked.first
    obtain ⟨index,first,at_⟩ := Option.bind_eq_some_iff.mp found
    rw [← rootIs] at laid
    obtain ⟨node,nodeAt⟩ := laid_node laid
    have inspected := inspect_eq state.program body (entry.node + 1) false ⟨0,none,false⟩ laid (Nat.lt_succ_self _)
    have spanned := @inspect_firstSpan state.program (entry.node + 1) entry.node false
    have span : state.program.spanOf entry.node = node.span := by simp [RewriteProgram.spanOf,nodeAt]
    simp only [finishFanoutBranch,Bennu.finishFanoutBranch,contextsIs,List.head?_cons,popBack_cons,count,
      Nat.one_ne_zero,if_false,first,at_,inspected,nodeAt,span,Option.bind_eq_bind,Option.bind_some,
      Option.map_some,ne_eq,Option.some.injEq]
    generalize Bennu.inspectBranchPlaceholder state.program (entry.node + 1) entry.node false ⟨0,none,false⟩ =
      inspection at spanned
    split
    · rfl
    split
    · rfl
    rename_i single
    obtain ⟨placeholder,placeholderIs⟩ := Option.ne_none_iff_exists'.mp
      (spanned (by rw [not_not.mp single]; exact Nat.one_ne_zero))
    simp only [placeholderIs,Option.bind_some,Option.getD_some]
    split
    · rfl
    · rw [appendPendingArgument_eq fanoutLinked order]
      rfl

theorem readBranch_eq {body : Option Expr}
    (simulates : Simulates tokens layout header state ⟨roots,.branch body :: outer,none,remaining⟩)
    (contextsIs : state.contexts = context :: contexts)
    (allowed : vocabulary.FramesAllowed (.branch body :: outer)) :
    readBranch tokens state context = some (Bennu.readBranch tokens state context contexts) := by
  have separate := Separate.of_stacked simulates.stacked
  have stacked := simulates.stacked
  rw [contextsIs] at stacked
  have after : context.afterArgument = body.isSome := stacked.1.2
  unfold readBranch Bennu.readBranch
  rw [skipSeparators_eq]
  simp only [Option.bind_eq_bind,Option.bind_some,after]
  cases Bennu.skipSeparators state.unread with
  | nil => rfl
  | cons token rest =>
    simp only [atEnd_cons,tokenAt_zero,advance_one,Option.bind_some,Bool.false_eq_true,if_false]
    cases body with
    | some body =>
      simp only [Option.isSome_some,if_true]
      by_cases closes : token.kind = .rightBrace
      · rw [if_neg (not_not.mpr closes),if_pos closes]
        exact finishFanoutBranch_eq token rest simulates contextsIs allowed
      · rw [if_pos closes,if_neg closes]
    | none =>
      simp only [Option.isSome_none,Bool.false_eq_true,if_false]
      split
      · rfl
      · exact readToken_eq rfl separate fun outermost => absurd outermost (by simp [contextsIs])

theorem separatorNext_eq (unread : List RewriteToken) :
    separatorNext unread = some ((unread.head?.map isSeparator).getD false) := by
  cases unread <;> rfl

theorem readFanout_eq {operand : Option Expr} {branches : List Expr}
    (simulates : Simulates tokens layout header state ⟨roots,.fanout operand branches :: outer,none,remaining⟩)
    (contextsIs : state.contexts = context :: contexts) :
    readFanout tokens state context = some (Bennu.readFanout tokens state context contexts) := by
  have separate := Separate.of_stacked simulates.stacked
  have stacked := simulates.stacked
  rw [contextsIs] at stacked
  obtain ⟨⟨-,after,-⟩,low,order,linked,below⟩ := stacked
  unfold readFanout Bennu.readFanout
  rw [separatorNext_eq,skipSeparators_eq]
  simp only [Option.bind_eq_bind,Option.bind_some,after]
  cases Bennu.skipSeparators state.unread with
  | nil => rfl
  | cons token rest =>
    simp only [atEnd_cons,tokenAt_zero,advance_one,Option.bind_some,Bool.false_eq_true,if_false]
    cases operand with
    | none =>
      simp only [Option.isSome_none,Bool.false_eq_true,if_false]
      split
      · rfl
      · exact readToken_eq rfl separate fun outermost => absurd outermost (by simp [contextsIs])
    | some operand =>
      simp only [Option.isSome_some,if_true]
      by_cases closes : token.kind = .rightBracket
      · rw [if_pos closes,if_pos closes]
        split
        · rfl
        obtain ⟨entry,found,-⟩ := Option.map_eq_some_iff.mp linked.first
        obtain ⟨index,first,at_⟩ := Option.bind_eq_some_iff.mp found
        rw [contextsIs,popBack_cons,Option.bind_some,finishFanout,first]
        simp [Bennu.finishFanout,first,at_]
      · rw [if_neg closes,if_neg closes]
        split
        · rfl
        split <;> rfl

theorem closeDelimited_eq {token : RewriteToken} {rest : List RewriteToken}
    (separate : Separate state.pendingArguments state.contexts state.pendingArguments.length)
    (contextsIs : state.contexts = context :: contexts) (unread : state.unread = token :: rest) :
    closeDelimited state context token = some (Bennu.closeDelimited state context contexts token rest) := by
  rw [contextsIs] at separate
  obtain ⟨low,order,⟨nodes,linked⟩,below⟩ := separate
  rw [closeDelimited,unread,contextsIs,advance_one,popBack_cons,finishDelimited_eq linked (Nat.le_refl _)]
  rfl

theorem readElement_eq (separate : Separate state.pendingArguments state.contexts state.pendingArguments.length)
    (contextsIs : state.contexts = context :: contexts)
    (opened : context.kind = .tupleLiteral → context.openingTokens ≠ []) :
    readElement tokens state context = some (Bennu.readElement tokens state context contexts) := by
  unfold readElement Bennu.readElement
  rw [rewriteContextSpan_eq tokens opened]
  cases unread : state.unread with
  | nil => rfl
  | cons token rest =>
    simp only [atEnd_cons,tokenAt_zero,Option.bind_eq_bind,Option.bind_some,Bool.false_eq_true,if_false]
    by_cases closes : token.kind = .rightBracket
    · rw [if_pos closes,if_pos closes]
      exact closeDelimited_eq separate contextsIs unread
    rw [if_neg closes,if_neg closes]
    split
    · rfl
    · exact readToken_eq unread separate fun outermost => absurd outermost (by simp [contextsIs])

theorem readDelimited_eq (separate : Separate state.pendingArguments state.contexts state.pendingArguments.length)
    (contextsIs : state.contexts = context :: contexts)
    (opened : context.kind = .tupleLiteral → context.openingTokens ≠ []) :
    readDelimited tokens state context = some (Bennu.readDelimited tokens state context contexts) := by
  unfold readDelimited Bennu.readDelimited
  split
  · exact readElement_eq separate contextsIs opened
  rw [rewriteContextSpan_eq tokens opened]
  cases unread : state.unread with
  | nil => rfl
  | cons token rest =>
    simp only [atEnd_cons,tokenAt_zero,skipSeparators_eq,kindAt_zero,contextsIs,popBack_cons,Option.bind_eq_bind,
      Option.bind_some,Bool.false_eq_true,if_false]
    by_cases closes : token.kind = .rightBracket
    · rw [if_pos closes,if_pos closes]
      exact closeDelimited_eq separate contextsIs unread
    rw [if_neg closes,if_neg closes]
    by_cases apart : isSeparator token = true
    · have skipped : Bennu.skipSeparators (token :: rest) = Bennu.skipSeparators rest := by
        simp [Bennu.skipSeparators,apart]
      rw [if_pos apart,if_pos apart,skipped]
      split
      · rfl
      · exact readElement_eq (by rw [contextsIs] at separate; exact separate) rfl opened
    · rw [if_neg apart,if_neg apart]
      split <;> rfl

theorem parseStep_eq (simulates : Simulates tokens layout header state machine) (formed : vocabulary.Formed machine)
    (poised : Poised tokens source reached state) : parseStep tokens state = some (Bennu.parseStep tokens state) := by
  obtain ⟨roots,frames,current,remaining⟩ := machine
  have expression := simulates.expression
  have separate := Separate.of_stacked simulates.stacked
  unfold parseStep Bennu.parseStep
  cases current with
  | some tree =>
    rw [if_pos expression.1,if_pos expression.1]
    exact placeExpression_eq separate
  | none =>
    have idle : ¬state.haveExpression = true := by rw [expression.1]; exact Bool.false_ne_true
    rw [if_neg idle,if_neg idle]
    have stacked := simulates.stacked
    cases contextsIs : state.contexts with
    | nil =>
      simp only [List.isEmpty_nil,if_true,skipSeparators_eq,Option.bind_eq_bind,Option.bind_some]
      cases skipped : Bennu.skipSeparators state.unread with
      | nil => rfl
      | cons token rest =>
        simp only [atEnd_cons,Bool.false_eq_true,if_false]
        rw [contextsIs] at separate
        refine readToken_eq rfl separate fun _ name spelled => ?_
        rcases poised.rooted with present | rooted | inside | placed | unlike
        · exact .inl present
        · exact .inr rooted
        · exact absurd contextsIs inside
        · exact absurd placed idle
        · exact absurd spelled (unlike token (by rw [skipped]; rfl) name)
    | cons context contexts =>
      have opened := (poised.located.contexts context (by simp [contextsIs])).opened
      rw [contextsIs] at stacked
      cases frames with
      | nil => exact stacked.elim
      | cons frame frames =>
        have contextOf := stacked.1
        simp only [List.isEmpty_cons,Bool.false_eq_true,if_false,List.head?_cons,Option.bind_eq_bind,
          Option.bind_some]
        cases frame with
        | bracketCall name trees after =>
          rw [contextOf.1]
          exact readDelimited_eq separate contextsIs opened
        | tuple trees after =>
          rw [contextOf.1]
          exact readDelimited_eq separate contextsIs opened
        | prefixCall =>
          rw [contextOf.1]
          obtain ⟨token,rest,unread⟩ := List.exists_cons_of_ne_nil
            (poised.waiting expression.1 context (by simp [contextsIs]) contextOf.1)
          exact readToken_eq unread separate fun outermost => absurd outermost (by simp [contextsIs])
        | fanout =>
          rw [contextOf.1]
          exact readFanout_eq simulates contextsIs
        | branch =>
          rw [contextOf.1]
          exact readBranch_eq simulates contextsIs formed.frames

/-- A branch lies on its fanout. -/
theorem branch_based (simulates : Simulates tokens layout header state machine) (formed : vocabulary.Formed machine) :
    ∀ branch outer, state.contexts = branch :: outer → branch.kind = .fanoutBranch →
      ∀ fanout ∈ outer.head?, fanout.kind ≠ .prefixCall := by
  intro branch outer contextsIs kind fanout first
  have stacked := simulates.stacked
  have allowed := formed.frames
  rw [contextsIs] at stacked
  cases frames : machine.frames with
  | nil => rw [frames] at stacked; exact stacked.elim
  | cons frame below =>
    rw [frames] at stacked allowed
    obtain ⟨contextOf,low,order,linked,rest⟩ := stacked
    cases frame with
    | branch body =>
      obtain ⟨-,⟨operand,branches,inner,rfl⟩,-⟩ := allowed
      cases outer with
      | nil => exact rest.elim
      | cons under outer =>
        cases first
        rw [rest.1.1]
        decide
    | bracketCall | tuple | prefixCall | fanout => rw [contextOf.1] at kind; cases kind

/-- The main loop ends, no access of it is undefined, and its diagnostic points into the source. -/
theorem parseLoop_total (leaves : vocabulary.leaves = true) (declared : vocabulary.declared = header.names)
    (types : layout.types = header.declarations.map (·.type)) (ends : Counted source tokens.finish) (fuel : Nat) :
    ∀ (state : RewriteParseState) (machine : Machine) (reached : Nat), Simulates tokens layout header state machine →
      vocabulary.Formed machine → Poised tokens source reached state → machine.measure < fuel →
      ∃ result, parseLoop tokens fuel state = some result ∧ Bennu.parseLoop tokens fuel state = some result ∧
        Locates source (fun _ => True) result := by
  induction fuel with
  | zero => exact fun _ _ _ _ _ _ enough => absurd enough (Nat.not_lt_zero _)
  | succ fuel ih =>
    intro state machine reached simulates formed poised enough
    have follows := parseStep_follows types simulates formed
    have proceeds := parseStep_proceeds ends poised (branch_based simulates formed)
    rw [parseLoop,Bennu.parseLoop,parseStep_eq simulates formed poised,Option.bind_eq_bind,Option.bind_some]
    cases parsed : Bennu.parseStep tokens state with
    | done result =>
      rw [parsed] at proceeds
      exact ⟨result,rfl,rfl,proceeds⟩
    | again state' =>
      rw [parsed] at follows proceeds
      obtain ⟨reached,poised⟩ := proceeds
      cases moved : machine.step header.names with
      | again later =>
        rw [moved] at follows
        have less := Machine.step_measure moved
        exact ih state' later reached follows
          (Vocabulary.step_formed leaves formed (by rw [declared]; exact moved)) poised (by omega)
      | accept roots => rw [moved] at follows; exact follows.elim
      | reject => rw [moved] at follows; exact follows.elim

end rounds

/-! ### Whole sources -/

/-- Where no header has been read, the text does not start like one. -/
theorem parseParameterHeader_unlike {tokens : RewriteTokens} {unread rest : List RewriteToken}
    {header : RewriteParameterHeader} (read : Bennu.parseParameterHeader tokens unread = .ok (header,rest)) :
    header.present = true ∨ ∀ token ∈ (Bennu.skipSeparators rest).head?, token.kind = .name →
      rewriteTokenSpelling tokens token ≠ "parameters".toList := by
  unfold Bennu.parseParameterHeader at read
  split at read
  · rename_i blank
    cases read
    rw [blank]
    exact .inr nofun
  rename_i keyword afterKeyword skipped
  split at read
  · rename_i other
    cases read
    rw [skipped]
    right
    intro token first name
    cases first
    exact other.resolve_left (not_not.mpr name)
  left
  split at read
  · cases read
  split at read
  · cases read
  split at read
  · cases read
  dsimp only at read
  split at read
  · cases read
    rfl
  split at read
  · cases read
  · cases read
    rfl

/-- For every source the parser ends and none of its accesses is undefined: each token is
read below the end of the table, and no front, back or pending argument is taken where there
is none. What it rejects with spans part of the source, its ends counted from the start. -/
theorem parseRewrite_total (parser : RewriteDoubleParser) (source : Text) :
    ∃ result, parseRewrite parser source = some result ∧ Bennu.parseRewrite parser source = some result ∧
      ∀ diagnostic, result = .error diagnostic →
        1 ≤ diagnostic.primary.begin.offset ∧
        diagnostic.primary.begin.offset ≤ diagnostic.primary.finish.offset ∧
        diagnostic.primary.finish.offset ≤ source.length + 1 ∧
        Counted source diagnostic.primary.begin ∧ Counted source diagnostic.primary.finish := by
  suffices total : ∃ result, parseRewrite parser source = some result ∧
      Bennu.parseRewrite parser source = some result ∧ Locates source (fun _ => True) result by
    obtain ⟨result,checked,parsed,located⟩ := total
    refine ⟨result,checked,parsed,?_⟩
    rintro diagnostic rfl
    obtain ⟨first,last,order⟩ := located
    exact ⟨first.bounds.1,order,last.bounds.2,first,last⟩
  have lexed := tokenizeRewrite_lexed parser source
  obtain ⟨counted,_,finish⟩ := lexed.counted [] sourcePosition_nil.symm
  have ends : Counted source (tokenizeRewrite parser source).finish := by
    rw [finish]
    have whole := @Counted.of_append source []
    rwa [List.append_nil] at whole
  have located := parseParameterHeader_locates ends (lexed.tiles.ahead counted)
  unfold parseRewrite Bennu.parseRewrite
  simp only [parseParameterHeader_eq,Option.bind_eq_bind,Option.bind_some]
  cases read : Bennu.parseParameterHeader (tokenizeRewrite parser source) (tokenizeRewrite parser source).tokens with
  | error diagnostic =>
    rw [read] at located
    exact ⟨.error diagnostic,rfl,rfl,located⟩
  | ok parsed =>
    obtain ⟨header,unread⟩ := parsed
    rw [read] at located
    obtain ⟨simulates,formed⟩ := simulates_initial parser source read
    refine parseLoop_total rfl rfl rfl ends _ _ _ 1 simulates formed
      ⟨⟨located,?_,?_,?_⟩,?_,?_,?_⟩ ?_
    · intro node member
      cases member
    · intro node member
      cases member
    · intro context member
      cases member
    · intro completed
      cases completed
    · intro _ context member
      cases member
    · exact (parseParameterHeader_unlike read).imp_right fun unlike => .inr (.inr (.inr unlike))
    · simp [Machine.measure,parseFuel,lexemes]

end Bennu.Checked
