import Bennu.Parser
import Bennu.TokenTiling

/-! The spans of the parser point into the source: what it reads lies ahead of what it has
reached, every node and context spans part of what it has reached, and so does what it
rejects with. -/
namespace Bennu

/-- A span whose ends say their lines and columns, the first not behind the last. -/
def Placed (source : Text) (span : RewriteSpan) : Prop :=
  Counted source span.begin ∧ Counted source span.finish ∧ span.begin.offset ≤ span.finish.offset

/-- Tokens in order, none before the offset reached. -/
def Upcoming (source : Text) : Nat → List RewriteToken → Prop
  | _,[] => True
  | reached,token :: rest =>
    reached ≤ token.span.begin.offset ∧ Placed source token.span ∧ Upcoming source token.span.finish.offset rest

/-- What a reader gives back is good, or its diagnostic points into the source. -/
def Locates {α : Type} (source : Text) (good : α → Prop) : Except RewriteDiagnostic α → Prop
  | .error diagnostic => Placed source diagnostic.primary
  | .ok value => good value

section tokens

variable {source : Text} {position : RewritePosition} {token : RewriteToken} {unread rest : List RewriteToken}
  {reached later : Nat} {begin finish : RewritePosition}

theorem Placed.insertion (counted : Counted source position) : Placed source (insertionSpan position) :=
  ⟨counted,counted,Nat.le_refl _⟩

theorem Upcoming.mono (ahead : Upcoming source later unread) (order : reached ≤ later) : Upcoming source reached unread := by
  cases unread with
  | nil => trivial
  | cons token rest => exact ⟨Nat.le_trans order ahead.1,ahead.2⟩

theorem Upcoming.tail (ahead : Upcoming source reached (token :: rest)) : Upcoming source reached rest :=
  ahead.2.2.mono (Nat.le_trans ahead.1 ahead.2.1.2.2)

theorem Upcoming.dropWhile (ahead : Upcoming source reached unread) (skips : RewriteToken → Bool) :
    Upcoming source reached (unread.dropWhile skips) := by
  induction unread with
  | nil => trivial
  | cons token rest ih =>
    rw [List.dropWhile_cons]
    split
    · exact ih ahead.tail
    · exact ahead

theorem Upcoming.skip (ahead : Upcoming source reached unread) : Upcoming source reached (skipSeparators unread) :=
  ahead.dropWhile _

/-- Tokens that tile part of the source lie ahead of where they begin. -/
theorem Tiles.ahead (tiles : Tiles begin unread finish)
    (counted : ∀ token ∈ unread, Counted source token.span.begin ∧ Counted source token.span.finish) :
    Upcoming source begin.offset unread := by
  induction unread generalizing begin with
  | nil => trivial
  | cons token rest ih =>
    obtain ⟨rfl,grows,tiles⟩ := tiles
    obtain ⟨first,last⟩ := counted token List.mem_cons_self
    exact ⟨Nat.le_refl _,⟨first,last,Nat.le_of_lt grows⟩,
      ih tiles fun other member => counted other (List.mem_cons_of_mem _ member)⟩

end tokens

/-! ### Vectors and the header -/

section literals

variable {tokens : RewriteTokens} {source : Text} {unread : List RewriteToken} {opening keyword : RewriteToken}
  {reached : Nat}

theorem appendVectorElement_nodes (program : RewriteProgram) (token : RewriteToken) (type : ScalarType) :
    (appendVectorElement program token type).nodes = program.nodes := by
  cases type <;> rfl

theorem parseVectorElements_locates (ends : Counted source tokens.finish) (openingTokens : List RewriteToken)
    (opening : RewriteToken) (type : ScalarType) (fuel : Nat) :
    ∀ program count unread, Upcoming source reached unread →
      Locates source (fun elements => elements.program.nodes = program.nodes ∧
          Upcoming source reached (elements.closing :: elements.rest))
        (parseVectorElements tokens openingTokens opening type fuel program count unread) := by
  have missing : Placed source (missingVectorClose tokens opening).primary := .insertion ends
  induction fuel with
  | zero => exact fun _ _ _ _ => missing
  | succ fuel ih =>
    intro program count unread ahead
    cases unread with
    | nil => exact missing
    | cons element rest =>
      simp only [parseVectorElements]
      split
      · exact ahead.2.1
      split
      · exact ahead.2.1
      have afterElement := ahead.tail
      have kept := appendVectorElement_nodes program element type
      cases rest with
      | nil => exact missing
      | cons next more =>
        dsimp only
        split
        · exact ⟨kept,afterElement⟩
        split
        · exact afterElement.2.1
        split
        · exact afterElement.2.1
        have skipped := afterElement.tail.skip
        cases later : skipSeparators more with
        | nil => exact missing
        | cons last rest =>
          rw [later] at skipped
          dsimp only
          split
          · exact ⟨kept,skipped⟩
          split
          · exact skipped.2.1
          · rw [← kept]
            exact ih _ _ _ skipped

theorem parseVectorLiteral_locates (ends : Counted source tokens.finish) (program : RewriteProgram)
    (ahead : Upcoming source reached (opening :: unread)) :
    Locates source (fun parsed => ∃ node, parsed.1.nodes = program.nodes ++ [node] ∧ Placed source node.span ∧
        reached ≤ node.span.finish.offset ∧ Upcoming source node.span.finish.offset parsed.2)
      (parseVectorLiteral tokens program opening unread) := by
  obtain ⟨near,placed,rest⟩ := ahead
  have skipped := rest.skip
  unfold parseVectorLiteral
  cases later : skipSeparators unread with
  | nil => exact .insertion ends
  | cons first rest =>
    rw [later] at skipped
    dsimp only
    split
    · exact ⟨placed.1,skipped.2.1.2.1,Nat.le_trans placed.2.2 (Nat.le_trans skipped.1 skipped.2.1.2.2)⟩
    split
    · exact skipped.2.1
    split
    · exact skipped.2.1
    have read := parseVectorElements_locates ends (opening :: unread) opening (scalarTokenType first.kind)
      (first :: rest).length program 0 (first :: rest) skipped
    revert read
    generalize parseVectorElements tokens (opening :: unread) opening (scalarTokenType first.kind)
      (first :: rest).length program 0 (first :: rest) = parsed
    intro read
    cases parsed with
    | error diagnostic => exact read
    | ok elements =>
      obtain ⟨kept,beyond,closing,behind⟩ := read
      have order := Nat.le_trans beyond closing.2.2
      refine ⟨vectorNode program ⟨opening.span.begin,elements.closing.span.finish⟩ (scalarTokenType first.kind)
        elements.elementCount,?_,⟨placed.1,closing.2.1,Nat.le_trans placed.2.2 order⟩,
        Nat.le_trans near (Nat.le_trans placed.2.2 order),behind⟩
      show elements.program.nodes ++ _ = _
      rw [kept]

theorem parseDeclarations_locates (ends : Counted source tokens.finish) (fuel : Nat) :
    ∀ declarations unread, Upcoming source reached unread →
      Locates source (fun read => Upcoming source reached read.2.2)
        (parseDeclarations tokens keyword opening fuel declarations unread) := by
  induction fuel with
  | zero => exact fun _ unread _ => by cases unread <;> exact .insertion ends
  | succ fuel ih =>
    intro declarations unread ahead
    cases unread with
    | nil => exact .insertion ends
    | cons name afterName =>
      simp only [parseDeclarations]
      split
      · exact ahead.tail
      split
      · exact ahead.2.1
      split
      · exact .insertion ends
      rename_i separator afterSeparator
      have behind := ahead.tail
      split
      · split
        · exact .insertion behind.2.1.1
        · exact behind.2.1
      have skipped := behind.tail.skip
      split
      · exact .insertion ends
      rename_i type afterType later
      rw [later] at skipped
      split
      · split
        · exact .insertion skipped.2.1.1
        · exact skipped.2.1
      split
      · exact ih _ _ trivial
      split
      · exact ih _ _ skipped.tail.skip
      · exact skipped.tail.2.1

theorem parseParameterHeader_locates (ends : Counted source tokens.finish) (ahead : Upcoming source reached unread) :
    Locates source (fun read => Upcoming source reached read.2) (parseParameterHeader tokens unread) := by
  have skipped := ahead.skip
  unfold parseParameterHeader
  split
  · exact ahead
  rename_i keyword afterKeyword later
  rw [later] at skipped
  split
  · exact ahead
  split
  · exact .insertion ends
  rename_i opening body
  split
  · exact skipped.tail.2.1
  have read := @parseDeclarations_locates _ _ opening keyword _ ends (body.length + 1) [] _ skipped.tail.tail.skip
  split
  · rename_i rejected
    rw [rejected] at read
    exact read
  rename_i declarations closing afterClosing accepted
  rw [accepted] at read
  have spaces : Upcoming source reached (skipHorizontalSpace afterClosing) := read.dropWhile _
  dsimp only
  split
  · trivial
  rename_i next more behind
  rw [behind] at spaces
  split
  · exact spaces.2.1
  · exact spaces.tail

end literals

/-! ### Pending arguments and placeholders -/

section arguments

variable {program : RewriteProgram}

theorem appendPendingArgument_nodes (pending : List RewritePendingArgument) (context : RewriteContext) (node : Nat) :
    (appendPendingArgument pending context node).1.map (·.node) = pending.map (·.node) ++ [node] := by
  have linked : ∀ (entries : List RewritePendingArgument) index next,
      (setNext entries index next).map (·.node) = entries.map (·.node) := by
    intro entries index next
    apply List.ext_getElem
    · simp [setNext]
    · intro k inside _
      simp only [setNext,List.getElem_map,List.getElem_modify]
      split <;> rfl
  unfold appendPendingArgument
  dsimp only
  split
  · simp
  · simp
  · rw [linked]
    simp

/-- Appending an argument leaves where a context stands. -/
theorem appendPendingArgument_context (pending : List RewritePendingArgument) (context : RewriteContext) (node : Nat) :
    ∃ first last count, (appendPendingArgument pending context node).2 =
      { context with firstPendingArgument := first, lastPendingArgument := last, argumentCount := count } := by
  unfold appendPendingArgument
  dsimp only
  split <;> exact ⟨_,_,_,rfl⟩

/-- What finding a placeholder keeps, an inspection keeps. -/
theorem inspect_keeps {keeps : PlaceholderInspection → Prop}
    (finds : ∀ found owned, ∀ node ∈ program.nodes, keeps found →
      keeps ⟨found.count + 1,found.firstSpan <|> some node.span,found.hasOwnedPosition || owned⟩) (rounds : Nat) :
    ∀ index owned found, keeps found → keeps (inspectBranchPlaceholder program rounds index owned found) := by
  induction rounds with
  | zero => exact fun _ _ _ kept => kept
  | succ rounds ih =>
    have all : ∀ (indexes : List Nat) owned found, keeps found →
        keeps (indexes.foldl (fun found child => inspectBranchPlaceholder program rounds child owned found) found) := by
      intro indexes owned
      induction indexes with
      | nil => exact fun _ kept => kept
      | cons index indexes later => exact fun found kept => later _ (ih index owned found kept)
    intro index owned found kept
    rw [inspectBranchPlaceholder]
    split
    · exact kept
    rename_i node at_
    split
    · exact finds found owned node (List.mem_of_getElem? at_) kept
    · split
      · exact kept
      · exact all _ _ _ kept
    · exact all _ _ _ kept
    · exact kept

/-- What has counted a placeholder has its span. -/
theorem inspect_firstSpan (rounds index : Nat) (owned : Bool) :
    (inspectBranchPlaceholder program rounds index owned ⟨0,none,false⟩).count ≠ 0 →
      (inspectBranchPlaceholder program rounds index owned ⟨0,none,false⟩).firstSpan ≠ none := by
  apply @inspect_keeps program fun found => found.count ≠ 0 → found.firstSpan ≠ none
  · intro found owned node _ _ _
    cases found.firstSpan <;> simp
  · exact fun counted => absurd rfl counted

theorem inspect_placed {source : Text} (placed : ∀ node ∈ program.nodes, Placed source node.span)
    (rounds index : Nat) (owned : Bool) :
    ∀ span ∈ (inspectBranchPlaceholder program rounds index owned ⟨0,none,false⟩).firstSpan, Placed source span := by
  apply @inspect_keeps program fun found => ∀ span ∈ found.firstSpan, Placed source span
  · intro found owned node member before span found_
    cases first : found.firstSpan with
    | none =>
      simp only [first,Option.orElse_eq_orElse,Option.orElse_eq_or,Option.none_or,Option.mem_def,Option.some.injEq] at found_
      exact found_ ▸ placed node member
    | some other =>
      simp only [first,Option.orElse_eq_orElse,Option.orElse_eq_or,Option.some_or,Option.mem_def,Option.some.injEq] at found_
      exact before span (by rw [first,found_]; rfl)
  · exact fun span impossible => nomatch impossible

end arguments

/-! ### States -/

/-- A context begins in what has been reached; a tuple has the tokens from its bracket on. -/
structure Begun (source : Text) (reached : Nat) (context : RewriteContext) : Prop where
  name : Counted source context.nameSpan.begin
  named : context.nameSpan.begin.offset ≤ reached
  opening : Counted source context.openingSpan.begin
  opens : context.openingSpan.begin.offset ≤ reached
  opened : context.kind = .tupleLiteral → context.openingTokens ≠ []

/-- Where the tokens, the nodes and the contexts of a state stand. -/
structure Located (source : Text) (reached : Nat) (state : RewriteParseState) : Prop where
  upcoming : Upcoming source reached state.unread
  nodes : ∀ node ∈ state.program.nodes, Placed source node.span
  pending : ∀ node ∈ state.pendingArguments.map (·.node), node < state.program.nodes.length
  contexts : ∀ context ∈ state.contexts, Begun source reached context

/-- A state between two rounds: a completed node spans to what has been reached, a prefix
call that waits has a token left, and a header is in its place. -/
structure Poised (tokens : RewriteTokens) (source : Text) (reached : Nat) (state : RewriteParseState) : Prop where
  located : Located source reached state
  expression : state.haveExpression = true →
    ∃ node, state.program.nodes[state.completedNode]? = some node ∧ reached ≤ node.span.finish.offset
  waiting : state.haveExpression = false → ∀ context ∈ state.contexts.head?, context.kind = .prefixCall →
    state.unread ≠ []
  rooted : state.program.parameterHeader.present = true ∨ state.program.roots ≠ [] ∨ state.contexts ≠ [] ∨
    state.haveExpression = true ∨ ∀ token ∈ (skipSeparators state.unread).head?, token.kind = .name →
      rewriteTokenSpelling tokens token ≠ "parameters".toList

/-- A round goes on from a state that is ready for it or ends with a span of the source. -/
def Proceeds (tokens : RewriteTokens) (source : Text) : RewriteParseProgress → Prop
  | .again state => ∃ reached, Poised tokens source reached state
  | .done result => Locates source (fun _ => True) result

section states

variable {tokens : RewriteTokens} {source : Text} {state : RewriteParseState} {program : RewriteProgram}
  {reached later : Nat} {token : RewriteToken} {unread rest : List RewriteToken} {node : RewriteNode}
  {context : RewriteContext} {contexts : List RewriteContext}

theorem Begun.mono (begun : Begun source reached context) (order : reached ≤ later) : Begun source later context where
  name := begun.name
  named := Nat.le_trans begun.named order
  opening := begun.opening
  opens := Nat.le_trans begun.opens order
  opened := begun.opened

theorem Located.skip (located : Located source reached state) :
    Located source reached { state with unread := skipSeparators state.unread } :=
  { located with upcoming := located.upcoming.skip }

theorem Located.spanOf (located : Located source reached state) {index : Nat}
    (inside : index < state.program.nodes.length) : Placed source (state.program.spanOf index) := by
  rw [RewriteProgram.spanOf,List.getElem?_eq_getElem inside]
  exact located.nodes _ (List.getElem_mem inside)

/-- A node that reaches farther completes an expression. -/
theorem Located.complete (located : Located source reached state)
    (grown : program.nodes = state.program.nodes ++ [node]) (placed : Placed source node.span)
    (farther : reached ≤ node.span.finish.offset) (upcoming : Upcoming source node.span.finish.offset rest)
    (kept : ∀ context ∈ contexts, context ∈ state.contexts) :
    Proceeds tokens source (.again (({ state with contexts } : RewriteParseState).complete program rest)) := by
  refine ⟨node.span.finish.offset,⟨upcoming,?_,?_,?_⟩,?_,?_,.inr (.inr (.inr (.inl rfl)))⟩
  · intro other member
    rw [RewriteParseState.complete,grown] at member
    rcases List.mem_append.mp member with member | member
    · exact located.nodes other member
    · rw [List.mem_singleton.mp member]
      exact placed
  · intro index member
    rw [RewriteParseState.complete,grown,List.length_append]
    exact Nat.lt_add_right _ (located.pending index member)
  · exact fun context member => (located.contexts context (kept context member)).mono farther
  · intro _
    refine ⟨node,?_,Nat.le_refl _⟩
    simp [RewriteParseState.complete,grown]
  · exact fun idle => nomatch idle

/-- A context is opened at tokens that have been reached. -/
theorem Located.push (located : Located source reached state) (idle : state.haveExpression = false)
    (begun : Begun source later context) (farther : reached ≤ later) (upcoming : Upcoming source later rest)
    (waiting : context.kind = .prefixCall → rest ≠ []) :
    Proceeds tokens source (.again { state with contexts := context :: state.contexts, unread := rest }) := by
  refine ⟨later,⟨upcoming,located.nodes,located.pending,?_⟩,?_,?_,.inr (.inr (.inl (List.cons_ne_nil _ _)))⟩
  · intro other member
    rcases List.mem_cons.mp member with rfl | member
    · exact begun
    · exact (located.contexts other member).mono farther
  · intro expression
    rw [show state.haveExpression = true from expression] at idle
    cases idle
  · intro _ other found
    cases found
    exact waiting

end states

/-! ### One round -/

section rounds

variable {tokens : RewriteTokens} {source : Text} {state : RewriteParseState} {reached : Nat} {token : RewriteToken}
  {unread rest : List RewriteToken} {context : RewriteContext} {contexts : List RewriteContext}

/-- A node that spans the token read completes an expression. -/
theorem Located.read (located : Located source reached state) (unread : state.unread = token :: rest)
    {node : RewriteNode} (spans : node.span = token.span) :
    Proceeds tokens source (.again (state.complete (state.program.addNode node) rest)) := by
  obtain ⟨near,placed,behind⟩ := unread ▸ located.upcoming
  have farther := Nat.le_trans near placed.2.2
  exact located.complete rfl (spans ▸ placed) (spans ▸ farther) (spans ▸ behind) fun _ member => member

theorem readFanoutKeyword_proceeds (ends : Counted source tokens.finish) (located : Located source reached state)
    (idle : state.haveExpression = false) (unread : state.unread = token :: rest) :
    Proceeds tokens source (readFanoutKeyword tokens state token rest) := by
  obtain ⟨near,placed,behind⟩ := unread ▸ located.upcoming
  unfold readFanoutKeyword
  split
  · exact placed
  split
  · exact .insertion ends
  rename_i opening later
  obtain ⟨between,opens,beyond⟩ := behind
  split
  · exact opens
  refine located.push idle ⟨placed.1,?_,opens.1,opens.2.2,nofun⟩ ?_ beyond nofun
  · exact Nat.le_trans placed.2.2 (Nat.le_trans between opens.2.2)
  · exact Nat.le_trans near (Nat.le_trans placed.2.2 (Nat.le_trans between opens.2.2))

theorem readName_proceeds (ends : Counted source tokens.finish) (located : Located source reached state)
    (idle : state.haveExpression = false) (unread : state.unread = token :: rest) :
    Proceeds tokens source (readName tokens state token rest) := by
  have upcoming := unread ▸ located.upcoming
  obtain ⟨near,placed,behind⟩ := upcoming
  unfold readName
  dsimp only
  split
  · exact readFanoutKeyword_proceeds ends located idle unread
  split
  · exact located.read unread rfl
  cases rest with
  | nil => exact located.read unread rfl
  | cons next later =>
    obtain ⟨between,nextPlaced,beyond⟩ := behind
    have passed := Nat.le_trans placed.2.2 between
    have farther := Nat.le_trans near passed
    dsimp only
    split
    · refine located.push idle ⟨placed.1,?_,nextPlaced.1,nextPlaced.2.2,nofun⟩
        (Nat.le_trans farther nextPlaced.2.2) beyond.skip nofun
      exact Nat.le_trans passed nextPlaced.2.2
    split
    · split
      · cases later with
        | nil => exact .insertion ends
        | cons following more => exact beyond.2.1
      · rename_i goesOn
        have some_left : later ≠ [] := fun none => goesOn (.inl (by rw [none]; rfl))
        refine located.push idle ⟨placed.1,?_,nextPlaced.1,nextPlaced.2.2,nofun⟩
          (Nat.le_trans farther nextPlaced.2.2) beyond fun _ => some_left
        exact Nat.le_trans passed nextPlaced.2.2
    · exact located.read unread rfl

theorem readEmptyVector_proceeds (located : Located source reached state) (unread : state.unread = token :: rest)
    (type : ScalarType) : Proceeds tokens source (readEmptyVector state token type rest) := by
  have upcoming := unread ▸ located.upcoming
  obtain ⟨near,placed,behind⟩ := upcoming
  unfold readEmptyVector
  split
  · rename_i opening closing later
    split
    · obtain ⟨between,closes,beyond⟩ := behind.tail
      have order := Nat.le_trans placed.2.2 (Nat.le_trans between closes.2.2)
      exact located.complete rfl ⟨placed.1,closes.2.1,order⟩ (Nat.le_trans near order) beyond fun _ member => member
    · exact placed
  · exact placed

theorem readToken_proceeds (ends : Counted source tokens.finish) (located : Located source reached state)
    (idle : state.haveExpression = false) : Proceeds tokens source (readToken tokens state) := by
  unfold readToken
  split
  · exact .insertion ends
  rename_i token rest unread
  have upcoming := unread ▸ located.upcoming
  have placed := upcoming.2.1
  split
  · unfold misplacedHeader
    split <;> exact placed
  split
  · exact located.read unread rfl
  · exact located.read unread rfl
  · exact located.read unread rfl
  · refine located.push idle ⟨placed.1,placed.2.2,placed.1,placed.2.2,fun _ => ?_⟩
      (Nat.le_trans upcoming.1 placed.2.2) upcoming.2.2.skip nofun
    rw [unread]
    exact List.cons_ne_nil _ _
  · have read := parseVectorLiteral_locates ends state.program upcoming
    split
    · rename_i rejected
      rw [rejected] at read
      exact read
    · rename_i accepted
      rw [accepted] at read
      obtain ⟨node,grown,nodePlaced,farther,beyond⟩ := read
      exact located.complete grown nodePlaced farther beyond fun _ member => member
  · exact readEmptyVector_proceeds located unread _
  · exact readEmptyVector_proceeds located unread _
  · exact readEmptyVector_proceeds located unread _
  · exact readName_proceeds ends located idle unread
  · split
    · exact placed
    · exact located.read unread rfl
  all_goals exact placed

/-- Folding keeps where things stand and leaves a completed node on no prefix call. -/
theorem foldPrefixCalls_located (contexts : List RewriteContext) :
    ∀ (state : RewriteParseState) node, Located source reached { state with contexts } →
      state.program.nodes[state.completedNode]? = some node → reached ≤ node.span.finish.offset →
      let folded := foldPrefixCalls contexts state
      Located source reached folded ∧ folded.completedNode < folded.program.nodes.length ∧
        ∀ context ∈ folded.contexts.head?, context.kind ≠ .prefixCall := by
  induction contexts with
  | nil =>
    intro state node located found _
    exact ⟨located,(List.getElem?_eq_some_iff.mp found).1,fun _ none => nomatch none⟩
  | cons context outer ih =>
    intro state node located found farther
    rw [foldPrefixCalls]
    split
    · have begun := located.contexts context List.mem_cons_self
      have placed := located.nodes node (List.mem_of_getElem? found)
      have span : state.program.spanOf state.completedNode = node.span := by rw [RewriteProgram.spanOf,found]; rfl
      let call := { blankNode .primitiveCall
        ⟨context.nameSpan.begin,(state.program.spanOf state.completedNode).finish⟩ with
        callIndex := state.program.calls.length }
      have ends : call.span.finish = node.span.finish := by
        show (state.program.spanOf state.completedNode).finish = node.span.finish
        rw [span]
      have callPlaced : Placed source call.span := by
        refine ⟨begun.name,?_⟩
        rw [ends]
        exact ⟨placed.2.1,Nat.le_trans begun.named farther⟩
      refine ih _ call ⟨located.upcoming,?_,?_,?_⟩ ?_ ?_
      · intro other member
        rcases List.mem_append.mp member with member | member
        · exact located.nodes other member
        · rw [List.mem_singleton.mp member]
          exact callPlaced
      · intro index member
        have less : index < state.program.nodes.length := by
          rw [appendPendingArgument_nodes] at member
          rcases List.mem_append.mp member with member | member
          · exact located.pending index member
          · rw [List.mem_singleton.mp member]
            exact (List.getElem?_eq_some_iff.mp found).1
        simp only [finishCall,List.length_append]
        omega
      · exact fun other member => located.contexts other (List.mem_cons_of_mem _ member)
      · simp [finishCall,call]
      · rw [ends]
        exact farther
    · rename_i other
      refine ⟨located,(List.getElem?_eq_some_iff.mp found).1,fun first same => ?_⟩
      cases same
      exact other

/-- A context takes an argument that is in the table. -/
theorem Located.take (located : Located source reached state) {node : Nat}
    (inside : node < state.program.nodes.length) {context : RewriteContext} (begun : Begun source reached context)
    (notPrefix : context.kind ≠ .prefixCall) (kept : ∀ other ∈ contexts, other ∈ state.contexts)
    {program : RewriteProgram} (same : program.nodes = state.program.nodes)
    (upcoming : Upcoming source reached rest) {completedNode : Nat} :
    let appended := appendPendingArgument state.pendingArguments context node
    Proceeds tokens source (.again ⟨program,{ appended.2 with afterArgument := true } :: contexts,appended.1,rest,
      completedNode,false⟩) := by
  obtain ⟨first,last,count,context_⟩ := appendPendingArgument_context state.pendingArguments context node
  refine ⟨reached,⟨upcoming,same ▸ located.nodes,?_,?_⟩,nofun,?_,.inr (.inr (.inl (List.cons_ne_nil _ _)))⟩
  · intro index member
    rw [appendPendingArgument_nodes] at member
    rw [same]
    rcases List.mem_append.mp member with member | member
    · exact located.pending index member
    · rw [List.mem_singleton.mp member]
      exact inside
  · intro other member
    rcases List.mem_cons.mp member with rfl | member
    · rw [context_]
      exact ⟨begun.name,begun.named,begun.opening,begun.opens,begun.opened⟩
    · exact located.contexts other (kept other member)
  · intro _ other found isPrefix
    cases found
    rw [context_] at isPrefix
    exact absurd isPrefix notPrefix

theorem placeExpression_proceeds (poised : Poised tokens source reached state)
    (expression : state.haveExpression = true) : Proceeds tokens source (placeExpression state) := by
  obtain ⟨node,found,farther⟩ := poised.expression expression
  obtain ⟨located,inside,notPrefix⟩ := foldPrefixCalls_located state.contexts state node poised.located found farther
  unfold placeExpression
  dsimp only
  generalize foldPrefixCalls state.contexts state = folded at located inside notPrefix
  obtain ⟨program,contexts,pending,unread,completed,haveExpression⟩ := folded
  cases contexts with
  | cons context outer =>
    exact located.take inside (located.contexts context List.mem_cons_self) (notPrefix context rfl)
      (fun _ member => List.mem_cons_of_mem _ member) rfl located.upcoming
  | nil =>
    have spaces : Upcoming source reached (skipHorizontalSpace unread) := located.upcoming.dropWhile _
    dsimp only
    split
    · trivial
    rename_i token rest skipped
    rw [skipped] at spaces
    split
    · exact ⟨reached,⟨spaces.tail,located.nodes,located.pending,nofun⟩,nofun,
        (fun _ _ none => nomatch none),.inr (.inl (by simp))⟩
    · exact spaces.2.1

theorem finishFanoutBranch_proceeds (located : Located source reached state)
    (contextsIs : state.contexts = context :: contexts) (idle : state.haveExpression = false)
    (upcoming : Upcoming source reached (token :: rest))
    (based : ∀ fanout ∈ contexts.head?, fanout.kind ≠ .prefixCall) :
    Proceeds tokens source (finishFanoutBranch state context contexts token rest) := by
  unfold finishFanoutBranch
  dsimp only
  split
  · exact .insertion upcoming.2.1.1
  rename_i entry found
  have member : entry ∈ state.pendingArguments := by
    split at found
    · cases found
    · obtain ⟨index,-,at_⟩ := Option.bind_eq_some_iff.mp found
      exact List.mem_of_getElem? at_
  have inside := located.pending entry.node (List.mem_map_of_mem member)
  have root := located.spanOf inside
  have inspected := inspect_placed located.nodes (entry.node + 1) entry.node false
  have first : Placed source ((inspectBranchPlaceholder state.program (entry.node + 1) entry.node false
      ⟨0,none,false⟩).firstSpan.getD (state.program.spanOf entry.node)) := by
    revert inspected
    cases (inspectBranchPlaceholder state.program (entry.node + 1) entry.node false ⟨0,none,false⟩).firstSpan with
    | none => exact fun _ => root
    | some span => exact fun placed => placed span rfl
  split
  · exact root
  split
  · exact first
  split
  · exact first
  split
  · exact root
  rename_i fanout outer
  have member : ∀ other ∈ fanout :: outer, other ∈ state.contexts := by
    rw [contextsIs]
    exact fun _ member => List.mem_cons_of_mem _ member
  rw [idle]
  refine located.take inside (located.contexts fanout (member fanout List.mem_cons_self)) (based fanout rfl)
    (fun other inner => member other (List.mem_cons_of_mem _ inner)) ?_ upcoming.tail
  rfl

theorem readBranch_proceeds (ends : Counted source tokens.finish) (located : Located source reached state)
    (idle : state.haveExpression = false) (contextsIs : state.contexts = context :: contexts)
    (based : ∀ fanout ∈ contexts.head?, fanout.kind ≠ .prefixCall) :
    Proceeds tokens source (readBranch tokens state context contexts) := by
  have skipped := located.upcoming.skip
  unfold readBranch
  split
  · exact .insertion ends
  rename_i token rest later
  rw [later] at skipped
  dsimp only
  split
  · split
    · exact finishFanoutBranch_proceeds located contextsIs idle skipped based
    · exact skipped.2.1
  split
  · exact .insertion skipped.2.1.1
  · exact readToken_proceeds ends { located with upcoming := skipped } idle

theorem readFanout_proceeds (ends : Counted source tokens.finish) (located : Located source reached state)
    (idle : state.haveExpression = false) (contextsIs : state.contexts = context :: contexts) :
    Proceeds tokens source (readFanout tokens state context contexts) := by
  have skipped := located.upcoming.skip
  have begun := located.contexts context (by rw [contextsIs]; exact List.mem_cons_self)
  unfold readFanout
  split
  · exact .insertion ends
  rename_i token rest later
  rw [later] at skipped
  obtain ⟨near,placed,behind⟩ := skipped
  have farther := Nat.le_trans near placed.2.2
  dsimp only
  split
  · split
    · split
      · exact .insertion placed.1
      · exact located.complete rfl ⟨begun.name,placed.2.1,Nat.le_trans begun.named farther⟩ farther behind
          fun other member => contextsIs ▸ List.mem_cons_of_mem _ member
    split
    · exact placed
    split
    · exact placed
    · exact located.push idle ⟨placed.1,placed.2.2,placed.1,placed.2.2,nofun⟩ farther behind nofun
  split
  · exact .insertion placed.1
  · exact readToken_proceeds ends { located with upcoming := ⟨near,placed,behind⟩ } idle

theorem closeDelimited_proceeds (located : Located source reached state) (begun : Begun source reached context)
    (kept : ∀ other ∈ contexts, other ∈ state.contexts) (upcoming : Upcoming source reached (token :: rest)) :
    Proceeds tokens source (closeDelimited state context contexts token rest) := by
  obtain ⟨near,placed,behind⟩ := upcoming
  have farther := Nat.le_trans near placed.2.2
  unfold closeDelimited finishDelimited
  split
  · exact located.complete rfl ⟨begun.opening,placed.2.1,Nat.le_trans begun.opens farther⟩ farther behind kept
  · exact located.complete rfl ⟨begun.name,placed.2.1,Nat.le_trans begun.named farther⟩ farther behind kept

theorem readElement_proceeds (ends : Counted source tokens.finish) (located : Located source reached state)
    (idle : state.haveExpression = false) (contextsIs : state.contexts = context :: contexts) :
    Proceeds tokens source (readElement tokens state context contexts) := by
  have begun := located.contexts context (by rw [contextsIs]; exact List.mem_cons_self)
  have kept : ∀ other ∈ contexts, other ∈ state.contexts := by
    rw [contextsIs]
    exact fun _ member => List.mem_cons_of_mem _ member
  unfold readElement
  split
  · exact .insertion ends
  rename_i token rest unread
  have upcoming := unread ▸ located.upcoming
  split
  · exact closeDelimited_proceeds located begun kept upcoming
  split
  · exact upcoming.2.1
  · exact readToken_proceeds ends located idle

theorem readDelimited_proceeds (ends : Counted source tokens.finish) (located : Located source reached state)
    (idle : state.haveExpression = false) (contextsIs : state.contexts = context :: contexts)
    (notPrefix : context.kind ≠ .prefixCall) :
    Proceeds tokens source (readDelimited tokens state context contexts) := by
  have begun := located.contexts context (by rw [contextsIs]; exact List.mem_cons_self)
  have kept : ∀ other ∈ contexts, other ∈ state.contexts := by
    rw [contextsIs]
    exact fun _ member => List.mem_cons_of_mem _ member
  unfold readDelimited
  split
  · exact readElement_proceeds ends located idle contextsIs
  split
  · exact .insertion ends
  rename_i token rest unread
  have upcoming := unread ▸ located.upcoming
  have skipped := upcoming.tail.skip
  split
  · exact closeDelimited_proceeds located begun kept upcoming
  split
  · dsimp only
    split
    · refine ⟨reached,{ located with upcoming := skipped },?_,?_,.inr (.inr (.inl (by simp [contextsIs])))⟩
      · intro expression
        rw [show state.haveExpression = true from expression] at idle
        cases idle
      · intro _ other found isPrefix
        rw [show state.contexts = context :: contexts from contextsIs] at found
        cases found
        exact absurd isPrefix notPrefix
    · -- The separator has been read: the context waits for an element again.
      refine readElement_proceeds ends ⟨skipped,located.nodes,located.pending,?_⟩ idle rfl
      intro other member
      rcases List.mem_cons.mp member with rfl | member
      · exact ⟨begun.name,begun.named,begun.opening,begun.opens,begun.opened⟩
      · exact located.contexts other (kept other member)
  split <;> exact upcoming.2.1

/-- A round proceeds; what a branch lies on takes the branch. -/
theorem parseStep_proceeds (ends : Counted source tokens.finish) (poised : Poised tokens source reached state)
    (based : ∀ branch outer, state.contexts = branch :: outer → branch.kind = .fanoutBranch →
      ∀ fanout ∈ outer.head?, fanout.kind ≠ .prefixCall) : Proceeds tokens source (parseStep tokens state) := by
  have located := poised.located
  unfold parseStep
  split
  · rename_i expression
    exact placeExpression_proceeds poised expression
  rename_i waiting
  have idle : state.haveExpression = false := Bool.eq_false_iff.mpr waiting
  split
  · split
    · trivial
    · rename_i token rest skipped
      have upcoming := located.upcoming.skip
      rw [skipped] at upcoming
      exact readToken_proceeds ends { located with upcoming } idle
  rename_i context outer contextsIs
  split
  · rename_i branch
    exact readBranch_proceeds ends located idle contextsIs (based context outer contextsIs branch)
  · exact readFanout_proceeds ends located idle contextsIs
  · rename_i bracket
    exact readDelimited_proceeds ends located idle contextsIs (by rw [bracket]; decide)
  · rename_i tuple
    exact readDelimited_proceeds ends located idle contextsIs (by rw [tuple]; decide)
  · exact readToken_proceeds ends located idle

end rounds

end Bennu
