import Bennu.Lexing

/-! The parser without its tables: the same rounds on lexemes, with the trees read so far
in place of node indices and pending links. -/
namespace Bennu

/-- A context together with the trees it has collected. -/
inductive Frame where
  | bracketCall (name : Text) (arguments : List Expr) (after : Bool)
  | tuple (elements : List Expr) (after : Bool)
  | prefixCall (name : Text)
  | fanout (operand : Option Expr) (branches : List Expr)
  | branch (body : Option Expr)
  deriving Repr

structure Machine where
  roots : List Expr
  /-- The innermost frame first. -/
  frames : List Frame
  current : Option Expr
  unread : List Lexeme

inductive MachineProgress where
  | again (machine : Machine)
  | accept (roots : List Expr)
  | reject

def Lexeme.isSeparator : Lexeme → Bool
  | .horizontalSpace | .lineTerminator => true
  | _ => false

def skipBlank (unread : List Lexeme) : List Lexeme := unread.dropWhile Lexeme.isSeparator

def skipSpaces (unread : List Lexeme) : List Lexeme :=
  unread.dropWhile fun lexeme => lexeme == .horizontalSpace

def Frame.isFanout : Frame → Bool
  | .fanout _ _ | .branch _ => true
  | _ => false

def Frame.isBracket : Frame → Bool
  | .bracketCall _ _ _ | .tuple _ _ => true
  | _ => false

/-- The frame after its next tree has been read. -/
def Frame.take (tree : Expr) : Frame → Frame
  | .bracketCall name arguments _ => .bracketCall name (arguments ++ [tree]) true
  | .tuple elements _ => .tuple (elements ++ [tree]) true
  | .prefixCall name => .prefixCall name
  | .fanout _ branches => .fanout (some tree) branches
  | .branch _ => .branch (some tree)

/-- A placeholder may stand here: the innermost fanout has its operand. -/
def operandRead : List Frame → Bool
  | [] => false
  | .fanout operand _ :: _ => operand.isSome
  | _ :: outer => operandRead outer

def foldPrefix : List Frame → Expr → List Frame × Expr
  | .prefixCall name :: outer,tree => foldPrefix outer (.prefixCall name tree)
  | frames,tree => (frames,tree)

def readElements (type : ScalarType) : Nat → List Lexeme → Option (List Literal × List Lexeme)
  | 0,_ | _ + 1,[] => none
  | fuel + 1,lexeme :: rest =>
    match lexeme with
    | .literal literal =>
      if literal.type ≠ type then none
      else
        match rest with
        | [] => none
        | next :: later =>
          if next = .rightParenthesis then some ([literal],later)
          else if next.isSeparator = false then none
          else
            match skipBlank later with
            | [] => none
            | next :: later =>
              if next = .rightParenthesis then some ([literal],later)
              else
                (readElements type fuel (next :: later)).map fun read =>
                  (literal :: read.1,read.2)
    | _ => none

def readVector (unread : List Lexeme) : Option (Expr × List Lexeme) :=
  match skipBlank unread with
  | .literal first :: rest =>
    (readElements first.type (rest.length + 1) (.literal first :: rest)).map fun read =>
      (.vector first.type read.1,read.2)
  | _ => none

namespace Machine

def complete (machine : Machine) (tree : Expr) (unread : List Lexeme) : Machine :=
  { machine with current := some tree, unread }

def push (machine : Machine) (frame : Frame) (unread : List Lexeme) : Machine :=
  { machine with frames := frame :: machine.frames, unread }

def place (machine : Machine) (tree : Expr) : MachineProgress :=
  match foldPrefix machine.frames tree with
  | (frame :: outer,tree) =>
    .again { machine with frames := frame.take tree :: outer, current := none }
  | ([],tree) =>
    match skipSpaces machine.unread with
    | [] => .accept (machine.roots ++ [tree])
    | lexeme :: rest =>
      if lexeme = .lineTerminator then
        .again ⟨machine.roots ++ [tree],[],none,rest⟩
      else .reject

def readFanoutKeyword (machine : Machine) (rest : List Lexeme) : MachineProgress :=
  if machine.frames.any Frame.isFanout then .reject
  else
    match rest with
    | [] => .reject
    | lexeme :: later =>
      if lexeme ≠ .leftBracket then .reject
      else .again (machine.push (.fanout none []) later)

/-- The declared parameter a name refers to, unless a call begins here. -/
def reference (declared : List Text) (machine : Machine) (name : Text)
    (rest : List Lexeme) : Option Nat :=
  let insideBracket := (machine.frames.head?.map Frame.isBracket).getD false
  let rootPrefix := machine.frames.isEmpty && rest.head? == some .horizontalSpace
  if rest.head? ≠ some .leftBracket ∧ (insideBracket = true ∨ rootPrefix = false) then
    declared.findIdx? (· == name)
  else none

def readName (declared : List Text) (machine : Machine) (name : Text)
    (rest : List Lexeme) : MachineProgress :=
  if name = "fanout".toList then machine.readFanoutKeyword rest
  else
    match machine.reference declared name rest with
    | some index => .again (machine.complete (.parameter index) rest)
    | none =>
      match rest with
      | [] => .again (machine.complete (.unresolved name) rest)
      | next :: later =>
        if next = .leftBracket then
          .again (machine.push (.bracketCall name [] false) (skipBlank later))
        else if next = .horizontalSpace then
          if later = [] ∨ later.head? = some .lineTerminator then .reject
          else .again (machine.push (.prefixCall name) later)
        else .again (machine.complete (.unresolved name) rest)

def readEmptyVector (machine : Machine) (type : ScalarType) (rest : List Lexeme) :
    MachineProgress :=
  match rest with
  | opening :: closing :: later =>
    if opening = .leftParenthesis ∧ closing = .rightParenthesis then
      .again (machine.complete (.vector type []) later)
    else .reject
  | _ => .reject

def readToken (declared : List Text) (machine : Machine) : MachineProgress :=
  match machine.unread with
  | [] => .reject
  | lexeme :: rest =>
    if machine.frames.isEmpty ∧ lexeme = .name "parameters".toList then .reject
    else
      match lexeme with
      | .literal literal => .again (machine.complete (.scalar literal) rest)
      | .leftBracket => .again (machine.push (.tuple [] false) (skipBlank rest))
      | .leftParenthesis =>
        match readVector rest with
        | none => .reject
        | some (tree,unread) => .again (machine.complete tree unread)
      | .typeName type => machine.readEmptyVector type rest
      | .name name => machine.readName declared name rest
      | .placeholder =>
        if operandRead machine.frames then .again (machine.complete .placeholder rest)
        else .reject
      | _ => .reject

def closeBranch (machine : Machine) (body : Expr) (outer : List Frame)
    (rest : List Lexeme) : MachineProgress :=
  match outer with
  | .fanout operand branches :: outer =>
    if body.isBranch then
      .again { machine with
        frames := .fanout operand (branches ++ [body]) :: outer, unread := rest }
    else .reject
  | _ => .reject

def readBranch (declared : List Text) (machine : Machine) (body : Option Expr)
    (outer : List Frame) : MachineProgress :=
  match skipBlank machine.unread with
  | [] => .reject
  | lexeme :: rest =>
    match body with
    | some body =>
      if lexeme = .rightBrace then machine.closeBranch body outer rest else .reject
    | none =>
      if lexeme = .rightBrace then .reject
      else ({ machine with unread := lexeme :: rest } : Machine).readToken declared

def readFanout (declared : List Text) (machine : Machine) (operand : Option Expr)
    (branches : List Expr) (outer : List Frame) : MachineProgress :=
  match skipBlank machine.unread with
  | [] => .reject
  | lexeme :: rest =>
    match operand with
    | some operand =>
      if lexeme = .rightBracket then
        if branches.isEmpty then .reject
        else
          .again (({ machine with frames := outer } : Machine).complete
            (.fanout operand branches) rest)
      else if lexeme ≠ .leftBrace then .reject
      else if (machine.unread.head?.map Lexeme.isSeparator).getD false = false then .reject
      else .again (machine.push (.branch none) rest)
    | none =>
      if lexeme = .rightBracket then .reject
      else ({ machine with unread := lexeme :: rest } : Machine).readToken declared

def close (machine : Machine) (tree : Expr) (outer : List Frame) (rest : List Lexeme) :
    MachineProgress :=
  .again (({ machine with frames := outer } : Machine).complete tree rest)

/-- Inside brackets: `closed` is the tree if the bracket is closed here. -/
def readElement (declared : List Text) (machine : Machine) (closed : Expr)
    (outer : List Frame) : MachineProgress :=
  match machine.unread with
  | [] => .reject
  | lexeme :: rest =>
    if lexeme = .rightBracket then machine.close closed outer rest
    else if lexeme = .rightParenthesis then .reject
    else machine.readToken declared

/-- Inside brackets; `reopened` is the frame once a separator has followed its last tree. -/
def readDelimited (declared : List Text) (machine : Machine) (closed : Expr)
    (reopened : Frame) (after : Bool) (outer : List Frame) : MachineProgress :=
  if after = false then machine.readElement declared closed outer
  else
    match machine.unread with
    | [] => .reject
    | lexeme :: rest =>
      if lexeme = .rightBracket then machine.close closed outer rest
      else if lexeme.isSeparator then
        if (skipBlank rest).head? = some .rightBracket then
          .again { machine with unread := skipBlank rest }
        else
          ({ machine with unread := skipBlank rest, frames := reopened :: outer } :
            Machine).readElement declared closed outer
      else .reject

def step (declared : List Text) (machine : Machine) : MachineProgress :=
  match machine.current with
  | some tree => machine.place tree
  | none =>
    match machine.frames with
    | [] =>
      match skipBlank machine.unread with
      | [] => .accept machine.roots
      | lexeme :: rest =>
        ({ machine with unread := lexeme :: rest } : Machine).readToken declared
    | .branch body :: outer => machine.readBranch declared body outer
    | .fanout operand branches :: outer => machine.readFanout declared operand branches outer
    | .bracketCall name arguments after :: outer =>
      machine.readDelimited declared (.bracketCall name arguments)
        (.bracketCall name arguments false) after outer
    | .tuple elements after :: outer =>
      machine.readDelimited declared (.tuple elements) (.tuple elements false) after outer
    | .prefixCall _ :: _ => machine.readToken declared

/-- The machine reads all of its lexemes and ends with these roots. -/
inductive Accepts (declared : List Text) : Machine → List Expr → Prop
  | accept {machine : Machine} {trees : List Expr} : machine.step declared = .accept trees →
      Accepts declared machine trees
  | again {machine later : Machine} {trees : List Expr} : machine.step declared = .again later →
      Accepts declared later trees → Accepts declared machine trees

/-- The machine has one run. -/
theorem Accepts.unique {declared : List Text} {machine : Machine} {trees others : List Expr}
    (left : Accepts declared machine trees) (right : Accepts declared machine others) :
    trees = others := by
  induction left with
  | accept step =>
    cases right with
    | accept other => rw [step] at other; cases other; rfl
    | again other _ => rw [step] at other; contradiction
  | again step _ ih =>
    cases right with
    | accept other => rw [step] at other; contradiction
    | again other later => rw [step] at other; cases other; exact ih later

/-- The two contexts a closing square bracket ends. -/
inductive Bracket where
  | call (name : Text)
  | tuple

def Bracket.frame (bracket : Bracket) (collected : List Expr) (after : Bool) : Frame :=
  match bracket with
  | .call name => .bracketCall name collected after
  | .tuple => .tuple collected after

def Bracket.tree (bracket : Bracket) (collected : List Expr) : Expr :=
  match bracket with
  | .call name => .bracketCall name collected
  | .tuple => .tuple collected

theorem Bracket.step {roots : List Expr} {outer : List Frame} {rest : List Lexeme}
    (bracket : Bracket) (collected : List Expr) (after : Bool) :
    Machine.step declared ⟨roots,bracket.frame collected after :: outer,none,rest⟩ =
      readDelimited declared ⟨roots,bracket.frame collected after :: outer,none,rest⟩
        (bracket.tree collected) (bracket.frame collected false) after outer := by
  cases bracket <;> rfl

/-- What a round uses up: two for a lexeme, one for placing a tree. -/
def measure (machine : Machine) : Nat :=
  2 * machine.unread.length + (if machine.current.isSome then 1 else 0)

end Machine

/-! ### Every round makes progress -/

theorem skipBlank_length_le (unread : List Lexeme) :
    (skipBlank unread).length ≤ unread.length :=
  (List.dropWhile_sublist _).length_le

theorem skipSpaces_length_le (unread : List Lexeme) :
    (skipSpaces unread).length ≤ unread.length :=
  (List.dropWhile_sublist _).length_le

theorem readElements_length (type : ScalarType) (fuel : Nat) :
    ∀ unread literals rest, readElements type fuel unread = some (literals,rest) →
      rest.length < unread.length := by
  induction fuel with
  | zero => intro unread literals rest read; simp [readElements] at read
  | succ fuel ih =>
    intro unread literals rest read
    cases unread with
    | nil => simp [readElements] at read
    | cons lexeme unread =>
      cases lexeme with
      | literal literal =>
        simp only [readElements] at read
        split at read
        · contradiction
        split at read
        · contradiction
        rename_i next later
        split at read
        · cases read; simp only [List.length_cons]; omega
        split at read
        · contradiction
        have shorter := skipBlank_length_le later
        split at read
        · contradiction
        rename_i next' later' skipped
        rw [skipped,List.length_cons] at shorter
        split at read
        · cases read; simp only [List.length_cons]; omega
        · obtain ⟨⟨more,rest'⟩,again,same⟩ := Option.map_eq_some_iff.mp read
          cases same
          have := ih _ _ _ again
          simp only [List.length_cons] at this ⊢
          omega
      | _ => simp [readElements] at read

theorem readVector_length (read : readVector unread = some (tree,rest)) :
    rest.length < unread.length := by
  simp only [readVector] at read
  have shorter := skipBlank_length_le unread
  split at read
  next first later skipped =>
    obtain ⟨⟨literals,rest'⟩,elements,same⟩ := Option.map_eq_some_iff.mp read
    cases same
    have := readElements_length _ _ _ _ _ elements
    rw [skipped] at shorter
    exact Nat.lt_of_lt_of_le this shorter
  · contradiction

namespace Machine

theorem readToken_measure {machine later : Machine} (idle : machine.current = none)
    (step : readToken declared machine = .again later) : later.measure < machine.measure := by
  have idleMeasure : machine.measure = 2 * machine.unread.length := by simp [measure,idle]
  rw [idleMeasure]
  cases unread : machine.unread with
  | nil => simp [readToken,unread] at step
  | cons lexeme rest =>
    have shorter := skipBlank_length_le rest
    simp only [readToken,unread] at step
    split at step
    · contradiction
    split at step
    · cases step; simp [measure,complete]; omega
    · cases step; simp [measure,push,idle]; omega
    · split at step
      · contradiction
      next read =>
        cases step
        have := readVector_length read
        simp [measure,complete]; omega
    · simp only [readEmptyVector] at step
      repeat' split at step
      all_goals first
        | contradiction
        | cases step; simp [measure,complete]; omega
    · rename_i name _
      simp only [readName] at step
      split at step
      · simp only [readFanoutKeyword] at step
        repeat' split at step
        all_goals first
          | contradiction
          | cases step; simp [measure,push,idle]
      split at step
      · cases step; simp [measure,complete]; omega
      split at step
      · cases step; simp [measure,complete]
      rename_i next later' _
      have shorter := skipBlank_length_le later'
      repeat' split at step
      all_goals first
        | contradiction
        | cases step; simp [measure,complete]; omega
        | cases step; simp [measure,push,idle] <;> omega
    · split at step
      · cases step; simp [measure,complete]; omega
      · contradiction
    · contradiction

theorem readElement_measure {machine later : Machine} (idle : machine.current = none)
    (step : readElement declared machine closed outer = .again later) :
    later.measure < machine.measure := by
  simp only [readElement] at step
  split at step
  · contradiction
  rename_i unread
  repeat' split at step
  · cases step; simp [measure,complete,idle,unread]; omega
  · contradiction
  · exact readToken_measure idle step

theorem step_measure {machine later : Machine} (step : machine.step declared = .again later) :
    later.measure < machine.measure := by
  have shorter := skipBlank_length_le machine.unread
  have idleRead : ∀ lexeme rest, machine.current = none →
      skipBlank machine.unread = lexeme :: rest →
      readToken declared { machine with unread := lexeme :: rest } = .again later →
        later.measure < machine.measure := by
    intro lexeme rest idle skipped read
    apply Nat.lt_of_lt_of_le (readToken_measure (by exact idle) read)
    rw [skipped] at shorter
    simp only [measure,idle,Option.isSome_none,Bool.false_eq_true,if_false]
    omega
  simp only [Machine.step] at step
  split at step
  next tree current =>
    have busy : machine.measure = 2 * machine.unread.length + 1 := by simp [measure,current]
    rw [busy]
    simp only [place] at step
    split at step
    · cases step; simp [measure]
    · split at step
      · contradiction
      rename_i spaces
      have := skipSpaces_length_le machine.unread
      rw [spaces,List.length_cons] at this
      split at step
      · cases step; simp [measure]; omega
      · contradiction
  next idle =>
    have idleMeasure : machine.measure = 2 * machine.unread.length := by simp [measure,idle]
    have delimited : ∀ closed reopened after outer,
        readDelimited declared machine closed reopened after outer = .again later →
          later.measure < machine.measure := by
      intro closed reopened after outer step
      simp only [readDelimited] at step
      split at step
      · exact readElement_measure idle step
      split at step
      · contradiction
      rename_i lexeme rest unread
      have shorter := skipBlank_length_le rest
      split at step
      · cases step; simp [measure,complete,idle,unread]; omega
      split at step
      · split at step
        · cases step; simp [measure,idle,unread]; omega
        · apply Nat.lt_trans (readElement_measure (by exact idle) step)
          simp [measure,idle,unread]; omega
      · contradiction
    split at step
    · split at step
      · contradiction
      next skipped => exact idleRead _ _ idle skipped step
    · simp only [readBranch] at step
      split at step
      · contradiction
      rename_i skipped
      rw [skipped,List.length_cons] at shorter
      split at step
      · split at step
        · simp only [closeBranch] at step
          repeat' split at step
          all_goals first
            | contradiction
            | cases step; simp [measure,idle]; omega
        · contradiction
      · split at step
        · contradiction
        · exact idleRead _ _ idle skipped step
    · simp only [readFanout] at step
      split at step
      · contradiction
      rename_i skipped
      rw [skipped,List.length_cons] at shorter
      split at step
      · split at step
        · split at step
          · contradiction
          · cases step; simp [measure,complete,idle]; omega
        · repeat' split at step
          all_goals first
            | contradiction
            | cases step; simp [measure,push,idle]; omega
      · split at step
        · contradiction
        · exact idleRead _ _ idle skipped step
    · exact delimited _ _ _ _ step
    · exact delimited _ _ _ _ step
    · exact readToken_measure idle step

end Machine
end Bennu
