import Bennu.Lexing

/-! The tokens of a source tile it, and each says where in the source it stands. -/
namespace Bennu

/-- Where a source stands after these bytes: a line feed ends a line, alone or after a
carriage return. -/
def sourcePosition (passed : Text) : RewritePosition :=
  ⟨passed.length + 1,passed.count '\n' + 1,(passed.reverse.takeWhile (· != '\n')).length + 1⟩

/-- Tokens from one position to another, none empty, each where the last one ended. -/
def Tiles : RewritePosition → List RewriteToken → RewritePosition → Prop
  | begin,[],finish => begin = finish
  | begin,token :: rest,finish =>
    token.span.begin = begin ∧ begin.offset < token.span.finish.offset ∧ Tiles token.span.finish rest finish

/-- The position says the line and the column of its offset. -/
def Counted (source : Text) (position : RewritePosition) : Prop :=
  position = sourcePosition (source.take (position.offset - 1))

section positions

variable {passed run source : Text} {byte : Char} {position : RewritePosition}

@[simp] theorem sourcePosition_offset (passed : Text) : (sourcePosition passed).offset = passed.length + 1 := rfl

theorem sourcePosition_nil : sourcePosition [] = ⟨1,1,1⟩ := rfl

theorem sourcePosition_line (passed : Text) :
    sourcePosition (passed ++ ['\n']) = (sourcePosition passed).newline 1 := by
  simp [sourcePosition,RewritePosition.newline]

/-- Bytes that end no line advance the column. -/
theorem sourcePosition_run (flat : '\n' ∉ run) :
    sourcePosition (passed ++ run) = (sourcePosition passed).advance run.length := by
  have none : run.count '\n' = 0 := List.count_eq_zero.mpr flat
  have whole : ∀ byte ∈ run.reverse, (byte != '\n') = true := by
    intro byte member
    simp only [bne_iff_ne]
    rintro rfl
    exact flat (List.mem_reverse.mp member)
  simp [sourcePosition,RewritePosition.advance,none,List.takeWhile_append_of_pos whole]
  omega

theorem Counted.of_append (later : Text) : Counted (passed ++ later) (sourcePosition passed) := by
  simp [Counted]

theorem Counted.bounds (counted : Counted source position) :
    1 ≤ position.offset ∧ position.offset ≤ source.length + 1 := by
  have same := congrArg RewritePosition.offset counted
  rw [sourcePosition_offset,List.length_take] at same
  omega

end positions

section tokens

variable {parser : RewriteDoubleParser} {passed text rest : Text} {byte : Char} {begin finish : RewritePosition}
  {tokens : List RewriteToken}

theorem nextToken_ends (parser : RewriteDoubleParser) (byte : Char) (rest : Text) (begin : RewritePosition) :
    (nextToken parser byte rest begin).span.finish =
      if byte = '\n' ∨ byte = '\r' ∧ rest.head? = some '\n' then begin.newline (tokenSize byte rest)
      else begin.advance (tokenSize byte rest) := by
  unfold nextToken tokenSize
  by_cases space : isHorizontalSpace byte = true
  · have line : ¬(byte = '\n' ∨ byte = '\r' ∧ rest.head? = some '\n') := by
      rintro (rfl | ⟨rfl,-⟩) <;> cases space
    rw [if_pos space,if_pos space,if_neg line]
    rfl
  rw [if_neg space,if_neg space]
  by_cases line : byte = '\n'
  · rw [if_pos line,if_pos line,if_pos (.inl line)]
    rfl
  rw [if_neg line,if_neg line]
  by_cases feed : byte = '\r' ∧ rest.head? = some '\n'
  · rw [if_pos feed,if_pos feed,if_pos (.inr feed)]
    rfl
  rw [if_neg feed,if_neg feed,if_neg (not_or.mpr ⟨line,feed⟩)]
  repeat' split
  all_goals simp [wordToken_span,numericToken_span,RewritePosition.advance,Nat.add_comm]

/-- A run of bytes of a kind that no line feed is of. -/
theorem run_flat {p : Char → Bool} (plain : p '\n' = false) (other : byte ≠ '\n') :
    '\n' ∉ byte :: rest.takeWhile p := by
  intro member
  rcases List.mem_cons.mp member with same | member
  · exact other same.symm
  · rw [List.all_eq_true.mp List.all_takeWhile _ member] at plain
    cases plain

/-- A token that ends no line holds no line feed. -/
theorem token_flat (line : ¬(byte = '\n' ∨ byte = '\r' ∧ rest.head? = some '\n')) :
    '\n' ∉ (byte :: rest).take (tokenSize byte rest) := by
  obtain ⟨other,feed⟩ := not_or.mp line
  have single : '\n' ∉ (byte :: rest).take 1 := by
    rw [List.take_succ_cons,List.take_zero,List.mem_singleton]
    exact fun same => other same.symm
  unfold tokenSize
  rw [if_neg other,if_neg feed]
  split
  · rw [take_run]
    exact run_flat rfl other
  split
  · rw [take_run]
    exact run_flat rfl other
  split
  · exact single
  split
  · rw [take_run]
    exact run_flat rfl other
  split
  · rw [take_run]
    exact run_flat rfl other
  · exact single

/-- A token that begins where the source stands ends where it stands after the token. -/
theorem nextToken_counted (parser : RewriteDoubleParser) (passed : Text) (byte : Char) (rest : Text) :
    (nextToken parser byte rest (sourcePosition passed)).span.finish =
      sourcePosition (passed ++ (byte :: rest).take (tokenSize byte rest)) := by
  rw [nextToken_ends]
  split
  · rename_i line
    rcases line with rfl | ⟨rfl,feed⟩
    · exact (sourcePosition_line passed).symm
    · obtain ⟨more,rfl⟩ := List.head?_eq_some_iff.mp feed
      have carriage := @sourcePosition_run passed ['\r'] (by decide)
      have line := sourcePosition_line (passed ++ ['\r'])
      rw [carriage,List.append_assoc] at line
      exact line.symm
  · rename_i line
    rw [sourcePosition_run (token_flat line),List.length_take,Nat.min_eq_left (tokenSize_le byte rest)]

theorem Lexed.tiles (lexed : Lexed parser text begin tokens finish) : Tiles begin tokens finish := by
  induction lexed with
  | done => rfl
  | @token byte rest begin tokens finish later ih =>
    refine ⟨nextToken_begin parser byte rest begin,?_,ih⟩
    rw [nextToken_finish]
    have := tokenSize_pos byte rest
    omega

/-- Tokens lexed from where a source stands: where each stands, what they spell, and where
the last one ends. -/
theorem Lexed.counted (lexed : Lexed parser text begin tokens finish) :
    ∀ passed, begin = sourcePosition passed →
      (∀ token ∈ tokens, Counted (passed ++ text) token.span.begin ∧ Counted (passed ++ text) token.span.finish) ∧
      tokens.flatMap (fun token => spanSpelling (passed ++ text) token.span) = text ∧
      finish = sourcePosition (passed ++ text) := by
  induction lexed with
  | done =>
    rintro passed rfl
    exact ⟨nofun,rfl,by rw [List.append_nil]⟩
  | @token byte rest begin tokens finish later ih =>
    rintro passed rfl
    have split := List.take_append_drop (tokenSize byte rest) (byte :: rest)
    have ends := nextToken_counted parser passed byte rest
    obtain ⟨placed,spelled,last⟩ := ih (passed ++ (byte :: rest).take (tokenSize byte rest)) ends
    rw [List.append_assoc,split] at placed spelled last
    refine ⟨?_,?_,last⟩
    · intro token member
      rcases List.mem_cons.mp member with rfl | member
      · rw [nextToken_begin,ends]
        refine ⟨.of_append _,?_⟩
        have whole := @Counted.of_append (passed ++ (byte :: rest).take (tokenSize byte rest))
          ((byte :: rest).drop (tokenSize byte rest))
        rwa [List.append_assoc,split] at whole
      · exact placed token member
    · rw [List.flatMap_cons,spelled]
      simp only [spanSpelling,nextToken_begin,nextToken_finish,sourcePosition_offset,Nat.add_sub_cancel,
        List.drop_left,Nat.add_sub_cancel_left]
      exact split

/-- More rounds than bytes change nothing. -/
theorem tokenizeLoop_fuel (parser : RewriteDoubleParser) (fuel : Nat) :
    ∀ (text : Text) (position : RewritePosition) (more : Nat), text.length ≤ fuel → text.length ≤ more →
      tokenizeLoop parser more text position = tokenizeLoop parser fuel text position := by
  induction fuel with
  | zero =>
    intro text position more enough _
    rw [List.length_eq_zero_iff.mp (Nat.le_zero.mp enough)]
    cases more <;> rfl
  | succ fuel ih =>
    intro text position more enough others
    cases text with
    | nil => cases more <;> rfl
    | cons byte rest =>
      obtain ⟨more,rfl⟩ := Nat.exists_eq_succ_of_ne_zero (Nat.ne_of_gt (Nat.lt_of_lt_of_le (Nat.succ_pos _) others))
      have positive := tokenSize_pos byte rest
      have less : ((byte :: rest).drop (tokenSize byte rest)).length < (byte :: rest).length := by
        rw [List.length_drop,List.length_cons]
        omega
      simp only [tokenizeLoop,nextToken_size]
      rw [ih _ _ more (by omega) (by omega)]

/-- The tokenizer ends, whatever the source, and its tokens tile the source: none is empty,
each begins where the one before ended, they spell the source, and their lines and columns
are those of the bytes before them. -/
theorem tokenizeRewrite_tiles (parser : RewriteDoubleParser) (source : Text) :
    (∀ fuel, source.length ≤ fuel → tokenizeLoop parser fuel source ⟨1,1,1⟩ =
      ((tokenizeRewrite parser source).tokens,(tokenizeRewrite parser source).finish)) ∧
    Tiles ⟨1,1,1⟩ (tokenizeRewrite parser source).tokens (tokenizeRewrite parser source).finish ∧
    (tokenizeRewrite parser source).finish = sourcePosition source ∧
    (tokenizeRewrite parser source).tokens.flatMap (rewriteTokenSpelling (tokenizeRewrite parser source)) =
      source ∧
    ∀ token ∈ (tokenizeRewrite parser source).tokens,
      Counted source token.span.begin ∧ Counted source token.span.finish := by
  have lexed := tokenizeRewrite_lexed parser source
  obtain ⟨placed,spelled,last⟩ := lexed.counted [] sourcePosition_nil.symm
  exact ⟨fun fuel enough => tokenizeLoop_fuel parser _ source _ fuel (Nat.le_refl _) enough,lexed.tiles,last,
    spelled,placed⟩

end tokens

end Bennu
