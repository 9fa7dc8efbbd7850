import Bennu.DoubleSpelling

/-! The two argument decoders against each other: the scanners of the emitted C
accept the same spellings, its accumulation of integers refuses the same ones, and
the doubles agree wherever the estimate of the evaluator does not miss. -/
namespace Bennu

open NearestEven

section scanners

theorem bennuAsciiDigit_eq : bennuAsciiDigit = isDigit := rfl

theorem bennuPastDigits_eq (rest : Text) : bennuPastDigits rest = rest.dropWhile isDigit := rfl

/-- The digit loop has not moved exactly when there is no digit. -/
theorem bennuPastDigits_length (rest : Text) :
    (rest.dropWhile isDigit).length = rest.length ↔ (rest.takeWhile isDigit).isEmpty = true := by
  have whole := congrArg List.length (List.takeWhile_append_dropWhile (p := isDigit) (l := rest))
  rw [List.length_append] at whole
  rw [List.isEmpty_iff,← List.length_eq_zero_iff]
  omega

theorem unsigned_eq (spelling : Text) :
    (if spelling.head? = some '-' then spelling.tail else spelling) = unsignedSpelling spelling := by
  cases spelling with
  | nil => rfl
  | cons first rest =>
    by_cases sign : first = '-'
    · subst sign
      rfl
    · simp [sign,unsignedSpelling]

theorem bennuPastFraction_eq (rest : Text) : bennuPastFraction rest = afterFraction rest := by
  cases rest with
  | nil => rfl
  | cons first rest =>
    by_cases point : first = '.'
    · subst point
      simp only [bennuPastFraction,List.head?_cons,if_true,List.tail_cons,bennuPastDigits_length,
        afterFraction,bennuPastDigits_eq]
    · simp [bennuPastFraction,point,afterFraction]

theorem bennuPastSign_eq (rest : Text) : bennuPastSign rest = afterSign rest := by
  cases rest with
  | nil => rfl
  | cons first rest =>
    by_cases plus : first = '+'
    · subst plus
      rfl
    · by_cases minus : first = '-'
      · subst minus
        rfl
      · simp [bennuPastSign,plus,minus,afterSign]

theorem bennuPastExponent_eq (rest : Text) : bennuPastExponent rest = afterExponent rest := by
  cases rest with
  | nil => rfl
  | cons first rest =>
    have mark : (some first = some 'e' ∨ some first = some 'E') ↔ isExponentMark first = true := by
      simp [isExponentMark]
    simp only [bennuPastExponent,List.head?_cons,mark,List.tail_cons,bennuPastSign_eq,
      bennuPastDigits_length,bennuPastDigits_eq,afterExponent]

/-- The two scanners accept the same doubles. -/
theorem bennuFiniteDoubleGrammar_eq (spelling : Text) :
    bennuFiniteDoubleGrammar spelling = finiteDoubleGrammar spelling := by
  simp only [bennuFiniteDoubleGrammar,finiteDoubleGrammar,unsigned_eq,bennuPastFraction_eq,
    bennuPastExponent_eq]
  generalize unsignedSpelling spelling = body
  have whole := congrArg List.length (List.takeWhile_append_dropWhile (p := isDigit) (l := body))
  rw [List.length_append] at whole
  have single : (body.dropWhile isDigit).length + 1 ≠ body.length ↔
      (body.takeWhile isDigit).length ≠ 1 := by
    omega
  simp only [bennuPastDigits_eq,bennuPastDigits_length,single]
  by_cases none : (body.takeWhile isDigit).isEmpty = true
  · simp [none]
  · by_cases zero : body.head? = some '0' ∧ (body.takeWhile isDigit).length ≠ 1
    · simp [none,zero]
    · have other : ¬((body.head? == some '0' && (body.takeWhile isDigit).length != 1) = true) := by
        simpa using zero
      refine (if_neg (not_or.mpr ⟨none,zero⟩)).trans (((if_neg none).trans (if_neg other)).trans ?_).symm
      cases afterFraction (body.dropWhile isDigit) with
      | none => rfl
      | some fraction =>
        obtain ⟨hasFraction,rest⟩ := fraction
        cases exponent : afterExponent rest <;> simp [exponent]

/-- The two scanners accept the same integers. -/
theorem bennuCanonicalIntegerGrammar_eq (spelling : Text) :
    bennuCanonicalIntegerGrammar spelling = canonicalIntegerGrammar spelling := by
  have sign : (if (spelling.head? == some '-') = true then spelling.tail else spelling) =
      unsignedSpelling spelling := by
    simp only [beq_iff_eq]
    exact unsigned_eq spelling
  have empty (rest : Text) : (bennuPastDigits rest).isEmpty = rest.all isDigit := by
    rw [bennuPastDigits_eq]
    induction rest with
    | nil => rfl
    | cons byte rest ih =>
      by_cases digit : isDigit byte = true
      · simpa [digit] using ih
      · simp [digit]
  simp only [bennuCanonicalIntegerGrammar,canonicalIntegerGrammar,sign]
  cases unsignedSpelling spelling with
  | nil => rfl
  | cons first rest =>
    by_cases zero : first = '0'
    · subst zero
      simp [Bool.and_comm,bne]
    · have range : (first < '1' ∨ '9' < first) ↔ ¬isDigit first = true := by
        have one : '1'.toNat = 49 := rfl
        have nine : '9'.toNat = 57 := rfl
        have notZero : first.toNat ≠ 48 := by
          intro equal
          exact zero (Char.toNat_inj.mp equal)
        have below : first < '1' ↔ first.toNat < 49 := by
          rw [Char.lt_def,UInt32.lt_iff_toNat_lt]
          exact Iff.rfl
        have above : '9' < first ↔ 57 < first.toNat := by
          rw [Char.lt_def,UInt32.lt_iff_toNat_lt]
          exact Iff.rfl
        rw [isDigit_iff,below,above]
        omega
      simp only [zero,if_false,range,empty]
      by_cases digit : isDigit first = true
      · simp [digit]
      · simp [digit]

end scanners

section integers

/-- The accumulation stops exactly when the whole number passes the limit. -/
theorem bennuIntMagnitude_eq (limit : Nat) {digits : Text} (all : digits.all isDigit = true)
    (large : 9 ≤ limit) (start : Nat) :
    bennuIntMagnitude limit start digits =
      if start * 10 ^ digits.length + decimalValue digits ≤ limit ∨ digits = [] then
        some (start * 10 ^ digits.length + decimalValue digits)
      else none := by
  induction digits generalizing start with
  | nil => simp [bennuIntMagnitude,decimalValue]
  | cons byte rest ih =>
    rw [List.all_cons,Bool.and_eq_true] at all
    have digit := digitValue_lt all.1
    have value : start * 10 ^ (byte :: rest).length + decimalValue (byte :: rest) =
        (start * 10 + digitValue byte) * 10 ^ rest.length + decimalValue rest := by
      rw [decimalValue_cons,List.length_cons,pow_succ]
      ring
    have grows : start * 10 + digitValue byte ≤
        (start * 10 + digitValue byte) * 10 ^ rest.length + decimalValue rest :=
      (Nat.le_mul_of_pos_right _ (by positivity)).trans (Nat.le_add_right _ _)
    rw [bennuIntMagnitude,value]
    split
    · rename_i past
      rw [if_neg]
      rintro (le | empty)
      · omega
      · cases empty
    · rename_i fits
      rw [ih all.2]
      by_cases empty : rest = []
      · subst empty
        have le : (start * 10 + digitValue byte) * 10 ^ ([] : Text).length + decimalValue [] ≤ limit := by
          simp only [List.length_nil,pow_zero,Nat.mul_one,decimalValue,List.foldl_nil]
          omega
        rw [if_pos (.inr rfl),if_pos (.inl le)]
      · simp [empty]

theorem signedValue_eq (spelling : Text) :
    signedValue spelling =
      if spelling.head? = some '-' then -(decimalValue (unsignedSpelling spelling) : Int)
      else decimalValue (unsignedSpelling spelling) := by
  cases spelling with
  | nil => rfl
  | cons first rest =>
    by_cases sign : first = '-'
    · subst sign
      rfl
    · simp [signedValue,sign,unsignedSpelling]

end integers

/-- A scalar of the evaluator, as the C program holds it. -/
def Value.bennuScalar (value : Value) : BennuValue :=
  ⟨.scalar,value.scalar.type,1,if value.scalar.boolean then 1 else 0,value.scalar.integer,
    value.scalar.doublePrecision⟩

/-- The two decoders report the same: one scalar, or one category of error. -/
def SameArgument : Except ArgumentErrorReason Value → Except BennuArgumentDecode BennuValue → Prop
  | .ok value,.ok bound => bound = value.bennuScalar
  | .error reason,.error decoded =>
    reason = match decoded with
      | .invalidLiteral => .invalidLiteral
      | .outOfRange => .outOfRange
  | .ok _,.error _ => False
  | .error _,.ok _ => False

theorem bennuScalarDoubleBits_eq (bits : Binary64) :
    bennuScalarDoubleBits bits = (makeDoubleValue bits).bennuScalar := rfl

/-- Integers agree without exception. -/
theorem decodeIntArgument_same (spelling : Text) :
    SameArgument (decodeIntegerText spelling) (bennuDecodeIntArgument spelling) := by
  rw [decodeIntegerText,bennuDecodeIntArgument,bennuCanonicalIntegerGrammar_eq]
  split
  · rename_i canonical
    have digits : (unsignedSpelling spelling).all isDigit = true :=
      List.all_eq_true.mpr (DecimalSpelling.canonicalInteger_digits canonical)
    have nonempty : unsignedSpelling spelling ≠ [] := by
      intro empty
      simp [canonicalIntegerGrammar,empty] at canonical
    have least : Int64.minValue.toInt = -9223372036854775808 := by decide
    have greatest : Int64.maxValue.toInt = 9223372036854775807 := by decide
    have sign := unsigned_eq spelling
    simp only [parseCanonicalInteger,canonical,Bool.true_and,Bool.and_eq_true,
      decide_eq_true_eq,least,greatest,beq_iff_eq,signedValue_eq]
    by_cases negative : spelling.head? = some '-'
    · rw [if_pos negative] at sign
      simp only [negative,if_true]
      rw [sign,bennuIntMagnitude_eq _ digits (by norm_num),Nat.zero_mul,Nat.zero_add]
      simp only [nonempty,or_false]
      generalize decimalValue (unsignedSpelling spelling) = size
      by_cases fits : size ≤ 9223372036854775808
      · rw [if_pos fits,if_pos ⟨by omega,by omega⟩]
        by_cases edge : size = 9223372036854775808
        · subst edge
          exact congrArg (fun least => (⟨.scalar,.integer,1,0,least,0⟩ : BennuValue)) (by decide)
        · simp only [edge,if_false,SameArgument,bennuScalarInt,Value.bennuScalar,makeIntValue]
          simp [Int64.ofInt_neg,Int64.ofInt_eq_ofNat]
      · rw [if_neg fits,if_neg (by omega)]
        rfl
    · rw [if_neg negative] at sign
      simp only [negative,if_false]
      rw [← sign] at digits nonempty ⊢
      rw [bennuIntMagnitude_eq _ digits (by norm_num),Nat.zero_mul,Nat.zero_add]
      simp only [nonempty,or_false]
      generalize decimalValue spelling = size
      by_cases fits : size ≤ 9223372036854775807
      · rw [if_pos fits,if_pos ⟨by omega,by omega⟩]
        simp [SameArgument,bennuScalarInt,Value.bennuScalar,makeIntValue,Int64.ofInt_eq_ofNat]
      · rw [if_neg fits,if_neg (by omega)]
        rfl
  · rfl

/-- The host converts the whole of a double, to its rounding, an infinity included. -/
def CStrtod.CorrectlyRounding (host : CStrtod) : Prop :=
  ∀ d : DecimalSpelling, (host.strtod d.text).consumed = d.text.length ∧
    ∃ k, Rounds magnitude d.value k ∧
      (host.strtod d.text).value = signedBits d.negative (min k infinityIndex)

/-- A double whose magnitude the decoder of the evaluator misjudges. -/
def Misread (type : ScalarType) (spelling : Text) : Prop :=
  type = .doublePrecision ∧ ∃ d : DecimalSpelling, d.text = spelling ∧ d.Misjudged

/-- What a text has to be for a parameter of a type to be bound to it. -/
def Bindable (type : ScalarType) (spelling : Text) : Prop :=
  match type with
  | .boolean => spelling = "true".toList ∨ spelling = "false".toList
  | .integer => canonicalIntegerGrammar spelling = true ∧
    -9223372036854775808 ≤ signedValue spelling ∧ signedValue spelling ≤ 9223372036854775807
  | .doublePrecision => spelling = "inf".toList ∨ spelling = "-inf".toList ∨
    spelling = "nan".toList ∨ ∃ d : DecimalSpelling, d.text = spelling ∧ ¬d.OutOfRange

section doubles

variable {host : CStrtod}

/-- The C program reads a double as it is spelled. -/
theorem bennuDecodeDouble_text (correct : host.CorrectlyRounding) (d : DecimalSpelling) :
    d.OutOfRange ∧ bennuDecodeDoubleArgument host d.text = .error .outOfRange ∨
    ∃ bits, d.Denotes bits ∧
      bennuDecodeDoubleArgument host d.text = .ok (bennuScalarDoubleBits bits) := by
  obtain ⟨consumed,k,rounds,value⟩ := correct d
  have infinite : d.text ≠ "inf".toList := DecimalSpelling.text_ne (by decide) d
  have negative : d.text ≠ "-inf".toList := DecimalSpelling.text_ne (by decide) d
  have nan : d.text ≠ "nan".toList := DecimalSpelling.text_ne (by decide) d
  rw [bennuDecodeDoubleArgument,if_neg infinite,if_neg negative,if_neg nan]
  simp only [bennuFiniteDoubleGrammar_eq,d.accepted,if_true,consumed,value,ne_eq,
    not_true_eq_false,false_or]
  by_cases finite : k < infinityIndex
  · have denotes : d.Denotes (signedBits d.negative k) := ⟨k,rounds,finite,rfl⟩
    right
    refine ⟨_,denotes,?_⟩
    rw [Nat.min_eq_left finite.le,denotes.finite]
    rfl
  · have past : isFiniteBits (signedBits d.negative infinityIndex) = false := by
      cases d.negative <;> decide
    left
    refine ⟨⟨k,rounds,not_lt.mp finite⟩,?_⟩
    rw [Nat.min_eq_right (not_lt.mp finite),past]
    rfl

/-- The decoder of the evaluator, in the same two cases where it does not miss. -/
theorem decodeDouble_text {parser : RewriteDoubleParser} (correct : parser.CorrectlyRounding)
    (d : DecimalSpelling) :
    (d.Misjudged ∧ (d.OutOfRange ∧ decodeDoubleText parser d.text = .ok (makeDoubleValue d.signedZero) ∨
      ¬d.OutOfRange ∧ decodeDoubleText parser d.text = .error .outOfRange)) ∨
    ¬d.Misjudged ∧ (d.OutOfRange ∧ decodeDoubleText parser d.text = .error .outOfRange ∨
      ∃ bits, d.Denotes bits ∧ decodeDoubleText parser d.text = .ok (makeDoubleValue bits)) := by
  have apart : d.OutOfRange → ¬d.Vanishes := by
    rintro infinite ⟨-,zero⟩
    exact d.not_denotes_of_outOfRange infinite (d.denotes_zero_iff.mpr zero)
  have decoded := DecimalSpelling.decodeDoubleText_text parser d
  rcases DecimalSpelling.judged_cases correct d with
    ⟨out,reported,judged⟩ | ⟨success,consumed,denotes,inRange,kept⟩
  · simp only [out,true_and,ne_eq,reduceCtorEq,not_false_eq_true,true_or,if_true] at decoded
    by_cases zero : d.JudgedZero
    · rw [if_pos (judged.mpr zero)] at decoded
      rcases reported with infinite | vanishes
      · exact .inl ⟨.inr ⟨infinite,zero⟩,.inl ⟨infinite,decoded⟩⟩
      · refine .inr ⟨?_,.inr ⟨d.signedZero,d.denotes_zero_iff.mpr vanishes.2,decoded⟩⟩
        rintro (⟨-,notZero⟩ | ⟨infinite,-⟩)
        · exact notZero zero
        · exact apart infinite vanishes
    · rw [if_neg (mt judged.mp zero)] at decoded
      rcases reported with infinite | vanishes
      · refine .inr ⟨?_,.inl ⟨infinite,decoded⟩⟩
        rintro (⟨vanishes,-⟩ | ⟨-,judgedZero⟩)
        · exact apart infinite vanishes
        · exact zero judgedZero
      · exact .inl ⟨.inl ⟨vanishes,zero⟩,.inr ⟨fun infinite => apart infinite vanishes,decoded⟩⟩
  · simp only [success,consumed,denotes.finite,ne_eq,not_true_eq_false,Bool.true_eq_false,or_self,
      if_false,reduceCtorEq,false_and] at decoded
    refine .inr ⟨?_,.inr ⟨_,denotes,decoded⟩⟩
    rintro (⟨vanishes,-⟩ | ⟨infinite,-⟩)
    · exact kept vanishes
    · exact inRange infinite

end doubles

section scalars

variable {parser : RewriteDoubleParser} {host : CStrtod}

theorem accepted_text (d : DecimalSpelling) :
    (d.text = "inf".toList ∨ d.text = "-inf".toList ∨ d.text = "nan".toList ∨
      ∃ other : DecimalSpelling, other.text = d.text ∧ ¬other.OutOfRange) ↔ ¬d.OutOfRange := by
  constructor
  · rintro (other | other | other | ⟨other,same,inRange⟩)
    · exact absurd other (DecimalSpelling.text_ne (by decide) d)
    · exact absurd other (DecimalSpelling.text_ne (by decide) d)
    · exact absurd other (DecimalSpelling.text_ne (by decide) d)
    · rw [DecimalSpelling.outOfRange_iff,(DecimalSpelling.text_value same).1,
        ← DecimalSpelling.outOfRange_iff] at inRange
      exact inRange
  · exact fun inRange => .inr (.inr (.inr ⟨d,rfl,inRange⟩))

theorem outOfRange_positive {d : DecimalSpelling} (infinite : d.OutOfRange) : d.value ≠ 0 := by
  have bound := DecimalSpelling.half_lt_overflow.trans_le (d.outOfRange_iff.mp infinite)
  have positive : (0 : ℚ) < halfLeastMagnitude := zpow_pos (by norm_num) _
  exact (positive.trans bound).ne'

/-- Misjudging is a matter of the text alone. -/
theorem misjudged_iff (d : DecimalSpelling) :
    d.Misjudged ↔ d.Vanishes ∧ ¬decimalRoundsToZero d.text = true ∨
      d.OutOfRange ∧ decimalRoundsToZero d.text = true := by
  have judged (nonzero : d.value ≠ 0) : decimalRoundsToZero d.text = true ↔ d.JudgedZero :=
    d.decimalRoundsToZero_iff (fun empty => nonzero (d.significant_nil.mp empty))
  constructor
  · rintro (⟨vanishes,notZero⟩ | ⟨infinite,zero⟩)
    · exact .inl ⟨vanishes,mt (judged vanishes.1).mp notZero⟩
    · exact .inr ⟨infinite,(judged (outOfRange_positive infinite)).mpr zero⟩
  · rintro (⟨vanishes,notZero⟩ | ⟨infinite,zero⟩)
    · exact .inl ⟨vanishes,mt (judged vanishes.1).mpr notZero⟩
    · exact .inr ⟨infinite,(judged (outOfRange_positive infinite)).mp zero⟩

theorem misread_text (d : DecimalSpelling) : Misread .doublePrecision d.text ↔ d.Misjudged := by
  constructor
  · rintro ⟨-,other,same,misjudged⟩
    have value := (DecimalSpelling.text_value same).1
    rw [misjudged_iff,DecimalSpelling.outOfRange_iff,DecimalSpelling.vanishes_iff,same,value]
      at misjudged
    rw [misjudged_iff,DecimalSpelling.outOfRange_iff,DecimalSpelling.vanishes_iff]
    exact misjudged
  · exact fun misjudged => ⟨rfl,d,rfl,misjudged⟩

/-- One of the two accepts and the other refuses. -/
def Parted {α ε β δ : Type} (evaluator : Except ε α) (program : Except δ β) : Prop :=
  match evaluator,program with
  | .ok _,.error _ => True
  | .error _,.ok _ => True
  | _,_ => False

/-- A double argument: the two disagree exactly when it is misread, and bind the same
scalar exactly when it is bindable. -/
theorem decodeDouble_cases (correct : parser.CorrectlyRounding) (hosted : host.CorrectlyRounding)
    (spelling : Text) :
    Misread .doublePrecision spelling ∧
      Parted (decodeDoubleText parser spelling) (bennuDecodeDoubleArgument host spelling) ∨
    ¬Misread .doublePrecision spelling ∧
      SameArgument (decodeDoubleText parser spelling) (bennuDecodeDoubleArgument host spelling) ∧
      (Bindable .doublePrecision spelling ↔ ∃ value, decodeDoubleText parser spelling = .ok value) := by
  by_cases grammatical : finiteDoubleGrammar spelling = true
  · obtain ⟨d,rfl⟩ := (finiteDoubleGrammar_iff spelling).mp grammatical
    rw [misread_text]
    have bindable : Bindable .doublePrecision d.text ↔ ¬d.OutOfRange := accepted_text d
    rw [bindable]
    rcases decodeDouble_text correct d with
      ⟨misjudged,⟨infinite,evaluated⟩ | ⟨inRange,evaluated⟩⟩ |
      ⟨judged,⟨infinite,evaluated⟩ | ⟨bits,denotes,evaluated⟩⟩ <;>
    rcases bennuDecodeDouble_text hosted d with ⟨past,decoded⟩ | ⟨other,denoted,decoded⟩ <;>
    rw [evaluated,decoded]
    · exact .inl ⟨misjudged,trivial⟩
    · exact absurd denoted (d.not_denotes_of_outOfRange infinite)
    · exact absurd past inRange
    · exact .inl ⟨misjudged,trivial⟩
    · exact .inr ⟨judged,rfl,iff_of_false (not_not.mpr past) (by rintro ⟨value,⟨⟩⟩)⟩
    · exact absurd denoted (d.not_denotes_of_outOfRange infinite)
    · exact absurd denotes (d.not_denotes_of_outOfRange past)
    · rw [d.denotes_unique denoted denotes]
      refine .inr ⟨judged,rfl,iff_of_true ?_ ⟨_,rfl⟩⟩
      exact fun out => d.not_denotes_of_outOfRange out denotes
  · have none (d : DecimalSpelling) : d.text ≠ spelling := by
      rintro rfl
      exact grammatical d.accepted
    refine .inr ⟨?_,?_⟩
    · rintro ⟨-,d,same,-⟩
      exact none d same
    · have bindable : Bindable .doublePrecision spelling ↔ spelling = "inf".toList ∨
          spelling = "-inf".toList ∨ spelling = "nan".toList := by
        simp [Bindable,none]
      rw [bindable,decodeDoubleText,bennuDecodeDoubleArgument,bennuFiniteDoubleGrammar_eq]
      by_cases infinite : spelling = "inf".toList
      · rw [if_pos infinite,if_pos infinite]
        exact ⟨rfl,iff_of_true (.inl infinite) ⟨_,rfl⟩⟩
      rw [if_neg infinite,if_neg infinite]
      by_cases negative : spelling = "-inf".toList
      · rw [if_pos negative,if_pos negative]
        exact ⟨rfl,iff_of_true (.inr (.inl negative)) ⟨_,rfl⟩⟩
      rw [if_neg negative,if_neg negative]
      by_cases nan : spelling = "nan".toList
      · rw [if_pos nan,if_pos nan]
        exact ⟨rfl,iff_of_true (.inr (.inr nan)) ⟨_,rfl⟩⟩
      rw [if_neg nan,if_neg nan,if_neg grammatical,if_neg grammatical]
      exact ⟨rfl,iff_of_false (by simp only [infinite,negative,nan,or_self,not_false_eq_true])
        (by rintro ⟨value,⟨⟩⟩)⟩

/-- Every argument, of any type. -/
theorem decodeArgument_cases (correct : parser.CorrectlyRounding)
    (hosted : host.CorrectlyRounding) (type : ScalarType) (spelling : Text) :
    Misread type spelling ∧
      Parted (decodeScalarText parser type spelling) (bennuDecodeArgument host type spelling) ∨
    ¬Misread type spelling ∧
      SameArgument (decodeScalarText parser type spelling) (bennuDecodeArgument host type spelling) ∧
      (Bindable type spelling ↔ ∃ value, decodeScalarText parser type spelling = .ok value) := by
  cases type with
  | boolean =>
    refine .inr ⟨(fun misread => by cases misread.1),?_⟩
    rw [decodeScalarText,bennuDecodeArgument,Bindable]
    by_cases yes : spelling = "true".toList
    · rw [if_pos yes,if_pos yes]
      exact ⟨rfl,iff_of_true (.inl yes) ⟨_,rfl⟩⟩
    rw [if_neg yes,if_neg yes]
    by_cases no : spelling = "false".toList
    · rw [if_pos no,if_pos no]
      exact ⟨rfl,iff_of_true (.inr no) ⟨_,rfl⟩⟩
    rw [if_neg no,if_neg no]
    exact ⟨rfl,iff_of_false (by simp only [yes,no,or_self,not_false_eq_true])
      (by rintro ⟨value,⟨⟩⟩)⟩
  | integer =>
    refine .inr ⟨(fun misread => by cases misread.1),decodeIntArgument_same spelling,?_⟩
    have least : Int64.minValue.toInt = -9223372036854775808 := by decide
    have greatest : Int64.maxValue.toInt = 9223372036854775807 := by decide
    rw [decodeScalarText,decodeIntegerText,parseCanonicalInteger,Bindable]
    by_cases canonical : canonicalIntegerGrammar spelling = true
    · simp only [canonical,true_and,if_true,Bool.true_and,Bool.and_eq_true,decide_eq_true_eq,
        least,greatest]
      by_cases fits : -9223372036854775808 ≤ signedValue spelling ∧
          signedValue spelling ≤ 9223372036854775807
      · rw [if_pos fits]
        exact iff_of_true fits ⟨_,rfl⟩
      · rw [if_neg fits]
        exact iff_of_false fits (by rintro ⟨value,⟨⟩⟩)
    · rw [if_neg canonical]
      exact iff_of_false (fun both => canonical both.1) (by rintro ⟨value,⟨⟩⟩)
  | doublePrecision => exact decodeDouble_cases correct hosted spelling

end scalars

/-- An error of the evaluator, as the C program would report it. -/
def ArgumentErrorContext.report (error : ArgumentErrorContext) : BennuArgumentReport :=
  ⟨argumentReasonName error.reason,error.requiredCount,error.suppliedCount,error.position,
    error.parameterName,error.expectedType.map publicScalarTypeName,error.declarationSpan⟩

/-- The two bind the same scalars, or report the same error at the same parameter. -/
def SameBinding :
    Except ArgumentErrorContext (List Value) → Except BennuArgumentReport (List BennuValue) → Prop
  | .ok values,.ok bound => bound = values.map Value.bennuScalar
  | .error error,.error reported => reported = error.report
  | .ok _,.error _ => False
  | .error _,.ok _ => False

/-- Some argument is misread, and those before it can be bound. -/
def MeetsMisread : List (RewriteParameterDeclaration × Text) → Prop
  | [] => False
  | (declaration,argument) :: rest =>
    Misread declaration.type argument ∨
      Bindable declaration.type argument ∧ MeetsMisread rest

section binding

variable {parser : RewriteDoubleParser} {host : CStrtod}
  {declarations : List RewriteParameterDeclaration} {supplied : Nat}

theorem argumentError_report (reason : ArgumentErrorReason) (index : Nat) :
    (argumentError declarations reason supplied (index + 1)).report =
      bennuReport declarations (argumentReasonName reason) supplied index := by
  simp only [argumentError,ArgumentErrorContext.report,bennuReport,Nat.le_add_left,if_true,
    Nat.add_sub_cancel,Option.map_map]
  rfl

theorem decodeTextsFrom_position {index : Nat} {error : ArgumentErrorContext} :
    ∀ {pairs : List (RewriteParameterDeclaration × Text)},
      decodeTextsFrom parser declarations supplied index pairs = .error error →
      index < error.position := by
  intro pairs
  induction pairs generalizing index with
  | nil => exact fun failed => nomatch failed
  | cons pair rest ih =>
    obtain ⟨declaration,argument⟩ := pair
    intro failed
    rw [decodeTextsFrom] at failed
    split at failed
    · cases failed
      exact Nat.lt_succ_self index
    · cases later : decodeTextsFrom parser declarations supplied (index + 1) rest with
      | ok values =>
        rw [later] at failed
        cases failed
      | error found =>
        rw [later] at failed
        cases failed
        exact Nat.lt_of_succ_lt (ih later)

theorem bennuBindFrom_position {index : Nat} {report : BennuArgumentReport} :
    ∀ {pairs : List (RewriteParameterDeclaration × Text)},
      bennuBindFrom host declarations supplied index pairs = .error report →
      index < report.position := by
  intro pairs
  induction pairs generalizing index with
  | nil => exact fun failed => nomatch failed
  | cons pair rest ih =>
    obtain ⟨declaration,argument⟩ := pair
    intro failed
    rw [bennuBindFrom] at failed
    split at failed
    · cases failed
      exact Nat.lt_succ_self index
    · cases later : bennuBindFrom host declarations supplied (index + 1) rest with
      | ok values =>
        rw [later] at failed
        cases failed
      | error found =>
        rw [later] at failed
        cases failed
        exact Nat.lt_of_succ_lt (ih later)

/-- The loops agree from a position on exactly when no misread argument is met there. -/
theorem bindFrom_iff (correct : parser.CorrectlyRounding) (hosted : host.CorrectlyRounding)
    (index : Nat) (pairs : List (RewriteParameterDeclaration × Text)) :
    SameBinding (decodeTextsFrom parser declarations supplied index pairs)
        (bennuBindFrom host declarations supplied index pairs) ↔
      ¬MeetsMisread pairs := by
  induction pairs generalizing index with
  | nil => exact iff_of_true rfl (fun meets => meets)
  | cons pair rest ih =>
    obtain ⟨declaration,argument⟩ := pair
    rw [decodeTextsFrom,bennuBindFrom,MeetsMisread]
    rcases decodeArgument_cases correct hosted declaration.type argument with
      ⟨misread,parted⟩ | ⟨judged,same,bindable⟩
    · refine iff_of_false ?_ (not_not.mpr (.inl misread))
      cases evaluated : decodeScalarText parser declaration.type argument with
      | ok value =>
        cases decoded : bennuDecodeArgument host declaration.type argument with
        | ok bound =>
          rw [evaluated,decoded] at parted
          exact parted.elim
        | error refused =>
          -- the program stops here, and the evaluator only further on
          cases later : decodeTextsFrom parser declarations supplied (index + 1) rest with
          | ok values => exact fun equal => equal
          | error found =>
            have position := decodeTextsFrom_position later
            intro equal
            have here := congrArg BennuArgumentReport.position equal
            simp only [bennuReport,ArgumentErrorContext.report] at here
            omega
      | error reason =>
        cases decoded : bennuDecodeArgument host declaration.type argument with
        | error refused =>
          rw [evaluated,decoded] at parted
          exact parted.elim
        | ok bound =>
          cases later : bennuBindFrom host declarations supplied (index + 1) rest with
          | ok values => exact fun equal => equal
          | error found =>
            have position := bennuBindFrom_position later
            intro equal
            have here := congrArg BennuArgumentReport.position equal
            simp only [argumentError,ArgumentErrorContext.report] at here
            omega
    · have next := ih (index + 1)
      cases evaluated : decodeScalarText parser declaration.type argument with
      | ok value =>
        have bindable := bindable.mpr ⟨value,evaluated⟩
        cases decoded : bennuDecodeArgument host declaration.type argument with
        | error refused =>
          rw [evaluated,decoded] at same
          exact same.elim
        | ok bound =>
          rw [evaluated,decoded] at same
          have scalar : bound = value.bennuScalar := same
          subst scalar
          simp only [judged,bindable,true_and,false_or]
          rw [← next]
          cases decodeTextsFrom parser declarations supplied (index + 1) rest with
          | ok values =>
            cases bennuBindFrom host declarations supplied (index + 1) rest with
            | ok bounds => simp [SameBinding,Except.map]
            | error found => exact Iff.rfl
          | error found =>
            cases bennuBindFrom host declarations supplied (index + 1) rest with
            | ok bounds => exact Iff.rfl
            | error other => exact Iff.rfl
      | error reason =>
        have unbindable : ¬Bindable declaration.type argument := by
          rw [bindable]
          rintro ⟨value,accepted⟩
          rw [evaluated] at accepted
          cases accepted
        cases decoded : bennuDecodeArgument host declaration.type argument with
        | ok bound =>
          rw [evaluated,decoded] at same
          exact same.elim
        | error refused =>
          rw [evaluated,decoded] at same
          refine iff_of_true ?_ (not_or.mpr ⟨judged,fun meets => unbindable meets.1⟩)
          change _ = ArgumentErrorContext.report _
          rw [argumentError_report]
          cases refused <;> cases same <;> rfl

end binding

/-- For every parameter list and every list of argument texts, the decoder of the
evaluator and the adapter of the emitted C program accept and refuse alike, report the
same parameter, category and counts, and bind the same scalars, exactly when the
evaluator does not come to an argument that it misjudges. -/
theorem argument_agreement_iff {parser : RewriteDoubleParser} (correct : parser.CorrectlyRounding)
    {host : CStrtod} (hosted : host.CorrectlyRounding)
    (declarations : List RewriteParameterDeclaration) (arguments : List Text) :
    SameBinding (decodeParameterTexts parser declarations arguments)
        (bennuBindArguments host declarations arguments) ↔
      ¬(arguments.length = declarations.length ∧ MeetsMisread (declarations.zip arguments)) := by
  have supplied : (if arguments.length + 1 > 1 then arguments.length + 1 - 1 else 0) =
      arguments.length := by
    split <;> omega
  simp only [decodeParameterTexts,bennuBindArguments,supplied]
  rcases lt_trichotomy arguments.length declarations.length with fewer | same | more
  · rw [if_pos fewer,if_pos ⟨by omega,fewer⟩]
    exact iff_of_true (argumentError_report .missing arguments.length).symm
      (fun both => fewer.ne both.1)
  · rw [if_neg (by omega),if_neg (by omega),if_neg (by omega),if_neg (by omega),
      bindFrom_iff correct hosted]
    simp only [same,true_and]
  · rw [if_neg (by omega),if_pos more,if_neg (by omega),if_pos more]
    refine iff_of_true ?_ (fun both => more.ne' both.1)
    simp [SameBinding,argumentError,ArgumentErrorContext.report,argumentReasonName]

open Classical in
/-- A `strtod` that rounds correctly. -/
noncomputable def exactStrtod : CStrtod where
  strtod spelling :=
    if spelled : ∃ d : DecimalSpelling, d.text = spelling then
      ⟨spelling.length,signedBits spelled.choose.negative
        (min (exists_rounds_magnitude spelled.choose.value).choose infinityIndex)⟩
    else ⟨0,0⟩

theorem exactStrtod_correct : exactStrtod.CorrectlyRounding := by
  intro d
  have spelled : ∃ other : DecimalSpelling, other.text = d.text := ⟨d,rfl⟩
  obtain ⟨value,negative⟩ := DecimalSpelling.text_value spelled.choose_spec
  have rounds := (exists_rounds_magnitude spelled.choose.value).choose_spec
  simp only [exactStrtod,spelled,dif_pos,true_and,negative]
  generalize (exists_rounds_magnitude spelled.choose.value).choose = k at rounds ⊢
  rw [value] at rounds
  exact ⟨k,rounds,rfl⟩

/-- The header "parameters[value Double]". -/
def doubleParameter : RewriteParameterDeclaration where
  name := "value".toList
  type := .doublePrecision
  span := ⟨⟨12,1,12⟩,⟨24,1,24⟩⟩
  nameSpan := ⟨⟨12,1,12⟩,⟨17,1,17⟩⟩
  typeSpan := ⟨⟨18,1,18⟩,⟨24,1,24⟩⟩

theorem argument_agreement_half :
    SameBinding (decodeParameterTexts exactDoubleParser [doubleParameter] ["0.5".toList])
        (bennuBindArguments exactStrtod [doubleParameter] ["0.5".toList]) ↔
      ¬(["0.5".toList].length = [doubleParameter].length ∧
        MeetsMisread ([doubleParameter].zip ["0.5".toList])) :=
  argument_agreement_iff exactDoubleParser_correct exactStrtod_correct [doubleParameter]
    ["0.5".toList]

/-- The evaluator refuses an argument as out of range that the C program binds to zero. -/
theorem pastStoredDigits_parted :
    exactDoubleParser.CorrectlyRounding ∧ exactStrtod.CorrectlyRounding ∧
      ¬SameBinding (decodeParameterTexts exactDoubleParser [doubleParameter] [pastStoredDigits.text])
        (bennuBindArguments exactStrtod [doubleParameter] [pastStoredDigits.text]) := by
  refine ⟨exactDoubleParser_correct,exactStrtod_correct,?_⟩
  obtain ⟨-,vanishes,notZero⟩ := pastStoredDigits_value
  have started : bennuBindArguments exactStrtod [doubleParameter] [pastStoredDigits.text] =
      bennuBindFrom exactStrtod [doubleParameter] 1 0 [(doubleParameter,pastStoredDigits.text)] := rfl
  have decoding : decodeParameterTexts exactDoubleParser [doubleParameter] [pastStoredDigits.text] =
      decodeTextsFrom exactDoubleParser [doubleParameter] 1 0
        [(doubleParameter,pastStoredDigits.text)] := rfl
  rw [started,decoding,bindFrom_iff exactDoubleParser_correct exactStrtod_correct,not_not]
  exact .inl ⟨rfl,pastStoredDigits,rfl,.inl ⟨vanishes,notZero⟩⟩

end Bennu
