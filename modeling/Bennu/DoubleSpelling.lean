import Bennu.ArgumentDecoding
import Bennu.DecimalEstimate

/-! The law of double spellings: a text of the finite grammar denotes the rounding of
its exact value, and is out of range when that rounding is not finite. The parser keeps
the law except where its estimate of the spelling misses the true value. -/
namespace Bennu

open NearestEven

namespace DecimalSpelling

variable (d : DecimalSpelling)

/-- The exact magnitude of the spelled number. -/
def value : ℚ := decimalValue d.digits * 10 ^ (d.writtenExponent - d.fractionLength)

theorem significant_nil : significant d.digits = [] ↔ d.value = 0 := by
  rw [value,← decimalValue_significant]
  have scale : (10 : ℚ) ^ (d.writtenExponent - d.fractionLength) ≠ 0 := by positivity
  constructor
  · intro empty
    rw [empty]
    simp [decimalValue]
  · intro zero
    by_contra nonzero
    have large := significant_ge d.digits_all nonzero
    have none : decimalValue (significant d.digits) = 0 := by
      exact_mod_cast (mul_eq_zero.mp zero).resolve_right scale
    have positive : 0 < 10 ^ ((significant d.digits).length - 1) := by positivity
    omega

/-- The exponent of the first significant digit. -/
def decimalExponent : Int :=
  d.writtenExponent + d.integer.length - leadingZeros d.digits - 1

theorem digits_length : d.digits.length = d.integer.length + d.fractionLength := by
  simp [digits,fractionLength]

theorem decimalExponent_eq :
    d.decimalExponent =
      d.writtenExponent - d.fractionLength + (significant d.digits).length - 1 := by
  have length := significant_length d.digits
  rw [digits_length] at length
  unfold decimalExponent
  omega

/-- The value as one digit before the point, times its power of ten. -/
theorem value_eq (nonzero : significant d.digits ≠ []) :
    d.value = decimalValue (significant d.digits) / 10 ^ ((significant d.digits).length - 1)
      * 10 ^ d.decimalExponent := by
  have positive : 1 ≤ (significant d.digits).length := List.length_pos_iff.mpr nonzero
  rw [decimalExponent_eq,value,decimalValue_significant,
    show d.writtenExponent - d.fractionLength + (significant d.digits).length - 1 =
      (d.writtenExponent - d.fractionLength) + (((significant d.digits).length - 1 : Nat) : ℤ) by
        omega,zpow_add₀ (by norm_num),zpow_natCast]
  have scale : (10 : ℚ) ^ ((significant d.digits).length - 1) ≠ 0 := by positivity
  field_simp

theorem value_ge (nonzero : significant d.digits ≠ []) : (10 : ℚ) ^ d.decimalExponent ≤ d.value := by
  rw [d.value_eq nonzero]
  have large := significant_ge d.digits_all nonzero
  have scale : (0 : ℚ) < 10 ^ ((significant d.digits).length - 1) := by positivity
  have one : (1 : ℚ) ≤ decimalValue (significant d.digits) /
      10 ^ ((significant d.digits).length - 1) := by
    rw [le_div_iff₀ scale,one_mul]
    exact_mod_cast large
  have power : (0 : ℚ) ≤ 10 ^ d.decimalExponent := by positivity
  calc (10 : ℚ) ^ d.decimalExponent = 1 * 10 ^ d.decimalExponent := (one_mul _).symm
    _ ≤ _ := mul_le_mul_of_nonneg_right one power

theorem value_lt (nonzero : significant d.digits ≠ []) :
    d.value < (10 : ℚ) ^ (d.decimalExponent + 1) := by
  rw [d.value_eq nonzero,zpow_add_one₀ (by norm_num),mul_comm ((10 : ℚ) ^ d.decimalExponent)]
  have positive : 1 ≤ (significant d.digits).length := List.length_pos_iff.mpr nonzero
  have small := decimalValue_lt (significant_all d.digits_all)
  have scale : (0 : ℚ) < 10 ^ ((significant d.digits).length - 1) := by positivity
  have ten : decimalValue (significant d.digits) /
      (10 : ℚ) ^ ((significant d.digits).length - 1) < 10 := by
    rw [div_lt_iff₀ scale,← pow_succ']
    rw [Nat.sub_add_cancel positive]
    exact_mod_cast small
  have power : (0 : ℚ) < 10 ^ d.decimalExponent := by positivity
  exact mul_lt_mul_of_pos_right ten power

/-- The double a spelling stands for. -/
def Denotes (bits : Binary64) : Prop :=
  ∃ k, Rounds magnitude d.value k ∧ k < infinityIndex ∧ bits = signedBits d.negative k

/-- The rounding is not finite. -/
def OutOfRange : Prop := ∃ k, Rounds magnitude d.value k ∧ infinityIndex ≤ k

/-- The number is not zero, and its rounding is. -/
def Vanishes : Prop := d.value ≠ 0 ∧ Rounds magnitude d.value 0

theorem outOfRange_iff : d.OutOfRange ↔ overflowThreshold ≤ d.value := by
  obtain ⟨k,rounds⟩ := exists_rounds_magnitude d.value
  rw [← rounds_infinite_iff rounds]
  constructor
  · rintro ⟨j,other,infinite⟩
    rwa [rounds.unique magnitude_strictMono other]
  · exact fun infinite => ⟨k,rounds,infinite⟩

theorem vanishes_iff : d.Vanishes ↔ d.value ≠ 0 ∧ d.value ≤ halfLeastMagnitude := by
  obtain ⟨k,rounds⟩ := exists_rounds_magnitude d.value
  rw [← rounds_zero_iff rounds]
  constructor
  · rintro ⟨nonzero,other⟩
    exact ⟨nonzero,rounds.unique magnitude_strictMono other⟩
  · rintro ⟨nonzero,rfl⟩
    exact ⟨nonzero,rounds⟩

theorem half_lt_overflow : halfLeastMagnitude < overflowThreshold := by
  have small : halfLeastMagnitude ≤ 1 := by
    rw [halfLeastMagnitude,show (1 : ℚ) = 2 ^ (0 : ℤ) by norm_num]
    exact zpow_le_zpow_right₀ (by norm_num) (by norm_num)
  have large : (1 : ℚ) < overflowThreshold := by
    rw [overflowThreshold,show (1024 : ℤ) = 970 + 54 by norm_num,zpow_add₀ (by norm_num)]
    have unit : (1 : ℚ) ≤ 2 ^ (970 : ℤ) := one_le_zpow₀ (by norm_num) (by norm_num)
    have power : (2 : ℚ) ^ (54 : ℤ) = 18014398509481984 := by norm_num
    rw [power]
    generalize (2 : ℚ) ^ (970 : ℤ) = step at *
    linarith
  exact small.trans_lt large

theorem denotes_unique {bits other : Binary64} (first : d.Denotes bits)
    (second : d.Denotes other) : bits = other := by
  obtain ⟨k,rounds,-,rfl⟩ := first
  obtain ⟨j,roundsToo,-,rfl⟩ := second
  rw [rounds.unique magnitude_strictMono roundsToo]

theorem denotes_or_outOfRange : (∃ bits, d.Denotes bits) ∨ d.OutOfRange := by
  obtain ⟨k,rounds⟩ := exists_rounds_magnitude d.value
  by_cases finite : k < infinityIndex
  · exact .inl ⟨_,k,rounds,finite,rfl⟩
  · exact .inr ⟨k,rounds,not_lt.mp finite⟩

theorem not_denotes_of_outOfRange {bits : Binary64} (out : d.OutOfRange) : ¬d.Denotes bits := by
  rintro ⟨k,rounds,finite,-⟩
  obtain ⟨j,other,infinite⟩ := out
  rw [rounds.unique magnitude_strictMono other] at finite
  omega

/-- A zero, with the sign as it is written. -/
def signedZero : Binary64 := signedBits d.negative 0

theorem signedZero_eq :
    (if d.text.head? = some '-' then negativeZero else 0) = d.signedZero := by
  simp only [head_text,signedZero]
  cases d.negative <;> rfl

theorem denotes_zero_iff : d.Denotes d.signedZero ↔ Rounds magnitude d.value 0 := by
  constructor
  · rintro ⟨k,rounds,finite,equal⟩
    have same := (signedBits_inj (by norm_num) (by simp only [infinityIndex] at finite; omega)).mp equal
    rwa [same.2]
  · intro rounds
    exact ⟨0,rounds,by norm_num [infinityIndex],rfl⟩

/-- The estimate misses: a vanishing number is not recognised, or an overflowing
one is taken for zero. -/
def Misjudged : Prop := d.Vanishes ∧ ¬d.JudgedZero ∨ d.OutOfRange ∧ d.JudgedZero

end DecimalSpelling

/-- The conversion library rounds correctly, and reports out of range exactly when
the value overflows or a nonzero value rounds to zero. -/
structure RewriteDoubleParser.CorrectlyRounding (parser : RewriteDoubleParser) : Prop where
  outOfRange : ∀ d : DecimalSpelling,
    (parser.parseFiniteDouble d.text).status = .outOfRange ↔ d.OutOfRange ∨ d.Vanishes
  converted : ∀ d : DecimalSpelling, (parser.parseFiniteDouble d.text).status ≠ .outOfRange →
    (parser.parseFiniteDouble d.text).status = .success ∧
    (parser.parseFiniteDouble d.text).consumed = d.text.length ∧
    d.Denotes (parser.parseFiniteDouble d.text).value

/-- A reading of a spelling keeps the law: it accepts exactly what the spelling
denotes, and refuses exactly what is out of range. -/
structure KeepsSpelling (d : DecimalSpelling) (accepts : Binary64 → Prop) (refuses : Prop) :
    Prop where
  accepts : ∀ bits, accepts bits ↔ d.Denotes bits
  refuses : refuses ↔ d.OutOfRange

namespace DecimalSpelling

variable {d : DecimalSpelling}

theorem Denotes.finite {bits : Binary64} (denotes : d.Denotes bits) : isFiniteBits bits = true := by
  obtain ⟨k,-,finite,rfl⟩ := denotes
  rw [isFiniteBits_iff,index_signedBits _ (by simp only [infinityIndex] at finite; omega)]
  exact finite

theorem canonicalInteger_digits {spelling : Text}
    (canonical : canonicalIntegerGrammar spelling = true) :
    ∀ byte ∈ unsignedSpelling spelling, isDigit byte = true := by
  intro byte member
  unfold canonicalIntegerGrammar at canonical
  split at canonical
  · cases canonical
  · rename_i rest equal
    rw [equal] at member
    obtain ⟨empty,-⟩ := (Bool.and_eq_true _ _).mp canonical
    rw [List.isEmpty_iff.mp empty,List.mem_singleton] at member
    rw [member]
    decide
  · rename_i first rest _ equal
    rw [equal] at member
    obtain ⟨digit,digits⟩ := (Bool.and_eq_true _ _).mp canonical
    rcases List.mem_cons.mp member with rfl | inside
    · exact digit
    · exact List.all_eq_true.mp digits byte inside

/-- A point or an exponent keeps a spelling from being an integer. -/
theorem not_integer (d : DecimalSpelling) : canonicalIntegerGrammar d.text = false := by
  by_contra integer
  rw [Bool.not_eq_false] at integer
  have digits := canonicalInteger_digits integer
  rw [unsignedSpelling_text,body] at digits
  rcases (Bool.or_eq_true _ _).mp d.marked with marked | marked
  · obtain ⟨places,fraction⟩ := Option.isSome_iff_exists.mp marked
    have point := digits '.' (by simp [fraction,fractionText])
    cases point
  · obtain ⟨e,exponent⟩ := Option.isSome_iff_exists.mp marked
    have mark := digits e.mark (by simp [exponent,exponentText,ExponentPart.text])
    have plain := digit_not_mark mark
    rw [e.isMark] at plain
    cases plain

theorem text_ne {spelling : Text} (other : finiteDoubleGrammar spelling = false)
    (d : DecimalSpelling) : d.text ≠ spelling := by
  rintro rfl
  rw [d.accepted] at other
  cases other

theorem numericToken_text (parser : RewriteDoubleParser) (d : DecimalSpelling)
    (begin finish : RewritePosition) :
    numericToken parser d.text begin finish =
      (let converted := parser.parseFiniteDouble d.text
      if converted.status = .outOfRange then
        if decimalRoundsToZero d.text then doubleToken d.signedZero begin finish
        else literalErrorToken .range begin finish
      else if converted.status ≠ .success ∨ converted.consumed ≠ d.text.length ∨
          isFiniteBits converted.value = false then
        literalErrorToken .range begin finish
      else doubleToken converted.value begin finish) := by
  have infinite : d.text ≠ "-inf".toList := text_ne (by decide) d
  have noInteger : parseCanonicalInteger d.text = none := by
    simp [parseCanonicalInteger,d.not_integer]
  rw [numericToken,if_neg infinite,noInteger]
  simp only [d.not_integer,Bool.false_eq_true,if_false,d.accepted,if_true,signedZero_eq]

theorem doubleToken_inj {value other : Binary64} {begin finish : RewritePosition} :
    doubleToken value begin finish = doubleToken other begin finish ↔ value = other := by
  constructor
  · exact fun equal => congrArg RewriteToken.doublePrecision equal
  · rintro rfl
    rfl

theorem doubleToken_ne_error {value : Binary64} {error : RewriteLiteralError}
    {begin finish : RewritePosition} :
    doubleToken value begin finish ≠ literalErrorToken error begin finish := by
  intro equal
  cases congrArg RewriteToken.kind equal

/-- What the conversion reports decides between the estimate and the value. -/
theorem judged_cases {parser : RewriteDoubleParser} (correct : parser.CorrectlyRounding)
    (d : DecimalSpelling) :
    (parser.parseFiniteDouble d.text).status = .outOfRange ∧ (d.OutOfRange ∨ d.Vanishes) ∧
      (decimalRoundsToZero d.text = true ↔ d.JudgedZero) ∨
    (parser.parseFiniteDouble d.text).status = .success ∧
      (parser.parseFiniteDouble d.text).consumed = d.text.length ∧
      d.Denotes (parser.parseFiniteDouble d.text).value ∧ ¬d.OutOfRange ∧ ¬d.Vanishes := by
  by_cases out : (parser.parseFiniteDouble d.text).status = .outOfRange
  · have reported := (correct.outOfRange d).mp out
    refine .inl ⟨out,reported,d.decimalRoundsToZero_iff ?_⟩
    intro zero
    have none := d.significant_nil.mp zero
    rcases reported with infinite | vanishes
    · have bound := d.outOfRange_iff.mp infinite
      rw [none] at bound
      have half := half_lt_overflow
      have positive : (0 : ℚ) < halfLeastMagnitude := by
        unfold halfLeastMagnitude
        positivity
      linarith
    · exact vanishes.1 none
  · obtain ⟨success,consumed,denotes⟩ := correct.converted d out
    have quiet := (not_congr (correct.outOfRange d)).mp out
    rw [not_or] at quiet
    exact .inr ⟨success,consumed,denotes,quiet⟩

/-- The estimate keeps the law for a spelling exactly when it does not misjudge it. -/
theorem keeps_iff {accepts : Binary64 → Prop} {refuses : Prop}
    (reported : d.OutOfRange ∨ d.Vanishes)
    (accepted : ∀ bits, accepts bits ↔ d.JudgedZero ∧ bits = d.signedZero)
    (refused : refuses ↔ ¬d.JudgedZero) : KeepsSpelling d accepts refuses ↔ ¬d.Misjudged := by
  have apart : d.OutOfRange → ¬d.Vanishes := by
    rintro infinite ⟨-,zero⟩
    exact d.not_denotes_of_outOfRange infinite (d.denotes_zero_iff.mpr zero)
  constructor
  · rintro ⟨-,law⟩
    rw [refused] at law
    rintro (⟨vanishes,notZero⟩ | ⟨infinite,zero⟩)
    · exact apart (law.mp notZero) vanishes
    · exact law.mpr infinite zero
  · intro judged
    rcases reported with infinite | vanishes
    · have notZero : ¬d.JudgedZero := fun zero => judged (.inr ⟨infinite,zero⟩)
      refine ⟨?_,by simp [refused,notZero,infinite]⟩
      intro bits
      rw [accepted]
      exact iff_of_false (fun both => notZero both.1) (d.not_denotes_of_outOfRange infinite)
    · have zero : d.JudgedZero := by
        by_contra notZero
        exact judged (.inl ⟨vanishes,notZero⟩)
      have denotes := d.denotes_zero_iff.mpr vanishes.2
      constructor
      · intro bits
        rw [accepted]
        constructor
        · rintro ⟨-,rfl⟩
          exact denotes
        · exact fun other => ⟨zero,d.denotes_unique other denotes⟩
      · rw [refused]
        exact iff_of_false (not_not.mpr zero) fun infinite => apart infinite vanishes

/-- A conversion in range keeps the law, and the spelling is not misjudged. -/
theorem keeps_converted {accepts : Binary64 → Prop} {refuses : Prop} {value : Binary64}
    (denotes : d.Denotes value) (inRange : ¬d.OutOfRange) (kept : ¬d.Vanishes)
    (accepted : ∀ bits, accepts bits ↔ bits = value) (refused : ¬refuses) :
    KeepsSpelling d accepts refuses ↔ ¬d.Misjudged := by
  have judged : ¬d.Misjudged := by
    rintro (⟨vanishes,-⟩ | ⟨infinite,-⟩)
    · exact kept vanishes
    · exact inRange infinite
  refine iff_of_true ⟨?_,iff_of_false refused inRange⟩ judged
  intro bits
  rw [accepted]
  constructor
  · rintro rfl
    exact denotes
  · exact fun other => d.denotes_unique other denotes

/-- The literal parser keeps the law exactly where the estimate does not miss. -/
theorem numericToken_keeps {parser : RewriteDoubleParser} (correct : parser.CorrectlyRounding)
    (d : DecimalSpelling) (begin finish : RewritePosition) :
    KeepsSpelling d
      (fun bits => numericToken parser d.text begin finish = doubleToken bits begin finish)
      (numericToken parser d.text begin finish = literalErrorToken .range begin finish) ↔
    ¬d.Misjudged := by
  rcases judged_cases correct d with ⟨out,reported,judged⟩ | ⟨success,consumed,denotes,inRange,kept⟩
  · have token := numericToken_text parser d begin finish
    simp only [out,if_true] at token
    apply keeps_iff reported
    · intro bits
      rw [token,← judged]
      split
      · rename_i zero
        simp only [doubleToken_inj,zero,true_and]
        exact eq_comm
      · rename_i notZero
        exact iff_of_false (fun equal => doubleToken_ne_error equal.symm) fun both => notZero both.1
    · rw [token,← judged]
      split
      · rename_i zero
        exact iff_of_false doubleToken_ne_error (not_not.mpr zero)
      · rename_i notZero
        exact iff_of_true rfl notZero
  · have token := numericToken_text parser d begin finish
    simp only [success,consumed,denotes.finite,ne_eq,not_true_eq_false,Bool.true_eq_false,or_self,
      if_false,reduceCtorEq] at token
    apply keeps_converted denotes inRange kept
    · intro bits
      rw [token,doubleToken_inj]
      exact eq_comm
    · rw [token]
      exact doubleToken_ne_error

theorem decodeDoubleText_text (parser : RewriteDoubleParser) (d : DecimalSpelling) :
    decodeDoubleText parser d.text =
      (let converted := parser.parseFiniteDouble d.text
      if converted.status = .outOfRange ∧ decimalRoundsToZero d.text = true then
        .ok (makeDoubleValue d.signedZero)
      else if converted.status ≠ .success ∨ converted.consumed ≠ d.text.length ∨
          isFiniteBits converted.value = false then
        .error .outOfRange
      else .ok (makeDoubleValue converted.value)) := by
  have infinite : d.text ≠ "inf".toList := text_ne (by decide) d
  have negative : d.text ≠ "-inf".toList := text_ne (by decide) d
  have nan : d.text ≠ "nan".toList := text_ne (by decide) d
  rw [decodeDoubleText,if_neg infinite,if_neg negative,if_neg nan]
  simp only [d.accepted,if_true,signedZero_eq]

theorem normalizeDouble_finite {bits : Binary64} (finite : isFiniteBits bits = true) :
    normalizeDouble bits = bits := by
  have notNan : isNanBits bits = false := by
    simp only [isFiniteBits,bne_iff_ne,ne_eq] at finite
    simp [isNanBits,finite]
  simp [normalizeDouble,notNan]

/-- Values that the decoder makes of finite doubles are equal when these are. -/
theorem makeDoubleValue_inj {bits other : Binary64} (finite : isFiniteBits bits = true)
    (finiteToo : isFiniteBits other = true) :
    makeDoubleValue bits = makeDoubleValue other ↔ bits = other := by
  constructor
  · intro equal
    have scalar := congrArg (fun value : Value => value.scalar.doublePrecision) equal
    simpa [makeDoubleValue,normalizeDouble_finite finite,normalizeDouble_finite finiteToo]
      using scalar
  · rintro rfl
    rfl

theorem signedZero_finite (d : DecimalSpelling) : isFiniteBits d.signedZero = true := by
  unfold signedZero
  cases d.negative <;> decide

/-- The argument decoder keeps the law exactly where the estimate does not miss. -/
theorem decodeScalarText_keeps {parser : RewriteDoubleParser} (correct : parser.CorrectlyRounding)
    (d : DecimalSpelling) :
    KeepsSpelling d
      (fun bits => isFiniteBits bits = true ∧
        decodeScalarText parser .doublePrecision d.text = .ok (makeDoubleValue bits))
      (decodeScalarText parser .doublePrecision d.text = .error .outOfRange) ↔
    ¬d.Misjudged := by
  have decoded := decodeDoubleText_text parser d
  have same : decodeScalarText parser .doublePrecision d.text = decodeDoubleText parser d.text := rfl
  rw [same]
  rcases judged_cases correct d with ⟨out,reported,judged⟩ | ⟨success,consumed,denotes,inRange,kept⟩
  · simp only [out,true_and,ne_eq,reduceCtorEq,not_false_eq_true,true_or,if_true] at decoded
    apply keeps_iff reported
    · intro bits
      rw [decoded,← judged]
      split
      · rename_i zero
        simp only [zero,true_and,Except.ok.injEq]
        constructor
        · rintro ⟨finite,equal⟩
          exact ((makeDoubleValue_inj d.signedZero_finite finite).mp equal).symm
        · rintro rfl
          exact ⟨d.signedZero_finite,rfl⟩
      · rename_i notZero
        exact iff_of_false (fun both => nomatch both.2) fun both => notZero both.1
    · rw [decoded,← judged]
      split
      · rename_i zero
        exact iff_of_false (fun equal => nomatch equal) (not_not.mpr zero)
      · rename_i notZero
        exact iff_of_true rfl notZero
  · simp only [success,consumed,denotes.finite,ne_eq,not_true_eq_false,Bool.true_eq_false,or_self,
      if_false,reduceCtorEq,false_and] at decoded
    apply keeps_converted denotes inRange kept
    · intro bits
      rw [decoded]
      constructor
      · rintro ⟨finite,equal⟩
        exact ((makeDoubleValue_inj denotes.finite finite).mp (Except.ok.inj equal)).symm
      · rintro rfl
        exact ⟨denotes.finite,rfl⟩
    · rw [decoded]
      exact fun equal => nomatch equal

section estimate

theorem powers :
    (10 : ℚ) ^ (-324 : ℤ) < halfLeastMagnitude ∧ halfLeastMagnitude < 10 ^ (-323 : ℤ) ∧
      decimalValue halfMinimumSubnormal * (10 : ℚ) ^ (-394 : ℤ) < halfLeastMagnitude := by
  have low : (2 : ℚ) ^ 1075 < 10 ^ 324 := by exact_mod_cast (by decide +kernel : 2 ^ 1075 < 10 ^ 324)
  have high : (10 : ℚ) ^ 323 < 2 ^ 1075 := by exact_mod_cast (by decide +kernel : 10 ^ 323 < 2 ^ 1075)
  have stored : decimalValue halfMinimumSubnormal * (2 : ℚ) ^ 1075 < 10 ^ 394 := by
    exact_mod_cast (by decide +kernel :
      decimalValue halfMinimumSubnormal * 2 ^ 1075 < 10 ^ 394)
  have half : halfLeastMagnitude = ((2 : ℚ) ^ 1075)⁻¹ := rfl
  have inverse (n : Nat) : (10 : ℚ) ^ (-(n : ℤ)) = ((10 : ℚ) ^ n)⁻¹ := by
    rw [zpow_neg,zpow_natCast]
  have two : (0 : ℚ) < 2 ^ 1075 := pow_pos (by norm_num) _
  have ten (n : Nat) : (0 : ℚ) < 10 ^ n := pow_pos (by norm_num) _
  refine ⟨?_,?_,?_⟩
  · rw [half,show (-324 : ℤ) = -((324 : Nat) : ℤ) by norm_num,inverse]
    exact (inv_lt_inv₀ (ten 324) two).mpr low
  · rw [half,show (-323 : ℤ) = -((323 : Nat) : ℤ) by norm_num,inverse]
    exact (inv_lt_inv₀ two (ten 323)).mpr high
  · rw [half,show (-394 : ℤ) = -((394 : Nat) : ℤ) by norm_num,inverse,← div_eq_mul_inv,
      div_lt_iff₀ (ten 394),inv_mul_eq_div,lt_div_iff₀ two]
    exact stored

/-- The counts and the exponent are short enough to be taken as they are. -/
structure Unclamped (d : DecimalSpelling) : Prop where
  integer : d.integer.length ≤ 1000000
  zeros : leadingZeros d.digits ≤ 1000000
  exponent : ∀ e, d.exponent = some e → (significant e.digits).length ≤ 7

theorem Unclamped.estimatedExponent (unclamped : Unclamped d) :
    d.estimatedExponent = d.decimalExponent := by
  have cut : d.cutExponent = d.writtenExponent := by
    rw [cutExponent,writtenExponent]
    cases exponent : d.exponent with
    | none => rfl
    | some e =>
      simp only [Option.map_some,Option.getD_some,ExponentPart.cut,ExponentPart.value,
        cutDigits_eq (unclamped.exponent e exponent)]
  rw [DecimalSpelling.estimatedExponent,cut,Nat.min_eq_left unclamped.integer,
    Nat.min_eq_left unclamped.zeros,decimalExponent]

theorem vanishes_exponent (vanishes : d.Vanishes) : d.decimalExponent ≤ -324 := by
  obtain ⟨nonzero,le⟩ := d.vanishes_iff.mp vanishes
  have large := d.value_ge (fun empty => nonzero (d.significant_nil.mp empty))
  have below : (10 : ℚ) ^ d.decimalExponent < 10 ^ (-323 : ℤ) :=
    (large.trans le).trans_lt powers.2.1
  have exponents := (zpow_lt_zpow_iff_right₀ (by norm_num : (1 : ℚ) < 10)).mp below
  omega

/-- Without clamping the estimate can only miss between the stored digits of half the
least subnormal and its true value. -/
theorem Unclamped.misjudged_iff (unclamped : Unclamped d) :
    d.Misjudged ↔ d.Vanishes ∧ d.decimalExponent = -324 ∧ ¬d.WithinStored := by
  have estimate := unclamped.estimatedExponent
  have notBoth : ¬(d.OutOfRange ∧ d.JudgedZero) := by
    rintro ⟨infinite,judged⟩
    have bound := half_lt_overflow.trans_le (d.outOfRange_iff.mp infinite)
    have nonzero : significant d.digits ≠ [] := by
      intro empty
      have zero := d.significant_nil.mp empty
      have positive : (0 : ℚ) < halfLeastMagnitude := zpow_pos (by norm_num) _
      linarith
    rw [JudgedZero,estimate] at judged
    rcases judged with below | ⟨exponent,stored⟩
    · have small := d.value_lt nonzero
      have power : (10 : ℚ) ^ (d.decimalExponent + 1) ≤ 10 ^ (-324 : ℤ) :=
        zpow_le_zpow_right₀ (by norm_num) (by omega)
      linarith [powers.1]
    · have length : halfMinimumSubnormal.length = 71 := by decide
      have positive : 1 ≤ (significant d.digits).length := List.length_pos_iff.mpr nonzero
      have scale : (0 : ℚ) < 10 ^ ((significant d.digits).length - 1) := by positivity
      have compared : (decimalValue (significant d.digits) : ℚ) * 10 ^ 70 ≤
          decimalValue halfMinimumSubnormal * 10 ^ ((significant d.digits).length - 1) := by
        have whole : decimalValue (significant d.digits) * 10 ^ 71 ≤
            decimalValue halfMinimumSubnormal * 10 ^ (significant d.digits).length := by
          rw [← length]
          exact stored
        rw [show (significant d.digits).length = (significant d.digits).length - 1 + 1 by omega,
          pow_succ _ 70,pow_succ _ ((significant d.digits).length - 1),← mul_assoc,
          ← mul_assoc] at whole
        exact_mod_cast Nat.le_of_mul_le_mul_right whole (by norm_num)
      have value : d.value ≤ decimalValue halfMinimumSubnormal * (10 : ℚ) ^ (-394 : ℤ) := by
        rw [d.value_eq nonzero,exponent,show (-394 : ℤ) = -324 + -70 by norm_num,
          zpow_add₀ (by norm_num),← mul_assoc,mul_right_comm]
        apply mul_le_mul_of_nonneg_right _ (zpow_nonneg (by norm_num) _)
        rw [div_le_iff₀ scale,zpow_neg,show (10 : ℚ) ^ (70 : ℤ) = 10 ^ 70 from rfl,
          ← div_eq_mul_inv,div_mul_eq_mul_div,le_div_iff₀ (by positivity)]
        exact compared
      linarith [powers.2.2]
  constructor
  · rintro (⟨vanishes,notZero⟩ | both)
    · have bound := vanishes_exponent vanishes
      rw [JudgedZero,estimate,not_or,not_and] at notZero
      have exponent : d.decimalExponent = -324 := by omega
      exact ⟨vanishes,exponent,notZero.2 exponent⟩
    · exact absurd both notBoth
  · rintro ⟨vanishes,exponent,outside⟩
    refine .inl ⟨vanishes,?_⟩
    rw [JudgedZero,estimate,exponent]
    simp [outside]

end estimate

section parser

/-- A spelling has one value. -/
theorem text_value {other : DecimalSpelling} (same : d.text = other.text) :
    d.value = other.value ∧ d.negative = other.negative := by
  have mantissa : d.digits = other.digits := by
    rw [← d.mantissa_digits,← other.mantissa_digits,← d.decimalMantissa_text,
      ← other.decimalMantissa_text,same]
  have body : d.body = other.body := by
    rw [← d.unsignedSpelling_text,← other.unsignedSpelling_text,same]
  have integer : d.integer = other.integer := by
    rw [← takeWhile_digits d.integerDigits d.stops_fraction,
      ← takeWhile_digits other.integerDigits other.stops_fraction]
    exact congrArg (List.takeWhile isDigit) body
  have fraction : d.fractionLength = other.fractionLength := by
    have length := d.digits_length
    have lengthToo := other.digits_length
    rw [mantissa,integer] at length
    omega
  have exponentEq : exponentText d.exponent = exponentText other.exponent := by
    rw [← d.exponent_rest,← other.exponent_rest,body]
  have exponent : d.writtenExponent = other.writtenExponent := exponentText_value exponentEq
  refine ⟨by rw [value,value,mantissa,fraction,exponent],?_⟩
  have sign := d.head_text
  rw [same,other.head_text] at sign
  exact Bool.eq_iff_iff.mpr sign.symm

end parser

end DecimalSpelling

open Classical in
/-- A conversion library that rounds correctly. -/
noncomputable def exactDoubleParser : RewriteDoubleParser where
  parseFiniteDouble spelling :=
    if spelled : ∃ d : DecimalSpelling, d.text = spelling then
      if found : ∃ bits, spelled.choose.Denotes bits ∧ ¬spelled.choose.Vanishes then
        ⟨.success,spelling.length,found.choose⟩
      else ⟨.outOfRange,spelling.length,0⟩
    else ⟨.invalidArgument,0,0⟩

theorem exactDoubleParser_correct : exactDoubleParser.CorrectlyRounding := by
  have chosen (d : DecimalSpelling) : ∃ spelled : ∃ other : DecimalSpelling, other.text = d.text,
      (spelled.choose.Vanishes ↔ d.Vanishes) ∧
        ∀ bits, spelled.choose.Denotes bits ↔ d.Denotes bits := by
    have spelled : ∃ other : DecimalSpelling, other.text = d.text := ⟨d,rfl⟩
    obtain ⟨value,negative⟩ := DecimalSpelling.text_value spelled.choose_spec
    refine ⟨spelled,?_,fun bits => ?_⟩
    · simp only [DecimalSpelling.Vanishes,value]
    · simp only [DecimalSpelling.Denotes,value,negative]
  constructor
  · intro d
    obtain ⟨spelled,vanishes,denotes⟩ := chosen d
    simp only [exactDoubleParser,spelled,dif_pos]
    split
    · rename_i found
      obtain ⟨bits,denoted,kept⟩ := found
      simp only [reduceCtorEq,false_iff,not_or]
      rw [denotes] at denoted
      rw [vanishes] at kept
      exact ⟨fun out => d.not_denotes_of_outOfRange out denoted,kept⟩
    · rename_i notFound
      simp only [true_iff]
      by_contra quiet
      rw [not_or] at quiet
      rcases d.denotes_or_outOfRange with ⟨bits,denoted⟩ | out
      · exact notFound ⟨bits,(denotes bits).mpr denoted,mt vanishes.mp quiet.2⟩
      · exact quiet.1 out
  · intro d inRange
    obtain ⟨spelled,vanishes,denotes⟩ := chosen d
    simp only [exactDoubleParser,spelled,dif_pos] at inRange ⊢
    split
    · rename_i found
      exact ⟨rfl,rfl,(denotes _).mp found.choose_spec.1⟩
    · rename_i notFound
      simp [notFound] at inRange

/-- Every text of the finite double grammar: the literal parser and the argument
decoder read it as its correctly rounded value, or refuse it as out of range,
exactly when the estimate of the parser does not misjudge it. -/
theorem double_spelling_iff {parser : RewriteDoubleParser} (correct : parser.CorrectlyRounding)
    {spelling : Text} (grammatical : finiteDoubleGrammar spelling = true)
    (begin finish : RewritePosition) :
    ∃ d : DecimalSpelling, d.text = spelling ∧
      (KeepsSpelling d
        (fun bits => numericToken parser spelling begin finish = doubleToken bits begin finish)
        (numericToken parser spelling begin finish = literalErrorToken .range begin finish) ↔
          ¬d.Misjudged) ∧
      (KeepsSpelling d
        (fun bits => isFiniteBits bits = true ∧
          decodeScalarText parser .doublePrecision spelling = .ok (makeDoubleValue bits))
        (decodeScalarText parser .doublePrecision spelling = .error .outOfRange) ↔
          ¬d.Misjudged) := by
  obtain ⟨d,rfl⟩ := (finiteDoubleGrammar_iff spelling).mp grammatical
  exact ⟨d,rfl,DecimalSpelling.numericToken_keeps correct d begin finish,
    DecimalSpelling.decodeScalarText_keeps correct d⟩

theorem double_spelling_half :
    ∃ d : DecimalSpelling, d.text = "0.5".toList ∧
      (KeepsSpelling d
        (fun bits => numericToken exactDoubleParser "0.5".toList ⟨1,1,1⟩ ⟨4,1,4⟩ =
          doubleToken bits ⟨1,1,1⟩ ⟨4,1,4⟩)
        (numericToken exactDoubleParser "0.5".toList ⟨1,1,1⟩ ⟨4,1,4⟩ =
          literalErrorToken .range ⟨1,1,1⟩ ⟨4,1,4⟩) ↔ ¬d.Misjudged) := by
  obtain ⟨d,spelled,literal,-⟩ := double_spelling_iff exactDoubleParser_correct
    (by decide : finiteDoubleGrammar "0.5".toList = true) ⟨1,1,1⟩ ⟨4,1,4⟩
  exact ⟨d,spelled,literal⟩

theorem exponentMark_small : isExponentMark 'e' = true := rfl

/-- A number below half the least subnormal whose digits begin with the stored ones
and go on with a digit that is less than the next true one. -/
def pastStoredDigits : DecimalSpelling where
  negative := false
  integer := ['2']
  fraction := some
    "47032822920623272088284396434110686182529901307162382212792841250337751".toList
  exponent := some ⟨'e',['-'],"324".toList,exponentMark_small,.inr (.inr rfl),by decide,by decide⟩
  integerNonempty := by decide
  integerDigits := by decide
  integerCanonical := by decide
  fractionDigits := by
    rintro digits ⟨⟩
    decide
  marked := rfl

theorem pastStoredDigits_value :
    pastStoredDigits.Denotes 0 ∧ pastStoredDigits.Vanishes ∧ ¬pastStoredDigits.JudgedZero := by
  have small : pastStoredDigits.value ≤ halfLeastMagnitude := by
    have digits : decimalValue pastStoredDigits.digits * 2 ^ 1075 ≤ 10 ^ 395 := by decide +kernel
    have exponent : pastStoredDigits.writtenExponent - pastStoredDigits.fractionLength =
        -((395 : Nat) : ℤ) := by decide +kernel
    have half : halfLeastMagnitude = ((2 : ℚ) ^ 1075)⁻¹ := rfl
    have two : (0 : ℚ) < 2 ^ 1075 := pow_pos (by norm_num) _
    have ten : (0 : ℚ) < 10 ^ 395 := pow_pos (by norm_num) _
    rw [DecimalSpelling.value,exponent,zpow_neg,zpow_natCast,half,← div_eq_mul_inv,
      div_le_iff₀ ten,inv_mul_eq_div,le_div_iff₀ two]
    exact_mod_cast digits
  have nonzero : pastStoredDigits.value ≠ 0 := by
    rw [ne_eq,← pastStoredDigits.significant_nil]
    decide +kernel
  have vanishes : pastStoredDigits.Vanishes := pastStoredDigits.vanishes_iff.mpr ⟨nonzero,small⟩
  refine ⟨?_,vanishes,?_⟩
  · exact pastStoredDigits.denotes_zero_iff.mpr vanishes.2
  · unfold DecimalSpelling.JudgedZero
    decide +kernel

/-- The correctly rounded value of the spelling is zero, and it is refused as out of
range, as a literal and as an argument. -/
theorem pastStoredDigits_refused :
    finiteDoubleGrammar pastStoredDigits.text = true ∧ pastStoredDigits.Denotes 0 ∧
      exactDoubleParser.CorrectlyRounding ∧
      numericToken exactDoubleParser pastStoredDigits.text ⟨1,1,1⟩ ⟨79,1,79⟩ =
        literalErrorToken .range ⟨1,1,1⟩ ⟨79,1,79⟩ ∧
      decodeScalarText exactDoubleParser .doublePrecision pastStoredDigits.text =
        .error .outOfRange := by
  obtain ⟨denotes,vanishes,notZero⟩ := pastStoredDigits_value
  refine ⟨pastStoredDigits.accepted,denotes,exactDoubleParser_correct,?_⟩
  have out := (exactDoubleParser_correct.outOfRange pastStoredDigits).mpr (.inr vanishes)
  have unjudged : decimalRoundsToZero pastStoredDigits.text = false := by
    rw [← Bool.not_eq_true,pastStoredDigits.decimalRoundsToZero_iff (by decide +kernel)]
    exact notZero
  constructor
  · rw [DecimalSpelling.numericToken_text]
    simp only [out,unjudged,if_true,Bool.false_eq_true,if_false]
  · have decoded := DecimalSpelling.decodeDoubleText_text exactDoubleParser pastStoredDigits
    simp only [out,unjudged,Bool.false_eq_true,and_false,if_false,ne_eq,reduceCtorEq,
      not_false_eq_true,true_or,if_true] at decoded
    exact decoded

end Bennu
