import Bennu.DecimalSpelling
import Bennu.Binary64Grid

/-! What the parser makes of a spelling that the conversion library reports out of
range: its estimate of the decimal exponent, and the comparison of the digits with
those of half the least subnormal. Both are stated over the parts of the spelling. -/
namespace Bennu

theorem isFiniteBits_iff (bits : Binary64) :
    isFiniteBits bits = true ↔ bits.index < infinityIndex := by
  rw [isFiniteBits,bne_iff_ne,ne_eq,exponentMask_iff,not_le]

theorem isDigit_iff (byte : Char) : isDigit byte = true ↔ 48 ≤ byte.toNat ∧ byte.toNat ≤ 57 := by
  simp only [isDigit,Bool.and_eq_true,decide_eq_true_eq,Char.le_def,UInt32.le_iff_toNat_le]
  exact Iff.rfl

theorem digitValue_lt {byte : Char} (digit : isDigit byte = true) : digitValue byte < 10 := by
  obtain ⟨low,high⟩ := (isDigit_iff byte).mp digit
  have zero : '0'.toNat = 48 := rfl
  simp only [digitValue,zero]
  omega

theorem digit_lt_iff {byte other : Char} (digit : isDigit byte = true)
    (digitToo : isDigit other = true) : byte < other ↔ digitValue byte < digitValue other := by
  obtain ⟨low,high⟩ := (isDigit_iff byte).mp digit
  obtain ⟨lowToo,highToo⟩ := (isDigit_iff other).mp digitToo
  have zero : '0'.toNat = 48 := rfl
  have order : byte < other ↔ byte.toNat < other.toNat := by
    rw [Char.lt_def,UInt32.lt_iff_toNat_lt]
    exact Iff.rfl
  simp only [order,digitValue,zero]
  omega

theorem digit_eq_iff {byte other : Char} (digit : isDigit byte = true)
    (digitToo : isDigit other = true) : byte = other ↔ digitValue byte = digitValue other := by
  obtain ⟨low,high⟩ := (isDigit_iff byte).mp digit
  obtain ⟨lowToo,highToo⟩ := (isDigit_iff other).mp digitToo
  have zero : '0'.toNat = 48 := rfl
  constructor
  · rintro rfl
    rfl
  · intro equal
    apply Char.toNat_inj.mp
    simp only [digitValue,zero] at equal
    omega

theorem decimalFold_eq (digits : Text) (start : Nat) :
    digits.foldl (fun value byte => value * 10 + digitValue byte) start =
      start * 10 ^ digits.length + decimalValue digits := by
  induction digits generalizing start with
  | nil => simp [decimalValue]
  | cons byte digits ih =>
    have whole : decimalValue (byte :: digits) =
        (0 * 10 + digitValue byte) * 10 ^ digits.length + decimalValue digits := ih _
    rw [List.foldl_cons,ih,whole,List.length_cons,pow_succ]
    ring

theorem decimalValue_cons (byte : Char) (digits : Text) :
    decimalValue (byte :: digits) =
      digitValue byte * 10 ^ digits.length + decimalValue digits := by
  rw [decimalValue,List.foldl_cons,decimalFold_eq]
  simp

theorem decimalValue_append (first second : Text) :
    decimalValue (first ++ second) =
      decimalValue first * 10 ^ second.length + decimalValue second := by
  rw [decimalValue,List.foldl_append,decimalFold_eq]
  rfl

theorem decimalValue_lt {digits : Text} (all : digits.all isDigit = true) :
    decimalValue digits < 10 ^ digits.length := by
  induction digits with
  | nil => simp [decimalValue]
  | cons byte digits ih =>
    rw [List.all_cons,Bool.and_eq_true] at all
    have digit := digitValue_lt all.1
    have rest := ih all.2
    rw [decimalValue_cons,List.length_cons,pow_succ]
    have bound : digitValue byte * 10 ^ digits.length ≤ 9 * 10 ^ digits.length :=
      Nat.mul_le_mul_right _ (by omega)
    omega

/-- Leading zeros. -/
def leadingZeros (digits : Text) : Nat := (digits.takeWhile (· == '0')).length

def significant (digits : Text) : Text := digits.dropWhile (· == '0')

theorem significant_length (digits : Text) :
    leadingZeros digits + (significant digits).length = digits.length := by
  rw [leadingZeros,significant,← List.length_append,List.takeWhile_append_dropWhile]

theorem significant_all {digits : Text} (all : digits.all isDigit = true) :
    (significant digits).all isDigit = true := by
  rw [List.all_eq_true] at all ⊢
  exact fun byte member => all byte ((List.dropWhile_sublist _).subset member)

theorem decimalValue_significant (digits : Text) :
    decimalValue (significant digits) = decimalValue digits := by
  induction digits with
  | nil => rfl
  | cons byte digits ih =>
    by_cases zero : byte = '0'
    · subst zero
      rw [decimalValue_cons,← ih]
      simp [significant,digitValue]
    · simp [significant,zero]

/-- The first significant digit is not zero. -/
theorem significant_head {digits : Text} {first : Char} {rest : Text}
    (equal : significant digits = first :: rest) : first ≠ '0' := by
  intro zero
  have stop := List.head?_dropWhile_not (fun byte => byte == '0') digits
  rw [show digits.dropWhile (fun byte => byte == '0') = first :: rest from equal] at stop
  simp [zero] at stop

theorem significant_ge {digits : Text} (all : digits.all isDigit = true)
    (nonzero : significant digits ≠ []) :
    10 ^ ((significant digits).length - 1) ≤ decimalValue (significant digits) := by
  cases equal : significant digits with
  | nil => exact absurd equal nonzero
  | cons first rest =>
    have other := significant_head equal
    have allToo := significant_all all
    rw [equal,List.all_cons,Bool.and_eq_true] at allToo
    have positive : digitValue first ≠ 0 := by
      intro zero
      exact other ((digit_eq_iff allToo.1 (by decide)).mpr zero)
    rw [decimalValue_cons,List.length_cons,Nat.add_sub_cancel]
    have scaled : 1 * 10 ^ rest.length ≤ digitValue first * 10 ^ rest.length :=
      Nat.mul_le_mul_right _ (by omega)
    omega

section scan

theorem scan_point (scan : DecimalScan) (point : Nat) {digits : Text}
    (all : digits.all isDigit = true) :
    digits.foldl DecimalScan.next { scan with digitsBeforeDecimal := point } =
      { digits.foldl DecimalScan.next scan with digitsBeforeDecimal := point } := by
  induction digits generalizing scan with
  | nil => rfl
  | cons byte digits ih =>
    rw [List.all_cons,Bool.and_eq_true] at all
    have plain : byte ≠ '.' := digit_ne all.1 (by decide)
    simp only [List.foldl_cons]
    rw [← ih _ all.2]
    simp [DecimalScan.next,plain]

/-- The scan of a digit run counts it and finds its first nonzero digit. -/
theorem scan_digits (scan : DecimalScan) {digits : Text} (all : digits.all isDigit = true) :
    digits.foldl DecimalScan.next scan =
      { scan with
        digitOrdinal := scan.digitOrdinal + digits.length
        firstNonzero := scan.firstNonzero.or
          (if significant digits = [] then none
            else some (scan.digitOrdinal + leadingZeros digits)) } := by
  induction digits generalizing scan with
  | nil => cases scan with | mk point ordinal first => cases first <;> rfl
  | cons byte digits ih =>
    rw [List.all_cons,Bool.and_eq_true] at all
    have plain : byte ≠ '.' := digit_ne all.1 (by decide)
    rw [List.foldl_cons,ih _ all.2]
    obtain ⟨point,ordinal,first⟩ := scan
    by_cases zero : byte = '0'
    · subst zero
      cases first with
      | some found =>
        simp [DecimalScan.next]
        omega
      | none =>
        have next : DecimalScan.next ⟨point,ordinal,none⟩ '0' = ⟨point,ordinal + 1,none⟩ := rfl
        have kept : significant ('0' :: digits) = significant digits := rfl
        have zeros : leadingZeros ('0' :: digits) = leadingZeros digits + 1 := rfl
        rw [next,kept,zeros,List.length_cons]
        simp only [Nat.add_assoc,Nat.add_comm 1]
    · cases first with
      | some found =>
        simp [DecimalScan.next,plain]
        omega
      | none =>
        simp [DecimalScan.next,plain,zero,significant,leadingZeros]
        omega

end scan

section exponent

/-- The accumulation of the written exponent, which stops at a million. -/
def cappedNext (value : Nat) (byte : Char) : Nat :=
  if value < 1000000 then value * 10 + digitValue byte else value

theorem capped_full {value : Nat} (full : 1000000 ≤ value) (digits : Text) :
    digits.foldl cappedNext value = value := by
  induction digits with
  | nil => rfl
  | cons byte digits ih =>
    have stays : cappedNext value byte = value := if_neg (by omega)
    rw [List.foldl_cons,stays,ih]

/-- From a value of `read` digits on, seven digits in all are read. -/
theorem capped_rest {digits : Text} (all : digits.all isDigit = true) {value read : Nat}
    (positive : 1 ≤ read) (few : read ≤ 7) (low : 10 ^ (read - 1) ≤ value)
    (high : value < 10 ^ read) :
    digits.foldl cappedNext value =
      (digits.take (7 - read)).foldl (fun value byte => value * 10 + digitValue byte) value := by
  induction digits generalizing value read with
  | nil => simp
  | cons byte digits ih =>
    rw [List.all_cons,Bool.and_eq_true] at all
    by_cases full : read = 7
    · subst full
      rw [capped_full low]
      rfl
    · have small : value < 1000000 := by
        have cap : 10 ^ read ≤ 10 ^ 6 := Nat.pow_le_pow_right (by omega) (by omega)
        omega
      have next : cappedNext value byte = value * 10 + digitValue byte := if_pos small
      have digit := digitValue_lt all.1
      have lower : 10 ^ (read + 1 - 1) ≤ value * 10 + digitValue byte := by
        have power : 10 ^ (read + 1 - 1) = 10 ^ (read - 1) * 10 := by
          rw [← pow_succ]
          congr 1
          omega
        omega
      have upper : value * 10 + digitValue byte < 10 ^ (read + 1) := by
        rw [pow_succ]
        omega
      rw [List.foldl_cons,next,ih all.2 (by omega) (by omega) lower upper,
        show 7 - read = (7 - (read + 1)) + 1 by omega,List.take_succ_cons,List.foldl_cons]

/-- Of the written exponent, its first seven significant digits are read. -/
def cutDigits (digits : Text) : Nat := decimalValue ((significant digits).take 7)

theorem capped_digits {digits : Text} (all : digits.all isDigit = true) :
    digits.foldl cappedNext 0 = cutDigits digits := by
  induction digits with
  | nil => rfl
  | cons byte digits ih =>
    rw [List.all_cons,Bool.and_eq_true] at all
    by_cases zero : byte = '0'
    · subst zero
      rw [List.foldl_cons,show cappedNext 0 '0' = 0 from rfl,ih all.2]
      simp [cutDigits,significant]
    · have kept : significant (byte :: digits) = byte :: digits := by simp [significant,zero]
      have digit := digitValue_lt all.1
      have positive : digitValue byte ≠ 0 := by
        intro none
        exact zero ((digit_eq_iff all.1 (by decide)).mpr none)
      have first : cappedNext 0 byte = digitValue byte := by simp [cappedNext]
      rw [List.foldl_cons,first,capped_rest all.2 (le_refl 1) (by omega) (by simp; omega)
        (by simpa using digit),cutDigits,kept,List.take_succ_cons,decimalValue,List.foldl_cons]
      simp

theorem cutDigits_eq {digits : Text} (few : (significant digits).length ≤ 7) :
    cutDigits digits = decimalValue digits := by
  rw [cutDigits,List.take_of_length_le few,decimalValue_significant]

def ExponentPart.cut (e : ExponentPart) : Int :=
  if e.sign = ['-'] then -(cutDigits e.digits : Int) else cutDigits e.digits

end exponent

namespace DecimalSpelling

variable (d : DecimalSpelling)

def cutExponent : Int := (d.exponent.map ExponentPart.cut).getD 0

theorem mantissa_plain :
    ∀ byte ∈ d.integer ++ fractionText d.fraction, (!isExponentMark byte) = true := by
  intro byte member
  rcases List.mem_append.mp member with inside | inside
  · have digit := List.all_eq_true.mp d.integerDigits byte inside
    simp [digit_not_mark digit]
  · cases fraction : d.fraction with
    | none =>
      rw [fraction] at inside
      cases inside
    | some digits =>
      rw [fraction] at inside
      rcases List.mem_cons.mp inside with rfl | inside
      · decide
      · have digit := List.all_eq_true.mp (d.fractionDigits digits fraction).2 byte inside
        simp [digit_not_mark digit]

theorem body_eq :
    d.body = (d.integer ++ fractionText d.fraction) ++ exponentText d.exponent := by
  rw [body,List.append_assoc]

theorem decimalMantissa_text :
    decimalMantissa d.text = d.integer ++ fractionText d.fraction := by
  rw [decimalMantissa,unsignedSpelling_text,body_eq,List.takeWhile_append_of_pos d.mantissa_plain]
  cases d.exponent with
  | none => simp [exponentText]
  | some e => simp [exponentText,ExponentPart.text,e.isMark]

theorem exponent_rest :
    (d.body.dropWhile fun byte => !isExponentMark byte) = exponentText d.exponent := by
  rw [body_eq,List.dropWhile_append_of_pos d.mantissa_plain]
  cases d.exponent with
  | none => simp [exponentText]
  | some e => simp [exponentText,ExponentPart.text,e.isMark]

theorem explicitExponent_text : explicitExponent d.text = d.cutExponent := by
  rw [explicitExponent,unsignedSpelling_text,exponent_rest,cutExponent]
  cases d.exponent with
  | none => rfl
  | some e =>
    have size := capped_digits e.allDigits
    simp only [exponentText,ExponentPart.text,List.tail_cons,e.afterSign_text,Option.map_some,
      Option.getD_some,ExponentPart.cut,beq_iff_eq,e.head_sign]
    rw [← size]
    rfl

theorem contains_point : d.text.contains '.' = d.fraction.isSome := by
  have plainDigits {digits : Text} (all : digits.all isDigit = true) : '.' ∉ digits := by
    intro member
    cases List.all_eq_true.mp all '.' member
  have plainExponent : '.' ∉ exponentText d.exponent := by
    cases d.exponent with
    | none => exact List.not_mem_nil
    | some e =>
      have mark : '.' ≠ e.mark := by
        intro equal
        have isMark := e.isMark
        rw [← equal] at isMark
        cases isMark
      have sign : '.' ∉ e.sign := by
        rcases e.isSign with equal | equal | equal <;> simp [equal]
      simp [exponentText,ExponentPart.text,mark,sign,plainDigits e.allDigits]
  have plainSign : '.' ∉ (if d.negative then ['-'] else [] : Text) := by
    split <;> decide
  cases fraction : d.fraction with
  | none =>
    simp [text,body,fraction,fractionText,plainExponent,plainDigits d.integerDigits]
  | some digits => simp [text,body,fraction,fractionText]

/-- The estimate of the decimal exponent: the written exponent cut to seven
digits, the digit counts to a million. -/
def estimatedExponent : Int :=
  d.cutExponent + (min d.integer.length 1000000 : Nat)
    - (min (leadingZeros d.digits) 1000000 : Nat) - 1

theorem scan_text :
    (decimalMantissa d.text).foldl DecimalScan.next ⟨0,0,none⟩ =
      ⟨if d.fraction.isSome then d.integer.length else 0,d.digits.length,
        if significant d.digits = [] then none else some (leadingZeros d.digits)⟩ := by
  rw [decimalMantissa_text,List.foldl_append,scan_digits _ d.integerDigits]
  cases fraction : d.fraction with
  | none => simp [fractionText,digits,fraction]
  | some places =>
    have all := (d.fractionDigits places fraction).2
    have joined := scan_digits ⟨0,0,none⟩ d.digits_all
    rw [digits,fraction,Option.getD_some,List.foldl_append,scan_digits _ d.integerDigits] at joined
    rw [fractionText,List.foldl_cons]
    simp only [DecimalScan.next,beq_self_eq_true,if_true]
    have pointed := scan_point ⟨0,0 + d.integer.length,
      none.or (if significant d.integer = [] then none else some (0 + leadingZeros d.integer))⟩
      (0 + d.integer.length) all
    rw [pointed,joined]
    simp [digits,fraction]

theorem decimalScientificExponent_text (nonzero : significant d.digits ≠ []) :
    decimalScientificExponent d.text = d.estimatedExponent := by
  have before : (if d.fraction.isSome then (if d.fraction.isSome then d.integer.length else 0)
      else d.digits.length) = d.integer.length := by
    cases fraction : d.fraction with
    | none => simp [digits,fraction]
    | some places => rfl
  rw [decimalScientificExponent,scan_text,contains_point]
  simp only [nonzero,if_false,before,explicitExponent_text,estimatedExponent]

end DecimalSpelling

section comparison

theorem digitsRoundToZero_points (mantissa threshold : Text) (found : Bool) :
    digitsRoundToZero mantissa threshold found =
      digitsRoundToZero (mantissa.filter (· != '.')) threshold found := by
  induction mantissa generalizing threshold found with
  | nil => rfl
  | cons byte rest ih =>
    by_cases point : byte = '.'
    · subst point
      rw [digitsRoundToZero,if_pos (by rfl),ih]
      rfl
    · have kept : (byte :: rest).filter (· != '.') = byte :: rest.filter (· != '.') := by
        simp [point]
      rw [kept,digitsRoundToZero,digitsRoundToZero]
      simp only [ih]

theorem digitsRoundToZero_zeros {digits : Text} (all : digits.all isDigit = true)
    (threshold : Text) :
    digitsRoundToZero digits threshold false =
      digitsRoundToZero (significant digits) threshold true := by
  induction digits with
  | nil => rfl
  | cons byte rest ih =>
    rw [List.all_cons,Bool.and_eq_true] at all
    have plain : byte ≠ '.' := digit_ne all.1 (by decide)
    by_cases zero : byte = '0'
    · subst zero
      rw [digitsRoundToZero,if_pos (by rfl),ih all.2]
      simp [significant]
    · have kept : significant (byte :: rest) = byte :: rest := by simp [significant,zero]
      rw [kept,digitsRoundToZero,digitsRoundToZero]
      simp [zero,plain]

/-- The digit loop compares two decimal fractions of one digit before the point. -/
theorem digitsRoundToZero_iff {digits threshold : Text} (all : digits.all isDigit = true)
    (allToo : threshold.all isDigit = true) :
    digitsRoundToZero digits threshold true = true ↔
      decimalValue digits * 10 ^ threshold.length ≤ decimalValue threshold * 10 ^ digits.length := by
  induction digits generalizing threshold with
  | nil => simp [digitsRoundToZero,decimalValue]
  | cons byte rest ih =>
    rw [List.all_cons,Bool.and_eq_true] at all
    have plain : byte ≠ '.' := digit_ne all.1 (by decide)
    have small := decimalValue_lt all.2
    rw [digitsRoundToZero,decimalValue_cons]
    simp only [beq_iff_eq,plain,Bool.not_true,Bool.and_false,Bool.or_false,if_false]
    cases threshold with
    | nil =>
      have inner := @ih [] all.2 rfl
      simp only [List.headD_nil,List.tail_nil,digit_lt_iff all.1 (show isDigit '0' = true by decide),
        digit_lt_iff (show isDigit '0' = true by decide) all.1]
      have zero : digitValue '0' = 0 := rfl
      have none : decimalValue [] = 0 := rfl
      simp only [zero,Nat.not_lt_zero,if_false,none,Nat.zero_mul,List.length_nil,Nat.pow_zero,
        Nat.mul_one] at inner ⊢
      split
      · rename_i positive
        have above : 0 < digitValue byte * 10 ^ rest.length := by positivity
        simp only [Bool.false_eq_true,false_iff]
        omega
      · rename_i notPositive
        rw [inner,show digitValue byte = 0 by omega]
        simp
    | cons first others =>
      rw [List.all_cons,Bool.and_eq_true] at allToo
      have smallToo := decimalValue_lt allToo.2
      have inner := ih all.2 allToo.2
      rw [List.headD_cons,List.tail_cons,decimalValue_cons,List.length_cons,List.length_cons,
        pow_succ,pow_succ]
      simp only [digit_lt_iff all.1 allToo.1,digit_lt_iff allToo.1 all.1]
      generalize 10 ^ rest.length = scale at *
      generalize 10 ^ others.length = scaleToo at *
      rcases Nat.lt_trichotomy (digitValue byte) (digitValue first) with less | same | more
      · rw [if_pos less]
        have head : (digitValue byte + 1) * scale ≤ digitValue first * scale :=
          Nat.mul_le_mul_right _ less
        have scaled : (digitValue byte * scale + decimalValue rest) * (scaleToo * 10) ≤
            digitValue first * scale * (scaleToo * 10) :=
          Nat.mul_le_mul_right _ (by linarith)
        simp only [true_iff]
        calc (digitValue byte * scale + decimalValue rest) * (scaleToo * 10)
            ≤ digitValue first * scale * (scaleToo * 10) := scaled
          _ = digitValue first * scaleToo * (scale * 10) := by ring
          _ ≤ (digitValue first * scaleToo + decimalValue others) * (scale * 10) :=
            Nat.mul_le_mul_right _ (Nat.le_add_right _ _)
      · rw [if_neg (by omega),if_neg (by omega),inner,same]
        constructor
        · intro le
          linarith
        · intro le
          linarith
      · rw [if_neg (by omega),if_pos more]
        have head : (digitValue first + 1) * scaleToo ≤ digitValue byte * scaleToo :=
          Nat.mul_le_mul_right _ more
        have positive : 0 < scale := by omega
        have above : (digitValue first * scaleToo + decimalValue others) * (scale * 10) <
            (digitValue first + 1) * scaleToo * (scale * 10) :=
          Nat.mul_lt_mul_of_pos_right (by linarith) (by omega)
        simp only [Bool.false_eq_true,false_iff,not_le]
        calc (digitValue first * scaleToo + decimalValue others) * (scale * 10)
            < (digitValue first + 1) * scaleToo * (scale * 10) := above
          _ ≤ digitValue byte * scaleToo * (scale * 10) := Nat.mul_le_mul_right _ head
          _ = digitValue byte * scale * (scaleToo * 10) := by ring
          _ ≤ (digitValue byte * scale + decimalValue rest) * (scaleToo * 10) :=
            Nat.mul_le_mul_right _ (Nat.le_add_right _ _)

end comparison

namespace DecimalSpelling

variable (d : DecimalSpelling)

theorem mantissa_digits :
    (d.integer ++ fractionText d.fraction).filter (· != '.') = d.digits := by
  have kept {digits : Text} (all : digits.all isDigit = true) :
      digits.filter (· != '.') = digits := by
    apply List.filter_eq_self.mpr
    intro byte member
    have plain : byte ≠ '.' := digit_ne (List.all_eq_true.mp all byte member) (by decide)
    simpa using plain
  rw [List.filter_append,kept d.integerDigits,digits]
  cases fraction : d.fraction with
  | none => rfl
  | some places => simpa [fractionText] using kept (d.fractionDigits places fraction).2

/-- The significant digits are at most the stored digits of half the least
subnormal, both read as decimals with one digit before the point. -/
def WithinStored : Prop :=
  decimalValue (significant d.digits) * 10 ^ halfMinimumSubnormal.length ≤
    decimalValue halfMinimumSubnormal * 10 ^ (significant d.digits).length

instance : Decidable d.WithinStored := by
  unfold WithinStored
  infer_instance

/-- The parser takes the spelling for one that rounds to zero. -/
def JudgedZero : Prop :=
  d.estimatedExponent < -324 ∨ d.estimatedExponent = -324 ∧ d.WithinStored

theorem decimalRoundsToZero_iff (nonzero : significant d.digits ≠ []) :
    decimalRoundsToZero d.text = true ↔ d.JudgedZero := by
  have stored : halfMinimumSubnormal.all isDigit = true := by decide
  have compared : digitsRoundToZero (decimalMantissa d.text) halfMinimumSubnormal false = true ↔
      d.WithinStored := by
    rw [decimalMantissa_text,digitsRoundToZero_points,mantissa_digits,
      digitsRoundToZero_zeros d.digits_all]
    exact digitsRoundToZero_iff (significant_all d.digits_all) stored
  rw [decimalRoundsToZero,decimalScientificExponent_text d nonzero]
  simp only [JudgedZero]
  split
  · rename_i below
    simp [below]
  · rename_i notBelow
    split
    · rename_i other
      simp [notBelow,other]
    · rename_i same
      simp only [not_not] at same
      simp [same,compared]

end DecimalSpelling

end Bennu
