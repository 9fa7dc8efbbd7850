import Bennu.ArgumentDecoding
import Bennu.DecimalEstimate
import Bennu.NaturalDigits
import Bennu.ShortestDecimal
import Mathlib.Data.Int.Log

/-! The two writers of doubles: the evaluator asks the library for the shortest digits,
the C program prints with growing precision until the text reads back. Buffers of 64
bytes hold every text that is written here. -/
namespace Bennu

open NearestEven

section formats

def signText (negative : Bool) : Text := if negative then ['-'] else []

/-- What stands behind a point, and the point when there is something. -/
def pointed (digits : Text) : Text := if digits.isEmpty then [] else '.' :: digits

/-- An exponent with its sign and at least two digits. -/
def exponentDigits (exponent : ℤ) : Text :=
  (if exponent.natAbs < 10 then ['0'] else []) ++ Nat.toDigits 10 exponent.natAbs

/-- Digits with a point after the first one, and the exponent of that one. -/
def scientificText (negative : Bool) (digits : ℕ) (exponent : ℤ) : Text :=
  signText negative ++ (Nat.toDigits 10 digits).take 1 ++ pointed ((Nat.toDigits 10 digits).drop 1) ++
    'e' :: (if exponent < 0 then '-' else '+') :: exponentDigits exponent

/-- The last digits of a number, so many of them. -/
def lastDigits : ℕ → ℕ → Text
  | 0,_ => []
  | places + 1,number => lastDigits places (number / 10) ++ [Nat.digitChar (number % 10)]

/-- Digits with so many of them after the point. -/
def fixedText (negative : Bool) (digits places : ℕ) : Text :=
  signText negative ++ Nat.toDigits 10 (digits / 10 ^ places) ++ pointed (lastDigits places digits)

/-- `snprintf` of "%.*e", rounding to even. -/
def printScientific (bits : Binary64) (precision : ℕ) : Text :=
  let value := magnitude bits.index
  let exponent := Int.log 10 value
  let digits := roundHalfEven (value / 10 ^ (exponent - precision))
  if digits = 10 ^ (precision + 1) then
    scientificText bits.negative (10 ^ precision) (exponent + 1)
  else scientificText bits.negative digits exponent

/-- `snprintf` of "%.*f", rounding to even. -/
def printFixed (bits : Binary64) (precision : ℕ) : Text :=
  fixedText bits.negative (roundHalfEven (magnitude bits.index / 10 ^ (-(precision : ℤ)))) precision

/-- Digits and their exponent in the general format. -/
def generalText (negative : Bool) (digits : ℕ) (exponent : ℤ) : Text :=
  let leading := exponent + digitCount digits - 1
  if leading < -4 ∨ 6 ≤ leading then scientificText negative digits leading
  else fixedText negative (digits * 10 ^ exponent.toNat) (-exponent).toNat

end formats

section evaluator

/-- `to_chars` of the library in the general format; `none` for an error code. -/
structure ToChars where
  general : Binary64 → Option Text

/-- The exponent digits that the loop over leading zeros leaves. -/
def withoutZeros : Text → Text
  | '0' :: next :: rest => withoutZeros (next :: rest)
  | digits => digits

/-- What `append_double` appends; `none` for a failed conversion. -/
def appendDouble (library : ToChars) (bits : Binary64) : Option Text :=
  if bits &&& binary64ExponentMask = binary64ExponentMask then
    if bits &&& binary64FractionMask ≠ 0 then some "nan".toList
    else some (if bits >>> 63 ≠ 0 then "-inf".toList else "inf".toList)
  else if bits = 0 then some "0.0".toList
  else if bits = negativeZero then some "-0.0".toList
  else
    match library.general bits with
    | none => none
    | some buffer =>
      let mantissa := buffer.takeWhile (fun byte => byte != 'e' && byte != 'E')
      match buffer.drop mantissa.length with
      | [] => some (if '.' ∈ buffer then buffer else buffer ++ ".0".toList)
      | _ :: exponent =>
        let negative := exponent.head? = some '-'
        let digits :=
          if exponent.head? = some '+' ∨ negative then exponent.tail else exponent
        some (mantissa ++ 'e' :: ((if negative then ['-'] else []) ++ withoutZeros digits))

end evaluator

section program

/-- `bennu_normalize_exponent`: `strchr` looks for the small letter first. -/
def bennuNormalizeExponent (input : Text) : Text :=
  match (input.findIdx? (· == 'e')).or (input.findIdx? (· == 'E')) with
  | none => input
  | some exponent =>
    let written := input.drop (exponent + 1)
    let negative := written.head? = some '-'
    let digits := if written.head? = some '+' ∨ negative then written.tail else written
    input.take exponent ++ 'e' :: ((if negative then ['-'] else []) ++ withoutZeros digits)

/-- The loop over the precisions: the first text that reads back. -/
def bennuMatched (host : CStrtod) (bits : Binary64) (candidate : ℕ → Text) : ℕ → ℕ → Option Text
  | 0,_ => none
  | remaining + 1,precision =>
    let parsed := host.strtod (candidate precision)
    if parsed.consumed = (candidate precision).length ∧ parsed.value = bits then
      some (candidate precision)
    else bennuMatched host bits candidate remaining (precision + 1)

def oneMillion : Binary64 := 0x412e848000000000

/-- The literal 0.0001 of the C program. -/
def oneTenThousandth : Binary64 := 0x3f1a36e2eb1c432d

/-- What `bennu_write_double` writes; `none` when it reports a failure. -/
def bennuWriteDouble (host : CStrtod) (bits : Binary64) : Option Text :=
  if bits &&& 0x7ff0000000000000 = 0x7ff0000000000000 then
    if bits &&& 0x000fffffffffffff ≠ 0 then some "nan".toList
    else some (if bits >>> 63 ≠ 0 then "-inf".toList else "inf".toList)
  else if bits = 0 then some "0.0".toList
  else if bits = 0x8000000000000000 then some "-0.0".toList
  else
    let value := magnitude bits.index
    let candidate :=
      if magnitude oneMillion.index ≤ value ∨ value < magnitude oneTenThousandth.index then
        bennuMatched host bits (printScientific bits) 17 0
      else bennuMatched host bits (printFixed bits) 21 0
    candidate.map fun text =>
      let normalized := bennuNormalizeExponent text
      if '.' ∉ normalized ∧ 'e' ∉ normalized then normalized ++ ".0".toList else normalized

end program

section digits

theorem exists_toDigits (n : ℕ) :
    ∃ first rest, Nat.toDigits 10 n = first :: rest ∧ isDigit first = true ∧
      rest.all isDigit = true ∧ rest.length = digitCount n - 1 := by
  have all := toDigits_digits n
  cases digits : Nat.toDigits 10 n with
  | nil => exact absurd digits Nat.toDigits_ne_nil
  | cons first rest =>
    rw [digits,List.all_cons,Bool.and_eq_true] at all
    exact ⟨first,rest,rfl,all.1,all.2,by simp [digitCount,digits]⟩

theorem lastDigits_digits (places n : ℕ) : (lastDigits places n).all isDigit = true := by
  induction places generalizing n with
  | zero => rfl
  | succ places ih =>
    rw [lastDigits,List.all_append,ih]
    simp [(digitChar_digit (Nat.mod_lt n (by norm_num : 0 < 10))).1]

theorem lastDigits_length (places n : ℕ) : (lastDigits places n).length = places := by
  induction places generalizing n with
  | zero => rfl
  | succ places ih => rw [lastDigits,List.length_append,ih]; rfl

theorem decimalValue_lastDigits (places n : ℕ) :
    decimalValue (lastDigits places n) = n % 10 ^ places := by
  induction places generalizing n with
  | zero => simp [lastDigits,decimalValue,Nat.mod_one]
  | succ places ih =>
    have last := (digitChar_digit (Nat.mod_lt n (by norm_num : 0 < 10))).2
    have single : decimalValue [Nat.digitChar (n % 10)] = n % 10 := by
      rw [decimalValue_cons,last]
      simp [decimalValue]
    rw [lastDigits,decimalValue_append,ih,single,List.length_singleton,pow_one,pow_succ',
      Nat.mod_mul]
    ring

theorem exponentDigits_digits (exponent : ℤ) : (exponentDigits exponent).all isDigit = true := by
  rw [exponentDigits,List.all_append,toDigits_digits,Bool.and_true]
  split <;> rfl

theorem exponentDigits_ne_nil (exponent : ℤ) : exponentDigits exponent ≠ [] := by
  simp [exponentDigits]

theorem decimalValue_exponentDigits (exponent : ℤ) :
    decimalValue (exponentDigits exponent) = exponent.natAbs := by
  rw [exponentDigits,decimalValue_append,decimalValue_toDigits]
  split <;> simp [decimalValue,digitValue]

end digits

/-- A number as `printf` writes it and `strtod` reads it: leading zeros, a point or an
exponent are not asked for. -/
structure WrittenDecimal where
  negative : Bool
  integer : Text
  fraction : Text
  exponent : Option ExponentPart
  integerNonempty : integer ≠ []
  integerDigits : integer.all isDigit = true
  fractionDigits : fraction.all isDigit = true

namespace WrittenDecimal

def text (d : WrittenDecimal) : Text :=
  signText d.negative ++ d.integer ++ pointed d.fraction ++ exponentText d.exponent

def value (d : WrittenDecimal) : ℚ :=
  decimalValue (d.integer ++ d.fraction) *
    10 ^ ((d.exponent.map ExponentPart.value).getD 0 - d.fraction.length)

/-- The parts of a text in scientific notation. -/
def scientific (negative : Bool) (digits : ℕ) (exponent : ℤ) : WrittenDecimal where
  negative := negative
  integer := (Nat.toDigits 10 digits).take 1
  fraction := (Nat.toDigits 10 digits).drop 1
  exponent := some ⟨'e',[if exponent < 0 then '-' else '+'],exponentDigits exponent,rfl,
    by split <;> simp,exponentDigits_ne_nil exponent,exponentDigits_digits exponent⟩
  integerNonempty := by
    obtain ⟨first,rest,digits,-⟩ := exists_toDigits digits
    simp [digits]
  integerDigits := by
    obtain ⟨first,rest,digits,digit,-⟩ := exists_toDigits digits
    simp [digits,digit]
  fractionDigits := by
    obtain ⟨first,rest,digits,-,all,-⟩ := exists_toDigits digits
    rw [digits]
    exact all

theorem scientific_text (negative : Bool) (digits : ℕ) (exponent : ℤ) :
    (scientific negative digits exponent).text = scientificText negative digits exponent := by
  simp only [text,scientific,scientificText,exponentText,ExponentPart.text,List.singleton_append]

theorem scientific_value (negative : Bool) (digits : ℕ) (exponent : ℤ) :
    (scientific negative digits exponent).value =
      decimalGrid (exponent - (digitCount digits - 1 : ℕ)) digits := by
  have power : (if [if exponent < 0 then '-' else '+'] = ['-'] then
      -(decimalValue (exponentDigits exponent) : ℤ) else decimalValue (exponentDigits exponent)) =
      exponent := by
    rw [decimalValue_exponentDigits]
    by_cases below : exponent < 0
    · rw [if_pos below,if_pos rfl]
      omega
    · rw [if_neg below,if_neg (by decide)]
      omega
  simp only [value,scientific,Option.map_some,Option.getD_some,ExponentPart.value,power,
    List.take_append_drop,decimalValue_toDigits,List.length_drop,decimalGrid,digitCount]

/-- The parts of a text in fixed notation. -/
def fixed (negative : Bool) (digits places : ℕ) : WrittenDecimal where
  negative := negative
  integer := Nat.toDigits 10 (digits / 10 ^ places)
  fraction := lastDigits places digits
  exponent := none
  integerNonempty := Nat.toDigits_ne_nil
  integerDigits := toDigits_digits _
  fractionDigits := lastDigits_digits places digits

theorem fixed_text (negative : Bool) (digits places : ℕ) :
    (fixed negative digits places).text = fixedText negative digits places := by
  simp only [text,fixed,fixedText,exponentText,List.append_nil]

theorem fixed_value (negative : Bool) (digits places : ℕ) :
    (fixed negative digits places).value = decimalGrid (-(places : ℤ)) digits := by
  have whole : decimalValue (Nat.toDigits 10 (digits / 10 ^ places) ++ lastDigits places digits) =
      digits := by
    rw [decimalValue_append,decimalValue_toDigits,decimalValue_lastDigits,lastDigits_length,
      Nat.mul_comm,Nat.div_add_mod]
  simp only [value,fixed,Option.map_none,Option.getD_none,whole,lastDigits_length,decimalGrid,
    zero_sub]

end WrittenDecimal

/-- The host reads a number to its end, and rounds it correctly. -/
def CStrtod.ReadsDecimals (host : CStrtod) : Prop :=
  ∀ d : WrittenDecimal, (host.strtod d.text).consumed = d.text.length ∧
    ∃ k, Rounds magnitude d.value k ∧
      (host.strtod d.text).value = signedBits d.negative (min k infinityIndex)

/-- The library writes the shortest digits in the general format. -/
def ToChars.GivesShortest (library : ToChars) (bits : Binary64) : Prop :=
  ∃ digits exponent, ShortestDecimal bits.index digits exponent ∧
    library.general bits = some (generalText bits.negative digits exponent)

section search

variable {host : CStrtod} {bits : Binary64} {candidate : ℕ → Text}

/-- The text reads back as the double, to its end. -/
def ReadsAs (host : CStrtod) (bits : Binary64) (text : Text) : Prop :=
  (host.strtod text).consumed = text.length ∧ (host.strtod text).value = bits

theorem readsAs_iff (hosted : host.ReadsDecimals) (finite : bits.index < infinityIndex)
    (d : WrittenDecimal) (sign : d.negative = bits.negative) :
    ReadsAs host bits d.text ↔ Rounds magnitude d.value bits.index := by
  obtain ⟨consumed,k,rounds,value⟩ := hosted d
  have small : bits.index < 2 ^ 63 := finite.trans (by norm_num [infinityIndex])
  rw [ReadsAs,value,sign,eq_true consumed,true_and]
  nth_rewrite 2 [← signedBits_index bits]
  rw [signedBits_inj (by simp only [infinityIndex] at finite ⊢; omega) small]
  constructor
  · rintro ⟨-,same⟩
    have index : k = bits.index := by omega
    rwa [← index]
  · intro reads
    have index := rounds.unique magnitude_strictMono reads
    exact ⟨rfl,by omega⟩

/-- The search stops at the first precision whose text reads back. -/
theorem bennuMatched_first {remaining start p : ℕ} (within : p < remaining)
    (before : ∀ i < p, ¬ReadsAs host bits (candidate (start + i)))
    (reads : ReadsAs host bits (candidate (start + p))) :
    bennuMatched host bits candidate remaining start = some (candidate (start + p)) := by
  induction remaining generalizing start p with
  | zero => exact absurd within (Nat.not_lt_zero p)
  | succ remaining ih =>
    rw [bennuMatched]
    cases p with
    | zero => exact if_pos reads
    | succ p =>
      have first : ¬ReadsAs host bits (candidate start) := before 0 (Nat.succ_pos p)
      have next : start + 1 + p = start + (p + 1) := by omega
      refine (if_neg first).trans ?_
      rw [← next]
      apply ih (Nat.lt_of_succ_lt_succ within)
      · intro i less
        rw [show start + 1 + i = start + (i + 1) by omega]
        exact before (i + 1) (Nat.succ_lt_succ less)
      · rwa [next]

end search

section normalize

/-- The exponent without its plus sign and leading zeros. -/
def normalizedExponent (written : Text) : Text :=
  (if written.head? = some '-' then ['-'] else []) ++
    withoutZeros (if written.head? = some '+' ∨ written.head? = some '-' then written.tail else written)

/-- No letter that starts an exponent. -/
def Plain (text : Text) : Prop := ∀ byte ∈ text, (byte != 'e' && byte != 'E') = true

theorem Plain.append {first second : Text} (plain : Plain first) (plainToo : Plain second) :
    Plain (first ++ second) := by
  intro byte member
  rcases List.mem_append.mp member with inside | inside
  · exact plain byte inside
  · exact plainToo byte inside

theorem plain_digits {digits : Text} (all : digits.all isDigit = true) : Plain digits := by
  intro byte member
  have digit := List.all_eq_true.mp all byte member
  have small := digit_ne digit (by decide : isDigit 'e' = false)
  have capital := digit_ne digit (by decide : isDigit 'E' = false)
  simp [small,capital]

theorem plain_sign (negative : Bool) : Plain (signText negative) := by
  cases negative <;> simp [Plain,signText]

theorem plain_pointed {digits : Text} (all : digits.all isDigit = true) : Plain (pointed digits) := by
  have plain := plain_digits all
  rw [pointed]
  split
  · simp [Plain]
  · intro byte member
    rcases List.mem_cons.mp member with rfl | inside
    · decide
    · exact plain byte inside

theorem Plain.takeWhile {mantissa written : Text} (plain : Plain mantissa) :
    (mantissa ++ 'e' :: written).takeWhile (fun byte => byte != 'e' && byte != 'E') = mantissa := by
  rw [List.takeWhile_append_of_pos plain]
  simp

theorem Plain.findIdx {mantissa written : Text} (plain : Plain mantissa) :
    (mantissa ++ 'e' :: written).findIdx? (· == 'e') = some mantissa.length := by
  rw [List.findIdx?_append]
  have absent : mantissa.findIdx? (· == 'e') = none := by
    rw [List.findIdx?_eq_none_iff]
    intro byte member
    have letters := plain byte member
    simp only [Bool.and_eq_true,bne_iff_ne] at letters
    simp [letters.1]
  simp [absent,List.findIdx?_cons]

theorem bennuNormalizeExponent_marked {mantissa written : Text} (plain : Plain mantissa) :
    bennuNormalizeExponent (mantissa ++ 'e' :: written) =
      mantissa ++ 'e' :: normalizedExponent written := by
  have rest : (mantissa ++ 'e' :: written).drop (mantissa.length + 1) = written := by
    rw [List.drop_append,List.drop_eq_nil_of_le (by omega)]
    simp
  have before : (mantissa ++ 'e' :: written).take mantissa.length = mantissa := by simp
  simp only [bennuNormalizeExponent,plain.findIdx,Option.some_or,rest,before,normalizedExponent]

theorem bennuNormalizeExponent_plain {text : Text} (plain : Plain text) :
    bennuNormalizeExponent text = text := by
  have absent (letter : Char) (mark : letter = 'e' ∨ letter = 'E') :
      text.findIdx? (· == letter) = none := by
    rw [List.findIdx?_eq_none_iff]
    intro byte member
    have letters := plain byte member
    simp only [Bool.and_eq_true,bne_iff_ne] at letters
    rcases mark with rfl | rfl
    · simp [letters.1]
    · simp [letters.2]
  simp [bennuNormalizeExponent,absent]

end normalize

section finite

variable {bits : Binary64}

/-- What is left when the two writers come to the library. -/
theorem finite_cases (finite : bits.index < infinityIndex) (nonzero : bits.index ≠ 0) :
    ¬bits &&& binary64ExponentMask = binary64ExponentMask ∧ bits ≠ 0 ∧ bits ≠ negativeZero := by
  refine ⟨?_,?_,?_⟩
  · rw [exponentMask_iff]
    omega
  · rintro rfl
    exact nonzero rfl
  · rintro rfl
    exact nonzero rfl

/-- The text that both writers make of one in scientific notation. -/
def normalizedScientific (negative : Bool) (digits : ℕ) (exponent : ℤ) : Text :=
  signText negative ++ (Nat.toDigits 10 digits).take 1 ++ pointed ((Nat.toDigits 10 digits).drop 1) ++
    'e' :: normalizedExponent ((if exponent < 0 then '-' else '+') :: exponentDigits exponent)

/-- The text that both writers make of one in fixed notation. -/
def normalizedFixed (negative : Bool) (digits places : ℕ) : Text :=
  let text := fixedText negative digits places
  if '.' ∈ text then text else text ++ ".0".toList

theorem plain_mantissa (negative : Bool) (digits : ℕ) :
    Plain (signText negative ++ (Nat.toDigits 10 digits).take 1 ++
      pointed ((Nat.toDigits 10 digits).drop 1)) := by
  obtain ⟨first,rest,written,digit,all,-⟩ := exists_toDigits digits
  rw [written]
  have single : [first].all isDigit = true := by simp [digit]
  exact ((plain_sign negative).append (plain_digits single)).append (plain_pointed all)

theorem plain_fixed (negative : Bool) (digits places : ℕ) :
    Plain (fixedText negative digits places) :=
  ((plain_sign negative).append (plain_digits (toDigits_digits _))).append
    (plain_pointed (lastDigits_digits places digits))

theorem appendDouble_scientific {library : ToChars} {negative : Bool} {digits : ℕ} {exponent : ℤ}
    (finite : bits.index < infinityIndex) (nonzero : bits.index ≠ 0)
    (converted : library.general bits = some (scientificText negative digits exponent)) :
    appendDouble library bits = some (normalizedScientific negative digits exponent) := by
  obtain ⟨mask,notZero,notNegative⟩ := finite_cases finite nonzero
  rw [appendDouble,if_neg mask,if_neg notZero,if_neg notNegative,converted]
  simp only [scientificText,(plain_mantissa negative digits).takeWhile,List.drop_left]
  rfl

theorem appendDouble_fixed {library : ToChars} {negative : Bool} {digits places : ℕ}
    (finite : bits.index < infinityIndex) (nonzero : bits.index ≠ 0)
    (converted : library.general bits = some (fixedText negative digits places)) :
    appendDouble library bits = some (normalizedFixed negative digits places) := by
  obtain ⟨mask,notZero,notNegative⟩ := finite_cases finite nonzero
  rw [appendDouble,if_neg mask,if_neg notZero,if_neg notNegative,converted]
  have whole : (fixedText negative digits places).takeWhile
      (fun byte => byte != 'e' && byte != 'E') = fixedText negative digits places :=
    List.takeWhile_eq_self_iff.mpr (plain_fixed negative digits places)
  simp only [whole,List.drop_length,normalizedFixed]

/-- The end of `bennu_write_double`. -/
def bennuFinish (text : Text) : Text :=
  let normalized := bennuNormalizeExponent text
  if '.' ∉ normalized ∧ 'e' ∉ normalized then normalized ++ ".0".toList else normalized

theorem bennuFinish_scientific (negative : Bool) (digits : ℕ) (exponent : ℤ) :
    bennuFinish (scientificText negative digits exponent) =
      normalizedScientific negative digits exponent := by
  simp only [bennuFinish,scientificText,bennuNormalizeExponent_marked (plain_mantissa negative digits)]
  rw [if_neg (fun both => both.2 (by simp))]
  rfl

theorem bennuFinish_fixed (negative : Bool) (digits places : ℕ) :
    bennuFinish (fixedText negative digits places) = normalizedFixed negative digits places := by
  have plain := plain_fixed negative digits places
  have unmarked : 'e' ∉ fixedText negative digits places := fun member => by
    have letter := plain 'e' member
    cases letter
  simp only [bennuFinish,bennuNormalizeExponent_plain plain,normalizedFixed,unmarked,
    not_false_eq_true,and_true,ite_not]

/-- The C program writes what its search ends with. -/
theorem bennuWriteDouble_finite {host : CStrtod} (finite : bits.index < infinityIndex)
    (nonzero : bits.index ≠ 0) :
    bennuWriteDouble host bits =
      (if millionIndex ≤ bits.index ∨ bits.index < tenThousandthIndex then
        bennuMatched host bits (printScientific bits) 17 0
      else bennuMatched host bits (printFixed bits) 21 0).map bennuFinish := by
  obtain ⟨mask,notZero,notNegative⟩ := finite_cases finite nonzero
  have million : oneMillion.index = millionIndex := by decide
  have small : oneTenThousandth.index = tenThousandthIndex := by decide
  have notMask : ¬bits &&& 0x7ff0000000000000 = 0x7ff0000000000000 := mask
  have notSign : ¬bits = 0x8000000000000000 := notNegative
  rw [bennuWriteDouble,if_neg notMask,if_neg notZero,if_neg notSign]
  simp only [million,small,magnitude_strictMono.le_iff_le,magnitude_strictMono.lt_iff_lt]
  rfl

end finite

section scientific

variable {host : CStrtod} {bits : Binary64}

/-- The decade of a double. -/
def decade (k : ℕ) : ℤ := Int.log 10 (magnitude k)

theorem decade_bounds {k : ℕ} (positive : 0 < k) :
    (10 : ℚ) ^ decade k ≤ magnitude k ∧ magnitude k < 10 ^ (decade k + 1) := by
  have low := Int.zpow_log_le_self (by norm_num : 1 < 10) (magnitude_pos positive)
  have high := Int.lt_zpow_succ_log_self (by norm_num : 1 < 10) (magnitude k)
  exact ⟨by exact_mod_cast low,by exact_mod_cast high⟩

/-- A text of "%.*e": the rounding, in as many digits as asked for. -/
theorem exists_printed (positive : 0 < bits.index) (p : ℕ) :
    ∃ nearest digits exponent,
      Rounds (decimalGrid (decade bits.index - p)) (magnitude bits.index) nearest ∧
      printScientific bits p = scientificText bits.negative digits exponent ∧
      digitCount digits = p + 1 ∧
      decimalGrid (exponent - p) digits = decimalGrid (decade bits.index - p) nearest := by
  obtain ⟨low,high⟩ := decade_bounds positive
  have rounds := rounds_roundHalfEven (magnitude_nonneg bits.index) (decade bits.index - p)
  obtain ⟨more,less⟩ := ShortestDecimal.few_of_nearest low high p rounds
  rw [printScientific]
  change ∃ nearest digits exponent, _ ∧ (if roundHalfEven (magnitude bits.index /
    10 ^ (decade bits.index - p)) = 10 ^ (p + 1) then _ else _) = _ ∧ _
  by_cases full : roundHalfEven (magnitude bits.index / 10 ^ (decade bits.index - p)) = 10 ^ (p + 1)
  · refine ⟨_,_,decade bits.index + 1,rounds,if_pos full,digitCount_power p,?_⟩
    rw [full,decimalGrid_power,decimalGrid_power]
    push_cast
    congr 1
    ring
  · exact ⟨_,_,_,rounds,if_neg full,digitCount_eq more (less.lt_of_ne full),rfl⟩

theorem readsAs_printed (hosted : host.ReadsDecimals) (finite : bits.index < infinityIndex)
    {digits p : ℕ} {exponent : ℤ} (count : digitCount digits = p + 1) :
    ReadsAs host bits (scientificText bits.negative digits exponent) ↔
      Rounds magnitude (decimalGrid (exponent - p) digits) bits.index := by
  rw [← WrittenDecimal.scientific_text,readsAs_iff hosted finite _ rfl,
    WrittenDecimal.scientific_value,count,Nat.add_sub_cancel]

/-- In scientific notation the search ends with the shortest decimal, or past its
length when the double is lopsided. -/
theorem scientific_search (hosted : host.ReadsDecimals) (finite : bits.index < infinityIndex)
    (positive : 0 < bits.index) {digits : ℕ} {exponent : ℤ}
    (short : ShortestDecimal bits.index digits exponent) :
    (¬Lopsided bits.index ∧ bennuMatched host bits (printScientific bits) 17 0 =
      some (scientificText bits.negative digits (exponent + digitCount digits - 1))) ∨
    (Lopsided bits.index ∧ ∃ other power, other ≠ digits ∧
      bennuMatched host bits (printScientific bits) 17 0 =
        some (scientificText bits.negative other power)) := by
  obtain ⟨low,high⟩ := decade_bounds positive
  have more := digitCount_pos digits
  have reads (p : ℕ) {nearest : ℕ}
      (rounds : Rounds (decimalGrid (decade bits.index - p)) (magnitude bits.index) nearest) :
      ReadsAs host bits (printScientific bits p) ↔
        Rounds magnitude (decimalGrid (decade bits.index - p) nearest) bits.index := by
    obtain ⟨same,written,power,roundsToo,printed,count,value⟩ := exists_printed positive p
    rw [printed,readsAs_printed hosted finite count,value,
      rounds.unique (decimalGrid_strictMono _) roundsToo]
  have before {i : ℕ} (less : i + 1 < digitCount digits) :
      ¬ReadsAs host bits (printScientific bits i) := by
    obtain ⟨nearest,-,-,rounds,-⟩ := exists_printed positive i
    rw [reads i rounds]
    exact short.shorter_fails low high less rounds
  have last : ReadsAs host bits (printScientific bits 16) := by
    obtain ⟨nearest,-,-,rounds,-⟩ := exists_printed positive 16
    rw [reads 16 rounds]
    exact ShortestDecimal.seventeen_read low rounds
  have few : digitCount digits ≤ 17 := by
    by_contra long
    exact before (by omega) last
  by_cases lopsided : Lopsided bits.index
  · right
    classical
    have found : ∃ p, ReadsAs host bits (printScientific bits p) := ⟨16,last⟩
    have first := @bennuMatched_first host bits (printScientific bits) 17 0 (Nat.find found)
      ((Nat.find_min' found last).trans_lt (by norm_num))
      (fun i less => by rw [Nat.zero_add]; exact Nat.find_min found less)
      (by rw [Nat.zero_add]; exact Nat.find_spec found)
    have readsHere := Nat.find_spec found
    rw [Nat.zero_add] at first
    generalize Nat.find found = p at first readsHere
    obtain ⟨nearest,written,power,rounds,printed,count,value⟩ := exists_printed positive p
    refine ⟨lopsided,written,power,?_,first.trans (congrArg some printed)⟩
    rintro rfl
    rw [reads p rounds] at readsHere
    have length : p = digitCount written - 1 := by omega
    subst length
    exact short.lopsided_misses lopsided low high rounds readsHere
  · left
    refine ⟨lopsided,?_⟩
    obtain ⟨nearest,written,power,rounds,printed,count,value⟩ :=
      exists_printed positive (digitCount digits - 1)
    obtain ⟨readsBack,same⟩ := short.nearest_shortest positive lopsided low high rounds
    have first := @bennuMatched_first host bits (printScientific bits) 17 0 (digitCount digits - 1)
      (by omega)
      (fun i less => by
        rw [Nat.zero_add]
        exact before (show i + 1 < digitCount digits by omega))
      (by rw [Nat.zero_add,reads _ rounds]; exact readsBack)
    rw [Nat.zero_add,printed] at first
    rw [first]
    have nonzero : 0 < written := by
      rw [← @decimalGrid_pos (power - (digitCount digits - 1 : ℕ)),value,same,decimalGrid_pos]
      exact reads_positive positive short.readsBack
    obtain ⟨equal,exponents⟩ := decimalGrid_inj nonzero (by omega) (value.trans same)
    rw [equal,show power = exponent + digitCount digits - 1 by omega]

end scientific

section fixed

variable {host : CStrtod} {bits : Binary64}

/-- In fixed notation the search ends with the shortest decimal. -/
theorem fixed_search (hosted : host.ReadsDecimals) (finite : bits.index < infinityIndex)
    {digits : ℕ} {exponent : ℤ} (short : ShortestDecimal bits.index digits exponent)
    (small : bits.index < millionIndex) (large : tenThousandthIndex ≤ bits.index) :
    ¬Lopsided bits.index ∧ bennuMatched host bits (printFixed bits) 21 0 =
      some (fixedText bits.negative (digits * 10 ^ exponent.toNat) (-exponent).toNat) := by
  have below : magnitude bits.index < 1000000 := by
    rw [← magnitude_million]
    exact magnitude_strictMono small
  have above : (1 : ℚ) / 10000 ≤ magnitude bits.index :=
    magnitude_tenThousandth.1.le.trans (magnitude_strictMono.monotone large)
  have normal := ShortestDecimal.normal_of_large above
  have rounds (p : ℕ) := rounds_roundHalfEven (magnitude_nonneg bits.index) (-(p : ℤ))
  have reads (p : ℕ) : ReadsAs host bits (printFixed bits p) ↔
      Rounds magnitude (decimalGrid (-(p : ℤ))
        (roundHalfEven (magnitude bits.index / 10 ^ (-(p : ℤ))))) bits.index := by
    rw [printFixed,← WrittenDecimal.fixed_text,readsAs_iff hosted finite _ rfl,
      WrittenDecimal.fixed_value]
  have before {i : ℕ} (less : i < (-exponent).toNat) :
      ¬ReadsAs host bits (printFixed bits i) := by
    rw [reads]
    exact short.fewer_places_fail normal less
  have last : ReadsAs host bits (printFixed bits 20) := by
    rw [reads]
    exact ShortestDecimal.twenty_read above (rounds 20)
  have few : (-exponent).toNat ≤ 20 := by
    by_contra long
    exact before (by omega) last
  refine ⟨ShortestDecimal.not_lopsided above below,?_⟩
  obtain ⟨readsBack,same⟩ := short.places_shortest above below (rounds (-exponent).toNat)
  have first := @bennuMatched_first host bits (printFixed bits) 21 0 (-exponent).toNat
    (by omega) (fun i less => by rw [Nat.zero_add]; exact before less)
    (by rw [Nat.zero_add,reads]; exact readsBack)
  rw [first,Nat.zero_add,printFixed]
  have whole : decimalGrid exponent digits =
      decimalGrid (-((-exponent).toNat : ℤ)) (digits * 10 ^ exponent.toNat) := by
    rw [decimalGrid_finer,show -((-exponent).toNat : ℤ) + exponent.toNat = exponent by omega]
  rw [(decimalGrid_strictMono _).injective (same.trans whole)]

end fixed

theorem normalizedScientific_inj {negative : Bool} {digits other : ℕ} {exponent power : ℤ}
    (same : normalizedScientific negative digits exponent =
      normalizedScientific negative other power) : digits = other := by
  have mantissa := congrArg (List.takeWhile fun byte => byte != 'e' && byte != 'E') same
  rw [normalizedScientific,normalizedScientific,(plain_mantissa _ _).takeWhile,
    (plain_mantissa _ _).takeWhile,List.append_assoc,List.append_assoc] at mantissa
  replace mantissa := List.append_cancel_left mantissa
  obtain ⟨first,rest,written,-⟩ := exists_toDigits digits
  obtain ⟨firstToo,restToo,writtenToo,-⟩ := exists_toDigits other
  rw [written,writtenToo] at mantissa
  simp only [List.take_succ_cons,List.take_zero,List.drop_succ_cons,List.drop_zero,
    List.singleton_append,List.cons.injEq] at mantissa
  obtain ⟨head,tail⟩ := mantissa
  apply toDigits_inj
  rw [written,writtenToo,head]
  simp only [pointed] at tail
  split at tail <;> split at tail <;> simp_all

/-- A lopsided double: the two texts differ in their digits. -/
theorem lopsided_parted {host : CStrtod} (hosted : host.ReadsDecimals) {library : ToChars}
    {bits : Binary64} (finite : bits.index < infinityIndex)
    (scientific : millionIndex ≤ bits.index ∨ bits.index < tenThousandthIndex)
    (lopsided : Lopsided bits.index) {digits : ℕ} {exponent : ℤ}
    (short : ShortestDecimal bits.index digits exponent)
    (converted : library.general bits = some (scientificText bits.negative digits
      (exponent + digitCount digits - 1))) :
    ¬∃ text, bennuWriteDouble host bits = some text ∧ appendDouble library bits = some text := by
  have large := lopsided.1.2
  have zero : bits.index ≠ 0 := by omega
  rw [bennuWriteDouble_finite finite zero,if_pos scientific,
    appendDouble_scientific finite zero converted]
  rcases scientific_search hosted finite (Nat.pos_of_ne_zero zero) short with
    ⟨even,-⟩ | ⟨-,other,power,differ,matched⟩
  · exact absurd lopsided even
  · rw [matched,Option.map_some,bennuFinish_scientific]
    rintro ⟨text,written,evaluated⟩
    exact differ (normalizedScientific_inj (Option.some.inj (written.trans evaluated.symm)))

/-- For every double the C program writes exactly the text of the evaluator, unless it is
a lopsided power of two. -/
theorem double_printing_iff {host : CStrtod} (hosted : host.ReadsDecimals) {library : ToChars}
    {bits : Binary64}
    (shortest : isFiniteBits bits = true → bits.index ≠ 0 → library.GivesShortest bits) :
    (∃ text, bennuWriteDouble host bits = some text ∧ appendDouble library bits = some text) ↔
      isFiniteBits bits = false ∨ ¬Lopsided bits.index := by
  by_cases finite : isFiniteBits bits = true
  · have within := (isFiniteBits_iff bits).mp finite
    simp only [finite,Bool.true_eq_false,false_or]
    by_cases zero : bits.index = 0
    · have even : ¬Lopsided bits.index := by
        rintro ⟨uneven,-⟩
        have large := uneven.2
        omega
      refine iff_of_true ?_ even
      rw [← signedBits_index bits,zero]
      cases bits.negative
      · exact ⟨_,rfl,rfl⟩
      · exact ⟨_,rfl,rfl⟩
    obtain ⟨digits,exponent,short,converted⟩ := shortest finite zero
    rw [bennuWriteDouble_finite within zero]
    have leading : exponent + digitCount digits - 1 < -4 ∨ 6 ≤ exponent + digitCount digits - 1 ↔
        millionIndex ≤ bits.index ∨ bits.index < tenThousandthIndex := by
      have nonzero := reads_positive (Nat.pos_of_ne_zero zero) short.readsBack
      have low : decimalGrid exponent digits < 10 ^ (-4 : ℤ) ↔
          exponent + digitCount digits - 1 < -4 := by
        rw [← not_le,power_le_iff nonzero,not_le]
      rw [← short.million_le_iff,← short.lt_tenThousandth_iff,power_le_iff nonzero,low,or_comm]
    by_cases scientific : millionIndex ≤ bits.index ∨ bits.index < tenThousandthIndex
    · have general := converted.trans (congrArg some (if_pos (leading.mpr scientific)))
      by_cases lopsided : Lopsided bits.index
      · rw [← bennuWriteDouble_finite within zero]
        exact iff_of_false (lopsided_parted hosted within scientific lopsided short general)
          (not_not.mpr lopsided)
      · rw [if_pos scientific,appendDouble_scientific within zero general]
        rcases scientific_search hosted within (Nat.pos_of_ne_zero zero) short with
          ⟨-,matched⟩ | ⟨uneven,-⟩
        · rw [matched,Option.map_some,bennuFinish_scientific]
          exact iff_of_true ⟨_,rfl,rfl⟩ lopsided
        · exact absurd uneven lopsided
    · rw [if_neg scientific]
      have appended := appendDouble_fixed within zero
        (converted.trans (congrArg some (if_neg (mt leading.mp scientific))))
      rw [not_or,not_le,not_lt] at scientific
      obtain ⟨even,matched⟩ := fixed_search hosted within short scientific.1 scientific.2
      rw [appended,matched,Option.map_some,bennuFinish_fixed]
      exact iff_of_true ⟨_,rfl,rfl⟩ even
  · have mask : bits &&& binary64ExponentMask = binary64ExponentMask := by
      rw [exponentMask_iff]
      exact not_lt.mp (mt (isFiniteBits_iff bits).mpr finite)
    have program : bits &&& 0x7ff0000000000000 = 0x7ff0000000000000 := mask
    refine iff_of_true ?_ (.inl (Bool.eq_false_iff.mpr finite))
    rw [bennuWriteDouble,appendDouble,if_pos mask,if_pos program]
    by_cases fraction : bits &&& binary64FractionMask ≠ 0
    · have programToo : bits &&& 0x000fffffffffffff ≠ 0 := fraction
      rw [if_pos fraction,if_pos programToo]
      exact ⟨_,rfl,rfl⟩
    · have programToo : ¬bits &&& 0x000fffffffffffff ≠ 0 := fraction
      rw [if_neg fraction,if_neg programToo]
      exact ⟨_,rfl,rfl⟩

namespace WrittenDecimal

variable {d other : WrittenDecimal}

def body (d : WrittenDecimal) : Text := d.integer ++ (pointed d.fraction ++ exponentText d.exponent)

theorem text_eq (d : WrittenDecimal) : d.text = signText d.negative ++ d.body := by
  simp only [text,body,List.append_assoc]

theorem body_head (d : WrittenDecimal) : ∃ first rest, d.body = first :: rest ∧ isDigit first = true := by
  have all := d.integerDigits
  cases integer : d.integer with
  | nil => exact absurd integer d.integerNonempty
  | cons first rest =>
    rw [integer,List.all_cons,Bool.and_eq_true] at all
    exact ⟨first,_,by rw [body,integer,List.cons_append],all.1⟩

/-- The sign and the rest of a text are known by its first byte. -/
theorem text_sign (same : d.text = other.text) : d.negative = other.negative ∧ d.body = other.body := by
  obtain ⟨first,rest,body,digit⟩ := d.body_head
  obtain ⟨firstToo,restToo,bodyToo,digitToo⟩ := other.body_head
  have plain : first ≠ '-' := digit_ne digit (by decide)
  have plainToo : firstToo ≠ '-' := digit_ne digitToo (by decide)
  rw [text_eq,text_eq] at same
  cases sign : d.negative <;> cases signToo : other.negative <;>
    simp only [sign,signToo,signText,if_true,Bool.false_eq_true,if_false,List.nil_append,
      List.singleton_append] at same
  · exact ⟨rfl,same⟩
  · rw [body] at same
    exact absurd (List.cons.inj same).1 plain
  · rw [bodyToo] at same
    exact absurd (List.cons.inj same).1.symm plainToo
  · exact ⟨rfl,(List.cons.inj same).2⟩

theorem stops_exponentText (exponent : Option ExponentPart) :
    StopsDigits (exponentText exponent) ∧ (exponentText exponent).head? ≠ some '.' := by
  cases exponent with
  | none => exact ⟨fun byte head => (nomatch head),by simp [exponentText]⟩
  | some e =>
    have mark := e.isMark
    constructor
    · exact DecimalSpelling.stops_exponent (some e)
    · intro head
      rw [Option.some.inj head] at mark
      cases mark

/-- A text has one value. -/
theorem text_value (same : d.text = other.text) :
    d.value = other.value ∧ d.negative = other.negative := by
  obtain ⟨sign,body⟩ := text_sign same
  refine ⟨?_,sign⟩
  have stops (d : WrittenDecimal) : StopsDigits (pointed d.fraction ++ exponentText d.exponent) := by
    rw [pointed]
    split
    · exact (stops_exponentText d.exponent).1
    · intro byte head
      cases head
      rfl
  have integer : d.integer = other.integer := by
    rw [← takeWhile_digits d.integerDigits (stops d),← takeWhile_digits other.integerDigits (stops other)]
    exact congrArg (List.takeWhile isDigit) body
  have rest : pointed d.fraction ++ exponentText d.exponent =
      pointed other.fraction ++ exponentText other.exponent := by
    rw [← dropWhile_digits d.integerDigits (stops d),← dropWhile_digits other.integerDigits (stops other)]
    exact congrArg (List.dropWhile isDigit) body
  have fraction : d.fraction = other.fraction ∧
      exponentText d.exponent = exponentText other.exponent := by
    have bare (d other : WrittenDecimal) (none : d.fraction = []) (some : other.fraction ≠ []) :
        pointed d.fraction ++ exponentText d.exponent ≠
          pointed other.fraction ++ exponentText other.exponent := by
      intro equal
      have head := congrArg List.head? equal
      simp only [none,pointed,List.isEmpty_nil,if_true,List.nil_append,List.isEmpty_iff,some,
        if_false,List.cons_append,List.head?_cons] at head
      exact (stops_exponentText d.exponent).2 head
    by_cases none : d.fraction = []
    · by_cases noneToo : other.fraction = []
      · rw [none,noneToo] at rest ⊢
        exact ⟨rfl,rest⟩
      · exact absurd rest (bare d other none noneToo)
    · by_cases noneToo : other.fraction = []
      · exact absurd rest.symm (bare other d noneToo none)
      · simp only [pointed,List.isEmpty_iff,none,noneToo,if_false,List.cons_append] at rest
        have tail := (List.cons.inj rest).2
        constructor
        · rw [← takeWhile_digits d.fractionDigits (stops_exponentText d.exponent).1,
            ← takeWhile_digits other.fractionDigits (stops_exponentText other.exponent).1,tail]
        · rw [← dropWhile_digits d.fractionDigits (stops_exponentText d.exponent).1,
            ← dropWhile_digits other.fractionDigits (stops_exponentText other.exponent).1,tail]
  rw [value,value,integer,fraction.1,exponentText_value fraction.2]

end WrittenDecimal

open Classical in
/-- A `strtod` that rounds correctly whatever `printf` writes. -/
noncomputable def exactPrintedStrtod : CStrtod where
  strtod text :=
    if written : ∃ d : WrittenDecimal, d.text = text then
      ⟨text.length,signedBits written.choose.negative
        (min (exists_rounds_magnitude written.choose.value).choose infinityIndex)⟩
    else ⟨0,0⟩

theorem exactPrintedStrtod_reads : exactPrintedStrtod.ReadsDecimals := by
  intro d
  have written : ∃ other : WrittenDecimal, other.text = d.text := ⟨d,rfl⟩
  obtain ⟨value,negative⟩ := WrittenDecimal.text_value written.choose_spec
  have rounds := (exists_rounds_magnitude written.choose.value).choose_spec
  simp only [exactPrintedStrtod,written,dif_pos,true_and,negative]
  generalize (exists_rounds_magnitude written.choose.value).choose = k at rounds ⊢
  rw [value] at rounds
  exact ⟨k,rounds,rfl⟩

/-- The double 0.5, which is one decimal digit. -/
theorem shortest_half : ShortestDecimal (Binary64.index 0x3fe0000000000000) 5 (-1) := by
  have exact : decimalGrid (-1) 5 = magnitude (Binary64.index 0x3fe0000000000000) := by
    have index : Binary64.index 0x3fe0000000000000 = 1022 * 2 ^ 52 := by decide
    rw [index]
    norm_num [decimalGrid,magnitude]
  have single : digitCount 5 = 1 := digitCount_eq (n := 0) (by norm_num) (by norm_num)
  constructor
  · rw [exact]
    exact Rounds.point magnitude_strictMono _
  · intro other q reads
    have count := digitCount_pos other
    omega
  · intro other q reads count
    rw [exact,sub_self,abs_zero]
    exact abs_nonneg _
  · intro other q reads count differ equal
    rw [exact,sub_self,abs_zero] at equal
    rw [exact] at differ
    exact absurd (sub_eq_zero.mp (abs_eq_zero.mp equal.symm)) differ

theorem double_printing_half :
    (∃ text, bennuWriteDouble exactPrintedStrtod 0x3fe0000000000000 = some text ∧
      appendDouble ⟨fun _ => some "0.5".toList⟩ 0x3fe0000000000000 = some text) ↔
        isFiniteBits 0x3fe0000000000000 = false ∨
          ¬Lopsided (Binary64.index 0x3fe0000000000000) :=
  double_printing_iff exactPrintedStrtod_reads
    (fun _ _ => ⟨5,-1,shortest_half,congrArg some (by decide +kernel)⟩)

/-- The double 2⁻²⁴ = 5.9604644775390625e-08. -/
def lopsidedDouble : Binary64 := 0x3e70000000000000

theorem lopsidedDouble_data :
    Uneven lopsidedDouble.index ∧
      Rounds (decimalGrid (-23)) (magnitude lopsidedDouble.index) 5960464477539062 ∧
      2 ^ stepExponent lopsidedDouble.index / 4 <
        magnitude lopsidedDouble.index - decimalGrid (-23) 5960464477539062 ∧
      decimalGrid (-23) (5960464477539062 + 1) - magnitude lopsidedDouble.index ≤
        2 ^ stepExponent lopsidedDouble.index / 2 := by
  have index : lopsidedDouble.index = 999 * 2 ^ 52 := by decide
  have value : magnitude (999 * 2 ^ 52) = 2 ^ (-24 : ℤ) := by norm_num [magnitude]
  have step : stepExponent (999 * 2 ^ 52) = -76 := by norm_num [stepExponent]
  rw [index,value,step]
  refine ⟨by norm_num [Uneven],⟨?_,.inr ⟨?_,rfl⟩⟩,?_,?_⟩
  · intro j next
    rw [decimalGrid_halfway,show j = 5960464477539061 by omega]
    left
    norm_num [decimalGrid]
  · rw [decimalGrid_halfway]
    norm_num [decimalGrid]
  · norm_num [decimalGrid]
  · norm_num [decimalGrid]

/-- The evaluator prints 5.960464477539063e-8, and the C program another text. -/
theorem lopsidedDouble_parted :
    exactPrintedStrtod.ReadsDecimals ∧
      ToChars.GivesShortest ⟨fun _ => some "5.960464477539063e-08".toList⟩ lopsidedDouble ∧
      ¬∃ text, bennuWriteDouble exactPrintedStrtod lopsidedDouble = some text ∧
        appendDouble ⟨fun _ => some "5.960464477539063e-08".toList⟩ lopsidedDouble = some text := by
  obtain ⟨uneven,rounded,far,near⟩ := lopsidedDouble_data
  have short := ShortestDecimal.of_lopsided uneven rounded (by norm_num) far near
  have general : (some "5.960464477539063e-08".toList : Option Text) =
      some (generalText lopsidedDouble.negative (5960464477539062 + 1) (-23)) :=
    congrArg some (by decide +kernel)
  have count : digitCount (5960464477539062 + 1) = 16 :=
    digitCount_eq (n := 15) (by norm_num) (by norm_num)
  have scientific : generalText lopsidedDouble.negative (5960464477539062 + 1) (-23) =
      scientificText lopsidedDouble.negative (5960464477539062 + 1)
        (-23 + digitCount (5960464477539062 + 1) - 1) := by
    rw [generalText,if_pos]
    rw [count]
    norm_num
  refine ⟨exactPrintedStrtod_reads,⟨_,_,short,general⟩,?_⟩
  exact lopsided_parted exactPrintedStrtod_reads (by decide) (.inr (by decide))
    ⟨uneven,_,_,rounded,by norm_num,far,near⟩ short (general.trans (congrArg some scientific))

end Bennu
