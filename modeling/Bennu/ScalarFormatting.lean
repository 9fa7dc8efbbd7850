import Bennu.DoublePrinting
import Bennu.Resources
import Bennu.WorkStack

/-! What `format_value` writes for scalars and vectors, into an array of fixed capacity. The
lengths of the texts are bounded by the room that it counts for them. -/
namespace Bennu

open NearestEven

inductive AppendError where
  | conversionFailure | sizeOverflow
  deriving DecidableEq, Repr

section writing

variable (capacity : Nat) (library : ToChars)

/-- `host_array_push` on the formatted characters. -/
def pushCharacter (formatted : Text) (character : Char) : Except AppendError Text :=
  WorkStack.appendWithin capacity .sizeOverflow [character] formatted

def appendText (formatted text : Text) : Except AppendError Text :=
  WorkStack.appendWithin capacity .sizeOverflow text formatted

/-- `to_chars` of an integer. -/
def integerText (value : Int64) : Text :=
  signText (decide (value.toInt < 0)) ++ Nat.toDigits 10 value.toInt.natAbs

def booleanText (value : Bool) : Text := if value then "true".toList else "false".toList

/-- `append_integer`; its 32 bytes hold every integer. -/
def appendInteger (formatted : Text) (value : Int64) : Except AppendError Text :=
  appendText capacity formatted (integerText value)

/-- `append_double` into the array. -/
def pushDouble (formatted : Text) (bits : Binary64) : Except AppendError Text :=
  match appendDouble library bits with
  | none => .error .conversionFailure
  | some text => appendText capacity formatted text

def appendScalar (formatted : Text) (scalar : ScalarValue) : Except AppendError Text :=
  match scalar.type with
  | .boolean => appendText capacity formatted (booleanText scalar.boolean)
  | .integer => appendInteger capacity formatted scalar.integer
  | .doublePrecision => pushDouble capacity library formatted scalar.doublePrecision

/-- Element `index` of the active buffer, as the switch in `append_vector` reads it. -/
def VectorValue.elementAt (vector : VectorValue) (index : Nat) : ScalarValue :=
  match vector.elementType with
  | .boolean => ⟨.boolean,(vector.booleans.elim [] (·.elements)).getD index 0 != 0,0,0⟩
  | .integer => ⟨.integer,false,(vector.integers.elim [] (·.elements)).getD index 0,0⟩
  | .doublePrecision =>
    ⟨.doublePrecision,false,0,(vector.doubles.elim [] (·.elements)).getD index 0⟩

/-- The loop of `append_vector` over the indexes that are left. -/
def appendElements (vector : VectorValue) : List Nat → Text → Except AppendError Text
  | [],formatted => .ok formatted
  | index :: rest,formatted => do
    let formatted ← (if index ≠ 0 then pushCharacter capacity formatted ' ' else .ok formatted)
    let formatted ← appendScalar capacity library formatted (vector.elementAt index)
    appendElements vector rest formatted

def appendVector (formatted : Text) (vector : VectorValue) : Except AppendError Text := do
  let formatted ← pushCharacter capacity formatted '('
  let formatted ← appendElements capacity library vector (List.range vector.activeLength) formatted
  pushCharacter capacity formatted ')'

end writing

section rendering

variable (library : ToChars)

/-- The text of a scalar by itself. -/
def ScalarValue.render (scalar : ScalarValue) : Text :=
  match scalar.type with
  | .boolean => booleanText scalar.boolean
  | .integer => integerText scalar.integer
  | .doublePrecision => (appendDouble library scalar.doublePrecision).getD []

/-- The elements in their order, single spaces between them. -/
def VectorValue.render (vector : VectorValue) : Text :=
  '(' :: [' '].intercalate ((List.range vector.activeLength).map fun index =>
    (vector.elementAt index).render library) ++ [')']

/-- The library gives the shortest digits of a double when it is asked for them. -/
def ToChars.Converts (bits : Binary64) : Prop :=
  isFiniteBits bits = true → bits.index ≠ 0 → library.GivesShortest bits

def ScalarValue.Converts (scalar : ScalarValue) : Prop :=
  scalar.type = .doublePrecision → library.Converts scalar.doublePrecision

def VectorValue.Converts (vector : VectorValue) : Prop :=
  ∀ index < vector.activeLength, (vector.elementAt index).Converts library

end rendering

section lengths

/-- Seventeen digits are enough for the shortest decimal. -/
theorem ShortestDecimal.digits_le {k digits : ℕ} {exponent : ℤ} (positive : 0 < k)
    (short : ShortestDecimal k digits exponent) : digitCount digits ≤ 17 := by
  obtain ⟨low,high⟩ := decade_bounds positive
  have nearest := rounds_roundHalfEven (magnitude_nonneg k) (decade k - (16 : ℕ))
  have reads := seventeen_read low nearest
  obtain ⟨other,q,same,few⟩ :=
    exists_few_digits (few_of_nearest low high 16 nearest).2 (q := decade k - (16 : ℕ))
  rw [← same] at reads
  exact (short.shortest other q reads).trans few

/-- The exponent of the first digit of a finite double has at most three digits. -/
theorem ShortestDecimal.leading_bounds {k digits : ℕ} {exponent : ℤ} (positive : 0 < k)
    (finite : k < infinityIndex) (short : ShortestDecimal k digits exponent) :
    -324 ≤ exponent + digitCount digits - 1 ∧ exponent + digitCount digits - 1 < 309 := by
  have nonzero := reads_positive positive short.readsBack
  constructor
  · rw [← power_le_iff nonzero]
    have above := not_le.mp (mt (rounds_zero_iff short.readsBack).mpr positive.ne')
    have powers : 2 ^ 1075 ≤ 10 ^ 324 := by decide +kernel
    have order : (2 : ℚ) ^ 1075 ≤ 10 ^ 324 := by exact_mod_cast powers
    refine le_trans ?_ above.le
    rw [halfLeastMagnitude,zpow_neg,zpow_neg]
    exact inv_anti₀ (by positivity) order
  · by_contra past
    have large := (power_le_iff nonzero 309).mpr (not_lt.mp past)
    have below := not_le.mp (mt (rounds_infinite_iff short.readsBack).mpr (not_le.mpr finite))
    have powers : 2 ^ 1024 ≤ 10 ^ 309 := by decide +kernel
    have order : (2 : ℚ) ^ 1024 ≤ 10 ^ 309 := by exact_mod_cast powers
    have step : (0 : ℚ) < 2 ^ (970 : ℤ) := by positivity
    refine absurd (large.trans_lt below) (not_lt.mpr ?_)
    rw [overflowThreshold]
    exact (sub_le_self _ step.le).trans order

theorem signText_length (negative : Bool) : (signText negative).length ≤ 1 := by
  cases negative <;> simp [signText]

theorem pointed_length (digits : Text) : (pointed digits).length ≤ digits.length + 1 := by
  unfold pointed
  split <;> simp

theorem withoutZeros_length (digits : Text) : (withoutZeros digits).length ≤ digits.length := by
  fun_induction withoutZeros digits with
  | case1 next rest ih =>
    simp only [List.length_cons] at ih ⊢
    omega
  | case2 digits _ => exact le_rfl

theorem exponentDigits_length {exponent : ℤ} (small : exponent.natAbs < 1000) :
    (exponentDigits exponent).length ≤ 4 := by
  have few : (Nat.toDigits 10 exponent.natAbs).length ≤ 3 :=
    (digitCount_le_iff (by norm_num)).mpr small
  unfold exponentDigits
  rw [List.length_append]
  split <;> simp only [List.length_cons,List.length_nil] <;> omega

theorem normalizedExponent_length (sign : Char) (digits : Text) :
    (normalizedExponent (sign :: digits)).length ≤ digits.length + 2 := by
  have whole := withoutZeros_length (sign :: digits)
  have tail := withoutZeros_length digits
  simp only [List.length_cons] at whole
  by_cases minus : sign = '-'
  · simp only [normalizedExponent,minus,List.head?_cons,if_true,or_true,List.tail_cons,
      List.length_append,List.length_singleton]
    omega
  · by_cases plus : sign = '+'
    · simp [normalizedExponent,plus]
      omega
    · simp [normalizedExponent,plus,minus]
      omega

theorem normalizedScientific_length (negative : Bool) {digits : ℕ} {exponent : ℤ}
    (few : digitCount digits ≤ 17) (small : exponent.natAbs < 1000) :
    (normalizedScientific negative digits exponent).length ≤ 64 := by
  have sign := signText_length negative
  have point := pointed_length ((Nat.toDigits 10 digits).drop 1)
  have power := normalizedExponent_length (if exponent < 0 then '-' else '+') (exponentDigits exponent)
  have three := exponentDigits_length small
  unfold digitCount at few
  unfold normalizedScientific
  simp only [List.length_append,List.length_cons,List.length_take,List.length_drop] at *
  omega

theorem normalizedFixed_length (negative : Bool) {digits places : ℕ}
    (whole : digitCount (digits / 10 ^ places) ≤ 17) (few : places ≤ 20) :
    (normalizedFixed negative digits places).length ≤ 64 := by
  have sign := signText_length negative
  have point := pointed_length (lastDigits places digits)
  rw [lastDigits_length] at point
  unfold digitCount at whole
  unfold normalizedFixed fixedText
  dsimp only
  have suffix : ".0".toList.length = 2 := rfl
  split <;> simp only [List.length_append] <;> omega

/-- A double that the library converts has a text of at most 64 bytes. -/
theorem appendDouble_text {library : ToChars} {bits : Binary64} (converts : library.Converts bits) :
    ∃ text, appendDouble library bits = some text ∧ text.length ≤ 64 := by
  by_cases finite : isFiniteBits bits = true
  · by_cases zero : bits.index = 0
    · rw [← signedBits_index bits,zero]
      cases bits.negative
      · exact ⟨_,rfl,by decide⟩
      · exact ⟨_,rfl,by decide⟩
    obtain ⟨digits,exponent,short,converted⟩ := converts finite zero
    have within := (isFiniteBits_iff bits).mp finite
    have positive := Nat.pos_of_ne_zero zero
    have few := short.digits_le positive
    obtain ⟨low,high⟩ := short.leading_bounds positive within
    unfold generalText at converted
    dsimp only at converted
    split at converted
    · refine ⟨_,appendDouble_scientific within zero converted,
        normalizedScientific_length _ few (by omega)⟩
    · rename_i fixed
      rw [not_or,not_lt,not_le] at fixed
      have count := digitCount_pos digits
      refine ⟨_,appendDouble_fixed within zero converted,normalizedFixed_length _ ?_ (by omega)⟩
      rw [digitCount_le_iff (by norm_num)]
      by_cases negative : exponent < 0
      · have power : exponent.toNat = 0 := by omega
        rw [power,pow_zero,mul_one]
        exact (Nat.div_le_self _ _).trans_lt ((digitCount_le_iff (by norm_num)).mp few)
      · have places : (-exponent).toNat = 0 := by omega
        rw [places,pow_zero,Nat.div_one]
        calc digits * 10 ^ exponent.toNat
            < 10 ^ digitCount digits * 10 ^ exponent.toNat :=
              Nat.mul_lt_mul_of_pos_right (lt_digitCount digits) (by positivity)
          _ = 10 ^ (digitCount digits + exponent.toNat) := (pow_add _ _ _).symm
          _ ≤ 10 ^ 17 := Nat.pow_le_pow_right (by norm_num) (by omega)
  · rw [appendDouble,if_pos]
    · split
      · exact ⟨_,rfl,by decide⟩
      · split
        · exact ⟨_,rfl,by decide⟩
        · exact ⟨_,rfl,by decide⟩
    · rw [exponentMask_iff]
      exact not_lt.mp (mt (isFiniteBits_iff bits).mpr finite)

theorem integerText_length (value : Int64) : (integerText value).length ≤ 64 := by
  have sign := signText_length (decide (value.toInt < 0))
  have low := Int64.le_toInt value
  have high := Int64.toInt_lt value
  have few : (Nat.toDigits 10 value.toInt.natAbs).length ≤ 20 :=
    (digitCount_le_iff (by norm_num)).mpr (by omega)
  rw [integerText,List.length_append]
  omega

/-- No scalar has a text of more than 64 bytes. -/
theorem ScalarValue.render_length {library : ToChars} {scalar : ScalarValue}
    (converts : scalar.Converts library) : (scalar.render library).length ≤ 64 := by
  unfold ScalarValue.render
  split
  · unfold booleanText
    split <;> decide
  · exact integerText_length scalar.integer
  · rename_i double
    obtain ⟨text,written,short⟩ := appendDouble_text (converts double)
    rwa [written,Option.getD_some]

end lengths

section room

variable {capacity : Nat} {library : ToChars}

theorem intercalate_cons {α : Type} (separator first : List α) (rest : List (List α)) :
    separator.intercalate (first :: rest) = first ++ rest.flatMap (separator ++ ·) := by
  induction rest generalizing first with
  | nil => simp
  | cons next rest ih => simp [List.intercalate_cons_cons,ih next]

/-- A separator in front of every text but the first puts one between any two. -/
theorem intercalate_range {α : Type} (separator : List α) (text : Nat → List α) (count : Nat) :
    ((List.range count).flatMap fun k => (if k ≠ 0 then separator else []) ++ text k) =
      separator.intercalate ((List.range count).map text) := by
  cases count with
  | zero => rfl
  | succ count =>
    simp [List.range_succ_eq_map,intercalate_cons,List.flatMap_map,Function.comp_def]

theorem appendText_fits {formatted text : Text} (room : formatted.length + text.length ≤ capacity) :
    appendText capacity formatted text = .ok (formatted ++ text) :=
  WorkStack.appendWithin_fits room

theorem pushCharacter_fits {formatted : Text} {character : Char} (room : formatted.length + 1 ≤ capacity) :
    pushCharacter capacity formatted character = .ok (formatted ++ [character]) :=
  WorkStack.appendWithin_fits room

theorem appendScalar_fits {formatted : Text} {scalar : ScalarValue} (converts : scalar.Converts library)
    (room : formatted.length + (scalar.render library).length ≤ capacity) :
    appendScalar capacity library formatted scalar = .ok (formatted ++ scalar.render library) := by
  rcases scalar with ⟨type,boolean,integer,double⟩
  cases type with
  | boolean => exact appendText_fits room
  | integer => exact appendText_fits room
  | doublePrecision =>
    obtain ⟨text,written,-⟩ := appendDouble_text (converts rfl)
    simp only [ScalarValue.render,written,Option.getD_some] at room ⊢
    simp only [appendScalar,pushDouble,written]
    exact appendText_fits room

theorem appendElements_fits {vector : VectorValue} {indexes : List Nat} {formatted : Text}
    (converts : ∀ index ∈ indexes, (vector.elementAt index).Converts library)
    (room : formatted.length + (indexes.flatMap fun index => (if index ≠ 0 then [' '] else []) ++
      (vector.elementAt index).render library).length ≤ capacity) :
    appendElements capacity library vector indexes formatted =
      .ok (formatted ++ indexes.flatMap fun index => (if index ≠ 0 then [' '] else []) ++
        (vector.elementAt index).render library) := by
  induction indexes generalizing formatted with
  | nil => simp [appendElements]
  | cons index rest ih =>
    simp only [List.flatMap_cons,List.length_append] at room ⊢
    have separated : (if index ≠ 0 then pushCharacter capacity formatted ' ' else .ok formatted) =
        .ok (formatted ++ if index ≠ 0 then [' '] else []) := by
      by_cases first : index = 0
      · simp [first]
      · simp only [ne_eq,first,not_false_eq_true,if_true,List.length_singleton] at room ⊢
        exact pushCharacter_fits (by omega)
    have roomToo : (formatted ++ if index ≠ 0 then [' '] else []).length +
        ((vector.elementAt index).render library).length ≤ capacity := by
      rw [List.length_append]
      omega
    rw [appendElements,separated]
    change (appendScalar capacity library _ (vector.elementAt index) >>= _) = _
    rw [appendScalar_fits (converts index List.mem_cons_self) roomToo]
    refine (ih (fun index member => converts index (List.mem_cons_of_mem _ member)) ?_).trans ?_
    · simp only [List.length_append]
      omega
    · simp only [List.append_assoc]

/-- A vector whose text fits is written whole. -/
theorem appendVector_fits {formatted : Text} {vector : VectorValue}
    (converts : vector.Converts library)
    (room : formatted.length + (vector.render library).length ≤ capacity) :
    appendVector capacity library formatted vector = .ok (formatted ++ vector.render library) := by
  simp only [VectorValue.render,← intercalate_range,List.length_append,List.length_cons,
    List.length_nil] at room ⊢
  have opened : pushCharacter capacity formatted '(' = .ok (formatted ++ ['(']) :=
    pushCharacter_fits (by omega)
  rw [appendVector,opened]
  change (appendElements capacity library vector _ _ >>= _) = _
  rw [appendElements_fits (fun index member => converts index (List.mem_range.mp member))
    (by simp only [List.length_append,List.length_singleton]; omega)]
  refine (pushCharacter_fits ?_).trans ?_
  · simp only [List.length_append,List.length_singleton]
    omega
  · simp only [List.append_assoc,List.cons_append,List.nil_append]

/-- The room that is counted for a vector. -/
theorem VectorValue.render_length {vector : VectorValue} (converts : vector.Converts library) :
    (vector.render library).length ≤ 2 + vector.activeLength * 65 := by
  have elements : ((List.range vector.activeLength).flatMap fun index =>
      (if index ≠ 0 then [' '] else []) ++ (vector.elementAt index).render library).length ≤
        vector.activeLength * 65 := by
    rw [List.length_flatMap]
    refine (List.sum_le_card_nsmul _ 65 fun length member => ?_).trans (by simp)
    obtain ⟨index,inside,rfl⟩ := List.mem_map.mp member
    have short := ScalarValue.render_length (converts index (List.mem_range.mp inside))
    rw [List.length_append]
    split <;> simp only [List.length_singleton,List.length_nil] <;> omega
  rw [VectorValue.render,← intercalate_range]
  simp only [List.length_append,List.length_cons,List.length_nil]
  omega

end room

end Bennu
