import Bennu.Tokenizer
import Mathlib.Data.List.TakeWhile

/-! The finite double grammar by its parts: a sign, integer digits, a fraction and
an exponent. The scanner accepts exactly the texts that such parts make up. -/
namespace Bennu

/-- Everything that the digit runs of the scanners stop at. -/
def StopsDigits (rest : Text) : Prop := ∀ byte, rest.head? = some byte → isDigit byte = false

theorem takeWhile_digits {digits rest : Text} (all : digits.all isDigit = true)
    (stops : StopsDigits rest) : (digits ++ rest).takeWhile isDigit = digits := by
  rw [List.takeWhile_append_of_pos (List.all_eq_true.mp all)]
  cases rest with
  | nil => simp
  | cons byte rest => simp [stops byte rfl]

theorem dropWhile_digits {digits rest : Text} (all : digits.all isDigit = true)
    (stops : StopsDigits rest) : (digits ++ rest).dropWhile isDigit = rest := by
  rw [List.dropWhile_append_of_pos (List.all_eq_true.mp all)]
  cases rest with
  | nil => simp
  | cons byte rest => simp [stops byte rfl]

theorem digit_ne {byte other : Char} (digit : isDigit byte = true) (plain : isDigit other = false) :
    byte ≠ other := by
  rintro rfl
  rw [digit] at plain
  cases plain

theorem digit_not_mark {byte : Char} (digit : isDigit byte = true) : isExponentMark byte = false := by
  have small := digit_ne digit (by decide : isDigit 'e' = false)
  have capital := digit_ne digit (by decide : isDigit 'E' = false)
  simp [isExponentMark,small,capital]

/-- An exponent as it is written. -/
structure ExponentPart where
  mark : Char
  sign : Text
  digits : Text
  isMark : isExponentMark mark = true
  isSign : sign = [] ∨ sign = ['+'] ∨ sign = ['-']
  nonempty : digits ≠ []
  allDigits : digits.all isDigit = true

namespace ExponentPart

def text (e : ExponentPart) : Text := e.mark :: (e.sign ++ e.digits)

theorem afterSign_text (e : ExponentPart) : afterSign (e.sign ++ e.digits) = e.digits := by
  rcases e.isSign with sign | sign | sign
  · rw [sign,List.nil_append]
    cases digits : e.digits with
    | nil => rfl
    | cons first rest =>
      have all := e.allDigits
      rw [digits,List.all_cons,Bool.and_eq_true] at all
      have plus : first ≠ '+' := digit_ne all.1 (by decide)
      have minus : first ≠ '-' := digit_ne all.1 (by decide)
      simp [afterSign,plus,minus]
  · rw [sign]
    rfl
  · rw [sign]
    rfl

theorem head_sign (e : ExponentPart) :
    (e.sign ++ e.digits).head? = some '-' ↔ e.sign = ['-'] := by
  rcases e.isSign with equal | equal | equal
  · rw [equal,List.nil_append]
    constructor
    · intro head
      have all := e.allDigits
      cases digits : e.digits with
      | nil => exact absurd digits e.nonempty
      | cons first rest =>
        rw [digits] at head all
        rw [List.all_cons,Bool.and_eq_true,Option.some.inj head] at all
        cases all.1
    · exact fun empty => nomatch empty
  · simp [equal]
  · simp [equal]

def value (e : ExponentPart) : Int :=
  if e.sign = ['-'] then -(decimalValue e.digits : Int) else decimalValue e.digits

end ExponentPart

def fractionText : Option Text → Text
  | none => []
  | some digits => '.' :: digits

def exponentText : Option ExponentPart → Text
  | none => []
  | some e => e.text

/-- The text of an exponent fixes its value. -/
theorem exponentText_value {exponent other : Option ExponentPart}
    (same : exponentText exponent = exponentText other) :
    (exponent.map ExponentPart.value).getD 0 = (other.map ExponentPart.value).getD 0 := by
  cases exponent with
  | none =>
    cases other with
    | none => rfl
    | some e => cases same
  | some e =>
    cases other with
    | none => cases same
    | some f =>
      have rest : e.sign ++ e.digits = f.sign ++ f.digits := (List.cons.inj same).2
      have digits : e.digits = f.digits := by
        rw [← e.afterSign_text,← f.afterSign_text,rest]
      have sign : e.sign = ['-'] ↔ f.sign = ['-'] := by
        rw [← e.head_sign,← f.head_sign,rest]
      simp only [Option.map_some,Option.getD_some,ExponentPart.value,digits,sign]

/-- A text of the grammar, by its parts. -/
structure DecimalSpelling where
  negative : Bool
  integer : Text
  fraction : Option Text
  exponent : Option ExponentPart
  integerNonempty : integer ≠ []
  integerDigits : integer.all isDigit = true
  integerCanonical : integer.head? = some '0' → integer.length = 1
  fractionDigits : ∀ digits, fraction = some digits → digits ≠ [] ∧ digits.all isDigit = true
  marked : fraction.isSome || exponent.isSome

namespace DecimalSpelling

def body (d : DecimalSpelling) : Text :=
  d.integer ++ (fractionText d.fraction ++ exponentText d.exponent)

def text (d : DecimalSpelling) : Text := (if d.negative then ['-'] else []) ++ d.body

/-- The digits of the mantissa, without the point. -/
def digits (d : DecimalSpelling) : Text := d.integer ++ d.fraction.getD []

def fractionLength (d : DecimalSpelling) : Nat := (d.fraction.getD []).length

def writtenExponent (d : DecimalSpelling) : Int := (d.exponent.map ExponentPart.value).getD 0

theorem digits_all (d : DecimalSpelling) : d.digits.all isDigit = true := by
  rw [digits,List.all_append,d.integerDigits,Bool.true_and]
  cases fraction : d.fraction with
  | none => rfl
  | some digits => exact (d.fractionDigits digits fraction).2

theorem exists_first (d : DecimalSpelling) :
    ∃ first rest, d.integer = first :: rest ∧ isDigit first = true := by
  cases integer : d.integer with
  | nil => exact absurd integer d.integerNonempty
  | cons first rest =>
    have all := d.integerDigits
    rw [integer,List.all_cons,Bool.and_eq_true] at all
    exact ⟨first,rest,rfl,all.1⟩

@[simp] theorem unsignedSpelling_text (d : DecimalSpelling) : unsignedSpelling d.text = d.body := by
  unfold text
  split
  · rfl
  · obtain ⟨first,rest,integer,digit⟩ := d.exists_first
    have sign : first ≠ '-' := digit_ne digit (by decide)
    rw [List.nil_append,body,integer,List.cons_append]
    unfold unsignedSpelling
    split
    · rename_i equal
      exact absurd (List.cons.inj equal).1 sign
    · rfl

theorem head_text (d : DecimalSpelling) : d.text.head? = some '-' ↔ d.negative = true := by
  unfold text
  split
  · rename_i sign
    simp [sign]
  · rename_i sign
    obtain ⟨first,rest,integer,digit⟩ := d.exists_first
    have other : first ≠ '-' := digit_ne digit (by decide)
    simp [sign,body,integer,other]

theorem stops_exponent (exponent : Option ExponentPart) : StopsDigits (exponentText exponent) := by
  intro byte head
  cases exponent with
  | none => cases head
  | some e =>
    cases head
    by_contra digit
    rw [Bool.not_eq_false] at digit
    have plain := digit_not_mark digit
    rw [e.isMark] at plain
    cases plain

theorem stops_fraction (d : DecimalSpelling) :
    StopsDigits (fractionText d.fraction ++ exponentText d.exponent) := by
  cases fraction : d.fraction with
  | none => exact stops_exponent d.exponent
  | some digits =>
    intro byte head
    cases head
    decide

theorem afterFraction_text (d : DecimalSpelling) :
    afterFraction (fractionText d.fraction ++ exponentText d.exponent) =
      some (d.fraction.isSome,exponentText d.exponent) := by
  cases fraction : d.fraction with
  | none =>
    simp only [fractionText,List.nil_append,Option.isSome_none]
    unfold afterFraction
    split
    · rename_i rest equal
      cases exponent : d.exponent with
      | none =>
        rw [exponent] at equal
        cases equal
      | some e =>
        rw [exponent] at equal
        have mark := e.isMark
        rw [(List.cons.inj equal).1] at mark
        cases mark
    · rfl
  | some digits =>
    obtain ⟨nonempty,all⟩ := d.fractionDigits digits fraction
    simp only [fractionText,List.cons_append,afterFraction,
      takeWhile_digits all (stops_exponent d.exponent),
      dropWhile_digits all (stops_exponent d.exponent),List.isEmpty_iff,nonempty,if_false,
      Option.isSome_some]

theorem afterExponent_text (exponent : Option ExponentPart) :
    afterExponent (exponentText exponent) = some (exponent.isSome,[]) := by
  cases exponent with
  | none => rfl
  | some e =>
    have all : (e.digits ++ []).takeWhile isDigit = e.digits :=
      takeWhile_digits e.allDigits fun _ head => nomatch head
    have none : (e.digits ++ []).dropWhile isDigit = [] :=
      dropWhile_digits e.allDigits fun _ head => nomatch head
    rw [List.append_nil] at all none
    simp only [exponentText,ExponentPart.text,afterExponent,e.isMark,if_true,e.afterSign_text,all,
      none,List.isEmpty_iff,e.nonempty,if_false,Option.isSome_some]

/-- The scanner accepts what the parts make up. -/
theorem accepted (d : DecimalSpelling) : finiteDoubleGrammar d.text = true := by
  have taken : d.body.takeWhile isDigit = d.integer :=
    takeWhile_digits d.integerDigits d.stops_fraction
  have dropped : d.body.dropWhile isDigit = fractionText d.fraction ++ exponentText d.exponent :=
    dropWhile_digits d.integerDigits d.stops_fraction
  have head : d.body.head? = d.integer.head? := by
    obtain ⟨first,rest,integer,-⟩ := d.exists_first
    rw [body,integer]
    rfl
  have canonical : (d.integer.head? == some '0' && d.integer.length != 1) = false := by
    by_cases zero : d.integer.head? = some '0'
    · simp [d.integerCanonical zero]
    · simp [zero]
  simp only [finiteDoubleGrammar,unsignedSpelling_text,taken,dropped,head,canonical,
    List.isEmpty_iff,d.integerNonempty,if_false,Bool.false_eq_true,afterFraction_text,
    afterExponent_text]
  exact d.marked

end DecimalSpelling

theorem afterFraction_some {rest after : Text} {hasFraction : Bool}
    (scanned : afterFraction rest = some (hasFraction,after)) :
    ∃ fraction, hasFraction = fraction.isSome ∧ rest = fractionText fraction ++ after ∧
      ∀ digits, fraction = some digits → digits ≠ [] ∧ digits.all isDigit = true := by
  unfold afterFraction at scanned
  split at scanned
  · rename_i rest
    split at scanned
    · cases scanned
    · rename_i nonempty
      cases scanned
      refine ⟨some (rest.takeWhile isDigit),rfl,?_,?_⟩
      · simp [fractionText]
      · rintro digits ⟨⟩
        exact ⟨fun empty => nonempty (List.isEmpty_iff.mpr empty),List.all_takeWhile⟩
  · cases scanned
    exact ⟨none,rfl,rfl,fun _ equal => nomatch equal⟩

theorem afterSign_split (rest : Text) :
    ∃ sign, rest = sign ++ afterSign rest ∧ (sign = [] ∨ sign = ['+'] ∨ sign = ['-']) := by
  unfold afterSign
  split
  · exact ⟨['+'],rfl,.inr (.inl rfl)⟩
  · exact ⟨['-'],rfl,.inr (.inr rfl)⟩
  · exact ⟨[],rfl,.inl rfl⟩

theorem afterExponent_some {rest : Text} {hasExponent : Bool}
    (scanned : afterExponent rest = some (hasExponent,[])) :
    ∃ exponent, hasExponent = Option.isSome exponent ∧ rest = exponentText exponent := by
  unfold afterExponent at scanned
  split at scanned
  · cases scanned
    exact ⟨none,rfl,rfl⟩
  · rename_i mark rest
    split at scanned
    · rename_i isMark
      split at scanned
      · cases scanned
      · rename_i nonempty
        obtain ⟨sign,split,isSign⟩ := afterSign_split rest
        obtain ⟨rfl,consumed⟩ := Prod.mk.inj (Option.some.inj scanned)
        have whole : (afterSign rest).takeWhile isDigit = afterSign rest := by
          have joined := List.takeWhile_append_dropWhile (p := isDigit) (l := afterSign rest)
          rwa [consumed,List.append_nil] at joined
        refine ⟨some ⟨mark,sign,afterSign rest,isMark,isSign,?_,?_⟩,rfl,?_⟩
        · intro empty
          rw [empty] at nonempty
          exact nonempty rfl
        · rw [← whole]
          exact List.all_takeWhile
        · rw [exponentText,ExponentPart.text,← split]
    · cases scanned

/-- The scanner accepts exactly the texts of the grammar. -/
theorem finiteDoubleGrammar_iff (spelling : Text) :
    finiteDoubleGrammar spelling = true ↔ ∃ d : DecimalSpelling, d.text = spelling := by
  constructor
  · intro accepted
    unfold finiteDoubleGrammar at accepted
    dsimp only at accepted
    split at accepted
    · cases accepted
    · rename_i nonempty
      split at accepted
      · cases accepted
      · rename_i canonical
        split at accepted
        · cases accepted
        · rename_i hasFraction rest fractionScan
          split at accepted
          · cases accepted
          · rename_i hasExponent after exponentScan
            obtain ⟨finished,marked⟩ := (Bool.and_eq_true _ _).mp accepted
            rw [List.isEmpty_iff.mp finished] at exponentScan
            obtain ⟨fraction,rfl,restEq,fractionDigits⟩ := afterFraction_some fractionScan
            obtain ⟨exponent,rfl,rfl⟩ := afterExponent_some exponentScan
            have bodyEq := List.takeWhile_append_dropWhile (p := isDigit)
              (l := unsignedSpelling spelling)
            rw [restEq] at bodyEq
            have headEq : ((unsignedSpelling spelling).takeWhile isDigit).head? =
                (unsignedSpelling spelling).head? := by
              cases digits : (unsignedSpelling spelling).takeWhile isDigit with
              | nil => exact absurd (List.isEmpty_iff.mpr digits) nonempty
              | cons first others =>
                rw [← bodyEq,digits]
                rfl
            refine ⟨⟨decide (spelling.head? = some '-'),(unsignedSpelling spelling).takeWhile isDigit,
              fraction,exponent,fun empty => nonempty (List.isEmpty_iff.mpr empty),
              List.all_takeWhile,?_,fractionDigits,marked⟩,?_⟩
            · intro zero
              rw [headEq] at zero
              simpa [zero] using canonical
            · rw [DecimalSpelling.text,DecimalSpelling.body,bodyEq]
              cases spelling with
              | nil => rfl
              | cons first others =>
                by_cases sign : first = '-'
                · subst sign
                  rfl
                · simp [sign,unsignedSpelling]
  · rintro ⟨d,rfl⟩
    exact d.accepted

end Bennu
