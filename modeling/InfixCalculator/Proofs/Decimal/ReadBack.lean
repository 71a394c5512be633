import InfixCalculator.Proofs.Decimal.Grammar
import InfixCalculator.Proofs.Decimal.Nearest
import InfixCalculator.Proofs.Double.Bits
import InfixCalculator.Proofs.Evaluation.Tokens

/-!
# Reading back a double

The text of a double is a literal for exactly that double (`literalText_reads`).  Both notations
are digits with at most one point among them and an exponent that may be left out, `decimalText`,
so that the literal reader takes every such text apart as it was put together.  The digits and the
exponent it finds need not be those of the shortest decimal: zeros at its end are dropped or moved
around the point.  `Denotes` therefore compares the nearest doubles only.

Being a literal the text is also a single word, in an expression as on a display, and the token of
this word carries the double (`literalText_word`).
-/

namespace InfixCalculator.Decimal

open Literal Double

/-- Digits with a point, unless none follow it, and an exponent. -/
def decimalText (whole fraction suffix : List Char) : List Char :=
  whole ++ (if fraction = [] then [] else '.' :: fraction) ++ suffix

/-- A text without a sign that is read as the double nearest to a decimal. -/
inductive Denotes : List Char → Scaled → Prop where
  | of_parts {whole fraction suffix : List Char} {exponent : Int} {decimal : Scaled}
      (hwhole : AllDigits whole) (hfraction : AllDigits fraction) (hne : whole ≠ [])
      (hexponent : exponent? suffix = some exponent)
      (hnearest : nearest ⟨ofDigits (whole ++ fraction), exponent - fraction.length⟩
        = nearest decimal) :
      Denotes (decimalText whole fraction suffix) decimal

theorem Denotes.congr {text : List Char} {a b : Scaled} (h : Denotes text a)
    (hnearest : nearest a = nearest b) : Denotes text b := by
  obtain ⟨hwhole, hfraction, hne, hexponent, hparts⟩ := h
  exact .of_parts hwhole hfraction hne hexponent (hparts.trans hnearest)

/-! ## Decimals as literals -/

/-- The characters of a sign; a positive number has none. -/
def signText (negative : Bool) : List Char :=
  if negative then ['-'] else []

/-- Digits with a point behind them are a literal, with either sign. -/
theorem spells_decimalText {whole fraction suffix : List Char} {exponent : Int}
    (hwhole : AllDigits whole) (hfraction : AllDigits fraction) (hne : whole ≠ [])
    (hexponent : exponent? suffix = some exponent) (negative : Bool) :
    Spells ⟨negative, .decimal whole fraction exponent⟩
      (signText negative ++ decimalText whole fraction suffix) := by
  have hsign : IsSign negative (signText negative) := by
    cases negative with
    | true => exact .minus
    | false => exact .none
  have hcoefficient : IsCoefficient whole fraction
      (whole ++ if fraction = [] then [] else '.' :: fraction) := by
    split
    · rename_i hnone
      rw [hnone, List.append_nil]
      exact .whole ⟨hne, hwhole⟩
    · exact .point ⟨hne, hwhole⟩ hfraction
  exact .signed hsign (.decimal hcoefficient (isExponent_of_exponent? hexponent))

/-- With its sign a text is read as the double nearest to what it denotes. -/
theorem Denotes.reads {text : List Char} {decimal : Scaled} (h : Denotes text decimal)
    (negative : Bool) :
    ∃ literal, ofChars? (signText negative ++ text) = some literal ∧
      literal.toFloat = Double.ofIndex negative (nearest decimal) := by
  obtain @⟨whole, fraction, suffix, exponent, _, hwhole, hfraction, hne, hexponent, hnearest⟩ := h
  refine ⟨⟨negative, .decimal whole fraction exponent⟩, ?_, ?_⟩
  · exact ofChars?_eq_some_iff.2 (spells_decimalText hwhole hfraction hne hexponent negative)
  · show Double.ofIndex negative (roundDigits whole fraction exponent) = _
    unfold roundDigits
    rw [roundDecimal_eq_nearest _ (ofDigits_lt (hwhole.append hfraction)), hnearest]

/-! ## The two notations -/

/-- The point stands before all digits, and zeros fill up to it. -/
theorem denotes_zeros_first {digits : List Char} (hdigits : AllDigits digits) (hne : digits ≠ [])
    {point : Int} (hpoint : point ≤ 0) :
    Denotes ('0' :: '.' :: (List.replicate point.natAbs '0' ++ digits))
      ⟨ofDigits digits, point - digits.length⟩ := by
  have htext : '0' :: '.' :: (List.replicate point.natAbs '0' ++ digits)
      = decimalText ['0'] (List.replicate point.natAbs '0' ++ digits) [] := by
    simp [decimalText, hne]
  rw [htext]
  refine .of_parts (allDigits_zeros 1) ((allDigits_zeros _).append hdigits) (by decide) rfl ?_
  have hvalue : ofDigits (['0'] ++ (List.replicate point.natAbs '0' ++ digits))
      = ofDigits digits := ofDigits_zeros_append (point.natAbs + 1) digits
  have hexponent : (0 - (List.replicate point.natAbs '0' ++ digits).length : Int)
      = point - digits.length := by
    rw [List.length_append, List.length_replicate]
    omega
  rw [hvalue, hexponent]

/-- The point stands after all digits, and zeros fill up to it. -/
theorem denotes_zeros_last {digits : List Char} (hdigits : AllDigits digits) (hne : digits ≠ [])
    {point : Int} (hpoint : digits.length ≤ point) :
    Denotes (digits ++ List.replicate (point.toNat - digits.length) '0' ++ ['.', '0'])
      ⟨ofDigits digits, point - digits.length⟩ := by
  have htext : digits ++ List.replicate (point.toNat - digits.length) '0' ++ ['.', '0']
      = decimalText (digits ++ List.replicate (point.toNat - digits.length) '0') ['0'] [] := by
    simp [decimalText]
  rw [htext]
  refine .of_parts (hdigits.append (allDigits_zeros _)) (allDigits_zeros 1) (by simp [hne]) rfl ?_
  have hvalue : ofDigits (digits ++ List.replicate (point.toNat - digits.length) '0' ++ ['0'])
      = ofDigits digits * Nat.pow 10 (point.toNat - digits.length + 1) := by
    rw [List.append_assoc, ← List.replicate_succ', ofDigits_append_zeros]
  have hexponent : (0 - (['0'].length : Nat) : Int)
      = point - digits.length - (point.toNat - digits.length + 1 : Nat) := by
    rw [List.length_singleton]
    omega
  rw [hvalue, hexponent, nearest_shift]

/-- The point stands between the digits. -/
theorem denotes_split {digits : List Char} (hdigits : AllDigits digits)
    {point : Int} (hpos : 0 < point) (hpoint : point < digits.length) :
    Denotes (digits.take point.toNat ++ '.' :: digits.drop point.toNat)
      ⟨ofDigits digits, point - digits.length⟩ := by
  have hfraction : digits.drop point.toNat ≠ [] := by
    rw [ne_eq, List.drop_eq_nil_iff]
    omega
  have hwhole : digits.take point.toNat ≠ [] := by
    rw [ne_eq, List.take_eq_nil_iff, ← List.length_eq_zero_iff]
    omega
  have htext : digits.take point.toNat ++ '.' :: digits.drop point.toNat
      = decimalText (digits.take point.toNat) (digits.drop point.toNat) [] := by
    simp only [decimalText, if_neg hfraction, List.append_nil]
  rw [htext]
  refine .of_parts (hdigits.take _) (hdigits.drop _) hwhole rfl ?_
  have hexponent : (0 - (digits.drop point.toNat).length : Int) = point - digits.length := by
    rw [List.length_drop]
    omega
  rw [List.take_append_drop, hexponent]

theorem denotes_positional {digits : List Char} (hdigits : AllDigits digits) (hne : digits ≠ [])
    (point : Int) :
    Denotes (positional digits point) ⟨ofDigits digits, point - digits.length⟩ := by
  unfold positional
  split
  · rename_i hpoint
    exact denotes_zeros_first hdigits hne hpoint
  · rename_i hpoint
    rcases Int.lt_or_le point digits.length with hsplit | hlast
    · have hfraction : digits.drop point.toNat ≠ [] := by
        rw [ne_eq, List.drop_eq_nil_iff]
        omega
      have hwhole : point.toNat - (digits.take point.toNat).length = 0 := by
        rw [List.length_take]
        omega
      simp only [hwhole, if_neg hfraction, List.replicate_zero, List.append_nil]
      exact denotes_split hdigits (by omega) hsplit
    · have htake : digits.take point.toNat = digits := List.take_of_length_le (by omega)
      have hdrop : digits.drop point.toNat = [] := List.drop_of_length_le (by omega)
      simp only [htake, hdrop, if_true]
      exact denotes_zeros_last hdigits hne hlast

theorem exponent?_exponentText {width : Nat} (hwidth : 0 < width) (exponent : Int) :
    exponent? (exponentText width exponent) = some exponent := by
  have hvalue : ofDigits (List.replicate (width - (digits exponent.natAbs).length) '0'
      ++ digits exponent.natAbs) = exponent.natAbs := by
    rw [ofDigits_zeros_append, ofDigits_digits]
  have hall : AllDigits (List.replicate (width - (digits exponent.natAbs).length) '0'
      ++ digits exponent.natAbs) := (allDigits_zeros _).append (allDigits_digits _)
  have hne : List.replicate (width - (digits exponent.natAbs).length) '0'
      ++ digits exponent.natAbs ≠ [] := by
    rw [ne_eq, ← List.length_eq_zero_iff, List.length_append, List.length_replicate]
    omega
  simp only [exponentText]
  generalize List.replicate (width - (digits exponent.natAbs).length) '0'
    ++ digits exponent.natAbs = text at hvalue hall hne
  have haccepted : (text ≠ [] && text.all isDigit) = true := by
    simp only [decide_eq_true_eq, Bool.and_eq_true, List.all_eq_true]
    exact ⟨hne, hall⟩
  by_cases hnegative : exponent < 0
  · simp only [hnegative, if_true]
    show (if (text ≠ [] && text.all isDigit) = true then some (-(ofDigits text : Int)) else none) = _
    rw [if_pos haccepted, hvalue]
    congr 1
    omega
  · simp only [hnegative, if_false]
    show (if (text ≠ [] && text.all isDigit) = true then some (ofDigits text : Int) else none) = _
    rw [if_pos haccepted, hvalue]
    congr 1
    omega

theorem denotes_scientific {digits : List Char} (hdigits : AllDigits digits) (hne : digits ≠ [])
    {width : Nat} (hwidth : 0 < width) (point : Int) :
    Denotes (scientific width digits (point - 1)) ⟨ofDigits digits, point - digits.length⟩ := by
  obtain ⟨c, rest, rfl⟩ := List.exists_cons_of_ne_nil hne
  refine .of_parts (hdigits.take 1) (hdigits.drop 1) (by simp)
    (exponent?_exponentText hwidth (point - 1)) ?_
  have hlength : (point - 1 - ((c :: rest).drop 1).length : Int) = point - (c :: rest).length := by
    simp
    omega
  rw [List.take_append_drop, hlength]

/-! ## The text of a double -/

variable {layout : Layout}

theorem denotes_digitsText (hwidth : 0 < layout.exponentWidth) {digits : List Char}
    (hdigits : AllDigits digits) (hne : digits ≠ []) (point : Int) :
    Denotes (layout.digitsText digits point) ⟨ofDigits digits, point - digits.length⟩ := by
  unfold Layout.digitsText
  split
  · exact denotes_positional hdigits hne point
  · exact denotes_scientific hdigits hne hwidth point

/-- Without the zeros at its end a decimal has another coefficient and another exponent, but the
same nearest double. -/
theorem denotes_scaledText (hwidth : 0 < layout.exponentWidth) {decimal : Scaled}
    (hpositive : decimal.coefficient ≠ 0) : Denotes (layout.scaledText decimal) decimal := by
  obtain ⟨count, hzeros⟩ := exists_dropTrailingZeros (digits decimal.coefficient)
  simp only [Layout.scaledText]
  have hall := allDigits_digits decimal.coefficient
  have hvalue := ofDigits_digits decimal.coefficient
  generalize dropTrailingZeros (digits decimal.coefficient) = kept at hzeros
  rw [hzeros] at hall hvalue
  rw [ofDigits_append_zeros] at hvalue
  have hkept : AllDigits kept := fun c hc => hall c (List.mem_append_left _ hc)
  have hne : kept ≠ [] := by
    rintro rfl
    exact hpositive (hvalue.symm.trans (Nat.zero_mul _))
  -- the point is counted from the first digit, so it does not move when zeros are dropped
  have hpoint : ((digits decimal.coefficient).length + decimal.exponent : Int) - kept.length
      = decimal.exponent + count := by
    rw [hzeros, List.length_append, List.length_replicate]
    omega
  have hdenotes := denotes_digitsText hwidth hkept hne
    ((digits decimal.coefficient).length + decimal.exponent)
  rw [hpoint] at hdenotes
  have hnearest : nearest ⟨ofDigits kept, decimal.exponent + count⟩ = nearest decimal := by
    rw [← nearest_shift _ count, hvalue, Int.add_sub_cancel]
  exact hdenotes.congr hnearest

theorem coefficient_shortest_ne_zero {index : Nat} (hpositive : index ≠ 0)
    (hfinite : index < infinityIndex) : (shortest index).coefficient ≠ 0 := by
  intro hzero
  have hnearest := nearest_shortest hfinite
  generalize shortest index = decimal at hzero hnearest
  obtain ⟨coefficient, exponent⟩ := decimal
  cases hzero
  exact hpositive (hnearest.symm.trans (nearest_zero exponent))

/-- A finite double is read back from its size and its sign. -/
theorem sizeText_reads (hwidth : 0 < layout.exponentWidth) {index : Nat}
    (hfinite : index < infinityIndex) (negative : Bool) :
    ∃ literal, ofChars? (signText negative ++ layout.sizeText index) = some literal ∧
      literal.toFloat = ofIndex negative index := by
  unfold Layout.sizeText
  split
  · rename_i hzero
    subst hzero
    cases negative with
    | true => exact ⟨⟨true, .decimal ['0'] ['0'] 0⟩, by decide, rfl⟩
    | false => exact ⟨⟨false, .decimal ['0'] ['0'] 0⟩, by decide, rfl⟩
  · rename_i hpositive
    have hdenotes := denotes_scaledText hwidth (coefficient_shortest_ne_zero hpositive hfinite)
    have hreads := hdenotes.reads negative
    rw [nearest_shortest hfinite] at hreads
    exact hreads

/-- The text of a double is a literal for that double. -/
theorem literalText_reads (x : Float) :
    ∃ literal, ofChars? (literalText x).toList = some literal ∧ literal.toFloat = x := by
  unfold literalText Layout.text
  simp only []
  split
  · rename_i hnan
    refine ⟨⟨false, .nan⟩, by decide, ?_⟩
    exact (eq_nan_of_index hnan).symm
  · rename_i hnumber
    split
    · rename_i hinfinity
      refine ⟨⟨isNegative x, .infinity⟩, ?_, (eq_infinity_of_index hinfinity).symm⟩
      cases isNegative x <;> decide
    · rename_i hother
      have hfinite : index x < infinityIndex := by omega
      obtain ⟨l, hread, hvalue⟩ := @sizeText_reads literal (by decide) _ hfinite (isNegative x)
      refine ⟨l, ?_, hvalue.trans (ofIndex_index x)⟩
      rw [← hread, String.toList_append, String.toList_ofList]
      cases isNegative x <;> rfl

/-! ## The text as a word -/

theorem expressionWords_of_ofChars? {word : String} {l : Literal}
    (h : ofChars? word.toList = some l) : expressionWords word = [word] := by
  simp [expressionWords, Text.words_of_isWord (isWord_of_ofChars? h)]

/-- **The text of a double is a word that stands for it.**  It is a number literal without a blank,
a result marker or a comment mark, and its token carries the double itself, infinite or not. -/
theorem literalText_word (x : Float) :
    isNumber (literalText x) = true ∧ expressionWords (literalText x) = [literalText x] ∧
      (∀ c ∈ (literalText x).toList, Text.isBlank c = false ∧ c ≠ '~' ∧ c ≠ '#') ∧
      Token.ofWord? (literalText x) = some (.number x) := by
  obtain ⟨l, hread, hvalue⟩ := literalText_reads x
  refine ⟨?_, expressionWords_of_ofChars? hread, ?_, ?_⟩
  · rw [isNumber, hread]
    rfl
  · intro c hc
    refine ⟨(isWord_of_ofChars? hread).2 c hc, ?_, ?_⟩
    · rintro rfl
      exact not_mem_of_ofChars? hread (by decide) hc
    · rintro rfl
      exact not_mem_of_ofChars? hread (by decide) hc
  · rw [Token.ofWord?_of_ofChars? hread, hvalue]

end InfixCalculator.Decimal
