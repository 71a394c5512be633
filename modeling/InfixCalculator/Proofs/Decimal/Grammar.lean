import InfixCalculator.Proofs.Decimal.Digits
import InfixCalculator.Proofs.Decimal.Sign

/-!
# The grammar of number literals

```text
literal      ::=  sign size
sign         ::=  nothing  |  +  |  -
size         ::=  NaN  |  Infinity  |  coefficient exponent
coefficient  ::=  digits  |  digits . fraction  |  . digits
fraction     ::=  nothing  |  digits
exponent     ::=  nothing  |  mark sign digits
mark         ::=  e  |  E
digits       ::=  digit  |  digit digits
```

Each of the relations below holds between what a part of a literal says and the texts that the grammar
derives for it.  The reader finds what a text says if and only if the grammar derives the text for it
(`ofChars?_eq_some_iff`), so that no text says two things (`Spells.unique`).

The reader never looks back: it takes all digits where it stands.  This is enough because whatever may
follow digits begins with no digit, and what may follow a coefficient with no point either
(`exponent_stops`).
-/

namespace InfixCalculator.Literal

variable {text whole fraction : List Char} {negative : Bool} {exponent : Int} {size : Size}
  {literal : Literal}

/-- The texts of a sign. -/
inductive IsSign : Bool → List Char → Prop where
  | none : IsSign false []
  | plus : IsSign false ['+']
  | minus : IsSign true ['-']

/-- One digit or more. -/
def IsDigits (text : List Char) : Prop :=
  text ≠ [] ∧ AllDigits text

/-- The texts of the digits before and after a point. -/
inductive IsCoefficient : List Char → List Char → List Char → Prop where
  | whole {whole : List Char} (hwhole : IsDigits whole) : IsCoefficient whole [] whole
  | point {whole fraction : List Char} (hwhole : IsDigits whole) (hfraction : AllDigits fraction) :
      IsCoefficient whole fraction (whole ++ '.' :: fraction)
  | pointFirst {fraction : List Char} (hfraction : IsDigits fraction) :
      IsCoefficient [] fraction ('.' :: fraction)

/-- The texts of an exponent of ten. -/
inductive IsExponent : Int → List Char → Prop where
  | none : IsExponent 0 []
  | marked {mark : Char} {negative : Bool} {sign digits : List Char} (hmark : mark = 'e' ∨ mark = 'E')
      (hsign : IsSign negative sign) (hdigits : IsDigits digits) :
      IsExponent (if negative then -(ofDigits digits : Int) else ofDigits digits)
        (mark :: (sign ++ digits))

/-- The texts of a number without its sign. -/
inductive IsSize : Size → List Char → Prop where
  | nan : IsSize .nan "NaN".toList
  | infinity : IsSize .infinity "Infinity".toList
  | decimal {whole fraction coefficient power : List Char} {exponent : Int}
      (hcoefficient : IsCoefficient whole fraction coefficient) (hexponent : IsExponent exponent power) :
      IsSize (.decimal whole fraction exponent) (coefficient ++ power)

/-- The texts of a literal. -/
inductive Spells : Literal → List Char → Prop where
  | signed {negative : Bool} {size : Size} {sign text : List Char} (hsign : IsSign negative sign)
      (hsize : IsSize size text) : Spells ⟨negative, size⟩ (sign ++ text)

/-! ## Signs and digits -/

theorem exists_isSign (text : List Char) :
    ∃ sign, IsSign (splitSign text).1 sign ∧ text = sign ++ (splitSign text).2 := by
  unfold splitSign
  split
  · exact ⟨_, .plus, rfl⟩
  · exact ⟨_, .minus, rfl⟩
  · exact ⟨_, .none, rfl⟩

theorem IsSign.splitSign_append {sign : List Char} (h : IsSign negative sign)
    (htext : splitSign text = (false, text)) : splitSign (sign ++ text) = (negative, text) := by
  cases h with
  | none => exact htext
  | plus => rfl
  | minus => rfl

theorem allDigits_takeWhile (text : List Char) : AllDigits (text.takeWhile isDigit) :=
  fun _ hc => List.mem_takeWhile_imp hc

theorem takeWhile_digits {digits rest : List Char} (h : AllDigits digits)
    (hrest : rest.takeWhile isDigit = []) : (digits ++ rest).takeWhile isDigit = digits := by
  rw [List.takeWhile_append_of_pos h, hrest, List.append_nil]

theorem dropWhile_digits {digits rest : List Char} (h : AllDigits digits)
    (hrest : rest.dropWhile isDigit = rest) : (digits ++ rest).dropWhile isDigit = rest := by
  rw [List.dropWhile_append_of_pos h, hrest]

theorem splitSign_digit {c : Char} (hc : isDigit c = true) (rest : List Char) :
    splitSign (c :: rest) = (false, c :: rest) := by
  unfold splitSign
  split
  · rename_i h
    cases h
    cases hc
  · rename_i h
    cases h
    cases hc
  · rfl

theorem IsDigits.splitSign_eq (h : IsDigits text) : splitSign text = (false, text) := by
  obtain ⟨c, rest, rfl⟩ := List.exists_cons_of_ne_nil h.1
  exact splitSign_digit (h.2 c List.mem_cons_self) rest

theorem isDigits_iff : (text ≠ [] && text.all isDigit) = true ↔ IsDigits text := by
  simp only [IsDigits, AllDigits, ne_eq, Bool.and_eq_true, decide_eq_true_eq, List.all_eq_true]

/-! ## Exponents -/

theorem IsExponent.exponent?_eq (h : IsExponent exponent text) : exponent? text = some exponent := by
  cases h with
  | none => rfl
  | marked hmark hsign hdigits =>
      rw [exponent?, if_pos (by simpa using hmark), hsign.splitSign_append hdigits.splitSign_eq]
      exact if_pos (isDigits_iff.2 hdigits)

theorem isExponent_of_exponent? (h : exponent? text = some exponent) : IsExponent exponent text := by
  cases text with
  | nil =>
      obtain rfl := Option.some.inj h
      exact .none
  | cons mark rest =>
      rw [exponent?] at h
      split at h
      · rename_i hmark
        obtain ⟨sign, hsign, hrest⟩ := exists_isSign rest
        generalize splitSign rest = split at h hsign hrest
        obtain ⟨negative, digits⟩ := split
        dsimp only at h
        split at h
        · rename_i hdigits
          obtain rfl := Option.some.inj h
          subst hrest
          exact .marked (by simpa using hmark) hsign (isDigits_iff.1 hdigits)
        · cases h
      · cases h

/-- What is read as an exponent begins with neither a digit nor a point. -/
theorem exponent_stops {suffix : List Char} {exponent : Int}
    (h : exponent? suffix = some exponent) :
    suffix.takeWhile isDigit = [] ∧ suffix.dropWhile isDigit = suffix ∧
      splitFraction suffix = ([], suffix) := by
  cases suffix with
  | nil => exact ⟨rfl, rfl, rfl⟩
  | cons mark rest =>
      have hmark : mark = 'e' ∨ mark = 'E' := by
        by_contra hother
        simp [exponent?, hother] at h
      rcases hmark with rfl | rfl <;> exact ⟨rfl, rfl, rfl⟩

/-! ## Decimals -/

theorem splitFraction_point {power : List Char} (hfraction : AllDigits fraction)
    (hexponent : exponent? power = some exponent) :
    splitFraction ('.' :: fraction ++ power) = (fraction, power) := by
  obtain ⟨htake, hdrop, -⟩ := exponent_stops hexponent
  show ((fraction ++ power).takeWhile isDigit, (fraction ++ power).dropWhile isDigit) = _
  rw [takeWhile_digits hfraction htake, dropWhile_digits hfraction hdrop]

/-- A decimal is taken apart behind its first digits. -/
theorem decimal?_append {rest power : List Char} (hwhole : AllDigits whole)
    (htake : rest.takeWhile isDigit = []) (hdrop : rest.dropWhile isDigit = rest)
    (hsplit : splitFraction rest = (fraction, power)) (hne : ¬(whole = [] ∧ fraction = []))
    (hexponent : exponent? power = some exponent) :
    decimal? (whole ++ rest) = some (.decimal whole fraction exponent) := by
  unfold decimal?
  rw [takeWhile_digits hwhole htake, dropWhile_digits hwhole hdrop, hsplit]
  simp only [Bool.and_eq_true, decide_eq_true_eq, if_neg hne, hexponent, Option.map_some]

theorem IsCoefficient.decimal?_eq {coefficient power : List Char}
    (h : IsCoefficient whole fraction coefficient) (hexponent : exponent? power = some exponent) :
    decimal? (coefficient ++ power) = some (.decimal whole fraction exponent) := by
  obtain ⟨htake, hdrop, hsplit⟩ := exponent_stops hexponent
  cases h with
  | whole hwhole =>
      exact decimal?_append hwhole.2 htake hdrop hsplit (fun h => hwhole.1 h.1) hexponent
  | point hwhole hfraction =>
      rw [List.append_assoc]
      exact decimal?_append hwhole.2 rfl rfl (splitFraction_point hfraction hexponent)
        (fun h => hwhole.1 h.1) hexponent
  | pointFirst hfraction =>
      exact decimal?_append (fun _ hc => absurd hc List.not_mem_nil) rfl rfl
        (splitFraction_point hfraction.2 hexponent) (fun h => hfraction.1 h.2) hexponent

/-- Digits and what is split off behind them are a coefficient, if there is a digit among them. -/
theorem exists_isCoefficient {rest : List Char} (hwhole : AllDigits whole)
    (hne : ¬(whole = [] ∧ (splitFraction rest).1 = [])) :
    ∃ coefficient, IsCoefficient whole (splitFraction rest).1 coefficient ∧
      whole ++ rest = coefficient ++ (splitFraction rest).2 := by
  unfold splitFraction at hne ⊢
  split at hne
  · rename_i behind
    have hfraction := allDigits_takeWhile behind
    have hbehind : '.' :: behind = '.' :: behind.takeWhile isDigit ++ behind.dropWhile isDigit := by
      rw [List.cons_append, List.takeWhile_append_dropWhile]
    rw [hbehind, ← List.append_assoc]
    by_cases hnone : whole = []
    · subst hnone
      exact ⟨_, .pointFirst ⟨fun hnil => hne ⟨rfl, hnil⟩, hfraction⟩, rfl⟩
    · exact ⟨_, .point ⟨hnone, hwhole⟩ hfraction, rfl⟩
  · exact ⟨whole, .whole ⟨fun hnil => hne ⟨hnil, rfl⟩, hwhole⟩, rfl⟩

theorem isSize_of_decimal? (h : decimal? text = some size) : IsSize size text := by
  rw [decimal?] at h
  dsimp only at h
  split at h
  · cases h
  · rename_i hne
    obtain ⟨exponent, hexponent, rfl⟩ := Option.map_eq_some_iff.1 h
    obtain ⟨coefficient, hcoefficient, htext⟩ :=
      exists_isCoefficient (allDigits_takeWhile text) (by simpa using hne)
    rw [List.takeWhile_append_dropWhile] at htext
    have hsize := IsSize.decimal hcoefficient (isExponent_of_exponent? hexponent)
    rwa [← htext] at hsize

/-! ## Numbers and literals -/

theorem IsCoefficient.exists_head {coefficient : List Char}
    (h : IsCoefficient whole fraction coefficient) :
    ∃ c rest, coefficient = c :: rest ∧ (isDigit c = true ∨ c = '.') := by
  cases h with
  | whole hwhole =>
      obtain ⟨c, rest, rfl⟩ := List.exists_cons_of_ne_nil hwhole.1
      exact ⟨c, rest, rfl, .inl (hwhole.2 c List.mem_cons_self)⟩
  | point hwhole =>
      obtain ⟨c, rest, rfl⟩ := List.exists_cons_of_ne_nil hwhole.1
      exact ⟨c, _, rfl, .inl (hwhole.2 c List.mem_cons_self)⟩
  | pointFirst => exact ⟨'.', _, rfl, .inr rfl⟩

theorem size?_digit {c : Char} (hc : isDigit c = true) (rest : List Char) :
    size? (c :: rest) = decimal? (c :: rest) := by
  have hnan : c :: rest ≠ "NaN".toList := by
    rintro h
    cases h
    cases hc
  have hinfinity : c :: rest ≠ "Infinity".toList := by
    rintro h
    cases h
    cases hc
  unfold size?
  rw [if_neg hnan, if_neg hinfinity]

theorem size?_of_head {c : Char} (hc : isDigit c = true ∨ c = '.') (rest : List Char) :
    size? (c :: rest) = decimal? (c :: rest) := by
  rcases hc with hdigit | rfl
  · exact size?_digit hdigit rest
  · rfl

theorem IsSize.size?_eq (h : IsSize size text) : size? text = some size := by
  cases h with
  | nan => rfl
  | infinity => rfl
  | decimal hcoefficient hexponent =>
      have hdecimal := hcoefficient.decimal?_eq hexponent.exponent?_eq
      obtain ⟨c, rest, rfl, hc⟩ := hcoefficient.exists_head
      exact (size?_of_head hc _).trans hdecimal

theorem isSize_of_size? (h : size? text = some size) : IsSize size text := by
  unfold size? at h
  split_ifs at h with hnan hinfinity
  · obtain rfl := Option.some.inj h
    rw [hnan]
    exact .nan
  · obtain rfl := Option.some.inj h
    rw [hinfinity]
    exact .infinity
  · exact isSize_of_decimal? h

/-- What is read is what the grammar derives the text for. -/
theorem ofChars?_eq_some_iff : ofChars? text = some literal ↔ Spells literal text := by
  constructor
  · intro h
    have hread : (size? (splitSign text).2).map (Literal.mk (splitSign text).1) = some literal := h
    obtain ⟨size, hsize, rfl⟩ := Option.map_eq_some_iff.1 hread
    obtain ⟨sign, hsign, htext⟩ := exists_isSign text
    have hspells := Spells.signed hsign (isSize_of_size? hsize)
    rwa [← htext] at hspells
  · rintro ⟨hsign, hsize⟩
    have hread := hsize.size?_eq
    unfold ofChars?
    rw [hsign.splitSign_append (splitSign_of_size? hread)]
    simp only [hread, Option.map_some]

theorem Spells.unique {other : Literal} (h : Spells literal text) (hother : Spells other text) :
    literal = other :=
  Option.some.inj ((ofChars?_eq_some_iff.2 h).symm.trans (ofChars?_eq_some_iff.2 hother))

theorem isNumber_iff (word : String) :
    isNumber word = true ↔ ∃ literal, Spells literal word.toList := by
  rw [isNumber, Option.isSome_iff_exists]
  exact exists_congr fun _ => ofChars?_eq_some_iff

end InfixCalculator.Literal
