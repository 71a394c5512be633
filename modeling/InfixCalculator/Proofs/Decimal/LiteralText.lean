import InfixCalculator.Proofs.Text.Spelling
import InfixCalculator.Decimal.Literal
import Mathlib.Data.List.TakeWhile

/-!
# The characters of number literals

A number literal is a single word and does not hold any character that has a
meaning of its own on a display or in a document.  Both follow from
`Literal.forall_isPart`: a literal is made of digits, signs, points and the letters
of exponents and names.
-/

namespace InfixCalculator

namespace Literal

/-- The characters that number literals are made of. -/
def isPart (c : Char) : Bool :=
  isDigit c || "+-.eENaInfity".toList.contains c

theorem isPart_of_isDigit {c : Char} (hc : isDigit c = true) : isPart c = true := by
  simp [isPart, hc]

theorem forall_takeWhile_isPart (text : List Char) :
    ∀ c ∈ text.takeWhile isDigit, isPart c = true := by
  intro c hc
  exact isPart_of_isDigit (List.mem_takeWhile_imp hc)

/-! ## The parts of a literal -/

theorem forall_isPart_of_splitSign {text : List Char}
    (hrest : ∀ c ∈ (splitSign text).2, isPart c = true) : ∀ c ∈ text, isPart c = true := by
  unfold splitSign at hrest
  split at hrest
  · exact List.forall_mem_cons.2 ⟨by decide, hrest⟩
  · exact List.forall_mem_cons.2 ⟨by decide, hrest⟩
  · exact hrest

theorem forall_isPart_of_exponent {text : List Char} {exponent : Int}
    (h : exponent? text = some exponent) : ∀ c ∈ text, isPart c = true := by
  cases text with
  | nil => simp
  | cons mark rest =>
      simp only [exponent?] at h
      split at h
      · rename_i hmark
        split at h
        · rename_i hdigits
          have hall : ∀ c ∈ (splitSign rest).2, isDigit c = true := by
            simp only [Bool.and_eq_true, List.all_eq_true] at hdigits
            exact hdigits.2
          refine List.forall_mem_cons.2 ⟨?_, ?_⟩
          · rcases (by simpa using hmark : mark = 'e' ∨ mark = 'E') with rfl | rfl <;> decide
          · exact forall_isPart_of_splitSign fun c hc => isPart_of_isDigit (hall c hc)
        · cases h
      · cases h

theorem forall_isPart_of_splitFraction {text : List Char}
    (hrest : ∀ c ∈ (splitFraction text).2, isPart c = true) : ∀ c ∈ text, isPart c = true := by
  unfold splitFraction at hrest
  split at hrest
  · rename_i rest
    refine List.forall_mem_cons.2 ⟨by decide, ?_⟩
    rw [← List.takeWhile_append_dropWhile (p := isDigit) (l := rest)]
    exact List.forall_mem_append.2 ⟨forall_takeWhile_isPart rest, hrest⟩
  · exact hrest

theorem forall_isPart_of_decimal {text : List Char} {size : Size}
    (h : decimal? text = some size) : ∀ c ∈ text, isPart c = true := by
  simp only [decimal?] at h
  split at h
  · cases h
  · obtain ⟨exponent, hexponent, -⟩ := Option.map_eq_some_iff.1 h
    rw [← List.takeWhile_append_dropWhile (p := isDigit) (l := text)]
    exact List.forall_mem_append.2 ⟨forall_takeWhile_isPart text,
      forall_isPart_of_splitFraction (forall_isPart_of_exponent hexponent)⟩

theorem forall_isPart_of_size {text : List Char} {size : Size} (h : size? text = some size) :
    ∀ c ∈ text, isPart c = true := by
  simp only [size?] at h
  split at h
  · rename_i hname
    rw [hname]
    exact List.all_eq_true.1 (by decide : "NaN".toList.all isPart = true)
  · split at h
    · rename_i hname
      rw [hname]
      exact List.all_eq_true.1 (by decide : "Infinity".toList.all isPart = true)
    · exact forall_isPart_of_decimal h

/-- A literal is made of the characters of literals. -/
theorem forall_isPart {text : List Char} {literal : Literal} (h : ofChars? text = some literal) :
    ∀ c ∈ text, isPart c = true := by
  simp only [ofChars?] at h
  obtain ⟨size, hsize, -⟩ := Option.map_eq_some_iff.1 h
  exact forall_isPart_of_splitSign (forall_isPart_of_size hsize)

/-! ## Literals as words -/

theorem ofChars?_nil : ofChars? [] = none := by decide

theorem isBlank_of_isPart {c : Char} (hc : isPart c = true) : Text.isBlank c = false := by
  simp only [isPart, Bool.or_eq_true] at hc
  rcases hc with hdigit | hother
  · have hrange : 48 ≤ c.toNat ∧ c.toNat ≤ 57 := by
      simpa [isDigit, Char.le_def, UInt32.le_iff_toNat_le] using hdigit
    simp only [Text.isBlank]
    simp
    omega
  · have hmem : c ∈ "+-.eENaInfity".toList := by simpa using hother
    have hblank : "+-.eENaInfity".toList.all (fun d => !Text.isBlank d) = true := by decide
    simpa using List.all_eq_true.1 hblank c hmem

/-- A literal is a word. -/
theorem isWord_of_ofChars? {text : List Char} {literal : Literal}
    (h : ofChars? text = some literal) : Text.IsWord text := by
  refine ⟨?_, fun c hc => isBlank_of_isPart (forall_isPart h c hc)⟩
  rintro rfl
  rw [ofChars?_nil] at h
  cases h

/-- A character that no literal is made of is in none. -/
theorem not_mem_of_ofChars? {text : List Char} {literal : Literal}
    (h : ofChars? text = some literal) {c : Char} (hc : isPart c = false) : c ∉ text := by
  intro hmem
  rw [forall_isPart h c hmem] at hc
  cases hc

end Literal

end InfixCalculator
