import InfixCalculator.Proofs.Decimal.Digits
import InfixCalculator.Text.Digit

/-!
# Whole numbers in plain digits

Digits from `0` to `9` are read as the number that they denote, if they are not too many
(`whole?_eq`).
-/

namespace InfixCalculator.Text

open Literal

variable {digits text : List Char} {c : Char}

/-! ## Plain digits -/

theorem exists_digit (hc : isDigit c = true) : ∃ d < 10, c = Char.ofNat ('0'.toNat + d) := by
  have hrange : 48 ≤ c.toNat ∧ c.toNat ≤ 57 := by
    simpa [isDigit, Char.le_def, UInt32.le_iff_toNat_le] using hc
  refine ⟨c.toNat - 48, by omega, ?_⟩
  have hcode : '0'.toNat + (c.toNat - 48) = c.toNat := by
    show 48 + (c.toNat - 48) = c.toNat
    omega
  rw [hcode, Char.ofNat_toNat]

/-- What is true of the ten digits is true of every digit. -/
theorem forall_digit {p : Char → Prop} (h : ∀ d < 10, p (Char.ofNat ('0'.toNat + d)))
    (hc : isDigit c = true) : p c := by
  obtain ⟨d, hd, rfl⟩ := exists_digit hc
  exact h d hd

theorem digitValue?_of_isDigit (hc : isDigit c = true) : digitValue? c = some (digitValue c) :=
  forall_digit (p := fun c => digitValue? c = some (digitValue c)) (by decide) hc

theorem isBlank_of_isDigit (hc : isDigit c = true) : isBlank c = false :=
  forall_digit (p := fun c => isBlank c = false) (by decide) hc

theorem ne_of_isDigit (hc : isDigit c = true) : c ≠ '_' ∧ c ≠ '-' ∧ c ≠ '+' :=
  forall_digit (p := fun c => c ≠ '_' ∧ c ≠ '-' ∧ c ≠ '+') (by decide) hc

/-! ## Reading them -/

theorem natOfDigits?_eq (h : AllDigits digits) : natOfDigits? digits = some (ofDigits digits) := by
  induction digits using List.reverseRecOn with
  | nil => rfl
  | append_singleton digits c ih =>
      obtain ⟨hdigits, hc⟩ := List.forall_mem_append.1 h
      have hlast := digitValue?_of_isDigit (hc c (List.mem_singleton_self c))
      have hfront : digits.foldlM (fun value c => (digitValue? c).map (10 * value + ·)) 0 =
          some (ofDigits digits) := ih hdigits
      rw [natOfDigits?, List.foldlM_append, hfront, ofDigits_concat]
      simp [hlast]

theorem dropSeparators?_eq (h : AllDigits digits) : dropSeparators? digits = some digits := by
  induction digits with
  | nil => rfl
  | cons c digits ih =>
      obtain ⟨hc, hdigits⟩ := List.forall_mem_cons.1 h
      have hplain := (ne_of_isDigit hc).1
      rw [dropSeparators?, ih hdigits]
      · rfl
      · exact fun heq => absurd heq hplain
      · exact fun _ heq => absurd heq hplain
      · exact fun _ _ heq => absurd heq hplain

theorem unsigned?_eq (hne : digits ≠ []) (h : AllDigits digits)
    (hlength : digits.length ≤ digitLimit) : unsigned? digits = some (ofDigits digits) := by
  have hdrop := dropSeparators?_eq h
  unfold unsigned?
  split
  · exact absurd rfl hne
  · exact absurd rfl (ne_of_isDigit (h '_' List.mem_cons_self)).1
  · rw [hdrop]
    show (if digits.length > digitLimit then none else natOfDigits? digits) = _
    rw [if_neg (by omega), natOfDigits?_eq h]

theorem dropWhile_eq_self {p : Char → Bool} (h : ∀ c ∈ text, p c = false) :
    text.dropWhile p = text := by
  cases text with
  | nil => rfl
  | cons c text => rw [List.dropWhile_cons_of_neg (by simp [h c List.mem_cons_self])]

theorem trimBy_eq_self {p : Char → Bool} (h : ∀ c ∈ text, p c = false) : trimBy p text = text := by
  rw [trimBy, dropWhile_eq_self h, dropWhile_eq_self fun c hc => h c (List.mem_reverse.1 hc),
    List.reverse_reverse]

/-- Plain digits are read as the number that they denote. -/
theorem whole?_eq (hne : digits ≠ []) (h : AllDigits digits) (hlength : digits.length ≤ digitLimit) :
    whole? digits = some (ofDigits digits : Int) := by
  have htrim : trimBy isMargin digits = digits := by
    refine trimBy_eq_self fun c hc => ?_
    rw [isMargin, isBlank_of_isDigit (h c hc), Bool.false_and]
  have hread := unsigned?_eq hne h hlength
  rw [whole?, htrim]
  split
  · exact absurd rfl (ne_of_isDigit (h '-' List.mem_cons_self)).2.1
  · exact absurd rfl (ne_of_isDigit (h '+' List.mem_cons_self)).2.2
  · rw [hread]
    rfl

end InfixCalculator.Text
