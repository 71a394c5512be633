import InfixCalculator.Proofs.Decimal.Signs
import InfixCalculator.Proofs.Keypad.Press

/-!
# The signs in an entry

Digits and points are typed into an entry, but signs come into it by two keys only.  One puts a
minus sign in front or takes away what stands there, and a square root may be written with the sign
of an exponent.  That sign is a plus only where there is no other sign, so that a plus never comes
to stand at the head of an entry, where it would be read as the sign of the number.

`Edits` lists what the keys may make of an entry, and `Session.reached_of_edits` is the induction on
the keys.  `WellSigned` is what all keys keep: an entry without a plus may have minus signs anywhere,
and one with a plus has a minus sign in front of everything else or none at all.  As long as no square
root is taken, no minus sign stands behind the first character (`Session.no_minus_behind_reached`).
-/

namespace InfixCalculator

open Decimal

/-- A text that may follow a sign: no minus sign is in it, and no plus sign begins it. -/
structure Unsigned (text : List Char) : Prop where
  no_minus : '-' ∉ text
  no_leading_plus : text.head? ≠ some '+'

/-- A text without a plus sign, or one with no minus sign but one in front. -/
inductive WellSigned : List Char → Prop
  | noPlus {text : List Char} : '+' ∉ text → WellSigned text
  | signed (negative : Bool) {body : List Char} : Unsigned body →
      WellSigned (signText negative ++ body)

theorem SignFree.unsigned {text : List Char} (h : SignFree text) : Unsigned text :=
  ⟨h.no_minus, fun hhead => h.no_plus (List.mem_of_head? hhead)⟩

/-! ## Texts of doubles -/

variable {digits : List Char}

/-- Around the mark of an exponent there is only its own sign. -/
theorem signs_of_parts {front back : List Char} (hfront : SignFree front) (hback : SignFree back)
    (negative : Prop) [Decidable negative] :
    '+' ∉ front ++ 'e' :: (if negative then '-' else '+') :: back ∨
      Unsigned (front ++ 'e' :: (if negative then '-' else '+') :: back) := by
  split
  · left
    simp [hfront.no_plus, hback.no_plus]
  · right
    constructor
    · simp [hfront.no_minus, hback.no_minus]
    · cases front with
      | nil => simp
      | cons c rest => exact fun hhead => hfront.no_plus (List.mem_of_head? hhead)

theorem scientific_signs (h : Literal.AllDigits digits) (width : Nat) (exponent : Int) :
    '+' ∉ scientific width digits exponent ∨ Unsigned (scientific width digits exponent) := by
  obtain ⟨front, back, hfront, hback, heq⟩ := scientific_parts h width exponent
  rw [heq]
  exact signs_of_parts hfront hback (exponent < 0)

theorem sizeText_signs (layout : Layout) (index : Nat) :
    '+' ∉ layout.sizeText index ∨ Unsigned (layout.sizeText index) := by
  unfold Layout.sizeText
  split
  · exact .inl (by decide)
  · have hdigits :=
      allDigits_dropTrailingZeros (allDigits_digits (shortest index).coefficient)
    simp only [Layout.scaledText, Layout.digitsText]
    split
    · exact .inr (signFree_positional hdigits _).unsigned
    · exact scientific_signs hdigits _ _

theorem wellSigned_of_body (negative : Bool) {body : List Char}
    (h : '+' ∉ body ∨ Unsigned body) : WellSigned (signText negative ++ body) := by
  rcases h with hplus | hunsigned
  · refine .noPlus ?_
    cases negative <;> simpa [signText] using hplus
  · exact .signed negative hunsigned

theorem wellSigned_literalText (x : Float) : WellSigned (literalText x).toList := by
  unfold literalText Layout.text
  simp only []
  have hsign :
      (if Double.isNegative x then "-" else "").toList = signText (Double.isNegative x) := by
    cases Double.isNegative x <;> rfl
  split
  · exact .noPlus (by decide)
  · split
    · rw [String.toList_append, hsign]
      exact wellSigned_of_body _ (.inl (by decide))
    · rw [String.toList_append, hsign, String.toList_ofList]
      exact wellSigned_of_body _ (sizeText_signs _ _)

/-! ## Edits of an entry -/

namespace WellSigned

variable {text : List Char}

theorem nil : WellSigned [] :=
  .noPlus List.not_mem_nil

theorem concat (h : WellSigned text) {c : Char} (hc : SignFree [c]) : WellSigned (text ++ [c]) := by
  cases h with
  | noPlus hplus => exact .noPlus (by simpa [hplus] using hc.no_plus)
  | @signed negative body hbody =>
      rw [List.append_assoc]
      refine .signed negative ⟨?_, ?_⟩
      · simpa [hbody.no_minus] using hc.no_minus
      · cases body with
        | nil => simpa [eq_comm] using hc.no_plus
        | cons first rest => exact hbody.no_leading_plus

theorem dropLast (h : WellSigned text) : WellSigned text.dropLast := by
  cases h with
  | noPlus hplus => exact .noPlus fun hmem => hplus (List.mem_of_mem_dropLast hmem)
  | @signed negative body hbody =>
      cases body with
      | nil =>
          refine .noPlus ?_
          cases negative <;> simp [signText]
      | cons first rest =>
          rw [List.dropLast_append_of_ne_nil (by simp)]
          refine .signed negative ⟨fun hmem => hbody.no_minus (List.mem_of_mem_dropLast hmem), ?_⟩
          cases rest with
          | nil => simp
          | cons second rest => exact hbody.no_leading_plus

/-- A text without a minus sign gets one in front. -/
theorem minus_cons (h : WellSigned text) (hminus : '-' ∉ text) : WellSigned ('-' :: text) := by
  cases h with
  | noPlus hplus => exact .noPlus (by simp [hplus])
  | @signed negative body hbody =>
      cases negative with
      | true => simp [signText] at hminus
      | false => exact .signed true hbody

/-- A text with a minus sign loses its first character. -/
theorem drop_one (h : WellSigned text) (hminus : '-' ∈ text) : WellSigned (text.drop 1) := by
  cases h with
  | noPlus hplus => exact .noPlus fun hmem => hplus (List.mem_of_mem_drop hmem)
  | @signed negative body hbody =>
      cases negative with
      | true => exact .signed false hbody
      | false => exact absurd hminus hbody.no_minus

/-- A plus sign begins no such text, unless there is a minus sign in it. -/
theorem no_leading_plus (h : WellSigned text) (hminus : '-' ∉ text) : text.head? ≠ some '+' := by
  cases h with
  | noPlus hplus => exact fun hhead => hplus (List.mem_of_head? hhead)
  | @signed negative body hbody =>
      cases negative with
      | true => simp [signText] at hminus
      | false => exact hbody.no_leading_plus

end WellSigned

/-! ## What the keys make of an entry -/

/-- What a key may make of an entry. -/
inductive Edits (text : List Char) : Key → List Char → Prop where
  | digit {label : String} {c : Char} (hdigit : Literal.isDigit c = true) :
      Edits text (.digit label) (text ++ [c])
  | point : Edits text .decimal (text ++ ['.'])
  | pointAgain : Edits text .decimal text
  | minusDropped (hminus : '-' ∈ text) : Edits text .negate (text.drop 1)
  | minusAdded (hminus : '-' ∉ text) : Edits text .negate ('-' :: text)
  | root (x : Float) : Edits text .squareRoot (literalText x).toList
  | shortened : Edits text .delete text.dropLast
  | emptied (key : Key) : Edits text key []
  | kept (key : Key) (hkey : key.editsEntry = false) : Edits text key text

namespace Edits

variable {text edited : List Char} {key : Key}

theorem wellSigned (h : Edits text key edited) (htext : WellSigned text) : WellSigned edited := by
  cases h with
  | digit hdigit => exact htext.concat (.of_allDigits (List.forall_mem_singleton.2 hdigit))
  | point => exact htext.concat (.point_cons .nil)
  | pointAgain => exact htext
  | minusDropped hminus => exact htext.drop_one hminus
  | minusAdded hminus => exact htext.minus_cons hminus
  | root x => exact wellSigned_literalText x
  | shortened => exact htext.dropLast
  | emptied => exact .nil
  | kept => exact htext

theorem no_minus_behind_concat {c : Char} (htext : '-' ∉ text.drop 1) (hc : SignFree [c]) :
    '-' ∉ (text ++ [c]).drop 1 := by
  cases text with
  | nil => exact List.not_mem_nil
  | cons first rest =>
      have hrest : '-' ∉ rest := htext
      show '-' ∉ rest ++ [c]
      simpa [hrest] using hc.no_minus

/-- Only a square root brings a minus sign behind the first character. -/
theorem no_minus_behind (h : Edits text key edited) (hkey : key ≠ .squareRoot)
    (htext : '-' ∉ text.drop 1) : '-' ∉ edited.drop 1 := by
  cases h with
  | digit hdigit =>
      exact no_minus_behind_concat htext (.of_allDigits (List.forall_mem_singleton.2 hdigit))
  | point => exact no_minus_behind_concat htext (.point_cons .nil)
  | pointAgain => exact htext
  | minusDropped => exact fun hmem => htext (List.mem_of_mem_drop hmem)
  | minusAdded hminus => exact hminus
  | root => exact absurd rfl hkey
  | shortened =>
      rcases text with _ | ⟨first, _ | ⟨second, rest⟩⟩
      · exact List.not_mem_nil
      · exact List.not_mem_nil
      · exact fun hmem => htext (List.mem_of_mem_dropLast hmem)
  | emptied => exact List.not_mem_nil
  | kept => exact htext

end Edits

/-! ## Entries of a session -/

namespace Session

variable {s next : Session} {key : Key} {evaluation? : Option Evaluation}

/-- A symbol that is placed takes the entry with it. -/
theorem Places.entry_cases {symbol : List Char} (h : s.Places symbol next) :
    next.entry = s.entry ∨ next.entry = [] := by
  cases h with
  | entry => exact .inr rfl
  | _ => exact .inl rfl

/-- A key that does not edit the entry leaves it or clears it. -/
theorem Accepts.entry_cases (h : s.Accepts key evaluation? next) (hkey : key.editsEntry = false) :
    next.entry = s.entry ∨ next.entry = [] := by
  cases h with
  | edit hedit => rw [hedit] at hkey; cases hkey
  | operator _ hplaces => exact hplaces.entry_cases
  | closeEntry _ hplaces => exact hplaces.entry_cases
  | clearAll => exact .inr rfl
  | equals => exact .inr rfl
  | _ => exact .inl rfl

theorem edits_of_press (hpress : s.press key = .ok (evaluation?, next)) :
    Edits s.entry key next.entry := by
  cases hkey : key.editsEntry with
  | false =>
      rcases (accepts_of_press hpress).entry_cases hkey with hsame | hcleared
      · exact hsame ▸ .kept key hkey
      · exact hcleared ▸ .emptied key
  | true =>
      cases key with
      | digit label =>
          obtain ⟨_, hdigit, heq⟩ := map_eq_ok.1 hpress
          cases heq
          unfold pressDigit at hdigit
          split at hdigit
          · split at hdigit <;> cases hdigit
            exact .digit ‹_›
          · cases hdigit
      | decimal =>
          cases hpress
          unfold pressDecimal
          split
          · exact .pointAgain
          · exact .point
      | negate =>
          obtain ⟨_, hnegate, heq⟩ := map_eq_ok.1 hpress
          cases heq
          unfold negate at hnegate
          split_ifs at hnegate with hnone hsign hminus <;> cases hnegate
          · exact .emptied .negate
          · exact .minusDropped (by simpa using hminus)
          · exact .minusAdded (by simpa using hminus)
      | squareRoot =>
          obtain ⟨_, hroot, heq⟩ := map_eq_ok.1 hpress
          cases heq
          unfold squareRoot at hroot
          split_ifs at hroot
          split at hroot
          · cases hroot
          · split at hroot <;> cases hroot
            exact .root _
      | delete =>
          obtain ⟨_, hdelete, heq⟩ := map_eq_ok.1 hpress
          cases heq
          unfold delete at hdelete
          split_ifs at hdelete
          cases hdelete
          exact .shortened
      | clearEntry =>
          cases hpress
          exact .emptied .clearEntry
      | _ => cases hkey

/-- What every edit keeps of an entry holds of the entry that any keys reach. -/
theorem reached_of_edits {P : List Char → Prop} (settings : Settings) (hnil : P []) {keys : List Key}
    (hedits : ∀ key ∈ keys, ∀ text edited, P text → Edits text key edited → P edited) :
    P (reached settings keys).entry := by
  induction keys using List.reverseRecOn with
  | nil => exact hnil
  | append_singleton keys key ih =>
      have hreached : reached settings (keys ++ [key]) = (reached settings keys).pressed key :=
        List.foldl_concat ..
      have hbefore := ih fun other hother => hedits other (List.mem_append_left _ hother)
      rw [hreached]
      unfold pressed
      cases hpress : (reached settings keys).press key with
      | ok result =>
          exact hedits key (List.mem_append_right _ (List.mem_singleton_self key)) _ _ hbefore
            (edits_of_press hpress)
      | error refusal => exact hbefore

/-- No keys bring a second sign to the head of an entry. -/
theorem wellSigned_reached (settings : Settings) (keys : List Key) :
    WellSigned (reached settings keys).entry := by
  apply reached_of_edits settings .nil
  intro key _ text edited htext hedits
  exact hedits.wellSigned htext

/-- Without a square root among the keys there is no minus sign behind the first character. -/
theorem no_minus_behind_reached (settings : Settings) {keys : List Key}
    (hkeys : .squareRoot ∉ keys) : '-' ∉ (reached settings keys).entry.drop 1 := by
  apply reached_of_edits (P := fun text => '-' ∉ text.drop 1) settings List.not_mem_nil
  intro key hkey text edited htext hedits
  exact hedits.no_minus_behind (fun heq => hkeys (heq ▸ hkey)) htext

end Session

end InfixCalculator
