import InfixCalculator.Double.Grid
import InfixCalculator.Text.Numeral

/-!
# Forms

A form is a record whose fields come from outside and may be absent, of the wrong
type or out of range.  A reader of a form collects what is wrong with all of its
fields, in the order in which it reads them, and yields a checked value only if
nothing is.  Fields that no reader asks for are ignored.
-/

namespace InfixCalculator

/-- A value as it comes from outside. -/
inductive FieldValue where
  | null
  | flag (value : Bool)
  | whole (value : Int)
  /-- A number that is not whole. -/
  | real (value : Float)
  | text (value : String)
  | list (items : List FieldValue)
  | form (fields : List (String × FieldValue))

/-- The fields of a record, by name. -/
abbrev Form := List (String × FieldValue)

/-- What can be wrong with a field. -/
inductive Flaw where
  | missing
  | notText
  | notWhole
  | fractional
  | unreadableWhole
  | oversizedWhole
  | tooSmall
  | notFlag
  | unreadableFlag
  | notReal
  | notList
  | notForm
  | unknownName
  | notAFile
deriving DecidableEq

/-- The name of a flaw in messages. -/
def Flaw.name : Flaw → String
  | missing => "missing"
  | notText => "string_type"
  | notWhole => "int_type"
  | fractional => "int_from_float"
  | unreadableWhole => "int_parsing"
  | oversizedWhole => "int_parsing_size"
  | tooSmall => "greater_than_equal"
  | notFlag => "bool_type"
  | unreadableFlag => "bool_parsing"
  | notReal => "float_type"
  | notList => "list_type"
  | notForm => "model_type"
  | unknownName => "enum"
  | notAFile => "path_not_file"

/-- A flaw and the path of the field that it is in, the outermost name first. -/
structure Problem where
  path : List String
  flaw : Flaw
deriving DecidableEq

/-- A problem in words. -/
def Problem.text (problem : Problem) : String :=
  ".".intercalate problem.path ++ ": " ++ problem.flaw.name

/-- Problems in one line. -/
def Problem.listText (problems : List Problem) : String :=
  "; ".intercalate (problems.map Problem.text)

/-- A checked value, or all problems found. -/
abbrev Checked (α : Type) := Except (List Problem) α

namespace Checked

/-- Joins two checks, whose problems are collected. -/
def both {α β γ : Type} (f : α → β → γ) : Checked α → Checked β → Checked γ
  | .ok a, .ok b => .ok (f a b)
  | .error p, .ok _ => .error p
  | .ok _, .error q => .error q
  | .error p, .error q => .error (p ++ q)

/-- Puts a name in front of the path of every problem. -/
def under {α : Type} (name : String) (value : Checked α) : Checked α :=
  value.mapError (List.map fun problem => { problem with path := name :: problem.path })

/-- A value with one flaw. -/
def flawed {α : Type} (flaw : Flaw) : Checked α :=
  .error [⟨[], flaw⟩]

/-- Checks a list of values, each under its position. -/
def all {α β : Type} (check : α → Checked β) : (position : Nat) → List α → Checked (List β)
  | _, [] => .ok []
  | position, a :: rest =>
    both List.cons (under (Nat.repr position) (check a)) (all check (position + 1) rest)

end Checked

/-! ## Readers of values -/

namespace FieldValue

/-- A text. -/
def text? : FieldValue → Checked String
  | text value => .ok value
  | _ => Checked.flawed .notText

/-- The whole number that a text writes. -/
def wholeOfText? (value : String) : Checked Int :=
  match Text.Numeral.normalize? value.toList with
  | none => Checked.flawed .unreadableWhole
  | some numeral =>
    if Text.Numeral.isOversized numeral then Checked.flawed .oversizedWhole
    else
      match Text.Numeral.value? numeral with
      | some n => .ok n
      | none => Checked.flawed .unreadableWhole

/-- A whole number. -/
def whole? : FieldValue → Checked Int
  | whole value => .ok value
  | flag value => .ok (if value then 1 else 0)
  | real _ => Checked.flawed .fractional
  | text value => wholeOfText? value
  | _ => Checked.flawed .notWhole

/-- A whole number that is not below a bound. -/
def wholeFrom? (least : Nat) (value : FieldValue) : Checked Nat := do
  let n ← value.whole?
  if n < least then Checked.flawed .tooSmall else .ok n.toNat

/-- Whether a whole number fits a signed word of 64 bits. -/
def fitsWord (value : Int) : Bool :=
  -0x8000000000000000 ≤ value && value ≤ 0x7FFFFFFFFFFFFFFF

/-- A truth value.  A number stands for one only if it is zero or one; one that does not even fit a
word is none at all. -/
def flag? : FieldValue → Checked Bool
  | flag value => .ok value
  | whole 0 => .ok false
  | whole 1 => .ok true
  | whole value => Checked.flawed (if fitsWord value then .unreadableFlag else .notFlag)
  | text value =>
    let word := value.toLower
    if ["1", "on", "t", "true", "y", "yes"].contains word then .ok true
    else if ["0", "off", "f", "false", "n", "no"].contains word then .ok false
    else Checked.flawed .unreadableFlag
  | _ => Checked.flawed .notFlag

/-- A number.  A whole one stands for the nearest double, which has to be finite. -/
def real? : FieldValue → Checked Float
  | real value => .ok value
  | whole value =>
    let nearest := Double.roundRatio value.natAbs 1
    if nearest < Double.infinityIndex then .ok (Double.ofIndex (value < 0) nearest)
    else Checked.flawed .notReal
  | flag value => .ok (if value then 1 else 0)
  | _ => Checked.flawed .notReal

/-- A list of values that are read alike. -/
def list? {α : Type} (read : FieldValue → Checked α) : FieldValue → Checked (List α)
  | list items => Checked.all read 0 items
  | _ => Checked.flawed .notList

/-- A value that may also be absent. -/
def optional {α : Type} (read : FieldValue → Checked α) : FieldValue → Checked (Option α)
  | null => .ok none
  | value => some <$> read value

/-- The fields of a form. -/
def form? : FieldValue → Checked Form
  | form fields => .ok fields
  | _ => Checked.flawed .notForm

end FieldValue

/-! ## Readers of fields -/

namespace Form

/-- A field that has to be there. -/
def required {α : Type} (read : FieldValue → Checked α) (name : String) (form : Form) : Checked α :=
  (match form.lookup name with
  | some value => read value
  | none => Checked.flawed .missing).under name

/-- A field with a value that stands for an absent one. -/
def withDefault {α : Type} (read : FieldValue → Checked α) (absent : α) (name : String)
    (form : Form) : Checked α :=
  match form.lookup name with
  | some value => (read value).under name
  | none => .ok absent

end Form

end InfixCalculator
