import FilterQuery.Field
import FilterQuery.Value.Display

/-!
# Coercion of typed values

Values are typed into forms as text.  A text that looks like a number is taken as one, except on
exact fields, where the text itself is meant.  A number is written with the digits of any script:
perhaps a minus sign, digits, and perhaps a point with digits after it.  With a point it is a
floating-point number, without one an integer.  A text also stands for several values, separated
by commas.

Main results:

- `coerce_of_isExact`: nothing is coerced on an exact field.
- `asList_text_blank`: a text of nothing but padding stands for no values.
-/

namespace FilterQuery.Coercion

open Number

/-- A number as it is written: its sign, the digits before the point and those after it. -/
structure Numeral where
  negative : Bool
  whole : List Char
  decimals : Option (List Char)
deriving DecidableEq, Repr

/-- The number that a run of characters without padding is written as. -/
def numeral? (s : List Char) : Option Numeral :=
  let negative := s.head? == some '-'
  let unsigned := if negative then s.tail else s
  let whole := unsigned.takeWhile Text.isDigit
  if whole.isEmpty then none
  else
    match unsigned.dropWhile Text.isDigit with
    | [] => some ⟨negative, whole, none⟩
    | '.' :: decimals =>
        if !decimals.isEmpty && decimals.all Text.isDigit then some ⟨negative, whole, some decimals⟩
        else none
    | _ => none

/-- The number that a text is written as, when it is a number between padding. -/
def numeralOfText? (s : String) : Option Numeral :=
  numeral? (Text.trimChars s.toList)

/-- The value of a number as it is written. -/
def Numeral.value (numeral : Numeral) : Except DigitLimit Value :=
  match numeral.decimals with
  | some decimals => .ok (.float (Binary64.ofDigits numeral.negative numeral.whole decimals 0))
  | none => (readInteger maxDigits numeral.negative numeral.whole).map Value.int

/-- Whether a value is a number or is written as one. -/
def isNumeric : Value → Bool
  | .int _ | .float _ => true
  | .text s => (numeralOfText? s).isSome
  | _ => false

/-- The value that is meant on a field. -/
def coerce (field : String) (value : Value) : Except DigitLimit Value :=
  if Field.isExact field then .ok value
  else
    match value with
    | .text s =>
        match numeralOfText? s with
        | some numeral => numeral.value
        | none => .ok value
    | _ => .ok value

/-- Nothing is coerced on an exact field. -/
theorem coerce_of_isExact {field : String} (h : Field.isExact field = true) (value : Value) :
    coerce field value = .ok value := by
  simp [coerce, h]

/-! ## Several values in one -/

/-- The parts of a run of characters between its commas. -/
def splitCommas : List Char → List (List Char)
  | [] => [[]]
  | c :: rest =>
      match splitCommas rest with
      | [] => [[c]]
      | part :: parts => if c = ',' then [] :: part :: parts else (c :: part) :: parts

/-- The parts of a text between its commas, without padding and without those that are empty. -/
def listedTexts (s : String) : List String :=
  ((splitCommas s.toList).map Text.trimChars).filterMap fun part =>
    if part.isEmpty then none else some (String.ofList part)

/-- The values that a value stands for. -/
def asList : Value → List Value
  | .list items => items.filter fun item => !item.isUnset
  | .text s => (listedTexts s).map Value.text
  | .null => []
  | value => [value]

/-- There is always a first part. -/
theorem splitCommas_ne_nil (s : List Char) : splitCommas s ≠ [] := by
  cases s with
  | nil => simp [splitCommas]
  | cons c rest =>
      simp only [splitCommas]
      split
      · simp
      · split <;> simp

/-- Without commas there is one part. -/
theorem splitCommas_of_no_comma {s : List Char} (h : ',' ∉ s) : splitCommas s = [s] := by
  induction s with
  | nil => rfl
  | cons c rest ih =>
      simp only [List.mem_cons, not_or] at h
      simp [splitCommas, ih h.2, Ne.symm h.1]

/-- A text of nothing but padding stands for no values. -/
theorem asList_text_blank {s : String} (h : Text.isBlank s = true) : asList (.text s) = [] := by
  have hcomma : ',' ∉ s.toList := fun hmem => by
    have hblank := List.all_eq_true.mp h ',' hmem
    revert hblank
    decide
  have htrim : Text.trimChars s.toList = [] := Text.trimChars_eq_nil_iff.mpr h
  simp [asList, listedTexts, splitCommas_of_no_comma hcomma, htrim]

/-- The text in which a value is shown to people: the values of a list are separated by commas,
and a value that was not given is a dash. -/
def displayGiven : Value → Except DigitLimit String
  | .list items => do
      let texts ← items.mapM Value.display
      return String.intercalate "," texts
  | value => if value.isUnset then .ok "-" else value.display

end FilterQuery.Coercion
