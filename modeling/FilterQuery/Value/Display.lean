import FilterQuery.Value

/-!
# Values as text

Labels, patterns and messages show values as text.  A text is shown as it is; inside a list or an
object it is quoted, and bytes are quoted everywhere.  Lists stand in brackets and objects in
braces, and nothing and the two truth values are words.  The only value without a text is one that
holds an integer of more than `maxDigits` digits.

Main results:

- `display_text`: a text is shown as it is.
-/

namespace FilterQuery.Value

open Number

/-- Texts side by side with a separator between them. -/
def joinTexts (separator : String) (texts : List String) : String :=
  String.intercalate separator texts

mutual

/-- The text of a value that stands inside another one. -/
def displayInner : Value → Except DigitLimit String
  | null => .ok "None"
  | bool b => .ok (if b then "True" else "False")
  | int n => digitsText n
  | float x => .ok x.text
  | text s => .ok (Text.quote s)
  | bytes octets => .ok (Text.quoteOctets octets)
  | list items => do
      let parts ← displayItems items
      return "[" ++ joinTexts ", " parts ++ "]"
  | object fields => do
      let parts ← displayFields fields
      return "\x7b" ++ joinTexts ", " parts ++ "\x7d"

/-- The texts of the items of a list. -/
def displayItems : List Value → Except DigitLimit (List String)
  | [] => .ok []
  | item :: rest => do
      let first ← item.displayInner
      let others ← displayItems rest
      return first :: others

/-- The texts of the fields of an object. -/
def displayFields : List (String × Value) → Except DigitLimit (List String)
  | [] => .ok []
  | (name, value) :: rest => do
      let first ← value.displayInner
      let others ← displayFields rest
      return (Text.quote name ++ ": " ++ first) :: others

end

/-- The text of a value. -/
def display : Value → Except DigitLimit String
  | text s => .ok s
  | value => value.displayInner

/-- A text is shown as it is. -/
@[simp]
theorem display_text (s : String) : display (text s) = .ok s :=
  rfl

end FilterQuery.Value
