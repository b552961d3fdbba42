import FilterQuery.Number.Scientific
import FilterQuery.Text.Hex
import FilterQuery.Value

/-!
# Reading JSON

The reader takes the JSON grammar strictly: blanks are the space, the tab and the two line ends,
control characters may not stand in a text, and nothing may follow a value.  Beyond the grammar it
takes the three words for floating-point data that are no numbers.  An integer keeps its size,
and one whose text is too long is an error of its own, found where the number stands; a fraction
or an exponent makes a floating-point number.  Of two fields of one name the later value counts,
at the place of the earlier one.

Main results:

- `skipBlanks_of_not_blank`: text that starts with no blank is left alone.
- `withoutRepeats_concat`: one more field gives its name a new value.
-/

namespace FilterQuery.Json

open Number

/-- Why a text is not read. -/
inductive ReadError where
  /-- The text is not in the grammar. -/
  | malformed
  /-- An integer in it has too many digits. -/
  | digitLimit (limit : DigitLimit)
deriving DecidableEq, Repr

/-- Blanks between the parts of a JSON text. -/
def isJsonBlank (c : Char) : Bool :=
  c == ' ' || c == '\t' || c == '\n' || c == '\r'

/-- The text from its first character that is no blank. -/
def skipBlanks (s : List Char) : List Char :=
  s.dropWhile isJsonBlank

/-- Text that starts with no blank is left alone. -/
theorem skipBlanks_of_not_blank {c : Char} (h : isJsonBlank c = false) (s : List Char) :
    skipBlanks (c :: s) = c :: s := by
  simp [skipBlanks, h]

/-- The text after a given beginning, if it has that beginning. -/
def stripStart? : List Char → List Char → Option (List Char)
  | [], s => some s
  | _ :: _, [] => none
  | c :: word, d :: s => if c = d then stripStart? word s else none

/-! ## Texts -/

/-- The character that a one-letter escape stands for. -/
def escaped? (c : Char) : Option Nat :=
  match c with
  | '"' | '\\' | '/' => some c.toNat
  | 'b' => some 0x08
  | 'f' => some 0x0c
  | 'n' => some 0x0a
  | 'r' => some 0x0d
  | 't' => some 0x09
  | _ => none

/-- The number that four hexadecimal digits denote. -/
def fourDigits? (a b c d : Char) : Option Nat := do
  let a ← Text.hexValue? a
  let b ← Text.hexValue? b
  let c ← Text.hexValue? c
  let d ← Text.hexValue? d
  return ((a * 16 + b) * 16 + c) * 16 + d

/-- The numbers of the characters up to the closing quote, an escaped half of a pair counting as a
character. -/
def readUnits : List Char → Option (List Nat × List Char)
  | [] => none
  | '"' :: rest => some ([], rest)
  | '\\' :: 'u' :: a :: b :: c :: d :: rest => do
      let unit ← fourDigits? a b c d
      let (units, after) ← readUnits rest
      return (unit :: units, after)
  | '\\' :: letter :: rest => do
      let unit ← escaped? letter
      let (units, after) ← readUnits rest
      return (unit :: units, after)
  | c :: rest =>
      if c.toNat < 0x20 || c == '\\' then none
      else do
        let (units, after) ← readUnits rest
        return (c.toNat :: units, after)

/-- Joins the two halves of a pair into the character they stand for. -/
def joinPairs : List Nat → List Char
  | high :: low :: rest =>
      if 0xd800 ≤ high && high < 0xdc00 && 0xdc00 ≤ low && low < 0xe000 then
        Char.ofNat (0x10000 + (high - 0xd800) * 0x400 + (low - 0xdc00)) :: joinPairs rest
      else
        Char.ofNat high :: joinPairs (low :: rest)
  | [unit] => [Char.ofNat unit]
  | [] => []

/-- A text, after its opening quote. -/
def readText (s : List Char) : Except ReadError (String × List Char) :=
  match readUnits s with
  | some (units, rest) => .ok (String.ofList (joinPairs units), rest)
  | none => .error .malformed

/-! ## Numbers -/

/-- The digits after a point, when the text starts with a point and a digit. -/
def readDecimals (s : List Char) : Option (List Char × List Char) :=
  match s with
  | '.' :: rest =>
      let digits := rest.takeWhile Text.isAsciiDigit
      if digits.isEmpty then none else some (digits, rest.dropWhile Text.isAsciiDigit)
  | _ => none

/-- A number after its sign.  Its whole part is a zero or starts with another digit; a point or an
exponent that is not complete does not belong to it. -/
def readNumber (bound : Nat) (negative : Bool) (s : List Char) :
    Except ReadError (Value × List Char) :=
  let whole := if s.head? == some '0' then ['0'] else s.takeWhile Text.isAsciiDigit
  let rest := s.drop whole.length
  if whole.isEmpty then .error .malformed
  else
    let decimals := readDecimals rest
    let afterDecimals := (decimals.map (·.2)).getD rest
    let exponent := readExponent afterDecimals
    let after := (exponent.map (·.2)).getD afterDecimals
    if decimals.isNone && exponent.isNone then
      match readInteger bound negative whole with
      | .ok n => .ok (.int n, after)
      | .error limit => .error (.digitLimit limit)
    else
      let digits := (decimals.map (·.1)).getD []
      .ok (.float (Binary64.ofDigits negative whole digits ((exponent.map (·.1)).getD 0)), after)

/-- A value that is neither a text nor a container. -/
def readScalar (bound : Nat) (s : List Char) : Except ReadError (Value × List Char) :=
  let words : List (String × Value) :=
    [("null", .null), ("true", .bool true), ("false", .bool false),
      ("NaN", .float Binary64.nan), ("Infinity", .float (Binary64.infinity false)),
      ("-Infinity", .float (Binary64.infinity true))]
  match words.findSome? fun (word, value) => (stripStart? word.toList s).map (value, ·) with
  | some found => .ok found
  | none =>
      match s with
      | '-' :: rest => readNumber bound true rest
      | _ => readNumber bound false s

/-! ## Containers -/

/-- Fields of which each name occurs once: the last value of a name, where the name first stood. -/
def withoutRepeats (fields : List (String × Value)) : List (String × Value) :=
  fields.foldl (fun kept (name, value) => Value.set name value kept) []

/-- One more field gives its name a new value. -/
theorem withoutRepeats_concat (fields : List (String × Value)) (name : String) (value : Value) :
    withoutRepeats (fields ++ [(name, value)]) = Value.set name value (withoutRepeats fields) := by
  rw [withoutRepeats, List.foldl_append]
  rfl

mutual

/-- A value at the start of a text.  Every step into a container and to its next part uses up one
unit of fuel. -/
def readValue (bound : Nat) : Nat → List Char → Except ReadError (Value × List Char)
  | 0, _ => .error .malformed
  | fuel + 1, s =>
      match s with
      | '"' :: rest => do
          let (content, after) ← readText rest
          return (.text content, after)
      | '[' :: rest =>
          match skipBlanks rest with
          | ']' :: after => .ok (.list [], after)
          | inner => do
              let (items, after) ← readItems bound fuel inner
              return (.list items, after)
      | '{' :: rest =>
          match skipBlanks rest with
          | '}' :: after => .ok (.object [], after)
          | inner => do
              let (fields, after) ← readFields bound fuel inner
              return (.object (withoutRepeats fields), after)
      | _ => readScalar bound s

/-- The items of a list up to its closing bracket. -/
def readItems (bound : Nat) : Nat → List Char → Except ReadError (List Value × List Char)
  | 0, _ => .error .malformed
  | fuel + 1, s => do
      let (item, rest) ← readValue bound fuel s
      match skipBlanks rest with
      | ']' :: after => return ([item], after)
      | ',' :: more =>
          let (items, after) ← readItems bound fuel (skipBlanks more)
          return (item :: items, after)
      | _ => .error .malformed

/-- The fields of an object up to its closing brace. -/
def readFields (bound : Nat) :
    Nat → List Char → Except ReadError (List (String × Value) × List Char)
  | 0, _ => .error .malformed
  | fuel + 1, s =>
      match s with
      | '"' :: start => do
          let (name, rest) ← readText start
          match skipBlanks rest with
          | ':' :: body =>
              let (value, rest) ← readValue bound fuel (skipBlanks body)
              match skipBlanks rest with
              | '}' :: after => return ([(name, value)], after)
              | ',' :: more =>
                  let (fields, after) ← readFields bound fuel (skipBlanks more)
                  return ((name, value) :: fields, after)
              | _ => .error .malformed
          | _ => .error .malformed
      | _ => .error .malformed

end

/-- The value that a whole text denotes, where integers may have `bound` digits. -/
def readBounded (bound : Nat) (s : String) : Except ReadError Value := do
  let (value, rest) ← readValue bound (s.length + 1) (skipBlanks s.toList)
  match skipBlanks rest with
  | [] => return value
  | _ => .error .malformed

/-- The value that a whole text denotes. -/
def read (s : String) : Except ReadError Value :=
  readBounded maxDigits s

end FilterQuery.Json
