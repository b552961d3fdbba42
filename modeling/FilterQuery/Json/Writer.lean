import FilterQuery.Text.Hex
import FilterQuery.Value

/-!
# Writing JSON

Two forms are written: on one line, and with every item and field on a line of its own, indented
by two spaces a level.  Both use ASCII only: every other character is written by number, those
beyond the first 65536 as a pair.  Bytes are written as the text that they spell.

Main results:

- `writeItems_eq_map`, `writeFields_eq_map`: on one line the parts of a container are written one by
  one.
- `itemLines_eq_map`, `fieldLines_eq_map`: so they are on several lines.
-/

namespace FilterQuery.Json

open Number

/-- A 16-bit unit, by number. -/
def escapeUnit (n : Nat) : List Char :=
  '\\' :: 'u' :: Text.hexDigits 4 n

/-- One character of a text. -/
def escapeChar (c : Char) : List Char :=
  match c with
  | '"' => ['\\', '"']
  | '\\' => ['\\', '\\']
  | '\n' => ['\\', 'n']
  | '\r' => ['\\', 'r']
  | '\t' => ['\\', 't']
  | '\x08' => ['\\', 'b']
  | '\x0c' => ['\\', 'f']
  | _ =>
      let n := c.toNat
      if 0x20 ≤ n ∧ n ≤ 0x7e then [c]
      else if n < 0x10000 then escapeUnit n
      else
        escapeUnit (0xd800 + (n - 0x10000) / 0x400) ++ escapeUnit (0xdc00 + (n - 0x10000) % 0x400)

/-- A text between its quotes. -/
def writeText (s : String) : String :=
  String.ofList ('"' :: (s.toList.flatMap escapeChar ++ ['"']))

/-- A floating-point number, or one of the three words for data that are no numbers. -/
def writeFloat (x : Binary64) : String :=
  if x.isFinite then x.text
  else if x.isNaN then "NaN"
  else if x.negative then "-Infinity"
  else "Infinity"

/-- A value that is not a container. -/
def writeScalar : Value → String
  | .null => "null"
  | .bool b => if b then "true" else "false"
  | .int n => integerText n
  | .float x => writeFloat x
  | .text s => writeText s
  | .bytes octets => writeText (Text.decodeOctets octets)
  | .list _ | .object _ => ""

/-! ## On one line -/

mutual

/-- A value on one line. -/
def write : Value → String
  | .list items => "[" ++ String.intercalate ", " (writeItems items) ++ "]"
  | .object fields => "\x7b" ++ String.intercalate ", " (writeFields fields) ++ "\x7d"
  | value => writeScalar value

/-- The items of a list, each on one line. -/
def writeItems : List Value → List String
  | [] => []
  | item :: rest => write item :: writeItems rest

/-- The fields of an object, each on one line. -/
def writeFields : List (String × Value) → List String
  | [] => []
  | (name, value) :: rest => (writeText name ++ ": " ++ write value) :: writeFields rest

end

/-! ## On several lines -/

/-- The parts of a container on lines of their own, one level further in than its brackets. -/
def block (opening closing : String) (level : Nat) (parts : List String) : String :=
  if parts.isEmpty then opening ++ closing
  else
    let indent (n : Nat) := "\n" ++ String.ofList (List.replicate (2 * n) ' ')
    opening ++ indent (level + 1) ++ String.intercalate ("," ++ indent (level + 1)) parts ++
      indent level ++ closing

mutual

/-- A value on several lines, inside `level` containers. -/
def lines (level : Nat) : Value → String
  | .list items => block "[" "]" level (itemLines (level + 1) items)
  | .object fields => block "\x7b" "\x7d" level (fieldLines (level + 1) fields)
  | value => writeScalar value

/-- The items of a list. -/
def itemLines (level : Nat) : List Value → List String
  | [] => []
  | item :: rest => lines level item :: itemLines level rest

/-- The fields of an object. -/
def fieldLines (level : Nat) : List (String × Value) → List String
  | [] => []
  | (name, value) :: rest =>
      (writeText name ++ ": " ++ lines level value) :: fieldLines level rest

end

/-- A value on several lines. -/
def pretty (value : Value) : String :=
  lines 0 value

/-! ## Parts of containers -/

/-- The items of a list are written one by one. -/
theorem writeItems_eq_map (items : List Value) : writeItems items = items.map write := by
  induction items with
  | nil => rfl
  | cons item rest ih => rw [writeItems, List.map_cons, ih]

/-- The fields of an object are written one by one. -/
theorem writeFields_eq_map (fields : List (String × Value)) :
    writeFields fields =
      fields.map fun field => writeText field.1 ++ ": " ++ write field.2 := by
  induction fields with
  | nil => rfl
  | cons field rest ih => rw [writeFields, List.map_cons, ih]

/-- The items of a list are written one by one, all on the same level. -/
theorem itemLines_eq_map (level : Nat) (items : List Value) :
    itemLines level items = items.map (lines level) := by
  induction items with
  | nil => rfl
  | cons item rest ih => rw [itemLines, List.map_cons, ih]

/-- The fields of an object are written one by one, all on the same level. -/
theorem fieldLines_eq_map (level : Nat) (fields : List (String × Value)) :
    fieldLines level fields =
      fields.map fun field => writeText field.1 ++ ": " ++ lines level field.2 := by
  induction fields with
  | nil => rfl
  | cons field rest ih => rw [fieldLines, List.map_cons, ih]

end FilterQuery.Json
