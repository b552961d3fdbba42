import FilterQuery.Text.Hex
import FilterQuery.Text.Printable

/-!
# Quoted text

A text inside a list or an object, or inside a message about itself, is shown in quotes.  The
quotes are single, unless the text holds a single quote and no double one.  The quote in use and
the backslash are escaped by a backslash, line ends and tabs by their usual letters, and every
other character that is not printable by its number, in two, four or eight digits.
-/

namespace FilterQuery.Text

/-- The quote that encloses a text. -/
def quoteMark (s : List Char) : Char :=
  if s.contains '\'' && !s.contains '"' then '"' else '\''

/-- One character of a quoted text, where `mark` is the enclosing quote. -/
def quoteChar (mark c : Char) : List Char :=
  if c == mark || c == '\\' then ['\\', c]
  else if c == '\t' then ['\\', 't']
  else if c == '\n' then ['\\', 'n']
  else if c == '\r' then ['\\', 'r']
  else if isPrintable c then [c]
  else if c.toNat < 0x100 then '\\' :: 'x' :: hexDigits 2 c.toNat
  else if c.toNat < 0x10000 then '\\' :: 'u' :: hexDigits 4 c.toNat
  else '\\' :: 'U' :: hexDigits 8 c.toNat

/-- A text in quotes. -/
def quote (s : String) : String :=
  let mark := quoteMark s.toList
  String.ofList (mark :: (s.toList.flatMap (quoteChar mark) ++ [mark]))

end FilterQuery.Text
