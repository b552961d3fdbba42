/-!
# Records of comma-separated text

A record is a line, and its cells are separated by commas.  A cell in double quotes may hold
commas, line ends and, written twice, double quotes; quotes that are not closed make the whole
text unreadable.  Lines end in a line feed, in a carriage return, or in both.  Lines that hold
nothing but spaces and tabs are passed over, and if such a line ends in a carriage return alone, a
comma right after it is passed over too.  A cell ends before its first null character.
-/

namespace FilterQuery.Csv

/-- Where in a record the next character stands. -/
inductive Place where
  /-- Before the first character of a cell. -/
  | start
  /-- In a cell without quotes, or after them. -/
  | plain
  /-- Between quotes. -/
  | quoted
  /-- After a quote in a quoted cell: it ends the quotes, unless another quote follows. -/
  | closing
  /-- After a carriage return, with which a line feed belongs. -/
  | returned
  /-- After the carriage return of a line that was passed over. -/
  | passed
deriving DecidableEq, Repr

/-- What has been read so far: the records, the cells of the record that is being read, and the
characters of its last cell, each in reverse. -/
structure Scan where
  records : List (List String) := []
  cells : List String := []
  cell : List Char := []
  place : Place := .start
  anyQuotes : Bool := false

namespace Scan

/-- Ends a cell. -/
def endCell (scan : Scan) : Scan :=
  let cell := String.ofList (scan.cell.reverse.takeWhile (· != '\x00'))
  { scan with cells := cell :: scan.cells, cell := [], place := .start }

/-- Whether the record so far is a line that is passed over. -/
def isBlankLine (scan : Scan) : Bool :=
  scan.cells.isEmpty && !scan.anyQuotes && scan.cell.all fun c => c == ' ' || c == '\t'

/-- Ends a record.  The next one begins at one of two places, the second of them if the record is
passed over. -/
def endRecord (scan : Scan) (kept skipped : Place) : Scan :=
  if scan.isBlankLine then { records := scan.records, place := skipped }
  else { records := scan.endCell.cells.reverse :: scan.records, place := kept }

/-- One character outside of quotes. -/
def plainStep (scan : Scan) (c : Char) : Scan :=
  if c == ',' then scan.endCell
  else if c == '\n' then scan.endRecord .start .start
  else if c == '\r' then scan.endRecord .returned .passed
  else { scan with cell := c :: scan.cell, place := .plain }

/-- The first character of a cell. -/
def firstStep (scan : Scan) (c : Char) : Scan :=
  if c == '"' then { scan with place := .quoted, anyQuotes := true } else scan.plainStep c

/-- One more character. -/
def step (scan : Scan) (c : Char) : Scan :=
  match scan.place with
  | .quoted =>
      if c == '"' then { scan with place := .closing } else { scan with cell := c :: scan.cell }
  | .closing =>
      if c == '"' then { scan with cell := c :: scan.cell, place := .quoted } else scan.plainStep c
  | .plain => scan.plainStep c
  | .start => scan.firstStep c
  | .returned => if c == '\n' then { scan with place := .start } else scan.firstStep c
  | .passed =>
      if c == '\n' || c == ',' then { scan with place := .start } else scan.firstStep c

end Scan

/-- The records of a text, unless its quotes are not closed; a byte-order mark in front does not
count. -/
def records? (s : String) : Option (List (List String)) :=
  let characters := match s.toList with
    | '\uFEFF' :: rest => rest
    | characters => characters
  let scan := characters.foldl Scan.step {}
  if scan.place == .quoted then none
  else some (scan.endRecord .start .start).records.reverse

end FilterQuery.Csv
