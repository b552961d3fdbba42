import FilterQuery.Number.Decimal
import FilterQuery.Text.Blank

/-!
# Whole numbers as they are typed

In settings and in arguments a whole number is typed by hand.  White space may stand around it, a
sign in front of it, single underscores between its digits, and a point with zeros behind it.
Zeros in front do not count, nor do underscores among them.  Only the digits of ASCII are taken,
and a number with too many of them, where a minus sign counts too, is a fault of its own.
-/

namespace FilterQuery.Number

/-- Why a text is not read as a whole number. -/
inductive WholeFault where
  /-- The text is no number, or none that is whole. -/
  | malformed
  /-- The number has too many digits. -/
  | tooLong
deriving DecidableEq, Repr

/-- Digits without the underscores between them, of which no two may stand side by side and none
at either end; where they do, nothing is left out. -/
def withoutGrouping (s : List Char) : List Char :=
  let apart := (s.zip s.tail).all fun (c, d) => c != '_' || d != '_'
  if apart && s.head? != some '_' && s.getLast? != some '_' then s.filter (· != '_') else s

/-- A number without a point and the zeros behind it; there is one zero at least. -/
def withoutDecimals (s : List Char) : List Char :=
  match s.dropWhile (· != '.') with
  | _ :: c :: zeros => if (c :: zeros).all (· == '0') then s.takeWhile (· != '.') else s
  | _ => s

/-- A number without the zeros in front of it, and without underscores among them.  Of zeros alone
the last character is kept. -/
def withoutLeadingZeros (s : List Char) : List Char :=
  match s with
  | '0' :: rest =>
      match rest.dropWhile fun c => c == '0' || c == '_' with
      | [] => [s.getLastD '0']
      | number => number
  | _ => s

/-- The whole number that a text denotes.  Whether it is too long is found out before whether all
of it is digits. -/
def readWhole (s : String) : Except WholeFault Int :=
  let (negative, unsigned) := signed (Text.trimBy Text.isWhiteSpace s.toList)
  let number := withoutGrouping (withoutLeadingZeros (withoutDecimals unsigned))
  let digits := number.takeWhile Text.isAsciiDigit
  if maxDigits < digits.length + negative.toNat then .error .tooLong
  else if digits.isEmpty || digits != number then .error .malformed
  else .ok (signedInteger negative digits)

end FilterQuery.Number
