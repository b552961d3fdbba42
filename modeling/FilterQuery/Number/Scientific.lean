import FilterQuery.Number.Binary64

/-!
# Decimal numbers with an exponent

A fraction is written with digits before a point, after it, or on both sides, perhaps without the
point, and perhaps with an exponent of ten behind a letter.  Only the digits of ASCII are taken.
The number is the datum nearest to what is written.

Main results:

- `readExponent_of_ne`: without its letter there is no exponent.
-/

namespace FilterQuery.Number

/-- The exponent, when the text starts with its letter, perhaps a sign, and a digit. -/
def readExponent (s : List Char) : Option (Int × List Char) :=
  match s with
  | letter :: rest =>
      if letter == 'e' || letter == 'E' then
        let negative := rest.head? == some '-'
        let unsigned := if negative || rest.head? == some '+' then rest.tail else rest
        let digits := unsigned.takeWhile Text.isAsciiDigit
        if digits.isEmpty then none
        else some (signedInteger negative digits, unsigned.dropWhile Text.isAsciiDigit)
      else none
  | [] => none

/-- The fraction that a run of characters is written as. -/
def Binary64.ofText? (s : List Char) : Option Binary64 :=
  let (negative, unsigned) := signed s
  let whole := unsigned.takeWhile Text.isAsciiDigit
  let rest := unsigned.dropWhile Text.isAsciiDigit
  let (decimals, rest) := match rest with
    | '.' :: tail => (tail.takeWhile Text.isAsciiDigit, tail.dropWhile Text.isAsciiDigit)
    | _ => ([], rest)
  let (power, rest) := (readExponent rest).getD (0, rest)
  if rest.isEmpty && !(whole.isEmpty && decimals.isEmpty) then
    some (Binary64.ofDigits negative whole decimals power)
  else none

/-- Without its letter there is no exponent. -/
theorem readExponent_of_ne {c : Char} (hlower : c ≠ 'e') (hupper : c ≠ 'E') (rest : List Char) :
    readExponent (c :: rest) = none := by
  simp [readExponent, hlower, hupper]

end FilterQuery.Number
