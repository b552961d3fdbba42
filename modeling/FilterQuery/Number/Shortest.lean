import FilterQuery.Number.Binary64

/-!
# The shortest text of a floating-point number

A number is written with the fewest digits that read back as the same number, and among those
with the digits nearest to its exact value.  Every finite datum is a whole number of units of
`10 ^ -1074`, so the search compares whole numbers: on the grid of one digit, of two digits and so
on, the two neighbours of the exact value are read back.

The text is positional while the first digit stands between the fourth place after the point and
the sixteenth before it, and always shows the point; otherwise it has an exponent with a sign and
two digits at least.

Main results:

- `nearest?_reads_back`: digits found on a grid read back as the number.
-/

namespace FilterQuery.Number

/-- The decimal number `digits * 10 ^ power`. -/
structure DecimalForm where
  digits : Nat
  power : Int
deriving DecidableEq, Repr

namespace Binary64

/-- A finite datum as a whole number of units of `10 ^ -1074`. -/
def exactUnits (x : Binary64) : Nat :=
  x.units * Nat.pow 5 1074

/-- Whether a decimal number reads back as a datum. -/
def readsBack (x : Binary64) (form : DecimalForm) : Bool :=
  ofDecimal x.negative form.digits form.power == x

/-- The neighbour of a datum that reads back, on the grid where `dropped` of its exact digits are
left out.  Of two such neighbours it is the nearer one, and the even one if they are equally
near. -/
def nearest? (x : Binary64) (dropped : Nat) : Option DecimalForm :=
  let unit := Nat.pow 10 dropped
  let below : DecimalForm := ⟨x.exactUnits / unit, dropped - 1074⟩
  let above : DecimalForm := ⟨x.exactUnits / unit + 1, dropped - 1074⟩
  let near := if roundQuotient x.exactUnits unit = below.digits then below else above
  let far := if roundQuotient x.exactUnits unit = below.digits then above else below
  [near, far].find? x.readsBack

/-- The shortest digits of a finite datum.  Seventeen digits always read back; the exact digits
stand behind the search. -/
def shortest (x : Binary64) : DecimalForm :=
  let count := (naturalDigits x.exactUnits).length
  ((List.range' 1 17).findSome? fun kept => x.nearest? (count - kept)).getD
    ⟨x.exactUnits, -1074⟩

/-- Digits found on a grid read back as the number. -/
theorem nearest?_reads_back {x : Binary64} {dropped : Nat} {form : DecimalForm}
    (h : x.nearest? dropped = some form) :
    ofDecimal x.negative form.digits form.power = x := by
  have hreads := List.find?_some h
  simpa [readsBack] using hreads

end Binary64

/-! ## Layout -/

/-- The digits of a number without the zeros at its end; zero keeps one digit. -/
def significantDigits (n : Nat) : List Char :=
  match ((naturalDigits n).reverse.dropWhile (· == '0')).reverse with
  | [] => ['0']
  | digits => digits

/-- The exponent part of a text: a sign and two digits at least. -/
def exponentText (exponent : Int) : List Char :=
  let digits := naturalDigits exponent.natAbs
  let padded := if digits.length < 2 then '0' :: digits else digits
  'e' :: (if exponent < 0 then '-' else '+') :: padded

/-- A decimal number as text, without a sign. -/
def DecimalForm.layout (form : DecimalForm) : List Char :=
  let digits := significantDigits form.digits
  let leading : Int := (naturalDigits form.digits).length + form.power - 1
  if -4 ≤ leading && leading < 16 then
    if leading < 0 then
      '0' :: '.' :: (List.replicate (-leading - 1).toNat '0' ++ digits)
    else
      let whole := leading.toNat + 1
      let decimals := digits.drop whole
      digits.take whole ++ List.replicate (whole - digits.length) '0' ++
        '.' :: (if decimals.isEmpty then ['0'] else decimals)
  else
    match digits with
    | [digit] => digit :: exponentText leading
    | digit :: decimals => digit :: '.' :: (decimals ++ exponentText leading)
    | [] => []

/-- The text of a datum. -/
def Binary64.text (x : Binary64) : String :=
  if x.isNaN then "nan"
  else
    let sign := if x.negative then ['-'] else []
    let magnitude :=
      if !x.isFinite then ['i', 'n', 'f']
      else if x.isZero then ['0', '.', '0']
      else x.shortest.layout
    String.ofList (sign ++ magnitude)

end FilterQuery.Number
