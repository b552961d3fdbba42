import FilterQuery.Text.Digit

/-!
# Decimal integers

Integers of any size are data, but their decimal text is bounded: text with more digits than
`maxDigits` is neither read nor written.  Reading counts every digit, leading zeros too, and the
error names the count; writing finds out that the text would be too long without spelling it out.

Main results:

- `digitsValue_naturalDigits`: the digits of a natural number denote it.
- `digitsText_eq`: an integer below the bound is written in full.
-/

namespace FilterQuery.Number

/-- The most digits that the text of an integer may have. -/
def maxDigits : Nat := 4300

/-- An integer whose decimal text is too long. -/
inductive DigitLimit where
  /-- A text of this many digits was to be read. -/
  | reading (digits : Nat)
  /-- A number was to be written. -/
  | writing
deriving DecidableEq, Repr

/-- What is said about a decimal text that is too long. -/
def DigitLimit.message (limit : DigitLimit) : String :=
  let found := match limit with
    | .reading digits => ": value has " ++ toString digits ++ " digits"
    | .writing => ""
  "Exceeds the limit (" ++ toString maxDigits ++ " digits) for integer string conversion" ++
    found ++ "; use sys.set_int_max_str_digits() to increase the limit"

/-- The character for a number below ten. -/
def digitChar (n : Nat) : Char :=
  Char.ofNat (48 + n)

/-- The decimal digits of a natural number, without leading zeros. -/
def naturalDigits (n : Nat) : List Char :=
  if n < 10 then [digitChar n] else naturalDigits (n / 10) ++ [digitChar (n % 10)]

/-- The decimal text of an integer of any size. -/
def integerText (n : Int) : String :=
  String.ofList ((if n < 0 then ['-'] else []) ++ naturalDigits n.natAbs)

/-- The decimal text of an integer, unless it is too long. -/
def digitsText (n : Int) : Except DigitLimit String :=
  if n.natAbs < Nat.pow 10 maxDigits then .ok (integerText n) else .error .writing

/-- A sign in front of a number, as whether it is a minus, and what follows it. -/
def signed (s : List Char) : Bool × List Char :=
  match s with
  | '-' :: rest => (true, rest)
  | '+' :: rest => (false, rest)
  | _ => (false, s)

/-- The integer that a sign and a run of digits denote. -/
def signedInteger (negative : Bool) (digits : List Char) : Int :=
  let magnitude : Int := Text.digitsValue digits
  if negative then -magnitude else magnitude

/-- The integer that a sign and a run of digits denote, unless the run is longer than `bound`. -/
def readInteger (bound : Nat) (negative : Bool) (digits : List Char) : Except DigitLimit Int :=
  if digits.length ≤ bound then .ok (signedInteger negative digits)
  else .error (.reading digits.length)

/-- Each of the ten digits has the value it was written for. -/
theorem digitValue?_digitChar {n : Nat} (h : n < 10) : Text.digitValue? (digitChar n) = some n := by
  revert n
  decide

/-- The digits of a natural number denote it. -/
theorem digitsValue_naturalDigits (n : Nat) : Text.digitsValue (naturalDigits n) = n := by
  induction n using naturalDigits.induct with
  | case1 n h =>
      simp [naturalDigits, h, Text.digitsValue, digitValue?_digitChar h]
  | case2 n h ih =>
      rw [naturalDigits, if_neg h, Text.digitsValue_append_singleton, ih,
        digitValue?_digitChar (Nat.mod_lt n (by decide)), Option.getD_some]
      omega

/-- An integer below the bound is written in full. -/
theorem digitsText_eq {n : Int} (h : n.natAbs < Nat.pow 10 maxDigits) :
    digitsText n = .ok (integerText n) :=
  if_pos h

end FilterQuery.Number
