import FilterQuery.Number.Decimal

/-!
# Binary floating point

Fractions are kept in the 64-bit binary format: a sign, an exponent field of eleven bits and a
fraction of fifty-two.  A field of zero is a zero or a subnormal number, a field of 2047 is an
infinity or, with a fraction, not a number.  All other data are `significand * 2 ^ scale` units,
where the unit is `2 ^ -1074`.  No arithmetic is done on such numbers; they are rounded from
decimal text, compared with zero and written again.

Main results:

- `roundQuotient_mul`: rounding a whole number of units changes nothing.
- `ofWord_word`: the magnitude of a datum, read as one number, gives it back.
-/

namespace FilterQuery.Number

/-- A floating-point datum, field by field. -/
structure Binary64 where
  negative : Bool
  exponent : Fin 2048
  fraction : Fin (Nat.pow 2 52)
deriving DecidableEq

namespace Binary64

/-- Whether a datum is a number, not an infinity and not the absence of a number. -/
def isFinite (x : Binary64) : Bool :=
  x.exponent.val != 2047

/-- Whether a datum stands for the absence of a number. -/
def isNaN (x : Binary64) : Bool :=
  x.exponent.val == 2047 && x.fraction.val != 0

/-- Whether a datum is zero of either sign. -/
def isZero (x : Binary64) : Bool :=
  x.exponent.val == 0 && x.fraction.val == 0

/-- The whole-number factor of a finite datum. -/
def significand (x : Binary64) : Nat :=
  if x.exponent.val = 0 then x.fraction.val else Nat.pow 2 52 + x.fraction.val

/-- How often the unit of a finite datum is doubled. -/
def scale (x : Binary64) : Nat :=
  x.exponent.val - 1

/-- A finite datum as a whole number of units of `2 ^ -1074`. -/
def units (x : Binary64) : Nat :=
  x.significand * Nat.pow 2 x.scale

/-- Whether a datum is a finite number without decimals. -/
def isWhole (x : Binary64) : Bool :=
  x.isFinite && x.units % Nat.pow 2 1074 == 0

/-- The whole number that is left of a finite datum without its decimals. -/
def integerPart (x : Binary64) : Int :=
  let magnitude : Int := (x.units / Nat.pow 2 1074 : Nat)
  if x.negative then -magnitude else magnitude

/-- The exponent field and the fraction, read as one number: the rank of the magnitude. -/
def word (x : Binary64) : Nat :=
  x.exponent.val * Nat.pow 2 52 + x.fraction.val

/-- The datum whose magnitude has a given rank; ranks past the largest finite one give infinity. -/
def ofWord (negative : Bool) (word : Nat) : Binary64 :=
  if h : word < 2047 * Nat.pow 2 52 then
    { negative
      exponent := ⟨word / Nat.pow 2 52, by simp only [Nat.pow_eq] at h ⊢; omega⟩
      fraction := ⟨word % Nat.pow 2 52, Nat.mod_lt _ (by decide)⟩ }
  else
    { negative, exponent := ⟨2047, by decide⟩, fraction := ⟨0, by decide⟩ }

/-- Zero of either sign. -/
def zero (negative : Bool) : Binary64 :=
  ofWord negative 0

/-- Infinity of either sign. -/
def infinity (negative : Bool) : Binary64 :=
  ofWord negative (2047 * Nat.pow 2 52)

/-- The absence of a number. -/
def nan : Binary64 :=
  { negative := false, exponent := ⟨2047, by decide⟩, fraction := ⟨Nat.pow 2 51, by decide⟩ }

/-! ## Rounding -/

/-- A quotient rounded to a whole number, halves to the even neighbour. -/
def roundQuotient (numerator denominator : Nat) : Nat :=
  let quotient := numerator / denominator
  let rest := numerator % denominator
  if 2 * rest < denominator then quotient
  else if denominator < 2 * rest then quotient + 1
  else quotient + quotient % 2

/-- The datum nearest to a fraction, of two equally near the one with the even significand.  The
units are doubled until the significand has fifty-three bits at most; a significand that rounds
up to the next power of two moves the rank to the next exponent by itself. -/
def ofRatio (negative : Bool) (numerator denominator : Nat) : Binary64 :=
  let units := numerator * Nat.pow 2 1074
  let scale := (units / denominator).log2 - 52
  ofWord negative (scale * Nat.pow 2 52 + roundQuotient units (denominator * Nat.pow 2 scale))

/-- The datum nearest to `digits * 10 ^ power`.  Powers so large or small that the digits cannot
matter are decided at once. -/
def ofDecimal (negative : Bool) (digits : Nat) (power : Int) : Binary64 :=
  if digits = 0 then zero negative
  else if 400 < power then infinity negative
  else if power + (digits.log2 + 1) < -400 then zero negative
  else if 0 ≤ power then ofRatio negative (digits * Nat.pow 10 power.toNat) 1
  else ofRatio negative digits (Nat.pow 10 (-power).toNat)

/-- The datum nearest to an integer. -/
def ofInt (n : Int) : Binary64 :=
  ofDecimal (n < 0) n.natAbs 0

/-- The datum nearest to the decimal number with the given digits before and after the point. -/
def ofDigits (negative : Bool) (whole decimals : List Char) (power : Int) : Binary64 :=
  ofDecimal negative (Text.digitsValue (whole ++ decimals)) (power - decimals.length)

/-- A whole number of units is left as it is by rounding. -/
theorem roundQuotient_mul (n : Nat) {d : Nat} (h : 0 < d) : roundQuotient (n * d) d = n := by
  simp [roundQuotient, Nat.mul_div_cancel n h, h]

/-- The rank of a finite datum's magnitude gives the datum back. -/
theorem ofWord_word {x : Binary64} (h : x.isFinite = true) : ofWord x.negative x.word = x := by
  obtain ⟨negative, ⟨exponent, hexponent⟩, ⟨fraction, hfraction⟩⟩ := x
  have hfinite : exponent ≠ 2047 := by simpa [isFinite] using h
  have hsmall : fraction < 2 ^ 52 := hfraction
  have hword : exponent * Nat.pow 2 52 + fraction < 2047 * Nat.pow 2 52 := by
    simp only [Nat.pow_eq]
    omega
  have hdiv : (exponent * Nat.pow 2 52 + fraction) / Nat.pow 2 52 = exponent := by
    simp only [Nat.pow_eq]
    omega
  have hmod : (exponent * Nat.pow 2 52 + fraction) % Nat.pow 2 52 = fraction := by
    simp only [Nat.pow_eq]
    omega
  simp only [ofWord, word, hword, ↓reduceDIte, hdiv, hmod]

end Binary64

end FilterQuery.Number
