/-!
# Decimal digits of every script

A number may be typed with the digits of any script that has a decimal system.  Such digits come
in runs of ten consecutive characters from zero to nine, so a table of the zeros is enough.

Main results:

- `digitValue?_ascii`: the digits `0` to `9` have the values that their order gives.
- `digitValue?_lt_ten`: a digit is less than ten.
-/

namespace FilterQuery.Text

/-- The character for zero in each decimal system. -/
def decimalZeros : List Nat :=
  [0x30, 0x660, 0x6f0, 0x7c0, 0x966, 0x9e6, 0xa66, 0xae6, 0xb66, 0xbe6, 0xc66, 0xce6, 0xd66,
   0xde6, 0xe50, 0xed0, 0xf20, 0x1040, 0x1090, 0x17e0, 0x1810, 0x1946, 0x19d0, 0x1a80, 0x1a90,
   0x1b50, 0x1bb0, 0x1c40, 0x1c50, 0xa620, 0xa8d0, 0xa900, 0xa9d0, 0xa9f0, 0xaa50, 0xabf0,
   0xff10, 0x104a0, 0x10d30, 0x11066, 0x110f0, 0x11136, 0x111d0, 0x112f0, 0x11450, 0x114d0,
   0x11650, 0x116c0, 0x11730, 0x118e0, 0x11950, 0x11c50, 0x11d50, 0x11da0, 0x16a60, 0x16ac0,
   0x16b50, 0x1d7ce, 0x1d7d8, 0x1d7e2, 0x1d7ec, 0x1d7f6, 0x1e140, 0x1e2f0, 0x1e950, 0x1fbf0]

/-- The value of a decimal digit of any script, and nothing for any other character. -/
def digitValue? (c : Char) : Option Nat :=
  (decimalZeros.find? fun start => start ≤ c.toNat && c.toNat < start + 10).map (c.toNat - ·)

/-- Whether a character is a decimal digit of some script. -/
def isDigit (c : Char) : Bool :=
  (digitValue? c).isSome

/-- Whether a character is one of the digits `0` to `9`. -/
def isAsciiDigit (c : Char) : Bool :=
  '0' ≤ c && c ≤ '9'

/-- The digits `0` to `9` stand side by side. -/
theorem toNat_bounds_of_isAsciiDigit {c : Char} (h : isAsciiDigit c = true) :
    48 ≤ c.toNat ∧ c.toNat ≤ 57 := by
  rwa [isAsciiDigit, Bool.and_eq_true, decide_eq_true_eq, decide_eq_true_eq] at h

/-- The digits `0` to `9` have the values that their order gives. -/
theorem digitValue?_ascii {c : Char} (h : 48 ≤ c.toNat ∧ c.toNat ≤ 57) :
    digitValue? c = some (c.toNat - 48) := by
  have hlow : decide (48 ≤ c.toNat) = true := decide_eq_true h.1
  have hhigh : decide (c.toNat < 48 + 10) = true := decide_eq_true (by omega)
  simp only [digitValue?, decimalZeros, List.find?_cons, hlow, hhigh, Bool.and_self,
    Option.map_some]

/-- A digit is less than ten. -/
theorem digitValue?_lt_ten {c : Char} {n : Nat} (h : digitValue? c = some n) : n < 10 := by
  obtain ⟨start, hfind, rfl⟩ := Option.map_eq_some_iff.mp h
  have hrange := List.find?_some hfind
  simp only [Bool.and_eq_true, decide_eq_true_eq] at hrange
  omega

/-- The number that a run of digits denotes, read from the left; other characters count as zero. -/
def digitsValue (s : List Char) : Nat :=
  s.foldl (fun total c => 10 * total + (digitValue? c).getD 0) 0

/-- A digit at the end of a run is worth its own value, and moves the others one place up. -/
theorem digitsValue_append_singleton (s : List Char) (c : Char) :
    digitsValue (s ++ [c]) = 10 * digitsValue s + (digitValue? c).getD 0 := by
  simp [digitsValue, List.foldl_append]

end FilterQuery.Text
