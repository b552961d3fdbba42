import FilterQuery.Number.Shortest
import Mathlib.Algebra.Order.Ring.Nat
import Mathlib.Data.List.Induction
import Mathlib.Data.List.TakeWhile

/-!
# The digits of a number

The decimal digits of a number start with a zero only if it is the only one, and zeros at the end
of a run of digits are worth a power of ten.

Main results:

- `digitsValue_append`: the digits in front are moved up by as many places as follow them.
- `isWholePart_naturalDigits`: the digits of a number may stand before a point.
- `length_naturalDigits_le_iff`: how long the digits of a number are.
- `exists_naturalDigits_eq`: the digits of a number are its significant digits and zeros.
- `digitsValue_lt`, `natAbs_lt_of_readInteger`: a run of digits denotes no number with more digits.
-/

namespace FilterQuery

namespace Text

/-- The digits in front are moved up by as many places as follow them. -/
theorem digitsValue_append (front back : List Char) :
    digitsValue (front ++ back) = digitsValue front * 10 ^ back.length + digitsValue back := by
  induction back using List.reverseRecOn with
  | nil => simp [digitsValue]
  | append_singleton back c ih =>
      have hplace : digitsValue front * 10 ^ (back ++ [c]).length =
          10 * (digitsValue front * 10 ^ back.length) := by
        rw [List.length_append, List.length_singleton, Nat.pow_succ, ← Nat.mul_assoc, Nat.mul_comm]
      rw [← List.append_assoc, digitsValue_append_singleton, digitsValue_append_singleton, ih,
        hplace]
      omega

/-- Zeros are worth nothing. -/
@[simp]
theorem digitsValue_replicate_zero (count : Nat) : digitsValue (List.replicate count '0') = 0 := by
  induction count with
  | zero => rfl
  | succ count ih =>
      have hzero : (digitValue? '0').getD 0 = 0 := by decide
      rw [List.replicate_succ', digitsValue_append_singleton, ih, hzero]

/-- A zero in front is worth nothing. -/
@[simp]
theorem digitsValue_zero_cons (digits : List Char) :
    digitsValue ('0' :: digits) = digitsValue digits := by
  have happend := digitsValue_append ['0'] digits
  have hzero : digitsValue ['0'] = 0 := digitsValue_replicate_zero 1
  rw [hzero, Nat.zero_mul, Nat.zero_add] at happend
  exact happend

/-- A run of digits denotes less than the power of ten with as many zeros. -/
theorem digitsValue_lt (s : List Char) : digitsValue s < 10 ^ s.length := by
  induction s using List.reverseRecOn with
  | nil => simp [digitsValue]
  | append_singleton s c ih =>
      have hdigit : (digitValue? c).getD 0 < 10 := by
        cases hc : digitValue? c with
        | none => decide
        | some n => exact digitValue?_lt_ten hc
      rw [digitsValue_append_singleton, List.length_append, List.length_singleton, Nat.pow_succ]
      omega

end Text

namespace Number

/-- A run of digits that may stand before a point: a zero in front stands alone. -/
structure IsWholePart (digits : List Char) : Prop where
  nonempty : digits ≠ []
  isDigit : ∀ c ∈ digits, Text.isAsciiDigit c = true
  leading : digits.head? = some '0' → digits = ['0']

/-- The character for a number below ten is a digit. -/
theorem isAsciiDigit_digitChar {n : Nat} (h : n < 10) :
    Text.isAsciiDigit (digitChar n) = true := by
  revert n
  decide

/-- Only zero is written as a zero. -/
theorem digitChar_ne_zero {n : Nat} (h : n < 10) (hpos : 0 < n) : digitChar n ≠ '0' := by
  revert n
  decide

/-- Some digit is always written. -/
theorem naturalDigits_ne_nil (n : Nat) : naturalDigits n ≠ [] := by
  rw [naturalDigits]
  split <;> simp

/-- Only digits are written. -/
theorem isAsciiDigit_of_mem_naturalDigits {n : Nat} {c : Char} (h : c ∈ naturalDigits n) :
    Text.isAsciiDigit c = true := by
  induction n using naturalDigits.induct with
  | case1 n hsmall =>
      rw [naturalDigits, if_pos hsmall, List.mem_singleton] at h
      rw [h]
      exact isAsciiDigit_digitChar hsmall
  | case2 n hlarge ih =>
      rw [naturalDigits, if_neg hlarge, List.mem_append, List.mem_singleton] at h
      rcases h with hfront | rfl
      · exact ih hfront
      · exact isAsciiDigit_digitChar (Nat.mod_lt n (by decide))

/-- No zero is written in front of a positive number. -/
theorem head?_naturalDigits_ne {n : Nat} (h : 0 < n) : (naturalDigits n).head? ≠ some '0' := by
  induction n using naturalDigits.induct with
  | case1 n hsmall =>
      rw [naturalDigits, if_pos hsmall]
      simpa using digitChar_ne_zero hsmall h
  | case2 n hlarge ih =>
      have hfront : (naturalDigits (n / 10)).head? ≠ some '0' := ih (by omega)
      rw [naturalDigits, if_neg hlarge, List.head?_append]
      cases hdigits : naturalDigits (n / 10) with
      | nil => exact absurd hdigits (naturalDigits_ne_nil _)
      | cons c rest =>
          rw [hdigits] at hfront
          exact hfront

/-- The digits of a number may stand before a point. -/
theorem isWholePart_naturalDigits (n : Nat) : IsWholePart (naturalDigits n) where
  nonempty := naturalDigits_ne_nil n
  isDigit _ h := isAsciiDigit_of_mem_naturalDigits h
  leading h := by
    rcases Nat.eq_zero_or_pos n with rfl | hpos
    · simp [naturalDigits, digitChar]
    · exact absurd h (head?_naturalDigits_ne hpos)

/-- An integer is denoted by its sign and the digits of its size. -/
theorem signedInteger_of_digitsValue {n : Int} {digits : List Char}
    (h : Text.digitsValue digits = n.natAbs) : signedInteger (decide (n < 0)) digits = n := by
  rw [signedInteger, h]
  by_cases hnegative : n < 0
  · rw [if_pos (decide_eq_true hnegative)]
    omega
  · rw [if_neg (by rw [decide_eq_true_eq]; exact hnegative)]
    omega

/-- A number has at most as many digits as the power of ten above it has zeros. -/
theorem length_naturalDigits_le_iff {n count : Nat} (h : 0 < count) :
    (naturalDigits n).length ≤ count ↔ n < 10 ^ count := by
  induction n using naturalDigits.induct generalizing count with
  | case1 n hsmall =>
      have hten : 10 ^ 1 ≤ 10 ^ count := Nat.pow_le_pow_right (by decide) h
      rw [naturalDigits, if_pos hsmall, List.length_singleton]
      omega
  | case2 n hlarge ih =>
      rw [naturalDigits, if_neg hlarge, List.length_append, List.length_singleton]
      cases count with
      | zero => contradiction
      | succ count =>
          rcases Nat.eq_zero_or_pos count with rfl | hpos
          · have hlength := List.length_pos_iff.mpr (naturalDigits_ne_nil (n / 10))
            omega
          · rw [Nat.add_le_add_iff_right, ih hpos, Nat.pow_succ]
            omega

/-! ## Significant digits -/

/-- A run of characters is what is left of it without the zeros at its end, and those zeros. -/
theorem withoutZeros_append (s : List Char) :
    (s.reverse.dropWhile (· == '0')).reverse ++
      List.replicate (s.reverse.takeWhile (· == '0')).length '0' = s := by
  have hzeros : s.reverse.takeWhile (· == '0') =
      List.replicate (s.reverse.takeWhile (· == '0')).length '0' :=
    List.eq_replicate_of_mem fun c hc => by simpa using List.mem_takeWhile_imp hc
  calc (s.reverse.dropWhile (· == '0')).reverse ++
        List.replicate (s.reverse.takeWhile (· == '0')).length '0'
      = (s.reverse.dropWhile (· == '0')).reverse ++ (s.reverse.takeWhile (· == '0')).reverse := by
        conv_rhs => rw [hzeros, List.reverse_replicate]
    _ = (s.reverse.takeWhile (· == '0') ++ s.reverse.dropWhile (· == '0')).reverse := by
        rw [List.reverse_append]
    _ = s := by
        rw [List.takeWhile_append_dropWhile, List.reverse_reverse]

/-- The digits of a positive number are its significant digits and zeros. -/
theorem exists_naturalDigits_eq {n : Nat} (h : 0 < n) :
    ∃ zeros, naturalDigits n = significantDigits n ++ List.replicate zeros '0' := by
  have hsplit := withoutZeros_append (naturalDigits n)
  generalize ((naturalDigits n).reverse.takeWhile (· == '0')).length = zeros at hsplit
  refine ⟨zeros, ?_⟩
  rw [significantDigits]
  cases hdigits : ((naturalDigits n).reverse.dropWhile (· == '0')).reverse with
  | cons c rest => rw [← hsplit, hdigits]
  | nil =>
      -- A positive number is not written with zeros only.
      rw [hdigits, List.nil_append] at hsplit
      cases zeros with
      | zero => exact absurd hsplit.symm (naturalDigits_ne_nil n)
      | succ zeros =>
          have hfirst := head?_naturalDigits_ne h
          rw [← hsplit] at hfirst
          exact absurd rfl hfirst

/-- A positive number is worth its significant digits, moved up by as many places as it has digits
besides them. -/
theorem exists_digitsValue_significantDigits {n : Nat} (h : 0 < n) :
    ∃ zeros, (naturalDigits n).length = (significantDigits n).length + zeros ∧
      n = Text.digitsValue (significantDigits n) * 10 ^ zeros := by
  rcases exists_naturalDigits_eq h with ⟨zeros, hsplit⟩
  refine ⟨zeros, ?_, ?_⟩
  · rw [hsplit, List.length_append, List.length_replicate]
  · have hall := digitsValue_naturalDigits n
    rw [hsplit, Text.digitsValue_append, Text.digitsValue_replicate_zero, List.length_replicate,
      Nat.add_zero] at hall
    exact hall.symm

/-- A positive number has significant digits, and the first of them is no zero. -/
theorem significantDigits_spec {n : Nat} (h : 0 < n) :
    significantDigits n ≠ [] ∧ (∀ c ∈ significantDigits n, Text.isAsciiDigit c = true) ∧
      (significantDigits n).head? ≠ some '0' := by
  rcases exists_naturalDigits_eq h with ⟨zeros, hsplit⟩
  refine ⟨?_, fun c hc => ?_, fun hzero => head?_naturalDigits_ne h ?_⟩
  · unfold significantDigits
    split
    · simp
    · assumption
  · apply isAsciiDigit_of_mem_naturalDigits (n := n)
    rw [hsplit]
    exact List.mem_append_left _ hc
  · rw [hsplit, List.head?_append, hzero]
    rfl

/-- An integer that is read has at most as many digits as may be read. -/
theorem natAbs_lt_of_readInteger {bound : Nat} {negative : Bool} {digits : List Char} {n : Int}
    (h : readInteger bound negative digits = .ok n) : n.natAbs < Nat.pow 10 bound := by
  unfold readInteger at h
  split at h
  · next hlength =>
      rcases Except.ok.inj h with rfl
      have habs : (signedInteger negative digits).natAbs = Text.digitsValue digits := by
        cases negative <;> simp [signedInteger]
      rw [habs]
      exact Nat.lt_of_lt_of_le (Text.digitsValue_lt digits)
        (Nat.pow_le_pow_right (by decide) hlength)
  · contradiction

end Number

end FilterQuery
