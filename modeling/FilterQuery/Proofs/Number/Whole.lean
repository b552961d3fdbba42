import FilterQuery.Proofs.Number.Digits
import FilterQuery.Proofs.Padding
import FilterQuery.Reading.Settings

/-!
# Whole numbers that were written

Of the text of an integer nothing is left out: it has no zero in front that it could do without, no
underscores and no point.  So it is read as that integer, with any white space around it, unless
there are too many characters.

Main results:

- `readWhole_padded`: what becomes of the text of an integer with white space around it.
- `wholeNumber_padded`: a setting that is given as the text of an integer is that integer.
-/

namespace FilterQuery

namespace Number

/-- Digits without underscores are one group. -/
theorem withoutGrouping_eq_self {s : List Char} (h : '_' ∉ s) : withoutGrouping s = s := by
  have hfilter : s.filter (· != '_') = s := by
    rw [List.filter_eq_self]
    intro c hc
    simpa using fun heq : c = '_' => h (heq ▸ hc)
  simp [withoutGrouping, hfilter]

/-- A number without a point is left as it is. -/
theorem withoutDecimals_eq_self {s : List Char} (h : '.' ∉ s) : withoutDecimals s = s := by
  have hnone : s.dropWhile (· != '.') = [] := by
    rw [Text.dropWhile_eq_nil_iff_all, List.all_eq_true]
    intro c hc
    simpa using fun heq : c = '.' => h (heq ▸ hc)
  simp [withoutDecimals, hnone]

/-- A zero that is the only digit is kept. -/
theorem withoutLeadingZeros_eq_self {digits : List Char} (h : IsWholePart digits) :
    withoutLeadingZeros digits = digits := by
  cases digits with
  | nil => rfl
  | cons first rest =>
      by_cases hzero : first = '0'
      · subst hzero
        rw [h.leading rfl]
        rfl
      · unfold withoutLeadingZeros
        split
        · next heq => exact absurd (List.cons.inj heq).1 hzero
        · rfl

/-- Digits that may stand before a point are left as they are. -/
theorem whole_eq_self {digits : List Char} (h : IsWholePart digits) :
    withoutGrouping (withoutLeadingZeros (withoutDecimals digits)) = digits := by
  have hother : ∀ c, Text.isAsciiDigit c = false → c ∉ digits := by
    intro c hc hmem
    rw [h.isDigit c hmem] at hc
    contradiction
  rw [withoutDecimals_eq_self (hother '.' (by decide)), withoutLeadingZeros_eq_self h,
    withoutGrouping_eq_self (hother '_' (by decide))]

/-- A minus sign is read off an integer, and the rest are the digits of its size. -/
theorem signed_integerText (n : Int) :
    signed (integerText n).toList = (decide (n < 0), naturalDigits n.natAbs) := by
  rw [integerText, String.toList_ofList]
  by_cases hnegative : n < 0
  · simp [signed, hnegative]
  · simp only [hnegative, if_false, List.nil_append, decide_false]
    unfold signed
    split
    · next rest heq =>
        have hminus := isAsciiDigit_of_mem_naturalDigits (n := n.natAbs) (c := '-') (by simp [heq])
        contradiction
    · next rest heq =>
        have hplus := isAsciiDigit_of_mem_naturalDigits (n := n.natAbs) (c := '+') (by simp [heq])
        contradiction
    · rfl

/-- There is no white space in the text of an integer. -/
theorem isWhiteSpace_of_mem_integerText {n : Int} {c : Char} (h : c ∈ (integerText n).toList) :
    Text.isWhiteSpace c = false := by
  rw [integerText, String.toList_ofList, List.mem_append] at h
  rcases h with hsign | hdigit
  · split at hsign
    · rw [List.mem_singleton.mp hsign]
      decide
    · contradiction
  · have hbounds := Text.toNat_bounds_of_isAsciiDigit (isAsciiDigit_of_mem_naturalDigits hdigit)
    simp [Text.isWhiteSpace]
    omega

/-- The text of an integer is read as that integer, with any white space around it, unless its
digits and its minus sign are too many. -/
theorem readWhole_padded (n : Int) {left right : String}
    (hleft : left.toList.all Text.isWhiteSpace = true)
    (hright : right.toList.all Text.isWhiteSpace = true) :
    readWhole (left ++ integerText n ++ right) =
      if maxDigits < (naturalDigits n.natAbs).length + (decide (n < 0)).toNat then .error .tooLong
      else .ok n := by
  have hdigits := isWholePart_naturalDigits n.natAbs
  have htrim : Text.trimBy Text.isWhiteSpace (left ++ integerText n ++ right).toList =
      (integerText n).toList := by
    rw [String.toList_append, String.toList_append, Text.trimBy_append hleft hright]
    exact Text.trimBy_eq_self fun c hc => isWhiteSpace_of_mem_integerText hc
  have hall : (naturalDigits n.natAbs).takeWhile Text.isAsciiDigit = naturalDigits n.natAbs :=
    List.takeWhile_eq_self_iff.mpr hdigits.isDigit
  have hread : ¬((naturalDigits n.natAbs).isEmpty ||
      naturalDigits n.natAbs != naturalDigits n.natAbs) = true := by
    simpa using hdigits.nonempty
  simp only [readWhole, htrim, signed_integerText, whole_eq_self hdigits, hall, if_neg hread,
    signedInteger_of_digitsValue (digitsValue_naturalDigits n.natAbs)]

end Number

namespace Reading

open Number

/-- A setting that is given as the text of an integer is that integer, just as if the integer itself
were given. -/
theorem wholeNumber_padded {n : Int}
    (h : (naturalDigits n.natAbs).length + (decide (n < 0)).toNat ≤ maxDigits)
    {left right : String} (hleft : left.toList.all Text.isWhiteSpace = true)
    (hright : right.toList.all Text.isWhiteSpace = true) :
    wholeNumber (.text (left ++ integerText n ++ right)) = wholeNumber (.int n) := by
  have hread := readWhole_padded n hleft hright
  rw [if_neg (Nat.not_lt.mpr h)] at hread
  simp only [wholeNumber, typedInteger, hread]

end Reading

end FilterQuery
