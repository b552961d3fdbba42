import FilterQuery.Proofs.Limits
import FilterQuery.Proofs.Number.Digits
import FilterQuery.Proofs.Number.Nearest
import FilterQuery.Proofs.Padding
import Mathlib.Data.Nat.Digits.Defs

/-!
# Numbers as they are written

Which texts are numbers is a matter of spelling: between padding stand perhaps a minus sign, digits
of any script, and perhaps a point with more digits.  What such a text denotes is a matter of
places.  The recogniser and the conversion are separate, and only the conversion knows a limit: an
integer may not have too many digits.

Main results:

- `numeral?_eq_some_iff`: the recogniser takes a run of characters for a number exactly if it is the
  spelling of one.
- `Numeral.number_isNearest`: a number with a point is the datum nearest to what its digits denote.
- `coerce_of_isWrittenIn`: a text that is written as a number becomes that number, if it is not too
  long.
- `coerce_padded`: an integer that was written is read again, whatever padding stands around it.
- `coerce_coerce`: coercing twice is coercing once.
- `coerce_reads_numerals`: which texts coercion changes, and into what.
-/

namespace FilterQuery

open Number

/-! ## Digits -/

namespace Text

/-- The digits `0` to `9` are digits. -/
theorem isDigit_of_isAsciiDigit {c : Char} (h : isAsciiDigit c = true) : isDigit c = true := by
  rw [isDigit, digitValue?_ascii (toNat_bounds_of_isAsciiDigit h)]
  rfl

/-- The digits `0` to `9` are no padding. -/
theorem isBlankChar_of_isAsciiDigit {c : Char} (h : isAsciiDigit c = true) :
    isBlankChar c = false := by
  obtain ⟨hlow, hhigh⟩ := toNat_bounds_of_isAsciiDigit h
  simp [isBlankChar, isWhiteSpace]
  omega

end Text

namespace Coercion

/-! ## Spelling -/

namespace Numeral

/-- The characters of a number behind its sign. -/
def body (numeral : Numeral) : List Char :=
  numeral.whole ++ numeral.decimals.elim [] fun decimals => '.' :: decimals

/-- The characters with which a number is written. -/
def spelled (numeral : Numeral) : List Char :=
  (if numeral.negative then ['-'] else []) ++ numeral.body

/-- Whether a number is made up of digits: there is one in front of the point, and one behind it if
there is a point. -/
structure IsProper (numeral : Numeral) : Prop where
  whole_ne_nil : numeral.whole ≠ []
  whole : ∀ c ∈ numeral.whole, Text.isDigit c = true
  decimals_ne_nil : numeral.decimals ≠ some []
  decimals : ∀ digits, numeral.decimals = some digits → ∀ c ∈ digits, Text.isDigit c = true

/-- Behind the sign, a number is its first run of digits and what follows that. -/
theorem span_body {numeral : Numeral} (h : numeral.IsProper) :
    numeral.body.takeWhile Text.isDigit = numeral.whole ∧
      numeral.body.dropWhile Text.isDigit =
        numeral.decimals.elim [] fun decimals => '.' :: decimals := by
  apply Text.span_append h.whole
  intro c hc
  cases hdecimals : numeral.decimals with
  | none =>
      rw [hdecimals] at hc
      contradiction
  | some digits =>
      rw [hdecimals] at hc
      obtain rfl : '.' = c := Option.some.inj hc
      decide

/-- Behind the sign, a number does not start with another one. -/
theorem head?_body_ne {numeral : Numeral} (h : numeral.IsProper) :
    numeral.body.head? ≠ some '-' := by
  intro hminus
  obtain ⟨first, others, hwhole⟩ := List.exists_cons_of_ne_nil h.whole_ne_nil
  rw [body, hwhole, List.cons_append, List.head?_cons] at hminus
  have hdigit := h.whole first (by simp [hwhole])
  rw [Option.some.inj hminus] at hdigit
  contradiction

end Numeral

/-- The number of a sign that was read and the run of characters behind it. -/
def unsigned? (negative : Bool) (s : List Char) : Option Numeral :=
  if (s.takeWhile Text.isDigit).isEmpty then none
  else
    match s.dropWhile Text.isDigit with
    | [] => some ⟨negative, s.takeWhile Text.isDigit, none⟩
    | '.' :: decimals =>
        if !decimals.isEmpty && decimals.all Text.isDigit then
          some ⟨negative, s.takeWhile Text.isDigit, some decimals⟩
        else none
    | _ => none

/-- A minus sign is read first. -/
theorem numeral?_minus (s : List Char) : numeral? ('-' :: s) = unsigned? true s :=
  rfl

/-- Without a minus sign, all is read as the number behind it. -/
theorem numeral?_of_head?_ne {s : List Char} (h : s.head? ≠ some '-') :
    numeral? s = unsigned? false s := by
  have hsign : (s.head? == some '-') = false := by simpa using h
  rw [numeral?, hsign]
  rfl

/-- What is read behind a sign has that sign, and its characters are those that were there. -/
theorem body_of_unsigned? {negative : Bool} {s : List Char} {numeral : Numeral}
    (h : unsigned? negative s = some numeral) :
    numeral.IsProper ∧ numeral.negative = negative ∧ s = numeral.body := by
  have hsplit := List.takeWhile_append_dropWhile (p := Text.isDigit) (l := s)
  have hwhole : ∀ c ∈ s.takeWhile Text.isDigit, Text.isDigit c = true :=
    fun c hc => List.mem_takeWhile_imp hc
  unfold unsigned? at h
  by_cases hempty : (s.takeWhile Text.isDigit).isEmpty = true
  · rw [if_pos hempty] at h
    contradiction
  · rw [if_neg hempty] at h
    have hsome : s.takeWhile Text.isDigit ≠ [] := by simpa using hempty
    split at h
    next hrest =>
      rw [hrest] at hsplit
      rcases Option.some.inj h with rfl
      exact ⟨⟨hsome, hwhole, by simp, by simp⟩, rfl, hsplit.symm⟩
    next decimals hrest =>
      by_cases hdecimals : (!decimals.isEmpty && decimals.all Text.isDigit) = true
      · rw [if_pos hdecimals] at h
        rw [Bool.and_eq_true, List.all_eq_true] at hdecimals
        rw [hrest] at hsplit
        rcases Option.some.inj h with rfl
        exact ⟨⟨hsome, hwhole, by simpa using hdecimals.1, by simpa using hdecimals.2⟩, rfl,
          hsplit.symm⟩
      · rw [if_neg hdecimals] at h
        contradiction
    next => contradiction

/-- The characters of a number behind its sign are read as that number. -/
theorem unsigned?_body {numeral : Numeral} (h : numeral.IsProper) :
    unsigned? numeral.negative numeral.body = some numeral := by
  obtain ⟨htake, hdrop⟩ := Numeral.span_body h
  have hsome : ¬numeral.whole.isEmpty = true := by simpa using h.whole_ne_nil
  rw [unsigned?, htake, hdrop, if_neg hsome]
  obtain ⟨negative, whole, decimals⟩ := numeral
  cases decimals with
  | none => rfl
  | some digits =>
      have hdigits : digits ≠ [] := by
        intro hnil
        exact h.decimals_ne_nil (congrArg some hnil)
      have hall : (!digits.isEmpty && digits.all Text.isDigit) = true := by
        rw [Bool.and_eq_true, List.all_eq_true]
        exact ⟨by simpa using hdigits, h.decimals digits rfl⟩
      exact if_pos hall

/-- The recogniser takes a run of characters for a number exactly if it is the spelling of one. -/
theorem numeral?_eq_some_iff {s : List Char} {numeral : Numeral} :
    numeral? s = some numeral ↔ numeral.IsProper ∧ s = numeral.spelled := by
  constructor
  · intro h
    by_cases hsign : s.head? = some '-'
    · obtain ⟨rest, rfl⟩ := List.head?_eq_some_iff.mp hsign
      rw [numeral?_minus] at h
      obtain ⟨hproper, hnegative, rfl⟩ := body_of_unsigned? h
      exact ⟨hproper, by rw [Numeral.spelled, hnegative]; rfl⟩
    · rw [numeral?_of_head?_ne hsign] at h
      obtain ⟨hproper, hnegative, hbody⟩ := body_of_unsigned? h
      exact ⟨hproper, by rw [Numeral.spelled, hnegative, hbody]; rfl⟩
  · rintro ⟨hproper, rfl⟩
    have hbody := unsigned?_body hproper
    rw [Numeral.spelled]
    cases hnegative : numeral.negative with
    | true =>
        rw [hnegative] at hbody
        rw [if_pos rfl, List.singleton_append, numeral?_minus, hbody]
    | false =>
        rw [hnegative] at hbody
        rw [if_neg (by decide), List.nil_append,
          numeral?_of_head?_ne (Numeral.head?_body_ne hproper), hbody]

/-! ## Texts that are numbers -/

namespace Numeral

/-- Whether a text is written as a number: between padding stands its spelling. -/
def IsWrittenIn (numeral : Numeral) (s : String) : Prop :=
  numeral.IsProper ∧ Text.trimChars s.toList = numeral.spelled

/-- The integer that the digits in front of the point denote by their places. -/
def integer (numeral : Numeral) : Int :=
  let places := numeral.whole.reverse.map fun c => (Text.digitValue? c).getD 0
  if numeral.negative then -(Nat.ofDigits 10 places : Nat) else (Nat.ofDigits 10 places : Nat)

/-- The number that is written: an integer or, with a point, the datum nearest to it. -/
def number (numeral : Numeral) : Value :=
  match numeral.decimals with
  | none => .int numeral.integer
  | some decimals => .float (Binary64.ofDigits numeral.negative numeral.whole decimals 0)

end Numeral

/-- A text is taken for a number exactly if it is written as that number. -/
theorem numeralOfText?_eq_some_iff {s : String} {numeral : Numeral} :
    numeralOfText? s = some numeral ↔ numeral.IsWrittenIn s :=
  numeral?_eq_some_iff

/-- A text is numeric exactly if it is written as some number. -/
theorem isNumeric_text_iff (s : String) :
    isNumeric (.text s) = true ↔ ∃ numeral : Numeral, numeral.IsWrittenIn s := by
  rw [isNumeric, Option.isSome_iff_exists]
  exact exists_congr fun numeral => numeralOfText?_eq_some_iff

/-! ## Values of numbers -/

/-- A run of digits denotes the number that its digits denote by their places. -/
theorem digitsValue_eq_ofDigits (s : List Char) :
    Text.digitsValue s =
      Nat.ofDigits 10 (s.reverse.map fun c => (Text.digitValue? c).getD 0) := by
  induction s using List.reverseRecOn with
  | nil => rfl
  | append_singleton s c ih =>
      rw [Text.digitsValue_append_singleton, ih, List.reverse_append, List.reverse_singleton,
        List.singleton_append, List.map_cons, Nat.ofDigits_cons]
      omega

/-- A sign and a run of digits are read as the integer that they denote. -/
theorem signedInteger_eq_integer (numeral : Numeral) :
    signedInteger numeral.negative numeral.whole = numeral.integer := by
  rw [signedInteger, digitsValue_eq_ofDigits]
  rfl

/-- A number that is written has a value unless it is an integer with too many digits, and the value
is the number. -/
theorem Numeral.value_eq (numeral : Numeral) :
    numeral.value =
      if numeral.isLong then .error (.reading numeral.whole.length) else .ok numeral.number := by
  unfold Numeral.value Numeral.isLong Numeral.number
  cases numeral.decimals with
  | some decimals => rfl
  | none =>
      have hlimit : (none : Option (List Char)).isNone = true := rfl
      by_cases hlong : maxDigits < numeral.whole.length
      · have hmany : ¬numeral.whole.length ≤ maxDigits := by omega
        simp only [readInteger, if_neg hmany, hlimit, hlong, decide_true, Bool.and_self, if_true]
        rfl
      · have hfew : numeral.whole.length ≤ maxDigits := by omega
        simp only [readInteger, if_pos hfew, hlong, decide_false, Bool.and_false,
          signedInteger_eq_integer]
        rfl

/-- A number that is written with a point is a datum of the sign that is written, and the nearest
one to what the digits before and after the point denote by their places. -/
theorem Numeral.number_isNearest {numeral : Numeral} {decimals : List Char}
    (h : numeral.decimals = some decimals) :
    ∃ x : Binary64, numeral.number = .float x ∧ x.negative = numeral.negative ∧
      x.IsNearest ((Nat.ofDigits 10 ((numeral.whole ++ decimals).reverse.map fun c =>
        (Text.digitValue? c).getD 0) : Nat) / 10 ^ decimals.length) := by
  have hnumber : numeral.number =
      .float (Binary64.ofDigits numeral.negative numeral.whole decimals 0) := by
    rw [number, h]
  have hnearest := Binary64.isNearest_ofDigits numeral.negative numeral.whole decimals 0
  rw [digitsValue_eq_ofDigits, zero_sub, zpow_neg, zpow_natCast, ← div_eq_mul_inv] at hnearest
  exact ⟨_, hnumber, Binary64.negative_ofDigits _ _ _ _, hnearest⟩

/-- A number that is written is not a text. -/
theorem Numeral.number_ne_text (numeral : Numeral) (s : String) : numeral.number ≠ .text s := by
  unfold Numeral.number
  split
  · simp
  · simp

/-- A number is coerced to itself. -/
theorem coerce_number (field : String) (numeral : Numeral) :
    coerce field numeral.number = .ok numeral.number := by
  unfold coerce Numeral.number
  cases numeral.decimals with
  | none => simp
  | some decimals => simp

/-! ## Coercion -/

/-- A text that is written as a number becomes that number, if it is not too long. -/
theorem coerce_of_isWrittenIn {field s : String} {numeral : Numeral}
    (hfield : Field.isExact field = false) (h : numeral.IsWrittenIn s) :
    coerce field (.text s) =
      if numeral.isLong then .error (.reading numeral.whole.length) else .ok numeral.number := by
  have hnumeral := numeralOfText?_eq_some_iff.mpr h
  rw [← Numeral.value_eq]
  simp [coerce, hfield, hnumeral]

/-- A text that is not written as a number is left as it is. -/
theorem coerce_of_not_isNumeric {field : String} {value : Value} (h : isNumeric value = false) :
    coerce field value = .ok value := by
  unfold coerce
  by_cases hexact : Field.isExact field = true
  · rw [if_pos hexact]
  · rw [if_neg hexact]
    cases value with
    | text s =>
        have hnone : numeralOfText? s = none := by simpa [isNumeric] using h
        simp only [hnone]
    | _ => rfl

/-- Coercion changes a text exactly if it is written as a number. -/
theorem coerce_text_ne_iff {field : String} (hfield : Field.isExact field = false) (s : String) :
    coerce field (.text s) ≠ .ok (.text s) ↔ ∃ numeral : Numeral, numeral.IsWrittenIn s := by
  constructor
  · intro hchanged
    rw [← isNumeric_text_iff]
    by_contra hnumeric
    exact hchanged (coerce_of_not_isNumeric (by simpa using hnumeric))
  · rintro ⟨numeral, hwritten⟩ hsame
    rw [coerce_of_isWrittenIn hfield hwritten] at hsame
    by_cases hlong : numeral.isLong = true
    · rw [if_pos hlong] at hsame
      contradiction
    · rw [if_neg hlong] at hsame
      exact numeral.number_ne_text s (Except.ok.inj hsame)

/-- Outside of exact fields, what coercion gives is the number that a text is written as, or the
value itself if that is no such text. -/
theorem coerce_cases {field : String} {value result : Value}
    (hfield : Field.isExact field = false) (h : coerce field value = .ok result) :
    (∃ s, ∃ numeral : Numeral,
        value = .text s ∧ numeral.IsWrittenIn s ∧ result = numeral.number) ∨
      result = value ∧ ∀ s, value = .text s → isNumeric value = false := by
  by_cases htext : ∃ s, value = .text s ∧ isNumeric value = true
  · obtain ⟨s, rfl, hnumeric⟩ := htext
    obtain ⟨numeral, hwritten⟩ := (isNumeric_text_iff s).mp hnumeric
    rw [coerce_of_isWrittenIn hfield hwritten] at h
    by_cases hlong : numeral.isLong = true
    · rw [if_pos hlong] at h
      contradiction
    · rw [if_neg hlong] at h
      exact .inl ⟨s, numeral, rfl, hwritten, (Except.ok.inj h).symm⟩
  · have hother : ∀ s, value = .text s → isNumeric value = false := by
      intro s hs
      by_contra hnumeric
      exact htext ⟨s, hs, by simpa using hnumeric⟩
    refine .inr ⟨?_, hother⟩
    cases value with
    | text s =>
        rw [coerce_of_not_isNumeric (hother s rfl)] at h
        exact (Except.ok.inj h).symm
    | _ =>
        simp only [coerce, hfield] at h
        exact (Except.ok.inj h).symm

/-- Coercing twice is coercing once. -/
theorem coerce_coerce (field : String) (value : Value) :
    coerce field value >>= coerce field = coerce field value := by
  by_cases hexact : Field.isExact field = true
  · rw [coerce_of_isExact hexact]
    exact coerce_of_isExact hexact value
  · have hfield : Field.isExact field = false := by simpa using hexact
    cases hcoerced : coerce field value with
    | error limit => rfl
    | ok result =>
        change coerce field result = .ok result
        rcases coerce_cases hfield hcoerced with ⟨s, numeral, _, _, rfl⟩ | ⟨rfl, _⟩
        · exact coerce_number field numeral
        · exact hcoerced

/-! ## Integers that were written -/

/-- The integer of a sign and the digits of its size, as it is written. -/
def Numeral.ofInteger (n : Int) : Numeral :=
  ⟨decide (n < 0), naturalDigits n.natAbs, none⟩

namespace Numeral

/-- An integer is made up of digits. -/
theorem isProper_ofInteger (n : Int) : (ofInteger n).IsProper where
  whole_ne_nil := naturalDigits_ne_nil n.natAbs
  whole _ hc := Text.isDigit_of_isAsciiDigit (isAsciiDigit_of_mem_naturalDigits hc)
  decimals_ne_nil := by simp [ofInteger]
  decimals := by simp [ofInteger]

/-- There is no padding in an integer. -/
theorem isBlankChar_of_mem_ofInteger {n : Int} {c : Char} (h : c ∈ (ofInteger n).spelled) :
    Text.isBlankChar c = false := by
  rcases List.mem_append.mp h with hsign | hbody
  · by_cases hnegative : n < 0
    · obtain rfl : c = '-' := by simpa [ofInteger, hnegative] using hsign
      decide
    · simp [ofInteger, hnegative] at hsign
  · have hdigit : c ∈ naturalDigits n.natAbs := by simpa [ofInteger, body] using hbody
    exact Text.isBlankChar_of_isAsciiDigit (isAsciiDigit_of_mem_naturalDigits hdigit)

/-- An integer is written in its text, whatever padding stands around it. -/
theorem ofInteger_isWrittenIn (n : Int) {left right : String} (hleft : Text.isBlank left = true)
    (hright : Text.isBlank right = true) :
    (ofInteger n).IsWrittenIn (left ++ integerText n ++ right) := by
  have hspelled : (integerText n).toList = (ofInteger n).spelled := by
    simp [integerText, ofInteger, spelled, body]
  refine ⟨isProper_ofInteger n, ?_⟩
  rw [String.toList_append, String.toList_append, Text.trimChars, Text.trimBy_append hleft hright,
    hspelled]
  exact Text.trimBy_eq_self fun c hc => isBlankChar_of_mem_ofInteger hc

/-- The number that is written is the integer again. -/
theorem number_ofInteger (n : Int) : (ofInteger n).number = .int n := by
  rw [number, ofInteger, ← signedInteger_eq_integer]
  exact congrArg Value.int (signedInteger_of_digitsValue (digitsValue_naturalDigits n.natAbs))

end Numeral

/-- An integer that can be written is read again from its text, with any padding around it. -/
theorem coerce_padded {field : String} (hfield : Field.isExact field = false) {n : Int}
    (h : n.natAbs < 10 ^ maxDigits) {left right : String} (hleft : Text.isBlank left = true)
    (hright : Text.isBlank right = true) :
    coerce field (.text (left ++ integerText n ++ right)) = .ok (.int n) := by
  have hlength : (naturalDigits n.natAbs).length ≤ maxDigits :=
    (length_naturalDigits_le_iff (by decide)).mpr h
  have hshort : ¬(Numeral.ofInteger n).isLong = true := by
    rw [Numeral.isLong, Bool.and_eq_true, decide_eq_true_eq]
    exact fun hlong => Nat.not_lt.mpr hlength hlong.2
  rw [coerce_of_isWrittenIn hfield (Numeral.ofInteger_isWrittenIn n hleft hright), if_neg hshort,
    Numeral.number_ofInteger]

/-- On a field that is not exact, coercion changes a text exactly if, without its padding, it is a
minus sign or none, digits of any script and perhaps a point and more digits.  With a point it
becomes the datum nearest to it.  Without one it becomes the integer that the digits denote, and
coercion fails only at more than `maxDigits` of them.  So an integer of at most that many digits is
read again from its text with any padding around it, and coercing twice is coercing once. -/
theorem coerce_reads_numerals {field : String} (hfield : Field.isExact field = false) :
    (∀ s, coerce field (.text s) ≠ .ok (.text s) ↔ ∃ numeral : Numeral, numeral.IsWrittenIn s) ∧
    (∀ s, ∀ numeral : Numeral, numeral.IsWrittenIn s →
      (∀ decimals, numeral.decimals = some decimals →
        coerce field (.text s) =
          .ok (.float (Binary64.ofDigits numeral.negative numeral.whole decimals 0))) ∧
      (numeral.decimals = none → numeral.whole.length ≤ maxDigits →
        coerce field (.text s) = .ok (.int numeral.integer)) ∧
      (numeral.decimals = none → maxDigits < numeral.whole.length →
        coerce field (.text s) = .error (.reading numeral.whole.length))) ∧
    (∀ n : Int, n.natAbs < 10 ^ maxDigits → ∃ text, digitsText n = .ok text ∧
      ∀ left right, Text.isBlank left = true → Text.isBlank right = true →
        coerce field (.text (left ++ text ++ right)) = .ok (.int n)) ∧
    ∀ value, coerce field value >>= coerce field = coerce field value := by
  refine ⟨coerce_text_ne_iff hfield, ?_, ?_, coerce_coerce field⟩
  · intro s numeral hwritten
    rw [coerce_of_isWrittenIn hfield hwritten]
    refine ⟨?_, ?_, ?_⟩
    · intro decimals hdecimals
      simp [Numeral.isLong, Numeral.number, hdecimals]
    · intro hdecimals hlength
      simp [Numeral.isLong, Numeral.number, hdecimals, Nat.not_lt.mpr hlength]
    · intro hdecimals hlength
      simp [Numeral.isLong, hdecimals, hlength]
  · intro n hn
    have hpow : ∀ count, Nat.pow 10 count = 10 ^ count := fun _ => rfl
    have hbound : n.natAbs < Nat.pow 10 maxDigits := by
      rw [hpow]
      exact hn
    refine ⟨integerText n, digitsText_eq hbound, ?_⟩
    intro left right hleft hright
    exact coerce_padded hfield hn hleft hright

/-- A minus and digits of another script with a zero in front, between a space and a tab. -/
theorem coerce_reads_other_script :
    Field.isExact "bytes" = false ∧
      coerce "bytes" (.text " -\u0660\u0667\t") = .ok (.int (-7)) := by
  have hfield : Field.isExact "bytes" = false := by decide
  have hwritten : Numeral.IsWrittenIn ⟨true, ['\u0660', '\u0667'], none⟩ " -\u0660\u0667\t" :=
    numeralOfText?_eq_some_iff.mp (by decide +kernel)
  exact ⟨hfield, ((coerce_reads_numerals hfield).2.1 _ _ hwritten).2.1 rfl (by decide)⟩

end Coercion

end FilterQuery
