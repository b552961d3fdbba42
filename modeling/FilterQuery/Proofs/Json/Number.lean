import FilterQuery.Json.Reader
import FilterQuery.Json.Writer
import FilterQuery.Proofs.Number.Layout

/-!
# Reading numbers that were written

The text of a number is read as that number wherever it ends: before a text that does not go on
like a number.

Main results:

- `readNumber_digits`: a run of digits is read as an integer, or is one that is too long.
- `readNumber_spelling`: the spelling of a fraction is read as the datum nearest to it.
- `readScalar_integerText`: an integer that was written is read again.
- `readScalar_writeFloat`: a finite datum that was written is read again.
-/

namespace FilterQuery.Json

open Number

variable {bound : Nat} {negative : Bool} {rest : List Char}

/-- Whether a text does not go on like a number. -/
def EndsNumber (rest : List Char) : Prop :=
  ∀ c, rest.head? = some c → Text.isAsciiDigit c = false ∧ c ≠ '.' ∧ c ≠ 'e' ∧ c ≠ 'E'

theorem endsNumber_nil : EndsNumber [] := by
  intro c h
  contradiction

theorem endsNumber_cons {c : Char}
    (h : Text.isAsciiDigit c = false ∧ c ≠ '.' ∧ c ≠ 'e' ∧ c ≠ 'E') (rest : List Char) :
    EndsNumber (c :: rest) := by
  intro d hd
  obtain rfl : c = d := Option.some.inj hd
  exact h

theorem EndsNumber.startsWithoutDigit (h : EndsNumber rest) : StartsWithoutDigit rest :=
  fun c hc => (h c hc).1

/-- What does not go on like a number has no decimals. -/
theorem EndsNumber.readDecimals_eq_none (h : EndsNumber rest) : readDecimals rest = none := by
  cases rest with
  | nil => rfl
  | cons c rest =>
      have hpoint : c ≠ '.' := (h c rfl).2.1
      unfold readDecimals
      split
      · simp_all
      · rfl

/-- What does not go on like a number has no exponent. -/
theorem EndsNumber.readExponent_eq_none (h : EndsNumber rest) : readExponent rest = none := by
  cases rest with
  | nil => rfl
  | cons c rest => exact readExponent_of_ne (h c rfl).2.2.1 (h c rfl).2.2.2 rest

/-! ## The parts of a number -/

/-- The whole part of a number is read up to where no digit follows. -/
theorem whole_append {whole : List Char} (hwhole : IsWholePart whole)
    (hrest : StartsWithoutDigit rest) :
    (if (whole ++ rest).head? == some '0' then ['0']
      else (whole ++ rest).takeWhile Text.isAsciiDigit) = whole := by
  have hhead : (whole ++ rest).head? = whole.head? := by
    cases hwhole' : whole with
    | nil => exact absurd hwhole' hwhole.nonempty
    | cons c others => rfl
  rw [hhead]
  by_cases hzero : whole.head? = some '0'
  · rw [if_pos (by simp [hzero]), hwhole.leading hzero]
  · rw [if_neg (by simpa using hzero), (Text.span_append hwhole.isDigit hrest).1]

/-- Decimals are read up to where no digit follows. -/
theorem readDecimals_append {decimals : List Char} (hsome : decimals ≠ [])
    (hdigits : ∀ c ∈ decimals, Text.isAsciiDigit c = true) (hrest : StartsWithoutDigit rest) :
    readDecimals ('.' :: decimals ++ rest) = some (decimals, rest) := by
  rcases Text.span_append hdigits hrest with ⟨htake, hdrop⟩
  simp [readDecimals, htake, hdrop, hsome]

/-- A run of digits is read as an integer, or is one that is too long. -/
theorem readNumber_digits {digits : List Char} (hdigits : IsWholePart digits)
    (hrest : EndsNumber rest) :
    readNumber bound negative (digits ++ rest) =
      match readInteger bound negative digits with
      | .ok n => .ok (.int n, rest)
      | .error limit => .error (.digitLimit limit) := by
  have hwhole := whole_append hdigits hrest.startsWithoutDigit
  have hsome : digits.isEmpty = false := by simpa using hdigits.nonempty
  unfold readNumber
  dsimp only
  rw [hwhole, List.drop_left, hrest.readDecimals_eq_none, Option.map_none, Option.getD_none,
    hrest.readExponent_eq_none, hsome]
  rfl

/-- The exponent of a spelling is read if there is one, and no digit or point stands before it. -/
theorem exponent_append (exponent : Option Int) (hrest : EndsNumber rest) :
    StartsWithoutDigit (exponent.elim [] exponentText ++ rest) ∧
      readDecimals (exponent.elim [] exponentText ++ rest) = none ∧
      readExponent (exponent.elim [] exponentText ++ rest) = exponent.map (·, rest) := by
  cases exponent with
  | none =>
      exact ⟨hrest.startsWithoutDigit, hrest.readDecimals_eq_none, hrest.readExponent_eq_none⟩
  | some n =>
      exact ⟨startsWithoutDigit_cons (by decide) _, rfl,
        readExponent_exponentText n hrest.startsWithoutDigit⟩

/-- The spelling of a fraction is read as the datum nearest to it. -/
theorem readNumber_spelling {spelling : Spelling} (hspelling : spelling.IsFraction)
    (hrest : EndsNumber rest) :
    readNumber bound negative (spelling.text ++ rest) =
      .ok (.float (spelling.datum negative), rest) := by
  rcases spelling with ⟨whole, decimals, exponent⟩
  rcases exponent_append exponent hrest with ⟨hstart, hnone, hexponent⟩
  have hsome : whole.isEmpty = false := by simpa using hspelling.whole.nonempty
  unfold readNumber
  dsimp only
  by_cases hdecimals : decimals = []
  · subst hdecimals
    have htext : Spelling.text ⟨whole, [], exponent⟩ ++ rest =
        whole ++ (exponent.elim [] exponentText ++ rest) := by
      simp [Spelling.text]
    obtain ⟨n, rfl⟩ := Option.ne_none_iff_exists'.mp
      (hspelling.notWhole.resolve_left fun hempty => hempty rfl)
    rw [htext, whole_append hspelling.whole hstart, List.drop_left, hnone, Option.map_none,
      Option.getD_none, hexponent, hsome]
    rfl
  · have htext : Spelling.text ⟨whole, decimals, exponent⟩ ++ rest =
        whole ++ ('.' :: decimals ++ (exponent.elim [] exponentText ++ rest)) := by
      rw [Spelling.text_of_decimals hdecimals, List.append_assoc, List.append_assoc]
    have hpoint : StartsWithoutDigit ('.' :: decimals ++ (exponent.elim [] exponentText ++ rest)) :=
      startsWithoutDigit_cons (by decide) _
    rw [htext, whole_append hspelling.whole hpoint, List.drop_left,
      readDecimals_append hdecimals hspelling.decimals hstart, Option.map_some, Option.getD_some,
      hexponent, hsome]
    cases exponent with
    | none => rfl
    | some n => rfl

/-! ## Whole numbers and fractions -/

/-- What starts with a digit is a number. -/
theorem readScalar_of_digit {c : Char} (h : Text.isAsciiDigit c = true) (s : List Char) :
    readScalar bound (c :: s) = readNumber bound false (c :: s) := by
  have hletters : 'n' ≠ c ∧ 't' ≠ c ∧ 'f' ≠ c ∧ 'N' ≠ c ∧ 'I' ≠ c ∧ '-' ≠ c := by
    refine ⟨?_, ?_, ?_, ?_, ?_, ?_⟩ <;> (rintro rfl; contradiction)
  rcases hletters with ⟨hn, ht, hf, hN, hI, hminus⟩
  unfold readScalar
  dsimp only
  split
  · next found hfound =>
      -- No word starts with a digit.
      simp [stripStart?, hn, ht, hf, hN, hI, hminus] at hfound
  · split
    · next heq => exact absurd (List.cons.inj heq).1.symm hminus
    · rfl

/-- What starts with a minus and a digit is a negative number. -/
theorem readScalar_of_minus {c : Char} (h : Text.isAsciiDigit c = true) (s : List Char) :
    readScalar bound ('-' :: c :: s) = readNumber bound true (c :: s) := by
  have hI : 'I' ≠ c := by
    rintro rfl
    contradiction
  simp [readScalar, stripStart?, hI]

/-- A sign and a number behind it. -/
theorem readScalar_signed {digits : List Char} (negative : Bool) (hdigits : IsWholePart digits)
    (rest : List Char) :
    readScalar bound ((if negative then ['-'] else []) ++ (digits ++ rest)) =
      readNumber bound negative (digits ++ rest) := by
  cases hsome : digits with
  | nil => exact absurd hsome hdigits.nonempty
  | cons c others =>
      have hc : Text.isAsciiDigit c = true := hdigits.isDigit c (by simp [hsome])
      cases negative with
      | true => exact readScalar_of_minus hc _
      | false => exact readScalar_of_digit hc _

/-- Whether a text starts like a number: with a minus or a digit. -/
def StartsLikeNumber (s : List Char) : Prop :=
  ∃ c rest, s = c :: rest ∧ (c = '-' ∨ Text.isAsciiDigit c = true)

/-- A sign and digits start like a number. -/
theorem startsLikeNumber_signed {digits : List Char} (negative : Bool)
    (hdigits : IsWholePart digits) (rest : List Char) :
    StartsLikeNumber ((if negative then ['-'] else []) ++ (digits ++ rest)) := by
  cases hsome : digits with
  | nil => exact absurd hsome hdigits.nonempty
  | cons c others =>
      cases negative with
      | true => exact ⟨'-', _, rfl, Or.inl rfl⟩
      | false => exact ⟨c, _, rfl, Or.inr (hdigits.isDigit c (by simp [hsome]))⟩

/-- The text of an integer is a sign and digits. -/
theorem toList_integerText (n : Int) (rest : List Char) :
    (integerText n).toList ++ rest =
      (if decide (n < 0) then ['-'] else []) ++ (naturalDigits n.natAbs ++ rest) := by
  simp [integerText]

/-- An integer that was written is read again, unless it is too long. -/
theorem readScalar_integerText (hbound : 0 < bound) {n : Int} (h : n.natAbs < Nat.pow 10 bound)
    (hrest : EndsNumber rest) :
    readScalar bound ((integerText n).toList ++ rest) = .ok (.int n, rest) := by
  have hdigits := isWholePart_naturalDigits n.natAbs
  have hlength : (naturalDigits n.natAbs).length ≤ bound :=
    (length_naturalDigits_le_iff hbound).mpr h
  have hvalue : signedInteger (decide (n < 0)) (naturalDigits n.natAbs) = n :=
    signedInteger_of_digitsValue (digitsValue_naturalDigits n.natAbs)
  rw [toList_integerText, readScalar_signed _ hdigits, readNumber_digits hdigits hrest, readInteger,
    if_pos hlength, hvalue]

/-- The text of a finite datum is a sign and a spelling of it. -/
theorem toList_writeFloat {x : Binary64} (h : x.isFinite = true) :
    ∃ spelling : Spelling, spelling.IsFraction ∧ spelling.datum x.negative = x ∧
      ∀ rest, (writeFloat x).toList ++ rest =
        (if x.negative then ['-'] else []) ++ (spelling.text ++ rest) := by
  rcases Binary64.exists_spelling h with ⟨spelling, hfraction, htext, hdatum⟩
  refine ⟨spelling, hfraction, hdatum, fun rest => ?_⟩
  rw [writeFloat, if_pos h, htext, String.toList_ofList, List.append_assoc]

/-- A finite datum that was written is read again. -/
theorem readScalar_writeFloat {x : Binary64} (h : x.isFinite = true) (hrest : EndsNumber rest) :
    readScalar bound ((writeFloat x).toList ++ rest) = .ok (.float x, rest) := by
  rcases toList_writeFloat h with ⟨spelling, hfraction, hdatum, htext⟩
  rw [htext, spelling.text_append, readScalar_signed _ hfraction.whole, ← spelling.text_append,
    readNumber_spelling hfraction hrest, hdatum]

/-- An integer starts like a number. -/
theorem startsLikeNumber_integerText (n : Int) (rest : List Char) :
    StartsLikeNumber ((integerText n).toList ++ rest) := by
  rw [toList_integerText]
  exact startsLikeNumber_signed _ (isWholePart_naturalDigits _) rest

/-- A finite datum starts like a number. -/
theorem startsLikeNumber_writeFloat {x : Binary64} (h : x.isFinite = true) (rest : List Char) :
    StartsLikeNumber ((writeFloat x).toList ++ rest) := by
  rcases toList_writeFloat h with ⟨spelling, hfraction, _, htext⟩
  rw [htext, spelling.text_append]
  exact startsLikeNumber_signed _ hfraction.whole _

end FilterQuery.Json
