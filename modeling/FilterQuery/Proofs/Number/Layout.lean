import FilterQuery.Number.Scientific
import FilterQuery.Proofs.Number.Binary64
import FilterQuery.Proofs.Number.Digits
import FilterQuery.Proofs.Padding

/-!
# What a layout spells

However a decimal number is laid out, it is spelled as digits before a point, digits behind it and
a power of ten, and the datum nearest to what is spelled is the one nearest to the number.

Main results:

- `readExponent_exponentText`: a power of ten that was written is read again.
- `exists_spelling`: a layout is a spelling of its number.
-/

namespace FilterQuery.Number

/-! ## Runs of digits -/

/-- Whether no digit stands at the start of a text. -/
def StartsWithoutDigit (s : List Char) : Prop :=
  ∀ c, s.head? = some c → Text.isAsciiDigit c = false

theorem startsWithoutDigit_cons {c : Char} (h : Text.isAsciiDigit c = false) (s : List Char) :
    StartsWithoutDigit (c :: s) := by
  intro d hd
  obtain rfl : c = d := Option.some.inj hd
  exact h

/-! ## Exponents -/

/-- The digits of an exponent, of which there are two at least. -/
def exponentDigits (n : Nat) : List Char :=
  if (naturalDigits n).length < 2 then '0' :: naturalDigits n else naturalDigits n

theorem exponentText_eq (exponent : Int) :
    exponentText exponent =
      'e' :: (if exponent < 0 then '-' else '+') :: exponentDigits exponent.natAbs :=
  rfl

/-- The digits of an exponent are digits, and denote it. -/
theorem exponentDigits_spec (n : Nat) :
    exponentDigits n ≠ [] ∧ (∀ c ∈ exponentDigits n, Text.isAsciiDigit c = true) ∧
      Text.digitsValue (exponentDigits n) = n := by
  have hnatural := isWholePart_naturalDigits n
  unfold exponentDigits
  split
  · refine ⟨by simp, ?_, ?_⟩
    · intro c hc
      rcases List.mem_cons.mp hc with rfl | hc
      · rfl
      · exact hnatural.isDigit c hc
    · rw [Text.digitsValue_zero_cons, digitsValue_naturalDigits]
  · exact ⟨hnatural.nonempty, hnatural.isDigit, digitsValue_naturalDigits n⟩

/-- An exponent that was written is read again. -/
theorem readExponent_exponentText (exponent : Int) {rest : List Char}
    (h : StartsWithoutDigit rest) :
    readExponent (exponentText exponent ++ rest) = some (exponent, rest) := by
  rcases exponentDigits_spec exponent.natAbs with ⟨hsome, hdigits, hvalue⟩
  rcases Text.span_append hdigits h with ⟨htake, hdrop⟩
  have hsigned := signedInteger_of_digitsValue hvalue
  rw [exponentText_eq]
  generalize exponentDigits exponent.natAbs = digits at *
  by_cases hnegative : exponent < 0
  · rw [decide_eq_true hnegative] at hsigned
    simp [readExponent, hnegative, htake, hdrop, hsome, hsigned]
  · rw [decide_eq_false hnegative] at hsigned
    simp [readExponent, hnegative, htake, hdrop, hsome, hsigned]

/-! ## Spellings -/

/-- How a number may be spelled: digits before a point, digits behind it, and a power of ten. -/
structure Spelling where
  whole : List Char
  decimals : List Char
  exponent : Option Int

namespace Spelling

/-- The text of a spelling, which has no point if no digit follows it. -/
def text (spelling : Spelling) : List Char :=
  spelling.whole ++ (if spelling.decimals.isEmpty then [] else '.' :: spelling.decimals) ++
    spelling.exponent.elim [] exponentText

/-- Digits behind the point are spelled with the point. -/
theorem text_of_decimals {spelling : Spelling} (h : spelling.decimals ≠ []) :
    spelling.text = spelling.whole ++ '.' :: spelling.decimals ++
      spelling.exponent.elim [] exponentText := by
  rw [text, if_neg (by simpa using h)]

/-- The whole part comes first. -/
theorem text_append (spelling : Spelling) (rest : List Char) :
    spelling.text ++ rest = spelling.whole ++
      ((if spelling.decimals.isEmpty then [] else '.' :: spelling.decimals) ++
        spelling.exponent.elim [] exponentText ++ rest) := by
  simp only [text, List.append_assoc]

/-- What makes a spelling that of a fraction: its digits are digits, and it has decimals or an
exponent. -/
structure IsFraction (spelling : Spelling) : Prop where
  whole : IsWholePart spelling.whole
  decimals : ∀ c ∈ spelling.decimals, Text.isAsciiDigit c = true
  notWhole : spelling.decimals ≠ [] ∨ spelling.exponent ≠ none

/-- The datum nearest to what is spelled. -/
def datum (negative : Bool) (spelling : Spelling) : Binary64 :=
  Binary64.ofDigits negative spelling.whole spelling.decimals (spelling.exponent.getD 0)

/-- Whether a spelling denotes the number of some digits moved to the left by `places`. -/
def Denotes (spelling : Spelling) (digits : List Char) (places : Int) : Prop :=
  ∃ added : Nat,
    Text.digitsValue (spelling.whole ++ spelling.decimals) =
        Text.digitsValue digits * 10 ^ added ∧
      spelling.exponent.getD 0 - spelling.decimals.length + added = places

/-- The datum nearest to what is spelled is the one nearest to what is denoted. -/
theorem datum_of_denotes {spelling : Spelling} {digits : List Char} {places : Int}
    (h : spelling.Denotes digits places) (negative : Bool) :
    spelling.datum negative = Binary64.ofDecimal negative (Text.digitsValue digits) places := by
  rcases h with ⟨added, hdigits, hplaces⟩
  rw [datum, Binary64.ofDigits, hdigits, Binary64.ofDecimal_mul_pow, hplaces]

variable {digits : List Char}

/-- A number below one is spelled with zeros behind the point. -/
theorem belowOne_spec (hsome : digits ≠ []) (hdigits : ∀ c ∈ digits, Text.isAsciiDigit c = true)
    (zeros : Nat) :
    let spelling : Spelling := ⟨['0'], List.replicate zeros '0' ++ digits, none⟩
    spelling.IsFraction ∧ spelling.Denotes digits (-(zeros + digits.length : Nat)) := by
  refine ⟨⟨⟨by simp, by simp [Text.isAsciiDigit], fun _ => rfl⟩, ?_, Or.inl (by simp [hsome])⟩,
    0, ?_, ?_⟩
  · intro c hc
    rcases List.mem_append.mp hc with hzero | hc
    · rw [List.eq_of_mem_replicate hzero]
      rfl
    · exact hdigits c hc
  · simp [Text.digitsValue_append]
  · simp

/-- Digits before the point do not start with a zero if the number does not. -/
theorem isWholePart_take (hsome : digits ≠ [])
    (hdigits : ∀ c ∈ digits, Text.isAsciiDigit c = true) (hfirst : digits.head? ≠ some '0')
    {count : Nat} (hcount : 0 < count) (zeros : Nat) :
    IsWholePart (digits.take count ++ List.replicate zeros '0') := by
  obtain ⟨count, rfl⟩ : ∃ before, count = before + 1 := ⟨count - 1, by omega⟩
  cases digits with
  | nil => contradiction
  | cons first others =>
      refine ⟨by simp, fun c hc => ?_, fun hzero => absurd hzero hfirst⟩
      rcases List.mem_append.mp hc with htaken | hzero
      · exact hdigits c (List.mem_of_mem_take htaken)
      · rw [List.eq_of_mem_replicate hzero]
        rfl

/-- A number of `count` digits before the point is spelled with zeros up to the point, and with a
zero behind it if nothing else stands there. -/
theorem positional_spec (hsome : digits ≠ []) (hdigits : ∀ c ∈ digits, Text.isAsciiDigit c = true)
    (hfirst : digits.head? ≠ some '0') {count : Nat} (hcount : 0 < count) :
    let spelling : Spelling :=
      ⟨digits.take count ++ List.replicate (count - digits.length) '0',
        if (digits.drop count).isEmpty then ['0'] else digits.drop count, none⟩
    spelling.IsFraction ∧ spelling.Denotes digits (count - digits.length) := by
  have hwhole := isWholePart_take hsome hdigits hfirst hcount (count - digits.length)
  by_cases hlength : digits.length ≤ count
  · have hdrop : digits.drop count = [] := List.drop_eq_nil_of_le hlength
    have htake : digits.take count = digits := List.take_of_length_le hlength
    simp only [hdrop, List.isEmpty_nil, if_true]
    refine ⟨⟨hwhole, by simp [Text.isAsciiDigit], Or.inl (by simp)⟩,
      count - digits.length + 1, ?_, ?_⟩
    · have hzeros : List.replicate (count - digits.length) '0' ++ ['0'] =
          List.replicate (count - digits.length + 1) '0' := (List.replicate_succ').symm
      simp only [htake, List.append_assoc, hzeros, Text.digitsValue_append,
        Text.digitsValue_replicate_zero, List.length_replicate, Nat.add_zero]
    · simp only [Option.getD_none, List.length_singleton]
      omega
  · have hnone : count - digits.length = 0 := by omega
    have hdrop : (digits.drop count).isEmpty = false := by
      rw [List.isEmpty_eq_false_iff]
      exact List.drop_eq_nil_iff.not.mpr hlength
    rw [hnone] at hwhole
    simp only [hdrop, hnone, Bool.false_eq_true, if_false]
    refine ⟨⟨hwhole, fun c hc => hdigits c (List.mem_of_mem_drop hc), Or.inl ?_⟩, 0, ?_, ?_⟩
    · exact List.isEmpty_eq_false_iff.mp hdrop
    · simp
    · simp only [Option.getD_none, List.length_drop]
      omega

/-- A number may be spelled with one digit before the point and a power of ten. -/
theorem scientific_spec {first : Char} {others : List Char}
    (hdigits : ∀ c ∈ first :: others, Text.isAsciiDigit c = true) (exponent : Int) :
    let spelling : Spelling := ⟨[first], others, some exponent⟩
    spelling.IsFraction ∧ spelling.Denotes (first :: others) (exponent - others.length) := by
  rcases List.forall_mem_cons.mp hdigits with ⟨hfirst, hothers⟩
  refine ⟨⟨⟨by simp, by simpa using hfirst, ?_⟩, hothers, Or.inr (by simp)⟩, 0, ?_, ?_⟩
  · intro hzero
    obtain rfl : first = '0' := Option.some.inj hzero
    rfl
  · simp
  · simp

end Spelling

namespace DecimalForm

/-- A layout is a spelling of its number. -/
theorem exists_spelling {form : DecimalForm} (h : 0 < form.digits) :
    ∃ spelling : Spelling, spelling.IsFraction ∧ spelling.text = form.layout ∧
      ∀ negative, spelling.datum negative =
        Binary64.ofDecimal negative form.digits form.power := by
  rcases exists_digitsValue_significantDigits h with ⟨zeros, hlength, hvalue⟩
  rcases significantDigits_spec h with ⟨hsome, hdigits, hfirst⟩
  have hdatum : ∀ spelling : Spelling,
      spelling.Denotes (significantDigits form.digits) (form.power + zeros) →
      ∀ negative, spelling.datum negative =
        Binary64.ofDecimal negative form.digits form.power := by
    intro spelling hdenotes negative
    rw [Spelling.datum_of_denotes hdenotes, ← Binary64.ofDecimal_mul_pow, ← hvalue]
  unfold layout
  dsimp only
  rw [hlength]
  generalize hleading : (((significantDigits form.digits).length + zeros : Nat) : Int) +
    form.power - 1 = leading
  generalize significantDigits form.digits = digits at *
  have hpos : 0 < digits.length := List.length_pos_iff.mpr hsome
  split
  · split
    · rcases Spelling.belowOne_spec hsome hdigits (-leading - 1).toNat with ⟨hfraction, hdenotes⟩
      have hplaces :
          -(((-leading - 1).toNat + digits.length : Nat) : Int) = form.power + zeros := by
        omega
      rw [hplaces] at hdenotes
      exact ⟨_, hfraction, by simp [Spelling.text, hsome], hdatum _ hdenotes⟩
    · rcases Spelling.positional_spec hsome hdigits hfirst (Nat.succ_pos leading.toNat) with
        ⟨hfraction, hdenotes⟩
      have hplaces : ((leading.toNat.succ : Nat) : Int) - digits.length = form.power + zeros := by
        omega
      rw [hplaces] at hdenotes
      refine ⟨_, hfraction, ?_, hdatum _ hdenotes⟩
      have hdecimals := hfraction.notWhole.resolve_right (fun hnone => hnone rfl)
      rw [Spelling.text_of_decimals hdecimals, Option.elim_none, List.append_nil]
  · cases digits with
    | nil => contradiction
    | cons first others =>
        rcases Spelling.scientific_spec hdigits leading with ⟨hfraction, hdenotes⟩
        have hplaces : leading - (others.length : Int) = form.power + zeros := by
          rw [← hleading, List.length_cons]
          omega
        rw [hplaces] at hdenotes
        refine ⟨_, hfraction, ?_, hdatum _ hdenotes⟩
        cases others with
        | nil => simp [Spelling.text]
        | cons second others => simp [Spelling.text]

end DecimalForm

namespace Binary64

/-- A datum that is zero is the zero of its sign. -/
theorem eq_zero_of_isZero {x : Binary64} (h : x.isZero = true) : x = zero x.negative := by
  have hparts : x.exponent.val = 0 ∧ x.fraction.val = 0 := by simpa [isZero] using h
  have hfinite : x.isFinite = true := by simp [isFinite, hparts.1]
  have hword : x.word = 0 := by rw [word, hparts.1, hparts.2, Nat.zero_mul]
  rw [zero, ← hword, ofWord_word hfinite]

/-- The shortest digits of a datum that is not zero are not zero. -/
theorem digits_shortest_pos {x : Binary64} (hfinite : x.isFinite = true)
    (hzero : x.isZero = false) : 0 < x.shortest.digits := by
  have hshortest := ofDecimal_shortest hfinite hzero
  generalize x.shortest = form at hshortest
  refine Nat.pos_of_ne_zero fun hnone => ?_
  have hx : zero x.negative = x := by rwa [ofDecimal, if_pos hnone] at hshortest
  rw [← hx] at hzero
  cases x.negative <;> contradiction

/-- Every finite datum has a text that spells it. -/
theorem exists_spelling {x : Binary64} (h : x.isFinite = true) :
    ∃ spelling : Spelling, spelling.IsFraction ∧
      x.text = String.ofList ((if x.negative then ['-'] else []) ++ spelling.text) ∧
      spelling.datum x.negative = x := by
  have hexponent : x.exponent.val ≠ 2047 := by simpa [isFinite] using h
  have hnumber : x.isNaN = false := by simp [isNaN, hexponent]
  cases hzero : x.isZero with
  | true =>
      refine ⟨⟨['0'], ['0'], none⟩, ?_, ?_, (eq_zero_of_isZero hzero).symm⟩
      · exact ⟨⟨by simp, by simp [Text.isAsciiDigit], fun _ => rfl⟩, by simp [Text.isAsciiDigit],
          Or.inl (by simp)⟩
      · simp [text, hnumber, h, hzero, Spelling.text]
  | false =>
      rcases DecimalForm.exists_spelling (digits_shortest_pos h hzero) with
        ⟨spelling, hfraction, htext, hdatum⟩
      refine ⟨spelling, hfraction, ?_, (hdatum _).trans (ofDecimal_shortest h hzero)⟩
      simp [text, hnumber, h, hzero, htext]

end Binary64

end FilterQuery.Number
