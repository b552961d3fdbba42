import FilterQuery.Proofs.Json.Number
import Mathlib.Data.List.TakeWhile

/-!
# Where the reader stops at an integer

A text is either read or malformed, unless the reader comes to an integer with too many digits.
Such an integer stands in the text as it is, so a text without a long run of digits never stops
the reader.

Main results:

- `covers_readValue`: what a reading leaves over stands at the end of the text, and an integer is
  too long only where the text has a run of digits that is.
- `hasLongRun_of_read`: the reader stops only at a text with a long run of digits.
- `readBounded_replicate`: a digit that is repeated too often stops the reader.
-/

namespace FilterQuery.Json

open Number

variable {α β : Type} {bound : Nat} {s t : List Char}

/-- Whether a text has more than `bound` digits in a row. -/
def HasLongRun (bound : Nat) (s : List Char) : Prop :=
  ∃ run, run <:+: s ∧ bound < run.length ∧ ∀ c ∈ run, Text.isAsciiDigit c = true

/-- What a result says about the text that was read: what is left over stands at its end, and an
integer was too long only if the text has a run of digits that is. -/
def Covers (bound : Nat) (s : List Char) : Except ReadError (α × List Char) → Prop
  | .ok (_, rest) => rest <:+ s
  | .error .malformed => True
  | .error (.digitLimit _) => HasLongRun bound s

namespace Covers

/-- What is said about a text may be said about any text that ends in it. -/
theorem mono {result : Except ReadError (α × List Char)} (h : Covers bound s result)
    (hsuffix : s <:+ t) : Covers bound t result := by
  match result with
  | .ok (a, rest) => exact List.IsSuffix.trans h hsuffix
  | .error .malformed => trivial
  | .error (.digitLimit limit) =>
      rcases h with ⟨run, hrun, hlong, hdigits⟩
      exact ⟨run, hrun.trans hsuffix.isInfix, hlong, hdigits⟩

/-- A character in front may be passed over. -/
theorem cons {c : Char} {result : Except ReadError (α × List Char)} (h : Covers bound s result) :
    Covers bound (c :: s) result :=
  h.mono (List.suffix_cons c s)

/-- Blanks in front may be passed over. -/
theorem skip {result : Except ReadError (α × List Char)} (h : Covers bound (skipBlanks s) result) :
    Covers bound s result :=
  h.mono (List.dropWhile_suffix _)

/-- One reading after another: the second one reads what the first one left over. -/
theorem bind {first : Except ReadError (α × List Char)}
    {next : α × List Char → Except ReadError (β × List Char)} (hfirst : Covers bound s first)
    (hnext : ∀ a rest, Covers bound rest (next (a, rest))) : Covers bound s (first >>= next) := by
  match first with
  | .ok (a, rest) => exact (hnext a rest).mono hfirst
  | .error .malformed => trivial
  | .error (.digitLimit limit) => exact hfirst

/-- What is read may be changed. -/
theorem map {f : α → β} {result : Except ReadError (α × List Char)} (h : Covers bound s result) :
    Covers bound s (do let (a, rest) ← result; return (f a, rest)) :=
  h.bind fun _ rest => List.suffix_refl rest

end Covers

/-! ## The parts of a text -/

/-- What follows the blanks and the character behind them stands at the end of the text. -/
theorem suffix_of_skipBlanks {c : Char} {rest : List Char} (h : skipBlanks s = c :: rest) :
    rest <:+ s := by
  have hskip : skipBlanks s <:+ s := List.dropWhile_suffix _
  rw [h] at hskip
  exact (List.suffix_cons c rest).trans hskip

/-- What follows a beginning stands at the end of the text. -/
theorem stripStart?_suffix {word rest : List Char} (h : stripStart? word s = some rest) :
    rest <:+ s := by
  induction word generalizing s with
  | nil =>
      obtain rfl : s = rest := Option.some.inj h
      exact List.suffix_refl s
  | cons c word ih =>
      cases s with
      | nil => simp [stripStart?] at h
      | cons d s =>
          by_cases hc : c = d
          · rw [stripStart?, if_pos hc] at h
            exact (ih h).trans (List.suffix_cons d s)
          · simp [stripStart?, hc] at h

/-- A unit and the units after it are read when both are there. -/
theorem units_step_eq_some {u : Option Nat} {more : Option (List Nat × List Char)}
    {units : List Nat} {rest : List Char}
    (h : (do
      let unit ← u
      let (units, after) ← more
      return (unit :: units, after)) = some (units, rest)) :
    ∃ others, more = some (others, rest) := by
  rcases Option.bind_eq_some_iff.mp h with ⟨unit, -, h⟩
  rcases Option.bind_eq_some_iff.mp h with ⟨⟨others, after⟩, hmore, h⟩
  rcases Prod.mk.inj (Option.some.inj h) with ⟨-, rfl⟩
  exact ⟨others, hmore⟩

/-- What follows the closing quote stands at the end of the text. -/
theorem readUnits_suffix {units : List Nat} {rest : List Char}
    (h : readUnits s = some (units, rest)) : rest <:+ s := by
  induction s using readUnits.induct generalizing units with
  | case1 => simp [readUnits] at h
  | case2 after =>
      obtain ⟨-, rfl⟩ : [] = units ∧ after = rest := by simpa [readUnits] using h
      exact List.suffix_cons _ after
  | case3 a b c d after ih =>
      rw [readUnits] at h
      rcases units_step_eq_some h with ⟨others, hothers⟩
      exact (ih hothers).trans (List.suffix_append ['\\', 'u', a, b, c, d] after)
  | case4 letter after hunit ih =>
      rw [readUnits.eq_4 letter after hunit] at h
      rcases units_step_eq_some h with ⟨others, hothers⟩
      exact (ih hothers).trans (List.suffix_append ['\\', letter] after)
  | case5 c after hquote hunit hescape hbad =>
      rw [readUnits.eq_5 c after hquote hunit hescape, if_pos hbad] at h
      contradiction
  | case6 c after hquote hunit hescape hgood ih =>
      rw [readUnits.eq_5 c after hquote hunit hescape, if_neg hgood] at h
      rcases units_step_eq_some (u := some c.toNat) h with ⟨others, hothers⟩
      exact (ih hothers).trans (List.suffix_cons c after)

/-- A text that is read ends before what is left over. -/
theorem covers_readText (s : List Char) : Covers bound s (readText s) := by
  unfold readText
  cases h : readUnits s with
  | none => trivial
  | some result => exact readUnits_suffix h

/-! ## Numbers -/

/-- The digits behind a point end before what is left over. -/
theorem readDecimals_suffix {digits rest : List Char} (h : readDecimals s = some (digits, rest)) :
    rest <:+ s := by
  unfold readDecimals at h
  split at h
  · next after =>
      dsimp only at h
      split at h
      · contradiction
      · rcases Prod.mk.inj (Option.some.inj h) with ⟨-, rfl⟩
        exact (List.dropWhile_suffix _).trans (List.suffix_cons '.' after)
  · contradiction

/-- An exponent ends before what is left over. -/
theorem readExponent_suffix {power : Int} {rest : List Char}
    (h : readExponent s = some (power, rest)) : rest <:+ s := by
  unfold readExponent at h
  split at h
  · next letter after =>
      split at h
      · have hunsigned : (if after.head? == some '-' || after.head? == some '+' then after.tail
            else after) <:+ after := by
          split
          · exact List.tail_suffix after
          · exact List.suffix_refl after
        dsimp only at h
        generalize (if after.head? == some '-' || after.head? == some '+' then after.tail
          else after) = unsigned at h hunsigned
        split at h
        · contradiction
        · rcases Prod.mk.inj (Option.some.inj h) with ⟨-, rfl⟩
          exact ((List.dropWhile_suffix _).trans hunsigned).trans (List.suffix_cons _ after)
      · contradiction
  · contradiction

/-- Where a part of a number is missing, everything is left over. -/
theorem getD_suffix {part : Option (α × List Char)}
    (h : ∀ a rest, part = some (a, rest) → rest <:+ s) : (part.map (·.2)).getD s <:+ s := by
  cases part with
  | none => exact List.suffix_refl s
  | some found => exact h found.1 found.2 rfl

/-- The whole part of a number is a run of digits at its start. -/
theorem whole_prefix (s : List Char) :
    (if s.head? == some '0' then ['0'] else s.takeWhile Text.isAsciiDigit) <+: s ∧
      ∀ c ∈ if s.head? == some '0' then ['0'] else s.takeWhile Text.isAsciiDigit,
        Text.isAsciiDigit c = true := by
  by_cases hzero : s.head? = some '0'
  · rcases List.head?_eq_some_iff.mp hzero with ⟨rest, rfl⟩
    constructor
    · exact ⟨rest, rfl⟩
    · intro c hc
      obtain rfl : c = '0' := by simpa using hc
      rfl
  · rw [if_neg (by simpa using hzero)]
    exact ⟨List.takeWhile_prefix _, fun c hc => List.mem_takeWhile_imp hc⟩

/-- A number that is read ends before what is left over, and one that is too long has a run of
digits that is. -/
theorem covers_readNumber (negative : Bool) (s : List Char) :
    Covers bound s (readNumber bound negative s) := by
  rcases whole_prefix s with ⟨hstart, hdigits⟩
  unfold readNumber
  dsimp only
  generalize (if s.head? == some '0' then ['0'] else s.takeWhile Text.isAsciiDigit) = whole
    at hstart hdigits
  have hrest : s.drop whole.length <:+ s := List.drop_suffix _ s
  generalize s.drop whole.length = rest at hrest
  have hdecimals := (getD_suffix fun _ _ => readDecimals_suffix (s := rest)).trans hrest
  generalize ((readDecimals rest).map (·.2)).getD rest = afterDecimals at hdecimals
  have hafter := (getD_suffix fun _ _ => readExponent_suffix (s := afterDecimals)).trans hdecimals
  generalize ((readExponent afterDecimals).map (·.2)).getD afterDecimals = after at hafter
  split
  · trivial
  · split
    · unfold readInteger
      by_cases hlong : whole.length ≤ bound
      · rw [if_pos hlong]
        exact hafter
      · rw [if_neg hlong]
        exact ⟨whole, hstart.isInfix, Nat.lt_of_not_le hlong, hdigits⟩
    · exact hafter

/-- A word or a number that is read ends before what is left over. -/
theorem covers_readScalar (s : List Char) : Covers bound s (readScalar bound s) := by
  unfold readScalar
  dsimp only
  split
  · next found hfound =>
      rcases List.exists_of_findSome?_eq_some hfound with ⟨⟨word, value⟩, -, hword⟩
      rcases Option.map_eq_some_iff.mp hword with ⟨rest, hrest, rfl⟩
      exact stripStart?_suffix hrest
  · split
    · exact (covers_readNumber true _).cons
    · exact covers_readNumber false s

/-! ## Containers -/

mutual

/-- What a reading leaves over stands at the end of the text, and an integer is too long only where
the text has a run of digits that is. -/
theorem covers_readValue (bound : Nat) :
    ∀ (fuel : Nat) (s : List Char), Covers bound s (readValue bound fuel s)
  | 0, _ => trivial
  | fuel + 1, s => by
      unfold readValue
      split
      · next rest => exact (covers_readText rest).map.cons
      · next rest =>
          refine Covers.cons ?_
          split
          · next after h => exact suffix_of_skipBlanks h
          · exact (covers_readItems bound fuel _).map.skip
      · next rest =>
          refine Covers.cons ?_
          split
          · next after h => exact suffix_of_skipBlanks h
          · have hfields := covers_readFields bound fuel (skipBlanks rest)
            exact (hfields.map (f := fun fields => Value.object (withoutRepeats fields))).skip
      · exact covers_readScalar s

/-- The items of a list are read like any value. -/
theorem covers_readItems (bound : Nat) :
    ∀ (fuel : Nat) (s : List Char), Covers bound s (readItems bound fuel s)
  | 0, _ => trivial
  | fuel + 1, s => by
      unfold readItems
      refine (covers_readValue bound fuel s).bind fun item rest => ?_
      dsimp only
      split
      · next after h => exact suffix_of_skipBlanks h
      · next more h =>
          have hmore := (covers_readItems bound fuel (skipBlanks more)).map (f := (item :: ·))
          exact hmore.skip.mono (suffix_of_skipBlanks h)
      · trivial

/-- The fields of an object are read like any value. -/
theorem covers_readFields (bound : Nat) :
    ∀ (fuel : Nat) (s : List Char), Covers bound s (readFields bound fuel s)
  | 0, _ => trivial
  | fuel + 1, s => by
      unfold readFields
      split
      · next start =>
          refine Covers.cons ((covers_readText start).bind fun name rest => ?_)
          dsimp only
          split
          · next body hbody =>
              refine Covers.mono (Covers.skip ?_) (suffix_of_skipBlanks hbody)
              refine (covers_readValue bound fuel (skipBlanks body)).bind fun value rest => ?_
              dsimp only
              split
              · next after h => exact suffix_of_skipBlanks h
              · next more h =>
                  have hmore := (covers_readFields bound fuel (skipBlanks more)).map
                    (f := ((name, value) :: ·))
                  exact hmore.skip.mono (suffix_of_skipBlanks h)
              · trivial
          · trivial
      · trivial

end

/-! ## Whole texts -/

/-- The reader stops at an integer only if the text has a run of digits that is too long. -/
theorem hasLongRun_of_read {text : String} {limit : DigitLimit}
    (h : read text = .error (.digitLimit limit)) : HasLongRun maxDigits text.toList := by
  have hcovers := (covers_readValue maxDigits (text.length + 1) (skipBlanks text.toList)).skip
  rw [read, readBounded] at h
  cases hvalue : readValue maxDigits (text.length + 1) (skipBlanks text.toList) with
  | error error =>
      rw [hvalue] at h hcovers
      obtain rfl : error = .digitLimit limit := Except.error.inj h
      exact hcovers
  | ok result =>
      rcases result with ⟨value, rest⟩
      rw [hvalue] at h
      simp only [bind, Except.bind] at h
      split at h <;> simp [pure, Except.pure] at h

/-- A digit that is repeated may stand before a point. -/
theorem isWholePart_replicate (n : Nat) : IsWholePart (List.replicate (n + 1) '1') where
  nonempty := by simp
  isDigit c hc := by
    rw [List.eq_of_mem_replicate hc]
    rfl
  leading h := by simp [List.replicate_succ] at h

/-- A digit that is repeated too often stops the reader. -/
theorem readBounded_replicate {n : Nat} (h : bound ≤ n) :
    readBounded bound (String.ofList (List.replicate (n + 1) '1')) =
      .error (.digitLimit (.reading (n + 1))) := by
  have hdigits := isWholePart_replicate n
  have hlong : ¬(List.replicate (n + 1) '1').length ≤ bound := by
    rw [List.length_replicate]
    omega
  have hnumber : readScalar bound (List.replicate (n + 1) '1') =
      .error (.digitLimit (.reading (n + 1))) := by
    have hread : readScalar bound (List.replicate (n + 1) '1' ++ []) =
        readNumber bound false (List.replicate (n + 1) '1' ++ []) :=
      readScalar_signed false hdigits []
    rw [readNumber_digits hdigits endsNumber_nil, readInteger, if_neg hlong,
      List.length_replicate, List.append_nil] at hread
    exact hread
  have hblank : skipBlanks (List.replicate (n + 1) '1') = List.replicate (n + 1) '1' :=
    skipBlanks_of_not_blank (by decide) _
  have hvalue : ∀ fuel, readValue bound (fuel + 1) (List.replicate (n + 1) '1') =
      readScalar bound (List.replicate (n + 1) '1') := fun _ => rfl
  rw [readBounded, String.toList_ofList, hblank, hvalue, hnumber]
  rfl

end FilterQuery.Json
