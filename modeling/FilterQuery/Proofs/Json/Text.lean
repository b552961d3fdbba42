import FilterQuery.Json.Reader
import FilterQuery.Json.Writer

/-!
# Reading texts that were written

A character is written as itself, by a letter, or by the number of its one or two halves.  Whichever
it is, the reader comes to the numbers of its halves, and joins them to the character again.

Main results:

- `readUnits_escapeChar`: a character that was written is read as its units.
- `joinPairs_flatMap_charUnits`: the units of a text are joined to the text.
- `readText_writeText`: a text that was written is read again.
-/

namespace FilterQuery.Json

/-- The halves of a character: its number or, beyond the first 65536, a pair of numbers. -/
def charUnits (c : Char) : List Nat :=
  if c.toNat < 0x10000 then [c.toNat]
  else [0xd800 + (c.toNat - 0x10000) / 0x400, 0xdc00 + (c.toNat - 0x10000) % 0x400]

/-- The two halves of a character beyond the first 65536 are numbers of four digits. -/
theorem large_bounds {c : Char} (h : 0x10000 ≤ c.toNat) :
    0xd800 + (c.toNat - 0x10000) / 0x400 < 0x10000 ∧
      0xdc00 + (c.toNat - 0x10000) % 0x400 < 0x10000 := by
  have hvalid : c.toNat < 0xd800 ∨ 0xdfff < c.toNat ∧ c.toNat < 0x110000 := c.valid
  omega

/-! ## Units -/

/-- Four digits are read as the number that they were written for. -/
theorem fourDigits?_hexDigits {n : Nat} (h : n < 0x10000) :
    ∃ a b c d, Text.hexDigits 4 n = [a, b, c, d] ∧ fourDigits? a b c d = some n := by
  have hdigit : ∀ m, Text.hexValue? (Text.hexDigit (m % 16)) = some (m % 16) := fun m =>
    Text.hexValue?_hexDigit (Nat.mod_lt m (by decide))
  refine ⟨_, _, _, _, rfl, ?_⟩
  simp only [fourDigits?, hdigit, Option.bind_eq_bind, Option.bind_some, Option.pure_def,
    Option.some.injEq]
  omega

/-- A unit that was written by number is read again. -/
theorem readUnits_escapeUnit {n : Nat} (h : n < 0x10000) (rest : List Char) :
    readUnits (escapeUnit n ++ rest) =
      (readUnits rest).map fun (units, after) => (n :: units, after) := by
  rcases fourDigits?_hexDigits h with ⟨a, b, c, d, hdigits, hvalue⟩
  have htext : escapeUnit n ++ rest = '\\' :: 'u' :: a :: b :: c :: d :: rest := by
    rw [escapeUnit, hdigits]
    rfl
  rw [htext, readUnits.eq_3, hvalue]
  cases readUnits rest <;> rfl

/-- A character that was written by a letter is read again. -/
theorem readUnits_letter {letter : Char} {n : Nat} (hletter : letter ≠ 'u')
    (h : escaped? letter = some n) (rest : List Char) :
    readUnits ('\\' :: letter :: rest) =
      (readUnits rest).map fun (units, after) => (n :: units, after) := by
  rw [readUnits.eq_4 _ _ fun _ _ _ _ _ hu => absurd hu hletter, h]
  cases readUnits rest <;> rfl

/-- A character that was written as itself is read again. -/
theorem readUnits_plain {c : Char} (hquote : c ≠ '"') (hslash : c ≠ '\\') (h : 0x20 ≤ c.toNat)
    (rest : List Char) :
    readUnits (c :: rest) =
      (readUnits rest).map fun (units, after) => (c.toNat :: units, after) := by
  have hgood : ¬(decide (c.toNat < 0x20) || c == '\\') = true := by simp [hslash, h]
  rw [readUnits.eq_5 c rest (fun heq => hquote heq) (fun _ _ _ _ _ heq => absurd heq hslash)
    (fun _ _ heq => absurd heq hslash), if_neg hgood]
  cases readUnits rest <;> rfl

/-- A character that was written is read as its units. -/
theorem readUnits_escapeChar (c : Char) (rest : List Char) :
    readUnits (escapeChar c ++ rest) =
      (readUnits rest).map fun (units, after) => (charUnits c ++ units, after) := by
  unfold escapeChar
  split
  case h_8 hquote hslash _ _ _ _ _ =>
      dsimp only
      split
      · next hplain =>
          have hunits : charUnits c = [c.toNat] := if_pos (by omega)
          rw [hunits]
          exact readUnits_plain hquote hslash hplain.1 rest
      · split
        · next hsmall =>
            have hunits : charUnits c = [c.toNat] := if_pos hsmall
            rw [hunits]
            exact readUnits_escapeUnit hsmall rest
        · next hlarge =>
            rcases large_bounds (Nat.le_of_not_lt hlarge) with ⟨hhigh, hlow⟩
            rw [charUnits, if_neg hlarge, List.append_assoc, readUnits_escapeUnit hhigh,
              readUnits_escapeUnit hlow]
            cases readUnits rest <;> rfl
  all_goals exact readUnits_letter (by decide) rfl rest

/-- A text that was written is read as its units, up to the closing quote. -/
theorem readUnits_flatMap_escapeChar (s rest : List Char) :
    readUnits (s.flatMap escapeChar ++ '"' :: rest) = some (s.flatMap charUnits, rest) := by
  induction s with
  | nil => rfl
  | cons c s ih =>
      rw [List.flatMap_cons, List.append_assoc, readUnits_escapeChar, ih]
      rfl

/-! ## Characters -/

/-- A number that is not the first half of a pair is joined to a character alone. -/
theorem joinPairs_cons {n : Nat} (h : n < 0xd800 ∨ 0xdc00 ≤ n) (rest : List Nat) :
    joinPairs (n :: rest) = Char.ofNat n :: joinPairs rest := by
  cases rest with
  | nil => rfl
  | cons low rest =>
      have hsingle : ¬(decide (0xd800 ≤ n) && decide (n < 0xdc00) && decide (0xdc00 ≤ low) &&
          decide (low < 0xe000)) = true := by
        simp only [Bool.and_eq_true, decide_eq_true_eq]
        omega
      rw [joinPairs, if_neg hsingle]

/-- The two halves of a pair are joined to one character. -/
theorem joinPairs_pair {high low : Nat} (hhigh : 0xd800 ≤ high ∧ high < 0xdc00)
    (hlow : 0xdc00 ≤ low ∧ low < 0xe000) (rest : List Nat) :
    joinPairs (high :: low :: rest) =
      Char.ofNat (0x10000 + (high - 0xd800) * 0x400 + (low - 0xdc00)) :: joinPairs rest := by
  have hpair : (decide (0xd800 ≤ high) && decide (high < 0xdc00) && decide (0xdc00 ≤ low) &&
      decide (low < 0xe000)) = true := by
    simp only [Bool.and_eq_true, decide_eq_true_eq]
    omega
  rw [joinPairs, if_pos hpair]

/-- The units of a character are joined to the character. -/
theorem joinPairs_charUnits (c : Char) (rest : List Nat) :
    joinPairs (charUnits c ++ rest) = c :: joinPairs rest := by
  have hvalid : c.toNat < 0xd800 ∨ 0xdfff < c.toNat ∧ c.toNat < 0x110000 := c.valid
  unfold charUnits
  split
  · next hsmall =>
      rw [List.singleton_append, joinPairs_cons (by omega), Char.ofNat_toNat]
  · next hlarge =>
      have hwhole : 0x10000 + (0xd800 + (c.toNat - 0x10000) / 0x400 - 0xd800) * 0x400 +
          (0xdc00 + (c.toNat - 0x10000) % 0x400 - 0xdc00) = c.toNat := by
        omega
      rw [List.cons_append, List.singleton_append, joinPairs_pair (by omega) (by omega), hwhole,
        Char.ofNat_toNat]

/-- The units of a text are joined to the text. -/
theorem joinPairs_flatMap_charUnits (s : List Char) : joinPairs (s.flatMap charUnits) = s := by
  induction s with
  | nil => rfl
  | cons c s ih => rw [List.flatMap_cons, joinPairs_charUnits, ih]

/-- A text that was written is read again. -/
theorem readText_writeText (s : String) (rest : List Char) :
    readText (s.toList.flatMap escapeChar ++ '"' :: rest) = .ok (s, rest) := by
  rw [readText, readUnits_flatMap_escapeChar]
  dsimp only
  rw [joinPairs_flatMap_charUnits, String.ofList_toList]

end FilterQuery.Json
