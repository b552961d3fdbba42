import FilterQuery.Proofs.Json.Number
import FilterQuery.Text.Terminal

/-!
# The characters that are written

What is written consists of the printable characters of ASCII and, where it takes several lines, of
line feeds.  So it holds no control sequence and no carriage return, and is printed as it is.

Main results:

- `Text.printed_of_lineChars`: text of such characters is printed as it is.
- `isLineChar_of_mem_writeText`, `isLineChar_of_mem_integerText`, `isLineChar_of_mem_writeFloat`:
  texts and numbers are written in them.
-/

namespace FilterQuery

open Number

namespace Text

/-- Whether a character is a printable one of ASCII, or ends a line. -/
def isLineChar (c : Char) : Bool :=
  c == '\n' || (decide (0x20 ≤ c.toNat) && decide (c.toNat ≤ 0x7e))

/-- A printable character of ASCII may stand in a line. -/
theorem isLineChar_of_bounds {c : Char} (h : 0x20 ≤ c.toNat ∧ c.toNat ≤ 0x7e) :
    isLineChar c = true := by
  simp [isLineChar, h]

/-- So may a digit. -/
theorem isLineChar_of_isAsciiDigit {c : Char} (h : isAsciiDigit c = true) :
    isLineChar c = true := by
  have hbounds := toNat_bounds_of_isAsciiDigit h
  exact isLineChar_of_bounds (by omega)

/-- So may a hexadecimal digit. -/
theorem isLineChar_of_mem_hexDigits {c : Char} {width n : Nat} (h : c ∈ hexDigits width n) :
    isLineChar c = true := by
  have hdigit : ∀ m < 16, isLineChar (hexDigit m) = true := by decide
  induction width generalizing n with
  | zero => contradiction
  | succ width ih =>
      rw [hexDigits, List.mem_append, List.mem_singleton] at h
      rcases h with hfront | rfl
      · exact ih hfront
      · exact hdigit _ (Nat.mod_lt n (by decide))

/-- Text of such characters is printed as it is. -/
theorem printed_of_lineChars {s : String} (h : ∀ c ∈ s.toList, isLineChar c = true) :
    printed s = s := by
  have hmark : escapeMark ∉ s.toList := fun hmem => by
    have hline := h _ hmem
    revert hline
    decide
  have hreturn : '\r' ∉ s.toList := fun hmem => by
    have hline := h _ hmem
    revert hline
    decide
  rw [printed, withoutSequences_eq_self hmark, unixLines_eq_self hreturn, String.ofList_toList]

end Text

namespace Json

open Text

/-- A character of a text is written in such characters. -/
theorem isLineChar_of_mem_escapeChar {c d : Char} (h : d ∈ escapeChar c) :
    isLineChar d = true := by
  have hunit : ∀ n, d ∈ escapeUnit n → isLineChar d = true := by
    intro n hd
    rw [escapeUnit, List.mem_cons, List.mem_cons] at hd
    rcases hd with rfl | rfl | hdigit
    · decide
    · decide
    · exact isLineChar_of_mem_hexDigits hdigit
  have hletters : ∀ s : List Char, s.all isLineChar = true → d ∈ s → isLineChar d = true :=
    fun s hs hd => List.all_eq_true.mp hs d hd
  unfold escapeChar at h
  split at h
  case h_8 =>
      dsimp only at h
      split at h
      · next hbounds =>
          rw [List.mem_singleton.mp h]
          exact isLineChar_of_bounds hbounds
      · split at h
        · exact hunit _ h
        · exact (List.mem_append.mp h).elim (hunit _) (hunit _)
  all_goals exact hletters _ (by decide) h

/-- So is a text. -/
theorem isLineChar_of_mem_writeText {s : String} {c : Char} (h : c ∈ (writeText s).toList) :
    isLineChar c = true := by
  rw [writeText, String.toList_ofList, List.mem_cons, List.mem_append, List.mem_singleton,
    List.mem_flatMap] at h
  rcases h with rfl | ⟨d, _, hd⟩ | rfl
  · decide
  · exact isLineChar_of_mem_escapeChar hd
  · decide

/-- A sign may stand in front. -/
theorem isLineChar_of_mem_signed {c : Char} {negative : Bool} {s : List Char}
    (hs : ∀ d ∈ s, isLineChar d = true) (h : c ∈ (if negative then ['-'] else []) ++ s) :
    isLineChar c = true := by
  rcases List.mem_append.mp h with hsign | hrest
  · cases negative with
    | true =>
        rw [List.mem_singleton.mp hsign]
        decide
    | false => contradiction
  · exact hs c hrest

/-- An integer is written in such characters. -/
theorem isLineChar_of_mem_integerText {n : Int} {c : Char} (h : c ∈ (integerText n).toList) :
    isLineChar c = true := by
  have htext := toList_integerText n []
  rw [List.append_nil, List.append_nil] at htext
  rw [htext] at h
  refine isLineChar_of_mem_signed (fun d hd => ?_) h
  exact isLineChar_of_isAsciiDigit ((isWholePart_naturalDigits n.natAbs).isDigit d hd)

/-- So is an exponent. -/
theorem isLineChar_of_mem_exponentText {n : Int} {c : Char} (h : c ∈ exponentText n) :
    isLineChar c = true := by
  have hdigits : ∀ d ∈ naturalDigits n.natAbs, isLineChar d = true := fun d hd =>
    isLineChar_of_isAsciiDigit ((isWholePart_naturalDigits n.natAbs).isDigit d hd)
  rw [exponentText, List.mem_cons, List.mem_cons] at h
  rcases h with rfl | rfl | hrest
  · decide
  · split <;> decide
  · split at hrest
    · rcases List.mem_cons.mp hrest with rfl | hdigit
      · decide
      · exact hdigits c hdigit
    · exact hdigits c hrest

/-- So is the spelling of a fraction. -/
theorem isLineChar_of_mem_spelling {spelling : Spelling} (hspelling : spelling.IsFraction)
    {c : Char} (h : c ∈ spelling.text) : isLineChar c = true := by
  rw [Spelling.text, List.mem_append, List.mem_append] at h
  rcases h with (hwhole | hdecimals) | hexponent
  · exact isLineChar_of_isAsciiDigit (hspelling.whole.isDigit c hwhole)
  · split at hdecimals
    · contradiction
    · rcases List.mem_cons.mp hdecimals with rfl | hdigit
      · decide
      · exact isLineChar_of_isAsciiDigit (hspelling.decimals c hdigit)
  · cases hsome : spelling.exponent with
    | none =>
        rw [hsome] at hexponent
        contradiction
    | some n =>
        rw [hsome] at hexponent
        exact isLineChar_of_mem_exponentText hexponent

/-- So is a finite datum. -/
theorem isLineChar_of_mem_writeFloat {x : Binary64} (hfinite : x.isFinite = true) {c : Char}
    (h : c ∈ (writeFloat x).toList) : isLineChar c = true := by
  rcases toList_writeFloat hfinite with ⟨spelling, hspelling, _, htext⟩
  have hchars := htext []
  rw [List.append_nil, List.append_nil] at hchars
  rw [hchars] at h
  exact isLineChar_of_mem_signed (fun d hd => isLineChar_of_mem_spelling hspelling hd) h

end Json

end FilterQuery
