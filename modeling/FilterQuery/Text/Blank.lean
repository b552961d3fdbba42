/-!
# Blank characters

Text that comes from forms is often padded, and a field that holds only padding counts as not
filled in.  This file fixes which characters are padding: those that Unicode classes as white
space, and the four information separators U+001C to U+001F.  The zero-width space U+200B and the
byte-order mark U+FEFF are not padding.  Numbers in settings and in tables are stricter: around
them stands white space proper, or only that of ASCII.

Main results:

- `trimBy_eq_nil_iff`: trimming leaves nothing exactly of text that is trimmed throughout.
-/

namespace FilterQuery.Text

/-- The white space of Unicode. -/
def isWhiteSpace (c : Char) : Bool :=
  let n := c.toNat
  (0x09 ≤ n && n ≤ 0x0d) || n == 0x20 || n == 0x85 || n == 0xa0 || n == 0x1680 ||
    (0x2000 ≤ n && n ≤ 0x200a) || n == 0x2028 || n == 0x2029 || n == 0x202f || n == 0x205f ||
    n == 0x3000

/-- The white space of ASCII: the space, the two tabs, the form feed and the two line ends. -/
def isAsciiSpace (c : Char) : Bool :=
  (0x09 ≤ c.toNat && c.toNat ≤ 0x0d) || c == ' '

/-- Padding: what may stand around a text without being part of it. -/
def isBlankChar (c : Char) : Bool :=
  isWhiteSpace c || (0x1c ≤ c.toNat && c.toNat ≤ 0x1f)

/-- The characters without those of a class at either end. -/
def trimBy (p : Char → Bool) (s : List Char) : List Char :=
  ((s.dropWhile p).reverse.dropWhile p).reverse

/-- The characters without the padding at either end. -/
def trimChars (s : List Char) : List Char :=
  trimBy isBlankChar s

/-- A text without the padding at either end. -/
def trim (s : String) : String :=
  String.ofList (trimChars s.toList)

/-- Whether a text holds nothing but padding. -/
def isBlank (s : String) : Bool :=
  s.toList.all isBlankChar

/-- Dropping the characters of a class leaves nothing exactly of text that is in the class. -/
theorem dropWhile_eq_nil_iff_all {p : Char → Bool} {s : List Char} :
    s.dropWhile p = [] ↔ s.all p = true := by
  induction s with
  | nil => simp
  | cons c rest ih =>
      cases h : p c <;> simp [List.dropWhile, h, ih]

/-- Trimming leaves nothing exactly of text that is trimmed throughout. -/
theorem trimBy_eq_nil_iff {p : Char → Bool} {s : List Char} :
    trimBy p s = [] ↔ s.all p = true := by
  constructor
  · intro h
    have hdrop : (s.dropWhile p).reverse.dropWhile p = [] := List.reverse_eq_nil_iff.mp h
    rw [dropWhile_eq_nil_iff_all, List.all_reverse] at hdrop
    have hsplit := List.takeWhile_append_dropWhile (p := p) (l := s)
    rw [← hsplit, List.all_append, Bool.and_eq_true]
    exact ⟨by simp [List.all_takeWhile], hdrop⟩
  · intro h
    simp [trimBy, dropWhile_eq_nil_iff_all.mpr h]

/-- Trimming leaves nothing exactly of text that is blank throughout. -/
theorem trimChars_eq_nil_iff {s : List Char} : trimChars s = [] ↔ s.all isBlankChar = true :=
  trimBy_eq_nil_iff

end FilterQuery.Text
