/-!
# Text for a terminal

Texts may hold sequences that make a terminal move or change colours.  In what is printed they
have no place: a sequence is an escape character, an opening bracket, parameters and a letter that
ends it, and it is left out as a whole.  What only begins like a sequence is printed as it is.
Line ends of two characters are printed as one line feed.

Main results:

- `withoutSequences_eq_self`: text without the escape character is printed in full.
- `unixLines_eq_self`: text without carriage returns keeps its lines.
-/

namespace FilterQuery.Text

/-- The character that a control sequence begins with. -/
def escapeMark : Char := '\x1b'

/-- Whether a character is a parameter of a control sequence. -/
def isParameter (c : Char) : Bool :=
  c == ';' || c == '?' || c.isDigit

/-- How many characters the control sequence takes that a text begins with, if it begins with
one. -/
def sequenceLength? (s : List Char) : Option Nat :=
  match s with
  | first :: '[' :: rest =>
      let parameters := rest.takeWhile isParameter
      match rest.dropWhile isParameter with
      | last :: _ =>
          if first == escapeMark && last.isAlpha then some (parameters.length + 3) else none
      | [] => none
  | _ => none

/-- A text without its control sequences, where the first `skipped` characters belong to one that
has been found. -/
def withoutSequencesFrom : Nat → List Char → List Char
  | _, [] => []
  | skipped + 1, _ :: rest => withoutSequencesFrom skipped rest
  | 0, c :: rest =>
      match sequenceLength? (c :: rest) with
      | some length => withoutSequencesFrom (length - 1) rest
      | none => c :: withoutSequencesFrom 0 rest

/-- A text without its control sequences. -/
def withoutSequences (s : List Char) : List Char :=
  withoutSequencesFrom 0 s

/-- A text whose lines end in one line feed each. -/
def unixLines : List Char → List Char
  | [] => []
  | '\r' :: '\n' :: rest => '\n' :: unixLines rest
  | c :: rest => c :: unixLines rest

/-- A text as it is printed. -/
def printed (s : String) : String :=
  String.ofList (unixLines (withoutSequences s.toList))

/-- A control sequence begins with the escape character. -/
theorem sequenceLength?_eq_none {c : Char} (h : c ≠ escapeMark) (rest : List Char) :
    sequenceLength? (c :: rest) = none := by
  have hmark : (c == escapeMark) = false := by simpa using h
  simp only [sequenceLength?]
  split
  · split
    · rename_i heq _ _
      simp_all
    · rfl
  · rfl

/-- Text without the escape character is printed in full. -/
theorem withoutSequences_eq_self {s : List Char} (h : escapeMark ∉ s) :
    withoutSequences s = s := by
  unfold withoutSequences
  induction s with
  | nil => rfl
  | cons c rest ih =>
      simp only [List.mem_cons, not_or] at h
      simp [withoutSequencesFrom, sequenceLength?_eq_none (Ne.symm h.1), ih h.2]

/-- Text without carriage returns keeps its lines. -/
theorem unixLines_eq_self {s : List Char} (h : '\r' ∉ s) : unixLines s = s := by
  induction s with
  | nil => rfl
  | cons c rest ih =>
      simp only [List.mem_cons, not_or] at h
      rw [unixLines, ih h.2]
      rintro tail rfl rfl
      exact h.1 rfl

end FilterQuery.Text
