/-!
# Text inside markup

The markup preview puts text between tags.  The five characters that mean something in markup are
replaced by their entities, so that no text can open or close a tag or an attribute.

Main results:

- `escapeMarkup_append`: escaping works character by character.
- `escapeMarkupChar_no_angle`: no escaped character holds an angle bracket.
-/

namespace FilterQuery.Text

/-- One character of a text inside markup. -/
def escapeMarkupChar : Char → List Char
  | '&' => ['&', 'a', 'm', 'p', ';']
  | '<' => ['&', 'l', 't', ';']
  | '>' => ['&', 'g', 't', ';']
  | '"' => ['&', 'q', 'u', 'o', 't', ';']
  | '\'' => ['&', '#', 'x', '2', '7', ';']
  | c => [c]

/-- A text as it stands inside markup. -/
def escapeMarkup (s : String) : String :=
  String.ofList (s.toList.flatMap escapeMarkupChar)

/-- Escaping works character by character. -/
theorem escapeMarkup_append (s t : String) :
    escapeMarkup (s ++ t) = escapeMarkup s ++ escapeMarkup t := by
  simp [escapeMarkup, String.toList_append, List.flatMap_append, String.ofList_append]

/-- No escaped character holds an angle bracket. -/
theorem escapeMarkupChar_no_angle (c : Char) :
    '<' ∉ escapeMarkupChar c ∧ '>' ∉ escapeMarkupChar c := by
  unfold escapeMarkupChar
  split
  all_goals simp_all [eq_comm]

end FilterQuery.Text
