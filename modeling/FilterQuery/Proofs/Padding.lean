import FilterQuery.Text.Blank
import Mathlib.Data.List.DropRight

/-!
# Padding and runs

Padding stands around a text without being part of it, so trimming does not see how much of it there
is.  A run of characters of a class ends where another character follows.

Main results:

- `exists_eq_append_trimBy`: what trimming takes from a text stands around it.
- `trimBy_append`: what is trimmed may stand around a text or not.
- `all_trimBy`: trimming keeps whether a text is in the class throughout.
- `span_append`: a run is split off the characters behind it.
-/

namespace FilterQuery.Text

variable {p : Char → Bool}

/-- What is left after trimming is in a class throughout only if everything was. -/
theorem all_trimBy (p : Char → Bool) (s : List Char) : (trimBy p s).all p = s.all p := by
  rw [Bool.eq_iff_iff, ← trimBy_eq_nil_iff (s := s)]
  constructor
  · intro h
    rw [trimBy, List.all_reverse, ← dropWhile_eq_nil_iff_all, List.dropWhile_idempotent] at h
    rw [trimBy, h, List.reverse_nil]
  · intro h
    rw [h, List.all_nil]

/-- A text is what is left of it after trimming and what was trimmed at either end. -/
theorem exists_eq_append_trimBy (p : Char → Bool) (s : List Char) :
    ∃ left right, left.all p = true ∧ right.all p = true ∧ s = left ++ trimBy p s ++ right := by
  have hback := List.takeWhile_append_dropWhile (p := p) (l := (s.dropWhile p).reverse)
  have hkept : s.dropWhile p = trimBy p s ++ ((s.dropWhile p).reverse.takeWhile p).reverse := by
    rw [trimBy, ← List.reverse_append, hback, List.reverse_reverse]
  refine ⟨s.takeWhile p, ((s.dropWhile p).reverse.takeWhile p).reverse, List.all_takeWhile, ?_, ?_⟩
  · rw [List.all_reverse]
    exact List.all_takeWhile
  · rw [List.append_assoc, ← hkept, List.takeWhile_append_dropWhile]

/-- Characters of the class that stand around a text are trimmed with it. -/
theorem trimBy_append {left right : List Char} (hleft : left.all p = true)
    (hright : right.all p = true) (s : List Char) :
    trimBy p (left ++ s ++ right) = trimBy p s := by
  by_cases hs : s.all p = true
  · have hall : (left ++ s ++ right).all p = true := by
      simp only [List.all_append, hleft, hs, hright, Bool.and_self]
    rw [trimBy_eq_nil_iff.mpr hall, trimBy_eq_nil_iff.mpr hs]
  · rw [List.all_eq_true] at hleft hright
    have hfront : (left ++ s ++ right).dropWhile p = s.dropWhile p ++ right := by
      have hsome : ¬(s.dropWhile p).isEmpty = true := by
        rwa [List.isEmpty_iff, dropWhile_eq_nil_iff_all]
      rw [List.append_assoc, List.dropWhile_append_of_pos hleft, List.dropWhile_append,
        if_neg hsome]
    have hreverse : ∀ c ∈ right.reverse, p c = true := by
      intro c hc
      exact hright c (List.mem_reverse.mp hc)
    rw [trimBy, hfront, List.reverse_append, List.dropWhile_append_of_pos hreverse, ← trimBy]

/-- Without characters of the class there is nothing to trim. -/
theorem trimBy_eq_self {s : List Char} (h : ∀ c ∈ s, p c = false) : trimBy p s = s := by
  have hdrop : ∀ t : List Char, (∀ c ∈ t, p c = false) → t.dropWhile p = t := by
    intro t ht
    cases t with
    | nil => rfl
    | cons c rest => rw [List.dropWhile_cons, ht c List.mem_cons_self, if_neg (by decide)]
  have hreverse : ∀ c ∈ s.reverse, p c = false := by
    intro c hc
    exact h c (List.mem_reverse.mp hc)
  rw [trimBy, hdrop s h, hdrop s.reverse hreverse, List.reverse_reverse]

/-- A run of characters of the class is split off what follows it, if that begins with a character
of another class. -/
theorem span_append {run rest : List Char} (hrun : ∀ c ∈ run, p c = true)
    (hrest : ∀ c, rest.head? = some c → p c = false) :
    (run ++ rest).takeWhile p = run ∧ (run ++ rest).dropWhile p = rest := by
  have hnone : rest.takeWhile p = [] ∧ rest.dropWhile p = rest := by
    cases rest with
    | nil => exact ⟨rfl, rfl⟩
    | cons c others =>
        have hc : p c = false := hrest c rfl
        simp [hc]
  rw [List.takeWhile_append_of_pos hrun, List.dropWhile_append_of_pos hrun, hnone.1, hnone.2,
    List.append_nil]
  exact ⟨rfl, rfl⟩

end FilterQuery.Text
