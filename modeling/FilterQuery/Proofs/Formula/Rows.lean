import FilterQuery.Proofs.Formula
import FilterQuery.Rows.Grouping

/-!
# Formulas of rows

Rows are a formula as well: each row is joined, by the relation in front of the next one, to what
stands below it.  Whatever joins items from the right, and takes a shortcut where the relation is
the same throughout, reads this formula.

Main results:

- `chain_traverse`: replacing the atoms commutes with joining from the right.
- `foldRight_eq_read_chain`: a fold from the right is a reading of the formula.
- `joinAll_eq_foldRight`: the shortcut comes to the same as the fold.
- `joinAll_eq_read_formula?`: the way in which rows are joined is a reading of their formula.
-/

namespace FilterQuery

variable {α β ε : Type}

/-! ## Joining from the right -/

namespace Formula

/-- Atoms joined from the right, each by the relation in front of the next one. -/
def chain : α → List (Relation × α) → Formula α
  | first, [] => atom first
  | first, (relation, next) :: below =>
      junction relation (atom first :: (chain next below).parts relation)

@[simp]
theorem chain_nil (first : α) : chain first [] = atom first :=
  rfl

/-- What stands below an atom is taken apart if it is joined by the relation in front of it. -/
theorem chain_cons (first next : α) (relation : Relation) (below : List (Relation × α)) :
    chain first ((relation, next) :: below) =
      junction relation (atom first :: (chain next below).parts relation) :=
  rfl

/-- Where the relation does not change, the atoms stand side by side. -/
theorem parts_chain_of_uniform {relation : Relation} (first : α) {below : List (Relation × α)}
    (h : ∀ item ∈ below, item.1 = relation) :
    (chain first below).parts relation = (first :: below.map Prod.snd).map atom := by
  induction below generalizing first with
  | nil => rfl
  | cons item rest ih =>
      rcases item with ⟨inner, next⟩
      obtain rfl : inner = relation := h (inner, next) (by simp)
      have hrest := ih next fun item hitem => h item (List.mem_cons_of_mem _ hitem)
      rw [chain_cons, parts_junction_self, hrest]
      rfl

/-- Atoms between which the relation does not change form a single group. -/
theorem chain_of_uniform {relation : Relation} (first : α) {below : List (Relation × α)}
    (hne : below ≠ []) (h : ∀ item ∈ below, item.1 = relation) :
    chain first below = junction relation ((first :: below.map Prod.snd).map atom) := by
  cases below with
  | nil => contradiction
  | cons item rest =>
      rcases item with ⟨inner, next⟩
      obtain rfl : inner = relation := h (inner, next) (by simp)
      have hrest := parts_chain_of_uniform next fun item hitem =>
        h item (List.mem_cons_of_mem _ hitem)
      rw [chain_cons, hrest]
      rfl

/-- Replacing the atoms commutes with joining from the right. -/
theorem chain_traverse (f : α → Except ε β) (first : α) (below : List (Relation × α)) :
    (chain first below).traverse f = do
      let a ← f first
      let others ← below.mapM fun item => (item.1, ·) <$> f item.2
      return chain a others := by
  induction below generalizing first with
  | nil => cases h : f first <;> simp [traverse, h]
  | cons item rest ih =>
      rcases item with ⟨relation, next⟩
      rw [chain_cons, traverse_junction, List.mapM_cons, parts_traverse, ih, traverse,
        List.mapM_cons]
      simp [chain_cons]

end Formula

/-! ## Reading the formula of rows -/

/-- A way of joining items from the right that reads formulas: a row in front of a last row makes
a group of both, a row in front of a group of its own relation becomes a part of it, and a group of
the other relation becomes a part.  A last row has to be `plain`, so that it is not taken for a
group. -/
structure JoinsFromRight (plain : α → Prop) (read : Formula α → β)
    (uniform : Relation → List β → β) (combine : Relation → Bool → β → β → β) : Prop where
  side_by_side : ∀ relation (items : List α),
    uniform relation (items.map fun a => read (.atom a)) =
      read (.junction relation (items.map .atom))
  last : ∀ relation first last, plain last →
    combine relation false (read (.atom first)) (read (.atom last)) =
      read (.junction relation [.atom first, .atom last])
  extended : ∀ relation first next parts,
    combine relation false (read (.atom first)) (read (.junction relation (.atom next :: parts))) =
      read (.junction relation (.atom first :: .atom next :: parts))
  nested : ∀ relation inner first parts, inner ≠ relation →
    combine relation true (read (.atom first)) (read (.junction inner parts)) =
      read (.junction relation [.atom first, .junction inner parts])

namespace Rows

/-- The formula of rows, each of which stands with the atom that it becomes. -/
def formula? (default : Relation) : List (Row × α) → Option (Formula α)
  | [] => none
  | (_, first) :: below =>
      some (.chain first (below.map fun item => (item.1.relation.getD default, item.2)))

/-- Replacing the atoms commutes with taking the formula. -/
theorem formula?_traverse (default : Relation) (f : α → Except ε β) (kept : List (Row × α)) :
    (formula? default kept).mapM (Formula.traverse f) =
      formula? default <$> kept.mapM fun item => (item.1, ·) <$> f item.2 := by
  cases kept with
  | nil => rfl
  | cons item below =>
      have hbelow : (below.map fun item : Row × α =>
          (item.1.relation.getD default, item.2)).mapM (fun item => (item.1, ·) <$> f item.2) =
            List.map (fun item : Row × β => (item.1.relation.getD default, item.2)) <$>
              below.mapM fun item => (item.1, ·) <$> f item.2 := by
        rw [List.mapM_map, ← Traversal.mapM_map_result]
        simp [Function.comp_def]
      rw [formula?, Option.mapM_some, Formula.chain_traverse, hbelow, List.mapM_cons]
      simp [formula?]

section Reading

variable {plain : α → Prop} {read : Formula α → β} {uniform : Relation → List β → β}
variable {combine : Relation → Bool → β → β → β}

/-- A fold from the right is a reading of the formula.  The fold looks at the relation in front of
an item only when it comes to the item above. -/
theorem foldRight_eq_read_chain (h : JoinsFromRight plain read uniform combine)
    (front : Option Relation) (first : α) {below : List (Relation × α)}
    (hplain : ∀ item ∈ below, plain item.2) :
    foldRight combine ((first :: below.map Prod.snd).map fun a => read (.atom a))
      (front :: below.map fun item => some item.1) = some (read (.chain first below)) := by
  induction below generalizing front first with
  | nil => rfl
  | cons item rest ih =>
      rcases item with ⟨relation, next⟩
      have hrest := ih (some relation) next fun item hitem =>
        hplain item (List.mem_cons_of_mem _ hitem)
      simp only [List.map_cons] at hrest ⊢
      rw [foldRight_cons_cons, List.tail_cons, hrest]
      simp only [List.getElem?_cons_succ, List.getElem?_cons_zero, Option.some.injEq]
      rw [Formula.chain_cons]
      -- What stands below is a last row, or a group whose relation is that of the row after next.
      cases rest with
      | nil => exact h.last relation first next (hplain (relation, next) (by simp))
      | cons item rest =>
          rcases item with ⟨inner, last⟩
          rw [Formula.chain_cons]
          by_cases hrel : inner = relation
          · subst hrel
            rw [Formula.parts_junction_self]
            simpa [nestsAt] using h.extended inner first next _
          · have hnests : (some inner != some relation) = true := by simpa using hrel
            rw [Formula.parts_junction_of_ne hrel]
            simpa [nestsAt, hnests] using h.nested relation inner first _ hrel

/-- A relation that joins all items stands in front of every item but the first. -/
theorem eq_of_uniform? {front : Option Relation} {below : List Relation} {relation : Relation}
    (h : uniform? (front :: below.map some) = some relation) :
    ∀ inner ∈ below, inner = relation := by
  cases below with
  | nil => simp
  | cons first rest =>
      simp only [uniform?, List.map_cons, List.tail_cons] at h
      split at h
      · next hall =>
          rcases Option.some.inj h with rfl
          simpa using hall
      · contradiction

/-- Items between which the relation is the same throughout are joined from the right as they are
joined at once. -/
theorem foldRight_of_uniform (h : JoinsFromRight plain read uniform combine)
    (front : Option Relation) (first : α) {below : List (Relation × α)} {relation : Relation}
    (hplain : ∀ item ∈ below, plain item.2) (hne : below ≠ [])
    (hsame : ∀ item ∈ below, item.1 = relation) :
    foldRight combine ((first :: below.map Prod.snd).map fun a => read (.atom a))
        (front :: below.map fun item => some item.1) =
      some (uniform relation ((first :: below.map Prod.snd).map fun a => read (.atom a))) := by
  rw [foldRight_eq_read_chain h front first hplain, Formula.chain_of_uniform first hne hsame,
    h.side_by_side]

/-- The shortcut makes no difference. -/
theorem joinAll_eq_foldRight (h : JoinsFromRight plain read uniform combine)
    (front : Option Relation) (first : α) {below : List (Relation × α)}
    (hplain : ∀ item ∈ below, plain item.2) :
    joinAll uniform combine ((first :: below.map Prod.snd).map fun a => read (.atom a))
        (front :: below.map fun item => some item.1) =
      foldRight combine ((first :: below.map Prod.snd).map fun a => read (.atom a))
        (front :: below.map fun item => some item.1) := by
  cases below with
  | nil => rfl
  | cons item rest =>
      cases huniform : uniform? (front :: (item :: rest).map fun item => some item.1) with
      | none =>
          simp only [List.map_cons] at huniform ⊢
          rw [joinAll_cons_cons, huniform]
      | some relation =>
          have hsame : ∀ lower ∈ item :: rest, lower.1 = relation := by
            have hmap : uniform? (front :: ((item :: rest).map Prod.fst).map some) =
                some relation := by
              rwa [List.map_map]
            have heq := eq_of_uniform? hmap
            intro lower hlower
            exact heq lower.1 (List.mem_map_of_mem hlower)
          rw [foldRight_of_uniform h front first hplain (List.cons_ne_nil item rest) hsame]
          simp only [List.map_cons] at huniform ⊢
          rw [joinAll_cons_cons, huniform]

/-- The way in which rows are joined is a reading of their formula. -/
theorem joinAll_eq_read_formula? (h : JoinsFromRight plain read uniform combine)
    (default : Relation) {kept : List (Row × α)} (hplain : ∀ item ∈ kept, plain item.2) :
    joinAll uniform combine (kept.map fun item => read (.atom item.2))
      (relations default (kept.map Prod.fst)) = (formula? default kept).map read := by
  cases kept with
  | nil => rfl
  | cons item rest =>
      let below := rest.map fun item : Row × α => (item.1.relation.getD default, item.2)
      have hitems : (item :: rest).map (fun item => read (.atom item.2)) =
          (item.2 :: below.map Prod.snd).map fun a => read (.atom a) := by
        simp [below, Function.comp_def]
      have hrelations : relations default ((item :: rest).map Prod.fst) =
          none :: below.map fun item => some item.1 := by
        simp [below, relations, Function.comp_def]
      have hbelow : ∀ item ∈ below, plain item.2 := by
        intro lower hlower
        rcases List.mem_map.mp hlower with ⟨row, hrow, rfl⟩
        exact hplain row (List.mem_cons_of_mem _ hrow)
      rw [formula?, Option.map_some, hitems, hrelations, joinAll_eq_foldRight h none item.2 hbelow,
        foldRight_eq_read_chain h none item.2 hbelow]

end Reading

end Rows

end FilterQuery
