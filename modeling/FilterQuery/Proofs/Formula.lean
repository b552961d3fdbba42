import FilterQuery.Proofs.Traversal
import FilterQuery.Relation

/-!
# Formulas

A formula is what is left of a filter when only its grouping counts: atoms, joined by relations.
It is the yardstick for the query and for the previews, which are made by walks of their own.

Formulas are joined so that a group never stands inside a group of the same relation, and a group
of nothing, or of one part, does not arise.

Main results:

- `join_append`: formulas that come first may be joined among themselves before the others are.
- `alternating_of_mem_join`: joining keeps formulas alternating.
- `atoms_traverse`: replacing the atoms of a formula replaces them in their order.
- `join_traverse`: replacing the atoms commutes with joining.
-/

namespace FilterQuery

/-- Atoms joined by relations. -/
inductive Formula (α : Type) where
  | atom (a : α)
  | junction (relation : Relation) (parts : List (Formula α))

namespace Formula

variable {α β ε : Type}

/-- What holds of atoms, and passes from the parts of a group to the group, holds of every
formula. -/
@[elab_as_elim, induction_eliminator]
theorem induction {motive : Formula α → Prop} (atom : ∀ a, motive (atom a))
    (junction : ∀ relation parts, (∀ part ∈ parts, motive part) →
      motive (junction relation parts)) : ∀ formula, motive formula
  | .atom a => atom a
  | .junction relation parts =>
      junction relation parts fun part _ => induction atom junction part

/-- The relation at the top of a formula that joins parts. -/
def relation? : Formula α → Option Relation
  | atom _ => none
  | junction relation _ => some relation

/-- The parts that a formula contributes to a group of a relation. -/
def parts (relation : Relation) : Formula α → List (Formula α)
  | atom a => [atom a]
  | junction inner parts => if inner = relation then parts else [junction inner parts]

/-- Formulas joined by a relation, if there are any. -/
def join (relation : Relation) : List (Formula α) → Option (Formula α)
  | [] => none
  | [formula] => some formula
  | formulas => some (junction relation (formulas.flatMap (parts relation)))

/-- Nothing is joined to nothing. -/
@[simp]
theorem join_nil (relation : Relation) : join relation ([] : List (Formula α)) = none :=
  rfl

/-- One part is joined to itself. -/
@[simp]
theorem join_singleton (relation : Relation) (formula : Formula α) :
    join relation [formula] = some formula :=
  rfl

/-- Two parts and more are joined to a group. -/
theorem join_cons_cons (relation : Relation) (first second : Formula α)
    (rest : List (Formula α)) :
    join relation (first :: second :: rest) =
      some (junction relation ((first :: second :: rest).flatMap (parts relation))) :=
  rfl

@[simp]
theorem parts_atom (relation : Relation) (a : α) : (atom a).parts relation = [atom a] :=
  rfl

/-- A group of the same relation is taken apart when it is joined. -/
@[simp]
theorem parts_junction_self (relation : Relation) (inner : List (Formula α)) :
    (junction relation inner).parts relation = inner := by
  simp [parts]

/-- A group of the other relation becomes a part. -/
theorem parts_junction_of_ne {relation other : Relation} (h : other ≠ relation)
    (inner : List (Formula α)) :
    (junction other inner).parts relation = [junction other inner] := by
  simp [parts, h]

/-- Formulas that come first may be joined among themselves before the others are. -/
theorem join_append (relation : Relation) (first second : List (Formula α)) :
    join relation (first ++ second) = join relation ((join relation first).toList ++ second) := by
  match first, second with
  | [], _ => rfl
  | [formula], _ => rfl
  | formula :: next :: rest, [] => rw [List.append_nil, List.append_nil, join_cons_cons]; rfl
  | formula :: next :: rest, other :: others =>
      have hparts : (junction relation ((formula :: next :: rest).flatMap (parts relation)) ::
          other :: others).flatMap (parts relation) =
            (formula :: next :: rest ++ other :: others).flatMap (parts relation) := by
        rw [List.flatMap_cons, parts_junction_self, List.flatMap_append]
      rw [join_cons_cons, Option.toList_some, List.singleton_append, join_cons_cons, hparts]
      rfl

/-! ## Alternation -/

/-- In an alternating formula every group has two parts or more, and none of them is a group of
the same relation. -/
inductive Alternating : Formula α → Prop
  | atom (a : α) : Alternating (atom a)
  | junction {relation : Relation} {parts : List (Formula α)} (two_le : 2 ≤ parts.length)
      (changes : ∀ part ∈ parts, part.relation? ≠ some relation)
      (inside : ∀ part ∈ parts, Alternating part) : Alternating (junction relation parts)

/-- An alternating formula contributes at least one part. -/
theorem Alternating.length_parts_pos {formula : Formula α} (h : formula.Alternating)
    (relation : Relation) : 0 < (formula.parts relation).length := by
  cases h with
  | atom a => simp
  | @junction inner parts two_le changes inside =>
      by_cases hrel : inner = relation
      · subst hrel
        rw [parts_junction_self]
        omega
      · simp [parts_junction_of_ne hrel]

/-- What an alternating formula contributes is alternating, and no group of the same relation. -/
theorem Alternating.of_mem_parts {formula part : Formula α} {relation : Relation}
    (h : formula.Alternating) (hpart : part ∈ formula.parts relation) :
    part.Alternating ∧ part.relation? ≠ some relation := by
  cases h with
  | atom a =>
      rcases List.mem_singleton.mp hpart with rfl
      exact ⟨.atom a, by simp [relation?]⟩
  | @junction inner parts two_le changes inside =>
      by_cases hrel : inner = relation
      · subst hrel
        rw [parts_junction_self] at hpart
        exact ⟨inside part hpart, changes part hpart⟩
      · rw [parts_junction_of_ne hrel] at hpart
        rcases List.mem_singleton.mp hpart with rfl
        exact ⟨.junction two_le changes inside, by simpa [relation?] using hrel⟩

/-- Two alternating formulas and more contribute at least two parts. -/
theorem two_le_length_flatMap_parts {first second : Formula α} {rest : List (Formula α)}
    (hfirst : first.Alternating) (hsecond : second.Alternating) (relation : Relation) :
    2 ≤ ((first :: second :: rest).flatMap (parts relation)).length := by
  have h₁ := hfirst.length_parts_pos relation
  have h₂ := hsecond.length_parts_pos relation
  simp only [List.flatMap_cons, List.length_append]
  omega

/-- Joining keeps formulas alternating. -/
theorem alternating_of_mem_join {formulas : List (Formula α)} {joined : Formula α}
    {relation : Relation} (h : ∀ formula ∈ formulas, formula.Alternating)
    (hjoin : join relation formulas = some joined) : joined.Alternating := by
  match formulas, hjoin with
  | [formula], hjoin =>
      rcases Option.some.inj hjoin with rfl
      exact h formula (by simp)
  | first :: second :: rest, hjoin =>
      rw [join_cons_cons] at hjoin
      rcases Option.some.inj hjoin with rfl
      have hpart : ∀ part ∈ (first :: second :: rest).flatMap (parts relation),
          part.Alternating ∧ part.relation? ≠ some relation := by
        intro part hmem
        rcases List.mem_flatMap.mp hmem with ⟨formula, hformula, hmem⟩
        exact (h formula hformula).of_mem_parts hmem
      exact .junction (two_le_length_flatMap_parts (h first (by simp)) (h second (by simp)) _)
        (fun part hmem => (hpart part hmem).2) (fun part hmem => (hpart part hmem).1)

/-! ## Atoms -/

mutual

/-- The atoms from left to right. -/
def atoms : Formula α → List α
  | atom a => [a]
  | junction _ parts => atomsAll parts

/-- The atoms of several formulas. -/
def atomsAll : List (Formula α) → List α
  | [] => []
  | part :: rest => part.atoms ++ atomsAll rest

end

/-- The atoms of a group are those of its parts. -/
theorem atoms_junction (relation : Relation) (parts : List (Formula α)) :
    (junction relation parts).atoms = parts.flatMap atoms := by
  rw [atoms]
  induction parts with
  | nil => rfl
  | cons part rest ih => simp [atomsAll, ih]

/-- An alternating formula has atoms. -/
theorem Alternating.atoms_ne_nil {formula : Formula α} (h : formula.Alternating) :
    formula.atoms ≠ [] := by
  induction formula with
  | atom a => simp [atoms]
  | junction relation parts ih =>
      rcases h with _ | ⟨two_le, _, inside⟩
      rw [atoms_junction]
      match parts, two_le with
      | first :: rest, _ =>
          have hfirst := ih first (by simp) (inside first (by simp))
          simp [hfirst]

/-- What a formula contributes has the atoms of the formula. -/
theorem flatMap_atoms_parts (relation : Relation) (formula : Formula α) :
    (formula.parts relation).flatMap atoms = formula.atoms := by
  cases formula with
  | atom a => simp
  | junction inner parts =>
      by_cases hrel : inner = relation
      · subst hrel
        rw [parts_junction_self, atoms_junction]
      · simp [parts_junction_of_ne hrel]

/-- Joined formulas have the atoms of all of them, in the same order. -/
theorem atoms_join (relation : Relation) (formulas : List (Formula α)) :
    (join relation formulas).elim [] atoms = formulas.flatMap atoms := by
  match formulas with
  | [] => rfl
  | [formula] => simp
  | first :: second :: rest =>
      rw [join_cons_cons, Option.elim_some, atoms_junction, List.flatMap_assoc]
      simp only [flatMap_atoms_parts]

/-! ## Replacing atoms -/

mutual

/-- Replaces every atom; the first failure, in the order of the atoms, is that of the whole. -/
def traverse (f : α → Except ε β) : Formula α → Except ε (Formula β)
  | atom a => atom <$> f a
  | junction relation parts => junction relation <$> traverseAll f parts

/-- Replaces the atoms of several formulas. -/
def traverseAll (f : α → Except ε β) : List (Formula α) → Except ε (List (Formula β))
  | [] => pure []
  | part :: rest => do
      let first ← part.traverse f
      let others ← traverseAll f rest
      return first :: others

end

/-- The atoms of several formulas are replaced one formula after the other. -/
theorem traverse_junction (f : α → Except ε β) (relation : Relation)
    (parts : List (Formula α)) :
    (junction relation parts).traverse f = junction relation <$> parts.mapM (traverse f) := by
  rw [traverse]
  congr 1
  induction parts with
  | nil => rfl
  | cons part rest ih => simp [traverseAll, ih]

/-- Replacing atoms keeps the relation at the top. -/
theorem relation?_of_traverse {f : α → Except ε β} {formula : Formula α} {result : Formula β}
    (h : formula.traverse f = .ok result) : result.relation? = formula.relation? := by
  cases formula with
  | atom a =>
      rw [traverse] at h
      rcases Traversal.map_eq_ok_iff.mp h with ⟨b, _, rfl⟩
      rfl
  | junction relation parts =>
      rw [traverse_junction] at h
      rcases Traversal.map_eq_ok_iff.mp h with ⟨results, _, rfl⟩
      rfl

/-- Replacing atoms keeps a formula alternating. -/
theorem Alternating.of_traverse {f : α → Except ε β} {formula : Formula α} {result : Formula β}
    (halt : formula.Alternating) (h : formula.traverse f = .ok result) : result.Alternating := by
  induction formula generalizing result with
  | atom a =>
      have hrel : result.relation? = none := relation?_of_traverse h
      cases result with
      | atom b => exact .atom b
      | junction relation parts => simp [relation?] at hrel
  | junction relation parts ih =>
      rcases halt with _ | ⟨two_le, changes, inside⟩
      rw [traverse_junction] at h
      rcases Traversal.map_eq_ok_iff.mp h with ⟨results, hparts, rfl⟩
      have hlength := (Traversal.forall₂_of_mapM_eq_ok hparts).length_eq
      refine .junction (hlength ▸ two_le) ?_ ?_
      · intro result hmem
        rcases Traversal.exists_mem_of_mapM_eq_ok hparts hmem with ⟨part, hpart, htraverse⟩
        rw [relation?_of_traverse htraverse]
        exact changes part hpart
      · intro result hmem
        rcases Traversal.exists_mem_of_mapM_eq_ok hparts hmem with ⟨part, hpart, htraverse⟩
        exact ih part hpart (inside part hpart) htraverse

/-- Every atom of a result took the place of an atom. -/
theorem exists_mem_atoms_of_traverse {f : α → Except ε β} {formula : Formula α}
    {result : Formula β} (h : formula.traverse f = .ok result) {b : β} (hb : b ∈ result.atoms) :
    ∃ a ∈ formula.atoms, f a = .ok b := by
  induction formula generalizing result with
  | atom a =>
      rw [traverse] at h
      rcases Traversal.map_eq_ok_iff.mp h with ⟨found, hfound, rfl⟩
      rcases List.mem_singleton.mp hb with rfl
      exact ⟨a, List.mem_singleton_self a, hfound⟩
  | junction relation parts ih =>
      rw [traverse_junction] at h
      rcases Traversal.map_eq_ok_iff.mp h with ⟨results, hresults, rfl⟩
      rw [atoms_junction] at hb ⊢
      rcases List.mem_flatMap.mp hb with ⟨part, hpart, hb⟩
      rcases Traversal.exists_mem_of_mapM_eq_ok hresults hpart with ⟨source, hsource, htraverse⟩
      rcases ih source hsource htraverse hb with ⟨a, ha, hab⟩
      exact ⟨a, List.mem_flatMap.mpr ⟨source, hsource, ha⟩, hab⟩

/-- Replacing the atoms of a formula replaces them in their order. -/
theorem atoms_traverse (f : α → Except ε β) (formula : Formula α) :
    formula.atoms.mapM f = atoms <$> formula.traverse f := by
  induction formula with
  | atom a => cases h : f a <;> simp [atoms, traverse, h]
  | junction relation parts ih =>
      have hjoined : (fun results : List (Formula β) => (junction relation results).atoms) =
          List.flatMap atoms := funext (atoms_junction relation)
      rw [traverse_junction, Functor.map_map, atoms_junction, hjoined]
      induction parts with
      | nil => rfl
      | cons part rest ihrest =>
          have hpart := ih part (by simp)
          have hrest := ihrest fun other hother => ih other (List.mem_cons_of_mem _ hother)
          rw [List.flatMap_cons, List.mapM_append, hpart, hrest, List.mapM_cons]
          simp

/-- Replacing atoms commutes with taking a formula apart. -/
theorem parts_traverse (f : α → Except ε β) (relation : Relation) (formula : Formula α) :
    (formula.parts relation).mapM (traverse f) = parts relation <$> formula.traverse f := by
  cases formula with
  | atom a => cases h : f a <;> simp [traverse, h]
  | junction inner parts =>
      by_cases hrel : inner = relation
      · subst hrel
        rw [parts_junction_self, traverse_junction]
        simp
      · rw [parts_junction_of_ne hrel, List.mapM_cons, List.mapM_nil, traverse_junction]
        cases parts.mapM (traverse f) with
        | error e => rfl
        | ok results =>
            exact congrArg Except.ok (parts_junction_of_ne hrel results).symm

/-- Replacing atoms commutes with taking several formulas apart. -/
theorem flatMap_parts_traverse (f : α → Except ε β) (relation : Relation)
    (formulas : List (Formula α)) :
    (formulas.flatMap (parts relation)).mapM (traverse f) =
      List.flatMap (parts relation) <$> formulas.mapM (traverse f) := by
  induction formulas with
  | nil => rfl
  | cons formula rest ih =>
      rw [List.flatMap_cons, List.mapM_append, parts_traverse, ih, List.mapM_cons]
      simp

/-- Replacing atoms commutes with joining. -/
theorem join_traverse (f : α → Except ε β) (relation : Relation) (formulas : List (Formula α)) :
    (join relation formulas).mapM (traverse f) =
      join relation <$> formulas.mapM (traverse f) := by
  match formulas with
  | [] => rfl
  | [formula] => simp
  | first :: second :: rest =>
      rw [join_cons_cons, Option.mapM_some, traverse_junction, flatMap_parts_traverse,
        List.mapM_cons, List.mapM_cons]
      simp [join_cons_cons]

end Formula

end FilterQuery
