import FilterQuery.Proofs.Tree.Place
import FilterQuery.Proofs.Tree.Restriction

/-!
# Where leaves come together

Two leaves of a tree come together in the lowest group with both of them below it: the leaves part
at the children of this group.  They are told apart by their places in the order of the walk, so
this makes sense also where a leaf occurs twice.  A restriction of the tree keeps the leaves in
order and lets any two of them come together where they did before.

Main results:

- `exists_joinsLowest`: any two leaves have a lowest group with both of them below it.
- `joinsLowest_iff`: two leaves come together in the lowest group with both, and in no other one.
- `meet?_restrict`: the leaves that are left in a restriction come together where they did before.
- `restrictsTo_restrict`: what is left in a restriction, and where its leaves come together.
- `restrictsTo_normalize_and_prune`: what normalizing and pruning a node come to, one after the
  other as well.
-/

namespace FilterQuery.Node

variable {keep : Leaf → Bool}

/-! ## Where leaves come together -/

mutual

/-- Where two leaves come together, as the identifier and the relation of a group.  Only leaves that
are kept count.  They are told apart by their places in the order of the walk: one of them stands at
`i`, the other one behind it at `j`. -/
def meet? (keep : Leaf → Bool) (i j : Nat) : Node → Option (String × Relation)
  | leaf _ => none
  | group id relation children => meetAmong? keep (id, relation) i j children

/-- Where two leaves of several nodes come together: in a child that has both of them below it, or
else in the group around the children. -/
def meetAmong? (keep : Leaf → Bool) (around : String × Relation) (i j : Nat) :
    List Node → Option (String × Relation)
  | [] => none
  | child :: rest =>
      let count := child.leaves.countP keep
      if j < count then child.meet? keep i j
      else if i < count then some around
      else meetAmong? keep around (i - count) (j - count) rest

end

/-- Two leaves come together in the first child if both are there, in the group if only one of them
is, and otherwise in the rest. -/
theorem meetAmong?_cons (around : String × Relation) (i j : Nat) (child : Node)
    (rest : List Node) :
    meetAmong? keep around i j (child :: rest) =
      if j < child.leaves.countP keep then child.meet? keep i j
      else if i < child.leaves.countP keep then some around
      else meetAmong? keep around (i - child.leaves.countP keep)
        (j - child.leaves.countP keep) rest := by
  rw [meetAmong?]

/-! ## The lowest group with two leaves -/

/-- Whether two leaves part at some nodes, the leaves of which start at a place: both are below the
nodes, but not below the same one. -/
structure PartsAt (keep : Leaf → Bool) (i j start : Nat) (children : List Node) : Prop where
  first : start ≤ i
  last : j < start + (children.flatMap leaves).countP keep
  apart : ∀ front child back, children = front ++ child :: back →
    start + (front.flatMap leaves).countP keep ≤ i →
      start + (front.flatMap leaves).countP keep + child.leaves.countP keep ≤ j

/-- Whether a group of an identifier and a relation is the lowest one with two leaves of a node
below it: the group has a place in the node, and the leaves part at its children. -/
def JoinsLowest (keep : Leaf → Bool) (i j : Nat) (node : Node) (id : String)
    (relation : Relation) : Prop :=
  ∃ (place : Place) (children : List Node), node = place.fill (group id relation children) ∧
    PartsAt keep i j ((place.ahead.filterMap leaf?).countP keep) children

section Lowest

variable {children : List Node} {around : String × Relation} {i j : Nat}

/-- Leaves may be counted from a later one. -/
theorem partsAt_add_iff {start count : Nat} (hi : count ≤ i) (hj : count ≤ j) :
    PartsAt keep i j (count + start) children ↔
      PartsAt keep (i - count) (j - count) start children := by
  constructor
  all_goals
    intro h
    have hfirst := h.first
    have hlast := h.last
    refine ⟨by omega, by omega, ?_⟩
    intro front child back hsplit hle
    have hchild := h.apart front child back hsplit (by omega)
    omega

/-- Two leaves part at several nodes if one of them at most is below the first node, and they part
at the other nodes unless one is. -/
theorem partsAt_cons_iff {child : Node} {rest : List Node}
    (hj : j < ((child :: rest).flatMap leaves).countP keep) :
    PartsAt keep i j 0 (child :: rest) ↔
      child.leaves.countP keep ≤ j ∧ (child.leaves.countP keep ≤ i →
        PartsAt keep (i - child.leaves.countP keep) (j - child.leaves.countP keep) 0 rest) := by
  have hcount : ((child :: rest).flatMap leaves).countP keep =
      child.leaves.countP keep + (rest.flatMap leaves).countP keep := by
    rw [List.flatMap_cons, List.countP_append]
  constructor
  · intro h
    have hchild := h.apart [] child rest rfl (by simp)
    simp only [List.flatMap_nil, List.countP_nil, Nat.add_zero, Nat.zero_add] at hchild
    refine ⟨hchild, fun hi => (partsAt_add_iff hi hchild).mp ⟨hi, by omega, ?_⟩⟩
    rintro front other back rfl hle
    have hother := h.apart (child :: front) other back rfl
    rw [List.flatMap_cons, List.countP_append] at hother
    omega
  · rintro ⟨hchild, hrest⟩
    refine ⟨Nat.zero_le i, by omega, ?_⟩
    intro front other back hsplit hle
    cases front with
    | nil =>
        obtain ⟨rfl, _⟩ := List.cons.inj hsplit
        simpa using hchild
    | cons first front =>
        obtain ⟨rfl, hsplitRest⟩ := List.cons.inj hsplit
        rw [List.flatMap_cons, List.countP_append] at hle ⊢
        have hother := (hrest (by omega)).apart front other back hsplitRest (by omega)
        omega

/-- Two leaves of several nodes part at them, or they are both below one of them. -/
theorem partsAt_or_exists (hij : i < j) (hj : j < (children.flatMap leaves).countP keep) :
    PartsAt keep i j 0 children ∨ ∃ front child back, children = front ++ child :: back ∧
      (front.flatMap leaves).countP keep ≤ i ∧
      j < (front.flatMap leaves).countP keep + child.leaves.countP keep := by
  induction children generalizing i j with
  | nil => simp at hj
  | cons child rest ih =>
      by_cases hchild : j < child.leaves.countP keep
      · exact .inr ⟨[], child, rest, rfl, by simp, by simpa using hchild⟩
      · rw [partsAt_cons_iff hj]
        rw [List.flatMap_cons, List.countP_append] at hj
        by_cases hfirst : child.leaves.countP keep ≤ i
        · rcases ih (i := i - child.leaves.countP keep) (j := j - child.leaves.countP keep)
            (by omega) (by omega) with hparts | ⟨front, other, back, rfl, hle, hlt⟩
          · exact .inl ⟨by omega, fun _ => hparts⟩
          · refine .inr ⟨child :: front, other, back, rfl, ?_⟩
            rw [List.flatMap_cons, List.countP_append]
            omega
        · exact .inl ⟨by omega, fun hle => absurd hle hfirst⟩

/-- Leaves that part at several nodes come together around them. -/
theorem meetAmong?_of_partsAt (h : PartsAt keep i j 0 children) :
    meetAmong? keep around i j children = some around := by
  induction children generalizing i j with
  | nil =>
      have hlast := h.last
      simp at hlast
  | cons child rest ih =>
      have hj := h.last
      rw [Nat.zero_add] at hj
      obtain ⟨hchild, hrest⟩ := (partsAt_cons_iff hj).mp h
      rw [meetAmong?_cons, if_neg (Nat.not_lt.mpr hchild)]
      by_cases hfirst : i < child.leaves.countP keep
      · rw [if_pos hfirst]
      · rw [if_neg hfirst]
        exact ih (hrest (Nat.not_lt.mp hfirst))

/-- Leaves that are below one of several nodes come together there. -/
theorem meetAmong?_of_below {front back : List Node} {child : Node} (hij : i < j)
    (hfirst : (front.flatMap leaves).countP keep ≤ i)
    (hlast : j < (front.flatMap leaves).countP keep + child.leaves.countP keep) :
    meetAmong? keep around i j (front ++ child :: back) =
      child.meet? keep (i - (front.flatMap leaves).countP keep)
        (j - (front.flatMap leaves).countP keep) := by
  induction front generalizing i j with
  | nil =>
      rw [List.flatMap_nil, List.countP_nil, Nat.zero_add] at hlast
      rw [List.nil_append, meetAmong?_cons, if_pos hlast]
      rfl
  | cons first front ih =>
      rw [List.flatMap_cons, List.countP_append] at hfirst hlast ⊢
      rw [List.cons_append, meetAmong?_cons, if_neg (by omega), if_neg (by omega),
        ih (by omega) (by omega) (by omega), Nat.sub_sub, Nat.sub_sub]

/-- The lowest group with two leaves below it is where they come together. -/
theorem meet?_of_joinsLowest {node : Node} {id : String} {relation : Relation} (hij : i < j)
    (h : node.JoinsLowest keep i j id relation) : node.meet? keep i j = some (id, relation) := by
  obtain ⟨place, children, rfl, hparts⟩ := h
  induction place generalizing i j with
  | nil =>
      rw [Place.fill_nil, meet?]
      exact meetAmong?_of_partsAt hparts
  | cons frame inside ih =>
      rw [Place.leaves_ahead_cons, List.countP_append] at hparts
      have hfirst := hparts.first
      have hlast := hparts.last
      have hleaves := congrArg (List.countP keep)
        (Place.leaves_fill inside (group id relation children))
      rw [List.countP_append, List.countP_append, leaves_group] at hleaves
      rw [Place.fill_cons, Frame.fill, meet?,
        meetAmong?_of_below hij (by omega) (by omega)]
      exact ih (by omega) ((partsAt_add_iff (by omega) (by omega)).mp hparts)

/-- Any two leaves of a node have a lowest group with both of them below it. -/
theorem exists_joinsLowest {node : Node} (hij : i < j) (hj : j < node.leaves.countP keep) :
    ∃ id relation, node.JoinsLowest keep i j id relation := by
  induction node generalizing i j with
  | leaf l =>
      have hcount : [l].countP keep ≤ 1 := List.countP_le_length
      rw [leaves_leaf] at hj
      omega
  | group id relation children ih =>
      rw [leaves_group] at hj
      rcases partsAt_or_exists hij hj with hparts | ⟨front, child, back, rfl, hfirst, hlast⟩
      · exact ⟨id, relation, [], children, rfl, hparts⟩
      · obtain ⟨inner, other, inside, siblings, rfl, hparts⟩ :=
          ih child (by simp) (i := i - (front.flatMap leaves).countP keep)
            (j := j - (front.flatMap leaves).countP keep) (by omega) (by omega)
        refine ⟨inner, other, ⟨id, relation, front, back⟩ :: inside, siblings, rfl, ?_⟩
        rw [Place.leaves_ahead_cons, List.countP_append]
        exact (partsAt_add_iff hfirst (by omega)).mpr hparts

/-- Two leaves of a node come together in the lowest group with both of them below it, and in no
other one. -/
theorem joinsLowest_iff {node : Node} {id : String} {relation : Relation} (hij : i < j)
    (hj : j < node.leaves.countP keep) :
    node.JoinsLowest keep i j id relation ↔ node.meet? keep i j = some (id, relation) := by
  refine ⟨meet?_of_joinsLowest hij, fun hmeet => ?_⟩
  obtain ⟨lowest, inner, hjoins⟩ := exists_joinsLowest hij hj
  have hsame := Option.some.inj (hmeet.symm.trans (meet?_of_joinsLowest hij hjoins))
  obtain ⟨rfl, rfl⟩ := Prod.mk.inj hsame
  exact hjoins

end Lowest

/-! ## Where leaves come together in what is left -/

/-- Leaves come together among what is left of several nodes where they do among the nodes, if they
do so in each of them. -/
theorem meetAmong?_filterMap {children : List Node}
    (h : ∀ child ∈ children, ∀ left ∈ child.restrict keep, ∀ i j, j < left.leaves.length →
      left.meet? (fun _ => true) i j = child.meet? keep i j)
    (around : String × Relation) (i j : Nat) :
    meetAmong? (fun _ => true) around i j (children.filterMap (restrict keep)) =
      meetAmong? keep around i j children := by
  induction children generalizing i j with
  | nil => rfl
  | cons child rest ih =>
      rw [List.forall_mem_cons] at h
      have hcount : child.leaves.countP keep =
          ((child.restrict keep).elim [] leaves).length := by
        rw [leaves_restrict, List.countP_eq_length_filter]
      cases hchild : child.restrict keep with
      | none =>
          -- Nothing is left of the child, so it has no place among the leaves that count.
          rw [hchild] at hcount
          simp [hchild, meetAmong?_cons, hcount, ih h.2]
      | some left =>
          have hleft := h.1 left hchild i j
          rw [hchild, Option.elim_some] at hcount
          rw [List.filterMap_cons_some hchild, meetAmong?_cons, meetAmong?_cons, hcount,
            List.countP_true, ih h.2]
          by_cases hj : j < left.leaves.length
          · rw [if_pos hj, if_pos hj, hleft hj]
          · rw [if_neg hj, if_neg hj]

/-- The leaves that are left of a node come together where they did before. -/
theorem meet?_restrict {node left : Node} (h : left ∈ node.restrict keep) {i j : Nat}
    (hj : j < left.leaves.length) : left.meet? (fun _ => true) i j = node.meet? keep i j := by
  induction node generalizing left i j with
  | leaf l =>
      rw [restrict, Option.mem_def, Option.ite_none_right_eq_some] at h
      rw [← Option.some.inj h.2, meet?, meet?]
  | group id relation children ih =>
      have hchildren := meetAmong?_filterMap (fun child hchild left hleft i j hj =>
        ih child hchild hleft hj) (id, relation) i j
      rw [meet?, ← hchildren]
      rw [restrict_group] at h
      rcases regroup_eq_some_iff.mp h with hkept | ⟨_, rfl⟩
      · rw [hkept, meetAmong?_cons, List.countP_true, if_pos hj]
      · rw [meet?]

/-- Whether a result is the restriction of a node to the leaves that are kept.  There is one unless
no leaf is kept, and then it is normal, has the leaves that are kept in their order, and lets any
two of them come together in the group in which they do in the node.  A node that is normal, and of
which all leaves are kept, and no other one, stays as it is. -/
structure RestrictsTo (keep : Leaf → Bool) (node : Node) (result : Option Node) : Prop where
  none_iff : result = none ↔ ∀ l ∈ node.leaves, keep l = false
  normal : ∀ left ∈ result, left.isNormal = true
  leaves_eq : ∀ left ∈ result, left.leaves = node.leaves.filter keep
  joined : ∀ left ∈ result, ∀ i j, i < j → j < left.leaves.length →
    ∃ id relation, left.JoinsLowest (fun _ => true) i j id relation
  joins_iff : ∀ left ∈ result, ∀ i j, i < j → j < left.leaves.length → ∀ id relation,
    left.JoinsLowest (fun _ => true) i j id relation ↔ node.JoinsLowest keep i j id relation
  unchanged_iff : result = some node ↔ node.isNormal = true ∧ ∀ l ∈ node.leaves, keep l = true

/-- Restricting a node gives its restriction. -/
theorem restrictsTo_restrict (node : Node) : node.RestrictsTo keep (node.restrict keep) := by
  have hleaves : ∀ left ∈ node.restrict keep, left.leaves = node.leaves.filter keep := by
    intro left hleft
    rw [← leaves_restrict, Option.mem_def.mp hleft, Option.elim_some]
  constructor
  · exact node.restrict_eq_none_iff
  · exact node.isNormal_restrict
  · exact hleaves
  · intro left _ i j hij hj
    have hcount : j < left.leaves.countP fun _ => true := by rwa [List.countP_true]
    exact exists_joinsLowest hij hcount
  · intro left hleft i j hij hj id relation
    have hcount : j < left.leaves.countP fun _ => true := by rwa [List.countP_true]
    have hnode : j < node.leaves.countP keep := by
      rwa [List.countP_eq_length_filter, ← hleaves left hleft]
    rw [joinsLowest_iff hij hcount, joinsLowest_iff hij hnode, meet?_restrict hleft hj]
  · exact node.restrict_eq_self_iff

/-- The normal form of a node is its restriction to all leaves, and pruning restricts it to the
leaves that can be used.  Normalizing or pruning the result once more makes no difference to a
pruned node, nor does normalizing before pruning or normalizing twice. -/
theorem restrictsTo_normalize_and_prune (node : Node) :
    node.RestrictsTo (fun _ => true) node.normalize ∧
      node.RestrictsTo (fun l => l.condition.isUsable) node.prune ∧
      node.normalize.bind normalize = node.normalize ∧ node.prune.bind prune = node.prune ∧
      node.normalize.bind prune = node.prune ∧ node.prune.bind normalize = node.prune := by
  have hprune : prune = restrict fun l => l.condition.isUsable := funext prune_eq_restrict
  refine ⟨?_, ?_, ?_, ?_, ?_, ?_⟩
  · rw [normalize_eq_restrict]
    exact node.restrictsTo_restrict
  · rw [prune_eq_restrict]
    exact node.restrictsTo_restrict
  · rw [normalize_eq_restrict, restrict_bind_normalize]
  · rw [hprune, restrict_restrict]
    simp only [Bool.and_self]
  · rw [hprune, normalize_bind_restrict]
  · rw [hprune, restrict_bind_normalize]

end FilterQuery.Node
