import FilterQuery.Proofs.RightNested

/-!
# The shortcut of uniform rows

Where one relation joins all rows, they are joined at once instead of one after the other from the
right.  That is only quicker.  The fold from the right comes to the same because of what it meets
on its way: above the last pair, what is below an item is always a group already, and the item is
put into that group exactly where the relation of the group is the one that the item is joined by.
In the last pair stands the clause of a row, which may be a `bool` of its own but has no part under
the name of a relation, so nothing is put into it.

Main results:

- `Clause.boolPart?_document`: which parts are found under a relation in the document of a clause.
- `foldRight_recording`: keeping a record of the calls does not change a fold.
- `exists_joinings_cons`: what a call meets above the last pair.
- `callsMeet_joinings`: what all calls of a fold meet.
- `foldRight_of_same`: what a fold comes to where the relation is the same throughout.
- `value_compile_eq_foldRight`, `preview_eq_foldRight`: the query and the previews are folds.
- `shortcut_comes_to_fold`: the shortcut and the fold, for the clauses of conditions and for texts.
-/

namespace FilterQuery

/-! ## Parts of documents -/

/-- What stands under a name in the field `bool` of a document. -/
def Value.boolPart? (name : String) : Value → Option Value
  | .object fields =>
      match get? "bool" fields with
      | some (.object inner) => get? name inner
      | _ => none
  | _ => none

/-- The name under which the parts that a relation joins stand in a document. -/
def Relation.part : Relation → String
  | .and => "must"
  | .or => "should"

/-- In the document of a clause, the parts that a relation joins are found exactly if the clause
joins them by that relation. -/
theorem Clause.boolPart?_document (clause : Clause) (relation : Relation) :
    clause.document.boolPart? relation.part =
      (clause.parts? relation).map fun parts => .list (documents parts) := by
  cases clause with
  | primitive p => cases p <;> rfl
  | negation p => cases relation <;> rfl
  | junction inner parts => cases inner <;> cases relation <;> rfl

/-- The clause of a condition joins nothing. -/
theorem Condition.parts?_of_clause? {c : Condition} {clause : Clause}
    (h : c.clause? = .ok (some clause)) (relation : Relation) : clause.parts? relation = none := by
  unfold clause? at h
  cases hcomparison : c.comparison? with
  | none => simp [hcomparison] at h
  | some comparison =>
      rw [hcomparison] at h
      obtain ⟨built, hbuilt, hsome⟩ := Traversal.map_eq_ok_iff.mp h
      rcases Option.some.inj hsome with rfl
      exact Comparison.parts?_of_clause hbuilt relation

/-- A text in front of what is joined already, which is wrapped if it is a group of its own. -/
def Style.attach (style : Style) (relation : Relation) (nested : Bool) (text below : String) :
    String :=
  text ++ style.joiner relation ++ if nested then style.group below else below

namespace Rows

/-! ## Records of joining -/

/-- A call in which an item is joined to what is below it. -/
structure Joining (α : Type) where
  relation : Relation
  nested : Bool
  item : α
  below : α

section Recording

variable {α : Type} {combine : Relation → Bool → α → α → α}

variable (combine) in
/-- Joins an item to what is below it and puts the call on record, in front of those for what is
below. -/
def recording (relation : Relation) (nested : Bool) (item below : α × List (Joining α)) :
    α × List (Joining α) :=
  (combine relation nested item.1 below.1, ⟨relation, nested, item.1, below.1⟩ :: below.2)

variable (combine) in
/-- The calls of a fold, from the one for the first item down to the one for the last pair. -/
def joinings (items : List α) (relations : List (Option Relation)) : List (Joining α) :=
  (foldRight (recording combine) (items.map (·, [])) relations).elim [] Prod.snd

variable (combine) in
/-- Keeping a record does not change a fold. -/
theorem foldRight_recording (items : List α) (relations : List (Option Relation)) :
    foldRight (recording combine) (items.map (·, [])) relations =
      (foldRight combine items relations).map (·, joinings combine items relations) := by
  suffices h : (foldRight (recording combine) (items.map (·, [])) relations).map Prod.fst =
      foldRight combine items relations by
    rw [← h, joinings]
    cases foldRight (recording combine) (items.map (·, [])) relations <;> rfl
  induction items generalizing relations with
  | nil => rfl
  | cons item below ih =>
      cases below with
      | nil => rfl
      | cons next below =>
          have hbelow := ih relations.tail
          rw [List.map_cons] at hbelow
          rw [List.map_cons, List.map_cons, foldRight_cons_cons, foldRight_cons_cons, ← hbelow]
          cases foldRight (recording combine) ((next, []) :: below.map (·, [])) relations.tail with
          | none => rfl
          | some joined => rcases relations[1]? with _ | _ | relation <;> rfl

/-- The first call joins the first item to what the items below it come to. -/
theorem joinings_cons_cons {front : Option Relation} {relation : Relation}
    {rest : List (Option Relation)} {item next joined : α} {below : List α}
    (h : foldRight combine (next :: below) (some relation :: rest) = some joined) :
    joinings combine (item :: next :: below) (front :: some relation :: rest) =
      ⟨relation, nestsAt (front :: some relation :: rest) 0, item, joined⟩ ::
        joinings combine (next :: below) (some relation :: rest) := by
  have hbelow := foldRight_recording combine (next :: below) (some relation :: rest)
  rw [h, List.map_cons] at hbelow
  rw [joinings, List.map_cons, List.map_cons, foldRight_cons_cons, List.tail_cons, hbelow]
  rfl

end Recording

/-! ## What calls meet -/

/-- What a call meets above the last pair: a group of its own relation, into which the item is put,
or a group that is to stay one because it is of the other relation. -/
structure Joining.MeetsGroup (joining : Joining Clause) : Prop where
  extended : joining.nested = false →
    ∃ parts, joining.below = .junction joining.relation parts
  kept : joining.nested = true →
    ∃ inner parts, inner ≠ joining.relation ∧ joining.below = .junction inner parts

/-- What a call meets at the last pair: the last clause, whose document has no parts for any
relation, be it a `bool` or not. -/
structure Joining.MeetsLast (clauses : List Clause) (joining : Joining Clause) : Prop where
  nested_eq : joining.nested = false
  last_eq : clauses.getLast? = some joining.below
  no_parts : ∀ relation : Relation, joining.below.document.boolPart? relation.part = none

/-- What all calls of a fold meet.  There is one for every clause but the last. -/
structure CallsMeet (clauses : List Clause) (calls : List (Joining Clause)) : Prop where
  items_eq : calls.map Joining.item = clauses.dropLast
  upper : ∀ joining ∈ calls.dropLast, joining.MeetsGroup
  last : ∀ joining ∈ calls.getLast?, joining.MeetsLast clauses

/-- One more call above the last pair. -/
theorem CallsMeet.cons {joining : Joining Clause} {calls : List (Joining Clause)}
    {next lower : Clause} {rest : List Clause} (h : CallsMeet (next :: lower :: rest) calls)
    (hgroup : joining.MeetsGroup) :
    CallsMeet (joining.item :: next :: lower :: rest) (joining :: calls) := by
  obtain ⟨hitems, hupper, hlast⟩ := h
  have hne : calls ≠ [] := by
    rintro rfl
    simp at hitems
  refine ⟨?_, ?_, ?_⟩
  · rw [List.map_cons, hitems]
    rfl
  · rw [List.dropLast_cons_of_ne_nil hne, List.forall_mem_cons]
    exact ⟨hgroup, hupper⟩
  · intro last hmem
    rw [List.getLast?_cons_of_ne_nil hne] at hmem
    obtain ⟨hnested, hbelow, hparts⟩ := hlast last hmem
    exact ⟨hnested, by rwa [List.getLast?_cons_cons], hparts⟩

section Clauses

variable (front : Option Relation) (first : Clause)

/-- Two clauses or more come to a group of the relation between the first two, if those below the
first one join nothing. -/
theorem exists_junction_foldRight {item : Relation × Clause} {rest : List (Relation × Clause)}
    (hplain : ∀ lower ∈ item :: rest, ∀ relation, lower.2.parts? relation = none) :
    ∃ parts, foldRight Clause.prepend (first :: (item :: rest).map Prod.snd)
      (front :: (item :: rest).map fun lower => some lower.1) = some (.junction item.1 parts) := by
  have hchain := foldRight_eq_read_chain joinsFromRight_clauses front first hplain
  simp only [Formula.clauseOf_atom, List.map_id'] at hchain
  rw [hchain, Formula.chain_cons, Formula.clauseOf_junction]
  exact ⟨_, rfl⟩

/-- A call above the last pair meets a group.  It is of the relation between the next two clauses,
with which the fold compares the relation of the call. -/
theorem exists_joinings_cons (item : Relation × Clause) {lower : Relation × Clause}
    {rest : List (Relation × Clause)}
    (hplain : ∀ below ∈ lower :: rest, ∀ relation, below.2.parts? relation = none) :
    ∃ joining : Joining Clause, joining.item = first ∧ joining.MeetsGroup ∧
      joinings Clause.prepend (first :: (item :: lower :: rest).map Prod.snd)
          (front :: (item :: lower :: rest).map fun below => some below.1) =
        joining :: joinings Clause.prepend (item.2 :: (lower :: rest).map Prod.snd)
          (some item.1 :: (lower :: rest).map fun below => some below.1) := by
  obtain ⟨parts, hjoined⟩ := exists_junction_foldRight (some item.1) item.2 hplain
  refine ⟨_, ?_, ⟨?_, ?_⟩, joinings_cons_cons hjoined⟩
  · rfl
  · intro hnested
    have hsame : lower.1 = item.1 := by simpa [nestsAt] using hnested
    exact ⟨parts, by rw [hsame]⟩
  · intro hnested
    have hother : lower.1 ≠ item.1 := by simpa [nestsAt] using hnested
    exact ⟨lower.1, parts, hother, rfl⟩

/-- What the calls of a fold meet, by induction from the last pair upwards. -/
theorem callsMeet_joinings {below : List (Relation × Clause)}
    (hplain : ∀ lower ∈ below, ∀ relation, lower.2.parts? relation = none) :
    CallsMeet (first :: below.map Prod.snd)
      (joinings Clause.prepend (first :: below.map Prod.snd)
        (front :: below.map fun lower => some lower.1)) := by
  induction below generalizing front first with
  | nil => exact ⟨rfl, List.forall_mem_nil _, fun _ hlast => nomatch hlast⟩
  | cons item rest ih =>
      have hrest : ∀ lower ∈ rest, ∀ relation, lower.2.parts? relation = none :=
        fun lower hlower => hplain lower (List.mem_cons_of_mem _ hlower)
      cases rest with
      | nil =>
          have hpair : joinings Clause.prepend (first :: [item].map Prod.snd)
              (front :: [item].map fun lower => some lower.1) =
                [⟨item.1, false, first, item.2⟩] := rfl
          rw [hpair]
          refine ⟨rfl, List.forall_mem_nil _, fun joining hlast => ?_⟩
          rw [List.getLast?_singleton, Option.mem_some_iff] at hlast
          subst hlast
          refine ⟨rfl, rfl, fun relation => ?_⟩
          rw [Clause.boolPart?_document, hplain item (List.mem_singleton_self item) relation,
            Option.map_none]
      | cons lower rest =>
          obtain ⟨joining, rfl, hgroup, hjoinings⟩ := exists_joinings_cons front first item hrest
          rw [hjoinings]
          exact (ih (some item.1) item.2 hrest).cons hgroup

end Clauses

/-! ## The shortcut -/

section Shortcut

variable {α : Type} {plain : α → Prop} {read : Formula α → α} {uniform : Relation → List α → α}
  {combine : Relation → Bool → α → α → α} {items : List α} {relations : List (Option Relation)}

/-- Relations that are stated in front of as many items stand with these items. -/
theorem exists_stated {rest : List α} {entries : List (Option Relation)}
    (hlength : entries.length = rest.length) (hstated : ∀ entry ∈ entries, entry ≠ none) :
    ∃ below : List (Relation × α), rest = below.map Prod.snd ∧
      entries = below.map fun lower => some lower.1 := by
  induction rest generalizing entries with
  | nil => exact ⟨[], rfl, List.eq_nil_of_length_eq_zero hlength⟩
  | cons item rest ih =>
      obtain ⟨entry, entries, rfl⟩ := List.exists_cons_of_length_eq_add_one hlength
      obtain ⟨hentry, hentries⟩ := List.forall_mem_cons.mp hstated
      obtain ⟨relation, rfl⟩ := Option.ne_none_iff_exists'.mp hentry
      obtain ⟨below, rfl, rfl⟩ := ih (Nat.succ.inj hlength) hentries
      exact ⟨(relation, item) :: below, rfl, rfl⟩

/-- Items below the first one stand with the relations that are stated in front of them. -/
theorem exists_below (hne : items ≠ []) (hlength : relations.length = items.length)
    (hstated : ∀ entry ∈ relations.tail, entry ≠ none) :
    ∃ (front : Option Relation) (first : α) (below : List (Relation × α)),
      items = first :: below.map Prod.snd ∧
        relations = front :: below.map fun lower => some lower.1 := by
  obtain ⟨first, rest, rfl⟩ := List.exists_cons_of_ne_nil hne
  obtain ⟨front, entries, rfl⟩ := List.exists_cons_of_length_eq_add_one hlength
  obtain ⟨below, rfl, rfl⟩ := exists_stated (Nat.succ.inj hlength) hstated
  exact ⟨front, first, below, rfl, rfl⟩

/-- What holds of all items holds of those below the first one. -/
theorem forall_below {first : α} {below : List (Relation × α)} {p : α → Prop}
    (h : ∀ item ∈ first :: below.map Prod.snd, p item) : ∀ lower ∈ below, p lower.2 :=
  fun lower hlower => h lower.2 (List.mem_cons_of_mem first (List.mem_map_of_mem hlower))

/-- A fold of two items or more comes to what they are joined to at once, if the relation between
them is the same throughout. -/
theorem foldRight_of_same (h : JoinsFromRight plain read uniform combine)
    (hread : ∀ item, read (.atom item) = item) {relation : Relation}
    (hplain : ∀ item ∈ items, plain item) (hlength : relations.length = items.length)
    (htwo : 2 ≤ items.length) (hsame : ∀ entry ∈ relations.tail, entry = some relation) :
    foldRight combine items relations = some (uniform relation items) := by
  have hne : items ≠ [] := List.ne_nil_of_length_pos (by omega)
  obtain ⟨front, first, below, rfl, rfl⟩ := exists_below hne hlength fun entry hentry => by
    rw [hsame entry hentry]
    exact Option.some_ne_none relation
  have hbelow : below ≠ [] := by
    rintro rfl
    contradiction
  have hrelation : ∀ lower ∈ below, lower.1 = relation := fun lower hlower =>
    Option.some.inj (hsame _ (List.mem_map_of_mem hlower))
  have hfold := foldRight_of_uniform h front first (forall_below hplain) hbelow hrelation
  simpa only [hread, List.map_id'] using hfold

/-- What takes the shortcut wherever it can comes to the same as the fold. -/
theorem joinAll_of_stated (h : JoinsFromRight plain read uniform combine)
    (hread : ∀ item, read (.atom item) = item) (hplain : ∀ item ∈ items, plain item)
    (hlength : relations.length = items.length)
    (hstated : ∀ entry ∈ relations.tail, entry ≠ none) :
    joinAll uniform combine items relations = foldRight combine items relations := by
  by_cases hne : items = []
  · subst hne
    rfl
  · obtain ⟨front, first, below, rfl, rfl⟩ := exists_below hne hlength hstated
    have hfold := joinAll_eq_foldRight h front first (forall_below hplain)
    simpa only [hread, List.map_id'] using hfold

/-- The same for items that stand for rows. -/
theorem joinAll_relations (h : JoinsFromRight plain read uniform combine)
    (hread : ∀ item, read (.atom item) = item) (hplain : ∀ item ∈ items, plain item)
    (default : Relation) {rows : List Row} (hlength : items.length = rows.length) :
    joinAll uniform combine items (Rows.relations default rows) =
      foldRight combine items (Rows.relations default rows) := by
  by_cases hne : rows = []
  · subst hne
    rw [List.eq_nil_of_length_eq_zero hlength]
    rfl
  · refine joinAll_of_stated h hread hplain ?_ ?_
    · rw [relations_length default hne, hlength]
    · intro entry hentry
      obtain ⟨row, _, rfl⟩ := List.mem_map.mp hentry
      exact Option.some_ne_none _

end Shortcut

/-- The query of rows is a fold of their clauses, whether the shortcut is taken or not. -/
theorem value_compile_eq_foldRight (default : Relation) (rows : List Row) :
    (compile default rows).value =
      (fun kept => foldRight Clause.prepend (kept.map Prod.snd)
        (relations default (kept.map Prod.fst))) <$> (compileEach rows).value := by
  rw [compile, Compilation.value_bind]
  cases hkept : (compileEach rows).value with
  | error e => rfl
  | ok kept =>
      have hplain : ∀ clause ∈ kept.map Prod.snd, ∀ relation, clause.parts? relation = none := by
        rw [List.forall_mem_map]
        exact parts?_of_compileEach hkept
      exact congrArg Except.ok (joinAll_relations joinsFromRight_clauses Formula.clauseOf_atom
        hplain default (by rw [List.length_map, List.length_map]))

/-- The preview of rows is a fold of their texts, whether the shortcut is taken or not. -/
theorem preview_eq_foldRight (style : Style) (default : Relation) (rows : List Row) :
    preview style default rows =
      (fun texts => (foldRight style.attach texts (relations default (usable rows))).getD "") <$>
        (usable rows).mapM fun row => style.condition row.toCondition := by
  rw [preview]
  cases htexts : (usable rows).mapM fun row => style.condition row.toCondition with
  | error e => rfl
  | ok texts =>
      have hlength := (Traversal.forall₂_of_mapM_eq_ok htexts).length_eq.symm
      exact congrArg (fun joined => Except.ok (joined.getD "")) (joinAll_relations
        (joinsFromRight_texts style) style.write_atom (fun _ _ => trivial) default hlength)

/-- The shortcut is only quicker.  For the clauses of conditions, and for any texts, the fold from
the right comes to what the shortcut comes to where it is taken: the clauses side by side under the
one relation, and the texts with its joiner between them.  In every fold, each call but the one for
the last pair meets a group, of its own relation wherever the item is put into it; and the call for
the last pair, which meets the last clause, finds no parts to put the other one into. -/
theorem shortcut_comes_to_fold {clauses : List Clause} {relations : List (Option Relation)}
    (hne : clauses ≠ [])
    (hbuilt : ∀ clause ∈ clauses, ∃ c : Condition, c.clause? = .ok (some clause))
    (hlength : relations.length = clauses.length)
    (hstated : ∀ entry ∈ relations.tail, entry ≠ none) :
    (∀ relation, 2 ≤ clauses.length → (∀ entry ∈ relations.tail, entry = some relation) →
      foldRight Clause.prepend clauses relations = some (.junction relation clauses) ∧
        ∀ (style : Style) (texts : List String), texts.length = clauses.length →
          foldRight style.attach texts relations =
            some (String.intercalate (style.joiner relation) texts)) ∧
    joinAll .junction Clause.prepend clauses relations =
      foldRight Clause.prepend clauses relations ∧
    CallsMeet clauses (joinings Clause.prepend clauses relations) := by
  have hplain : ∀ clause ∈ clauses, ∀ relation, clause.parts? relation = none := by
    intro clause hclause
    obtain ⟨c, hc⟩ := hbuilt clause hclause
    exact Condition.parts?_of_clause? hc
  refine ⟨fun relation htwo hsame => ⟨?_, fun style texts htexts => ?_⟩, ?_, ?_⟩
  · exact foldRight_of_same joinsFromRight_clauses Formula.clauseOf_atom hplain hlength htwo hsame
  · refine foldRight_of_same (joinsFromRight_texts style) style.write_atom (fun _ _ => trivial)
      ?_ ?_ hsame
    · rw [hlength, htexts]
    · rwa [htexts]
  · exact joinAll_of_stated joinsFromRight_clauses Formula.clauseOf_atom hplain hlength hstated
  · obtain ⟨front, first, below, rfl, rfl⟩ := exists_below hne hlength hstated
    exact callsMeet_joinings front first (forall_below hplain)

/-- Between clauses that are each a `bool` of their own the fold comes to the shortcut, and what is
below the last pair has no part to put the other clause into. -/
theorem negations_come_to_shortcut :
    let clauses := ["a", "b", "c"].map fun field => Clause.negation (.present field)
    let relations := [none, some Relation.or, some .or]
    foldRight Clause.prepend clauses relations = some (.junction .or clauses) ∧
      ∃ last, (joinings Clause.prepend clauses relations).getLast? = some last ∧
        (last.below.document.boolPart? "must_not").isSome = true ∧
        last.below.document.boolPart? "should" = none := by
  intro clauses relations
  have hbuilt : ∀ clause ∈ clauses, ∃ c : Condition, c.clause? = .ok (some clause) := by
    intro clause hclause
    obtain ⟨field, hfield, rfl⟩ := List.mem_map.mp hclause
    refine ⟨{ id := field, field, operator := some .absent }, ?_⟩
    simp only [List.mem_cons, List.not_mem_nil, or_false] at hfield
    rcases hfield with rfl | rfl | rfl <;> rfl
  have hstated : ∀ entry ∈ relations.tail, entry ≠ none := by decide
  obtain ⟨hshortcut, _, hcalls⟩ :=
    shortcut_comes_to_fold (List.cons_ne_nil _ _) hbuilt rfl hstated
  obtain ⟨hfold, _⟩ := hshortcut .or (by decide) (by decide)
  refine ⟨hfold, _, rfl, rfl, ?_⟩
  exact (hcalls.last _ rfl).no_parts .or

end Rows

end FilterQuery
