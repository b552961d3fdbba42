import FilterQuery.Proofs.Tree.PointEdit
import FilterQuery.Rows.Edit

/-!
# Updates and readings of the same mapping

An update of a condition and a new condition may be described by the same mapping.  The update takes
every field that the mapping names from the new condition and keeps all others, and it fails exactly
if the new condition cannot be read.  This needs that no field is named twice: where one is, a
reading goes by the key that it looks for first, and an update by the last one, wherever it stands.
What an update says is thus said by the mapping without the entries that a later one names again.

Main results:

- `Tree.perform_modify_iff`, `Rows.update_iff`: updates of a leaf in a tree and of a row in a list.
- `Reading.update_takes_last_named`: updates as readings of what is named last, in any order of the
  keys if no field is named twice.
- `Rows.update_prefers_later_key`: an update goes by the last key for a limit, against a reading.
-/

open scoped List

namespace FilterQuery

variable {given other : List (String × Input)} {ids left : IdSupply}

/-- An update of a leaf in a tree goes through if its relation is one and the leaf can be updated,
as long as the identifier occurs nowhere else on the way to it. -/
theorem Tree.perform_modify_iff {treeId : String} {place : Node.Place} {l : Leaf}
    (hlacks : ∀ frame ∈ place, frame.Lacks l.condition.id) {relation : Input}
    {result : Option Tree} :
    Tree.perform ⟨treeId, some (place.fill (.leaf l))⟩ ids
        (.modify l.condition.id relation (.object given)) = .ok (result, left) ↔
      (∃ stated, Relation.resolve relation = .ok stated) ∧
        ∃ new, (Reading.updatedLeaf given l).run ids = .ok (new, left) ∧
          result = some ⟨treeId, some (place.fill (.leaf new))⟩ := by
  have hnode : Tree.hasId ⟨treeId, some (place.fill (.leaf l))⟩ l.condition.id = true := by
    rw [Tree.hasId_iff]
    exact Node.Place.ids_subset_ids_fill place (.leaf l) (by simp)
  have hmodify (stated : Option Relation) :
      (place.fill (.leaf l)).modify l.condition.id stated given ids =
        (fun result => (place.fill (.leaf result.1), result.2)) <$>
          Reading.call (Reading.updatedLeaf given l) ids := by
    have hleaf : (PointChange.updating stated given ids).leaf l =
        Prod.fst <$> Reading.call (Reading.updatedLeaf given l) ids := rfl
    rw [Node.modify_eq_change, Node.Place.change_fill hlacks, Node.change_leaf, if_pos rfl, hleaf]
    cases hcall : Reading.call (Reading.updatedLeaf given l) ids with
    | error e => rfl
    | ok read =>
        rcases read with ⟨new, rest⟩
        rcases Reading.run_updatedLeaf (Reading.call_eq_ok_iff.mp hcall) with ⟨_, _, rfl⟩
        rfl
  simp only [Tree.perform, Tree.modify, hnode, if_true, Tree.updateFields]
  constructor
  · intro h
    rcases Traversal.bind_eq_ok_iff.mp h with ⟨stated, hstated, hthen⟩
    rcases Traversal.bind_eq_ok_iff.mp hthen with ⟨⟨root, rest⟩, hroot, hresult⟩
    rcases Prod.mk.inj (Except.ok.inj hresult) with ⟨rfl, rfl⟩
    rw [hmodify] at hroot
    rcases Traversal.map_eq_ok_iff.mp hroot with ⟨⟨new, drawn⟩, hcall, hnew⟩
    rcases Prod.mk.inj hnew with ⟨rfl, rfl⟩
    exact ⟨⟨stated, hstated⟩, new, Reading.call_eq_ok_iff.mp hcall, rfl⟩
  · rintro ⟨⟨stated, hstated⟩, new, hnew, rfl⟩
    refine Traversal.bind_eq_ok_iff.mpr ⟨stated, hstated, ?_⟩
    refine Traversal.bind_eq_ok_iff.mpr ⟨(place.fill (.leaf new), left), ?_, rfl⟩
    rw [hmodify]
    exact Traversal.map_eq_ok_iff.mpr ⟨_, Reading.call_eq_ok_iff.mpr hnew, rfl⟩

/-- An update of a row in a list goes through if the row can be updated. -/
theorem Rows.update_iff {rows result : List Row} {index : Nat} {row : Row}
    (hrow : rows[index]? = some row) :
    Rows.update rows index given ids = .ok (result, left) ↔
      ∃ new, (Reading.updatedRow row given).run ids = .ok (new, left) ∧
        result = rows.set index new := by
  have hindex : index < rows.length := (List.getElem?_eq_some_iff.mp hrow).1
  have hplace : Rows.place? rows index = some index := by
    rw [Rows.place?, if_pos (by omega), Int.toNat_natCast]
  simp only [Rows.update, hplace, hrow]
  constructor
  · intro h
    rcases Traversal.map_eq_ok_iff.mp h with ⟨⟨new, rest⟩, hcall, hresult⟩
    rcases Prod.mk.inj hresult with ⟨rfl, rfl⟩
    exact ⟨new, Reading.call_eq_ok_iff.mp hcall, rfl⟩
  · rintro ⟨new, hnew, rfl⟩
    exact Traversal.map_eq_ok_iff.mpr ⟨_, Reading.call_eq_ok_iff.mpr hnew, rfl⟩

section Order

variable (honce : Input.NamedOnce given) (horder : given ~ other)

include honce horder

/-- The order of a mapping that names no field twice does not count where a tree is updated. -/
theorem Tree.perform_modify_perm (tree : Tree) (ids : IdSupply) (node : String)
    (relation : Input) :
    tree.perform ids (.modify node relation (.object given)) =
      tree.perform ids (.modify node relation (.object other)) := by
  have hpoint (stated : Option Relation) :
      PointChange.updating stated given ids = PointChange.updating stated other ids := by
    simp only [PointChange.updating, Reading.updatedLeaf_congr (Input.named?_perm honce horder)]
  simp only [Tree.perform, Tree.modify, Tree.updateFields, Node.modify_eq_change, hpoint]

/-- Nor does it where a row is updated. -/
theorem Rows.update_perm (rows : List Row) (index : Int) (ids : IdSupply) :
    Rows.update rows index given ids = Rows.update rows index other ids := by
  simp only [Rows.update, Reading.updatedRow_congr (Input.named?_perm honce horder)]

end Order

/-- Updates take every field that they name from what is read of their mapping without the entries
that a later one names again, and fail exactly if that cannot be read.  Where no field is named
twice, this is the mapping itself, in any order. -/
theorem Reading.update_takes_last_named
    (hkeys : ∀ entry ∈ given, entry.1 ≠ "id" ∧ entry.1 ≠ "kind") :
    (∀ (treeId : String) (place : Node.Place) (l : Leaf),
      (∀ frame ∈ place, frame.Lacks l.condition.id) →
        ∀ relation ids others result left,
          Tree.perform ⟨treeId, some (place.fill (.leaf l))⟩ ids
              (.modify l.condition.id relation (.object given)) = .ok (result, left) ↔
            (∃ stated, Relation.resolve relation = .ok stated) ∧ left = ids ∧
              ∃ source rest,
                (inFormOf (Input.settled given) l).run others = .ok (source, rest) ∧
                  result = some ⟨treeId,
                    some (place.fill (.leaf (l.taking (Input.names given) source)))⟩) ∧
      (∀ (rows : List Row) (index : Nat) (row : Row), rows[index]? = some row →
        ∀ ids others result left,
          Rows.update rows index given ids = .ok (result, left) ↔
            left = ids ∧ ∃ source rest,
              (rowFields (Input.settled given)).run others = .ok (source, rest) ∧
                result = rows.set index (row.taking (Input.names given) source)) ∧
      (Input.NamedOnce given →
        Input.settled given = given ∧ ∀ other, given ~ other →
          (∀ (tree : Tree) ids node relation,
            tree.perform ids (.modify node relation (.object given)) =
              tree.perform ids (.modify node relation (.object other))) ∧
            ∀ rows index ids,
              Rows.update rows index given ids = Rows.update rows index other ids) := by
  refine ⟨?_, ?_, ?_⟩
  · intro treeId place l hlacks relation ids others result left
    rw [Tree.perform_modify_iff hlacks]
    refine and_congr_right fun _ => ?_
    simp only [run_updatedLeaf_iff others hkeys]
    constructor
    · rintro ⟨_, ⟨rfl, source, rest, hread, rfl⟩, rfl⟩
      exact ⟨rfl, source, rest, hread, rfl⟩
    · rintro ⟨rfl, source, rest, hread, rfl⟩
      exact ⟨_, ⟨rfl, source, rest, hread, rfl⟩, rfl⟩
  · intro rows index row hrow ids others result left
    simp only [Rows.update_iff hrow, run_updatedRow_iff others hkeys]
    constructor
    · rintro ⟨_, ⟨rfl, source, rest, hread, rfl⟩, rfl⟩
      exact ⟨rfl, source, rest, hread, rfl⟩
    · rintro ⟨rfl, source, rest, hread, rfl⟩
      exact ⟨_, ⟨rfl, source, rest, hread, rfl⟩, rfl⟩
  · intro honce
    refine ⟨Input.settled_eq_self honce, fun other horder => ⟨?_, ?_⟩⟩
    · exact Tree.perform_modify_perm honce horder
    · exact Rows.update_perm honce horder

/-- A lower limit and a relation are named under one key each, in either order.  The other fields
of the row stay, and so does the rest of the tree in which it lies. -/
theorem Reading.update_takes_last_named_of_row :
    let row : Row := { id := "a", field := "bytes", operator := some .range, relation := some .and }
    let new : Row := { row with lower := { limit := .text "2" }, relation := some .or }
    let given := [("minValue", Input.text "2"), ("logic", Input.text "or")]
    let ids : IdSupply := ⟨"n", 0⟩
    let verb : Node := .leaf (.plain { id := "b" })
    (∀ entry ∈ given, entry.1 ≠ "id" ∧ entry.1 ≠ "kind") ∧ Input.NamedOnce given ∧
      Rows.update [row] 0 given ids = .ok ([new], ids) ∧
      Rows.update [row] 0 given.reverse ids = .ok ([new], ids) ∧
      Tree.perform ⟨"t", some (.group "g" .and [verb, .leaf (.row row)])⟩ ids
          (.modify "a" .null (.object given)) =
        .ok (some ⟨"t", some (.group "g" .and [verb, .leaf (.row new)])⟩, ids) := by
  intro row new given ids verb
  have hkeys : ∀ entry ∈ given, entry.1 ≠ "id" ∧ entry.1 ≠ "kind" := by decide
  have honce : Input.NamedOnce given := by decide
  obtain ⟨htree, hrows, horder⟩ := update_takes_last_named hkeys
  have hupdate : Rows.update [row] 0 given ids = .ok ([new], ids) :=
    (hrows [row] 0 row rfl ids ids [new] ids).mpr ⟨rfl, _, _, rfl, rfl⟩
  let place : Node.Place := [⟨"g", .and, [verb], []⟩]
  have hlacks : ∀ frame ∈ place, frame.Lacks "a" := by
    have hdistinct : (place.fill (.leaf (.row row))).ids.Nodup := by decide +kernel
    exact Node.Place.lacks_of_mem hdistinct (Node.id_mem_ids _)
  have hmodify := (htree "t" place (.row row) hlacks .null ids ids
    (some ⟨"t", some (place.fill (.leaf (.row new)))⟩) ids).mpr
    ⟨⟨none, rfl⟩, rfl, _, _, rfl, rfl⟩
  refine ⟨hkeys, honce, hupdate, ?_, hmodify⟩
  rw [← ((horder honce).2 given.reverse given.reverse_perm.symm).2]
  exact hupdate

/-- A lower limit is named under both of its keys.  A reading goes by the one that stands in
records, and an update by the later one, so that the order of the keys counts. -/
theorem Rows.update_prefers_later_key :
    let row : Row := { id := "a", field := "bytes", operator := some .range }
    let given := [("minValue", Input.text "2"), ("min_value", Input.text "1")]
    let ids : IdSupply := ⟨"n", 0⟩
    (∃ source rest, (Reading.rowFields given).run ids = .ok (source, rest) ∧
        source.lower.limit = .text "2") ∧
      Rows.update [row] 0 given ids =
        .ok ([{ row with lower := { limit := .text "1" } }], ids) ∧
      Rows.update [row] 0 given.reverse ids =
        .ok ([{ row with lower := { limit := .text "2" } }], ids) := by
  intro row given ids
  have hread (given : List (String × Input))
      (hkeys : ∀ entry ∈ given, entry.1 ≠ "id" ∧ entry.1 ≠ "kind") {source : Row} {rest : IdSupply}
      (hsource : (Reading.rowFields (Input.settled given)).run ids = .ok (source, rest)) :
      Rows.update [row] 0 given ids = .ok ([row.taking (Input.names given) source], ids) := by
    refine (Rows.update_iff rfl).mpr ⟨_, ?_, rfl⟩
    exact (Reading.run_updatedRow_iff ids hkeys).mpr ⟨rfl, source, rest, hsource, rfl⟩
  refine ⟨⟨_, _, rfl, rfl⟩, ?_, ?_⟩
  · exact hread given (by decide) rfl
  · exact hread given.reverse (by decide) rfl

end FilterQuery
