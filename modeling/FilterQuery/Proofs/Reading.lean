import FilterQuery.Proofs.IdSupply
import FilterQuery.Proofs.Traversal
import FilterQuery.Tree.Edit

/-!
# What readings draw

Hardly any reading looks at the supply of identifiers.  A condition draws one if its data states
none, and otherwise has the identifier that is stated; an update of a condition always states the
old one.

Main results:

- `run_seq_eq_ok_iff`: two readings side by side succeed when the second one does after the first.
- `IgnoresSupply.drawsNothing`: a reading that ignores the supply draws nothing from it.
- `run_treeCondition`: a condition that is read has the stated identifier, or one that was drawn.
- `run_updatedLeaf`: an updated leaf has the identifier that it had, and none was drawn.
-/

namespace FilterQuery

namespace Reading

variable {α β : Type} {ids left : IdSupply}

/-! ## Successful readings -/

@[simp]
theorem run_pure_eq_ok_iff {a b : α} :
    (pure a : Reading α).run ids = .ok (b, left) ↔ a = b ∧ ids = left := by
  simp [pure, Reading.pure]

@[simp]
theorem run_fail_ne_ok {fault : Fault} {result : α × IdSupply} :
    (fail fault : Reading α).run ids ≠ .ok result := by
  simp [fail]

/-- Two readings side by side succeed when the second one does after the first. -/
theorem run_seq_eq_ok_iff {f : Reading (α → β)} {x : Reading α} {b : β} :
    (f <*> x).run ids = .ok (b, left) ↔
      ∃ g middle a, f.run ids = .ok (g, middle) ∧ x.run middle = .ok (a, left) ∧ g a = b := by
  constructor
  · intro h
    cases hf : f.run ids with
    | error issues =>
        cases hx : x.run ids <;> simp [Seq.seq, Reading.seq, hf, hx] at h
    | ok first =>
        rcases first with ⟨g, middle⟩
        cases hx : x.run middle with
        | error issues => simp [Seq.seq, Reading.seq, hf, hx, Except.map] at h
        | ok second =>
            rcases second with ⟨a, rest⟩
            rw [run_seq_ok hf hx] at h
            rcases Prod.mk.inj (Except.ok.inj h) with ⟨rfl, rfl⟩
            exact ⟨g, middle, a, rfl, hx, rfl⟩
  · rintro ⟨g, middle, a, hf, hx, rfl⟩
    exact run_seq_ok hf hx

/-- A result is changed without a look at the supply. -/
theorem run_map_eq_ok_iff {f : α → β} {x : Reading α} {b : β} :
    (f <$> x).run ids = .ok (b, left) ↔ ∃ a, x.run ids = .ok (a, left) ∧ f a = b := by
  have hmap : f <$> x = pure f <*> x := rfl
  rw [hmap, run_seq_eq_ok_iff]
  constructor
  · rintro ⟨g, middle, a, hpure, hx, rfl⟩
    rcases run_pure_eq_ok_iff.mp hpure with ⟨rfl, rfl⟩
    exact ⟨a, hx, rfl⟩
  · rintro ⟨a, hx, rfl⟩
    exact ⟨f, ids, a, rfl, hx, rfl⟩

/-- Where a reading stands counts only for the issues that it reports. -/
@[simp]
theorem run_within_eq_ok_iff {step : Step} {reading : Reading α} {result : α × IdSupply} :
    (within step reading).run ids = .ok result ↔ reading.run ids = .ok result :=
  Traversal.mapError_eq_ok_iff

/-- A call succeeds when its reading does. -/
@[simp]
theorem call_eq_ok_iff {reading : Reading α} {result : α × IdSupply} :
    call reading ids = .ok result ↔ reading.run ids = .ok result :=
  Traversal.mapError_eq_ok_iff

/-! ## Readings that ignore the supply -/

/-- A reading that gives the same with any supply of identifiers, which it hands on. -/
def IgnoresSupply (reading : Reading α) : Prop :=
  ∃ result : Except (List Issue) α, ∀ ids, reading.run ids = result.map (·, ids)

/-- A reading that leaves the supply of identifiers alone. -/
def DrawsNothing (reading : Reading α) : Prop :=
  ∀ ids a left, reading.run ids = .ok (a, left) → left = ids

namespace IgnoresSupply

/-- A reading that ignores the supply draws nothing from it. -/
theorem drawsNothing {reading : Reading α} (h : IgnoresSupply reading) : DrawsNothing reading := by
  rcases h with ⟨result, hresult⟩
  intro ids a left hrun
  rw [hresult] at hrun
  rcases Traversal.map_eq_ok_iff.mp hrun with ⟨_, _, hpair⟩
  exact (Prod.mk.inj hpair).2.symm

theorem pure (a : α) : IgnoresSupply (Pure.pure a) :=
  ⟨.ok a, fun _ => rfl⟩

theorem fail (fault : Fault) : IgnoresSupply (Reading.fail fault : Reading α) :=
  ⟨.error [⟨[], fault⟩], fun _ => rfl⟩

theorem seq {f : Reading (α → β)} {x : Reading α} (hf : IgnoresSupply f) (hx : IgnoresSupply x) :
    IgnoresSupply (f <*> x) := by
  rcases hf with ⟨first, hfirst⟩
  rcases hx with ⟨second, hsecond⟩
  cases first with
  | ok g =>
      refine ⟨second.map g, fun ids => ?_⟩
      cases second <;> simp [Seq.seq, Reading.seq, hfirst, hsecond, Except.map]
  | error issues =>
      cases second with
      | ok a => exact ⟨.error issues, fun ids => by
          simp [Seq.seq, Reading.seq, hfirst, hsecond, Except.map]⟩
      | error more => exact ⟨.error (issues ++ more), fun ids => by
          simp [Seq.seq, Reading.seq, hfirst, hsecond, Except.map]⟩

theorem map {f : α → β} {x : Reading α} (hx : IgnoresSupply x) : IgnoresSupply (f <$> x) :=
  (IgnoresSupply.pure f).seq hx

theorem within {step : Step} {reading : Reading α} (h : IgnoresSupply reading) :
    IgnoresSupply (Reading.within step reading) := by
  rcases h with ⟨result, hresult⟩
  refine ⟨result.mapError fun issues => issues.map (·.within step), fun ids => ?_⟩
  change (reading.run ids).mapError _ = _
  rw [hresult]
  cases result <;> rfl

/-- A field is read without the supply if it is when it is there, and when it is missing. -/
theorem field {spellings : List String} {fields : List (String × Input)} {absent : Reading α}
    {read : Input → Reading α} (habsent : IgnoresSupply absent)
    (hread : ∀ input, IgnoresSupply (read input)) :
    IgnoresSupply (Reading.field spellings fields absent read) := by
  unfold Reading.field
  split
  · exact (hread _).within
  · exact habsent

end IgnoresSupply

theorem ignoresSupply_text (input : Input) : IgnoresSupply (text input) := by
  unfold text
  split
  · exact .pure _
  · split
    · exact .pure _
    · exact .fail _
  · exact .fail _

theorem ignoresSupply_kind (expected : String) (fields : List (String × Input)) :
    IgnoresSupply (kind expected fields) := by
  refine .field (.pure _) fun input => ?_
  split
  · split
    · exact .pure _
    · exact .fail _
  · exact .fail _

theorem ignoresSupply_operator (input : Input) : IgnoresSupply (operator input) := by
  unfold operator
  split
  · exact .pure _
  · exact .fail _

theorem ignoresSupply_relation (input : Input) : IgnoresSupply (relation input) := by
  unfold relation
  split
  · exact .pure _
  · exact .fail _

theorem ignoresSupply_inclusive (side : Side) (input : Input) :
    IgnoresSupply (inclusive side input) := by
  unfold inclusive
  split
  · exact .pure _
  · split
    · split
      · exact .pure _
      · exact .fail _
    · exact .fail _

theorem ignoresSupply_value (input : Input) : IgnoresSupply (value input) :=
  .pure input.toValue

theorem ignoresSupply_bound (side : Side) (inclusiveSpellings limitSpellings : List String)
    (fields : List (String × Input)) :
    IgnoresSupply (bound side inclusiveSpellings limitSpellings fields) :=
  .seq (.map (.field (.pure _) (ignoresSupply_inclusive side)))
    (.field (.pure _) ignoresSupply_value)

/-! ## Identifiers of conditions -/

/-- The identifier of a condition is read like that of any node, and nothing else is drawn. -/
theorem run_condition {fields : List (String × Input)} {c : Condition}
    (h : (condition fields).run ids = .ok (c, left)) :
    (identifier fields).run ids = .ok (c.id, left) := by
  simp only [condition, run_seq_eq_ok_iff, run_map_eq_ok_iff] at h
  rcases h with ⟨_, ids₆, upper, h, hupper, rfl⟩
  rcases h with ⟨_, ids₅, lower, h, hlower, rfl⟩
  rcases h with ⟨_, ids₄, val, h, hval, rfl⟩
  rcases h with ⟨_, ids₃, op, h, hop, rfl⟩
  rcases h with ⟨_, ids₂, name, h, hname, rfl⟩
  rcases h with ⟨_, ids₁, id, h, hid, rfl⟩
  rcases h with ⟨_, hkind, rfl⟩
  rcases (ignoresSupply_kind _ _).drawsNothing _ _ _ hkind with rfl
  rcases (IgnoresSupply.field (.pure _) ignoresSupply_text).drawsNothing _ _ _ hname with rfl
  rcases (IgnoresSupply.field (.pure _) ignoresSupply_operator).drawsNothing _ _ _ hop with rfl
  rcases (IgnoresSupply.field (.pure _) ignoresSupply_value).drawsNothing _ _ _ hval with rfl
  rcases (ignoresSupply_bound _ _ _ _).drawsNothing _ _ _ hlower with rfl
  rcases (ignoresSupply_bound _ _ _ _).drawsNothing _ _ _ hupper with rfl
  exact hid

/-- A row has the identifier of the condition that it states. -/
theorem run_rowFields {fields : List (String × Input)} {row : Row}
    (h : (rowFields fields).run ids = .ok (row, left)) :
    (identifier fields).run ids = .ok (row.id, left) := by
  unfold rowFields at h
  rcases run_seq_eq_ok_iff.mp h with ⟨_, middle, relation, hmap, hrelation, rfl⟩
  rcases run_map_eq_ok_iff.mp hmap with ⟨c, hcondition, rfl⟩
  rcases (IgnoresSupply.field (.pure _) ignoresSupply_relation).drawsNothing _ _ _ hrelation
    with rfl
  exact run_condition hcondition

/-- The identifier that data states for a node. -/
def statedId? : Input → Option String
  | .object fields =>
      (Input.get? "id" fields).bind fun
        | .text s => some s
        | .bytes octets => Text.decodeOctets? octets
        | _ => none
  | .node n => some n.id
  | _ => none

/-- A stated text is the identifier, and none is drawn. -/
theorem run_identifier_of_text {fields : List (String × Input)} {stated id : String}
    (hstated : Input.get? "id" fields = some (.text stated))
    (h : (identifier fields).run ids = .ok (id, left)) : id = stated ∧ left = ids := by
  have htext : (identifier fields).run ids = .ok (stated, ids) := by
    simp [identifier, field, Input.find?, hstated, text]
  rw [htext] at h
  rcases Prod.mk.inj (Except.ok.inj h) with ⟨rfl, rfl⟩
  exact ⟨rfl, rfl⟩

/-- The identifier of a node is stated, or it was drawn. -/
theorem run_identifier {fields : List (String × Input)} {id : String}
    (h : (identifier fields).run ids = .ok (id, left)) :
    ∃ count, left = ids.advance count ∧
      id ∈ (statedId? (.object fields)).toList ++ ids.draws count := by
  cases hget : Input.get? "id" fields with
  | none =>
      have hmint : (identifier fields).run ids = .ok ids.mint := by
        simp [identifier, field, Input.find?, hget, mint]
      rcases ids.mint_eq with ⟨hdraws, hleft⟩
      have hresult : ids.mint = (id, left) := Except.ok.inj (hmint.symm.trans h)
      rw [hresult] at hdraws hleft
      exact ⟨1, hleft, by simp [hdraws]⟩
  | some input =>
      have htext : (text input).run ids = .ok (id, left) := by
        simpa [identifier, field, Input.find?, hget] using h
      unfold text at htext
      split at htext
      · rcases run_pure_eq_ok_iff.mp htext with ⟨rfl, rfl⟩
        exact ⟨0, rfl, by simp [statedId?, hget]⟩
      · split at htext
        · next hoctets =>
            rcases run_pure_eq_ok_iff.mp htext with ⟨rfl, rfl⟩
            exact ⟨0, rfl, by simp [statedId?, hget, hoctets]⟩
        · exact absurd htext run_fail_ne_ok
      · exact absurd htext run_fail_ne_ok

/-- A condition that is read has the identifier that its data states, or one that was drawn. -/
theorem run_treeCondition {input : Input} {c : Condition}
    (h : (treeCondition input).run ids = .ok (c, left)) :
    ∃ count, left = ids.advance count ∧ c.id ∈ (statedId? input).toList ++ ids.draws count := by
  unfold treeCondition at h
  split at h
  · exact run_identifier (run_condition h)
  · rcases run_pure_eq_ok_iff.mp h with ⟨rfl, rfl⟩
    exact ⟨0, rfl, by simp [statedId?, Node.id]⟩
  · exact absurd (run_within_eq_ok_iff.mp h) run_fail_ne_ok
  · exact absurd h run_fail_ne_ok

end Reading

/-! ## Identifiers of updated conditions -/

namespace Input

/-- A field keeps its value when another one is set. -/
theorem get?_set_of_ne {name other : String} (h : other ≠ name) (input : Input)
    (fields : List (String × Input)) : get? name (set other input fields) = get? name fields := by
  induction fields with
  | nil => simp [set, get?, h]
  | cons field rest ih =>
      rcases field with ⟨key, old⟩
      by_cases hkey : key = other
      · subst hkey
        simp [set, get?, h]
      · simp [set, get?, hkey, ih]

/-- A field keeps its value when several others are set. -/
theorem get?_foldl_set {name : String} {updates : List (String × Input)}
    (h : get? name updates = none) (fields : List (String × Input)) :
    get? name (updates.foldl (fun kept (key, input) => set key input kept) fields) =
      get? name fields := by
  induction updates generalizing fields with
  | nil => rfl
  | cons update rest ih =>
      rcases update with ⟨key, input⟩
      have hkey : key ≠ name := by
        rintro rfl
        simp [get?] at h
      have hrest : get? name rest = none := by simpa [get?, hkey] using h
      rw [List.foldl_cons, ih hrest, get?_set_of_ne hkey]

end Input

namespace UpdateTarget

/-- No spelling stands for the identifier. -/
theorem lookup_names_ne_id (target : UpdateTarget) (key : String) :
    target.names.lookup key ≠ some "id" := by
  intro hlookup
  rcases List.lookup_eq_some_iff.mp hlookup with ⟨before, after, hnames, _⟩
  have hmem : "id" ∈ target.names.map Prod.snd := by
    rw [hnames]
    simp
  revert hmem
  cases target <;> decide

/-- No value is taken over for the identifier. -/
theorem get?_id_take (target : UpdateTarget) (kept : List (String × Input))
    (update : String × Input) :
    Input.get? "id" (target.take kept update) = Input.get? "id" kept := by
  unfold take
  split
  · next name hname =>
      have hne : name ≠ "id" := by
        rintro rfl
        exact target.lookup_names_ne_id update.1 hname
      exact Input.get?_set_of_ne hne _ _
  · rfl

/-- An update names no identifier. -/
theorem get?_id_updates (target : UpdateTarget) (given : List (String × Input)) :
    Input.get? "id" (target.updates given) = none := by
  have hfold : ∀ kept, Input.get? "id" (given.foldl target.take kept) = Input.get? "id" kept := by
    induction given with
    | nil => exact fun kept => rfl
    | cons update rest ih =>
        intro kept
        rw [List.foldl_cons, ih, get?_id_take]
  exact hfold []

/-- An update keeps the identifier. -/
theorem get?_id_apply (target : UpdateTarget) (fields : List (String × Value))
    (given : List (String × Input)) :
    Input.get? "id" (target.apply fields given) = (Value.get? "id" fields).map Input.ofValue := by
  rw [apply, Input.get?_foldl_set (target.get?_id_updates given), Input.get?_ofFields]

end UpdateTarget

namespace Reading

/-- An updated leaf has the identifier that it had, and stays plain if it was; none is drawn. -/
theorem run_updatedLeaf {given : List (String × Input)} {l updated : Leaf} {ids left : IdSupply}
    (h : (updatedLeaf given l).run ids = .ok (updated, left)) :
    updated.condition.id = l.condition.id ∧ updated.isPlain = l.isPlain ∧ left = ids := by
  cases l with
  | plain c =>
      rcases run_map_eq_ok_iff.mp h with ⟨new, hnew, rfl⟩
      have hstated : Input.get? "id" (UpdateTarget.condition.apply c.fields given) =
          some (.text c.id) := UpdateTarget.get?_id_apply _ _ _
      rcases run_identifier_of_text hstated (run_condition hnew) with ⟨hid, hleft⟩
      exact ⟨hid, rfl, hleft⟩
  | row r =>
      rcases run_map_eq_ok_iff.mp h with ⟨new, hnew, rfl⟩
      have hstated : Input.get? "id" (UpdateTarget.row.apply r.fields given) =
          some (.text r.id) := UpdateTarget.get?_id_apply _ _ _
      rcases run_identifier_of_text hstated (run_rowFields hnew) with ⟨hid, hleft⟩
      exact ⟨hid, rfl, hleft⟩

end Reading

end FilterQuery
