import FilterQuery.Proofs.UpdatedFields

/-!
# Updated leaves

Every part of a condition is read from one field of its data, and all but the identifier without a
look at the supply.  A field that an update names is read like the same field of a new condition,
and any other one is read back from what the leaf shows of it.  So an update goes through exactly if
a condition can be read from its mapping: it takes the fields that are named from there, and keeps
all others.

Main results:

- `run_condition_eq_ok_iff`: a condition is read when each of its parts is.
- `run_updatedLeaf_keeps`: an update keeps every field that it does not name.
- `run_updatedLeaf_iff`: an updated leaf takes the fields that are named from what is read.
-/

namespace FilterQuery

/-! ## Leaves with some fields of others -/

namespace Condition

/-- A condition with some of its fields, by their plain names, taken from another one. -/
def taking (named : String → Bool) (c source : Condition) : Condition where
  id := c.id
  field := if named "field" then source.field else c.field
  operator := if named "operator" then source.operator else c.operator
  value := if named "value" then source.value else c.value
  lower :=
    { inclusive := if named "min_operator" then source.lower.inclusive else c.lower.inclusive
      limit := if named "min_value" then source.lower.limit else c.lower.limit }
  upper :=
    { inclusive := if named "max_operator" then source.upper.inclusive else c.upper.inclusive
      limit := if named "max_value" then source.upper.limit else c.upper.limit }

/-- Whether a condition has kept its identifier and all fields but those that are named. -/
structure Keeps (named : String → Bool) (old new : Condition) : Prop where
  id : new.id = old.id
  field : named "field" = false → new.field = old.field
  operator : named "operator" = false → new.operator = old.operator
  value : named "value" = false → new.value = old.value
  lowerKind : named "min_operator" = false → new.lower.inclusive = old.lower.inclusive
  lower : named "min_value" = false → new.lower.limit = old.lower.limit
  upperKind : named "max_operator" = false → new.upper.inclusive = old.upper.inclusive
  upper : named "max_value" = false → new.upper.limit = old.upper.limit

end Condition

/-- A row with some of its fields taken from another one. -/
def Row.taking (named : String → Bool) (r source : Row) : Row :=
  { r.toCondition.taking named source.toCondition with
    relation := if named "relation" then source.relation else r.relation }

namespace Leaf

/-- A leaf with some of its fields taken from another one. -/
def taking (named : String → Bool) : Leaf → Leaf → Leaf
  | plain c, source => plain (c.taking named source.condition)
  | row r, row source => row (r.taking named source)
  | row r, plain source => row (r.taking named (source.toRow none))

/-- Whether a leaf has kept its form, its identifier and all fields but those that are named. -/
def Keeps (named : String → Bool) : Leaf → Leaf → Prop
  | plain c, plain new => c.Keeps named new
  | row r, row new =>
      r.toCondition.Keeps named new.toCondition ∧
        (named "relation" = false → new.relation = r.relation)
  | _, _ => False

end Leaf

namespace Reading

variable {α : Type} {fields : List (String × Input)} {ids left : IdSupply}

/-! ## The parts of a condition -/

/-- Whether a reading gives a result with any supply of identifiers, which it hands on. -/
def Gives (reading : Reading α) (a : α) : Prop :=
  ∀ ids, reading.run ids = .ok (a, ids)

/-- There is one result at most. -/
theorem Gives.unique {reading : Reading α} {a b : α} (ha : Gives reading a)
    (hb : Gives reading b) : a = b := by
  let ids : IdSupply := ⟨"", 0⟩
  exact (Prod.mk.inj (Except.ok.inj ((ha ids).symm.trans (hb ids)))).1

/-- A reading that ignores the supply succeeds with any one if it does with some. -/
theorem IgnoresSupply.run_eq_ok_iff {reading : Reading α} (h : IgnoresSupply reading) {a : α} :
    reading.run ids = .ok (a, left) ↔ Gives reading a ∧ left = ids := by
  constructor
  · intro hrun
    refine ⟨?_, h.drawsNothing _ _ _ hrun⟩
    rcases h with ⟨result, hresult⟩
    rw [hresult] at hrun
    intro others
    cases result with
    | error issues => contradiction
    | ok b =>
        rcases Prod.mk.inj (Except.ok.inj hrun) with ⟨rfl, _⟩
        exact hresult others
  · rintro ⟨hgives, rfl⟩
    exact hgives left

/-- What stands at one step from here is given from here. -/
theorem gives_within_iff {step : Step} {reading : Reading α} {a : α} :
    Gives (within step reading) a ↔ Gives reading a :=
  forall_congr' fun _ => run_within_eq_ok_iff

/-- Whether each part of a condition but its identifier is read from the fields of an object. -/
structure ReadsParts (fields : List (String × Input)) (c : Condition) : Prop where
  kind : Gives (kind "condition" fields) ()
  field : Gives (field ["field"] fields (pure "") text) c.field
  operator : Gives (Reading.field ["operator"] fields (pure none) operator) c.operator
  value : Gives (Reading.field ["value"] fields (pure (.text "")) value) c.value
  lowerKind : Gives (Reading.field ["minOperator", "min_operator"] fields (pure false)
    (inclusive .lower)) c.lower.inclusive
  lower : Gives (Reading.field ["minValue", "min_value"] fields (pure (.text "")) Reading.value)
    c.lower.limit
  upperKind : Gives (Reading.field ["maxOperator", "max_operator"] fields (pure false)
    (inclusive .upper)) c.upper.inclusive
  upper : Gives (Reading.field ["maxValue", "max_value"] fields (pure (.text "")) Reading.value)
    c.upper.limit

/-- The identifier is read apart from the other parts. -/
theorem ReadsParts.withId {c : Condition} (h : ReadsParts fields c) (id : String) :
    ReadsParts fields { c with id } :=
  ⟨h.kind, h.field, h.operator, h.value, h.lowerKind, h.lower, h.upperKind, h.upper⟩

/-- A bound is read when both of its parts are. -/
theorem run_bound_eq_ok_iff {side : Side} {inclusiveSpellings limitSpellings : List String}
    {bound : Bound} :
    (Reading.bound side inclusiveSpellings limitSpellings fields).run ids = .ok (bound, left) ↔
      (Gives (field inclusiveSpellings fields (pure false) (inclusive side)) bound.inclusive ∧
        Gives (field limitSpellings fields (pure (.text "")) value) bound.limit) ∧ left = ids := by
  have hinclusive : IgnoresSupply
      (field inclusiveSpellings fields (pure false) (inclusive side)) :=
    .field (.pure false) (ignoresSupply_inclusive side)
  have hlimit : IgnoresSupply (field limitSpellings fields (pure (.text "")) value) :=
    .field (.pure (Value.text "")) ignoresSupply_value
  constructor
  · intro h
    rcases run_seq_eq_ok_iff.mp h with ⟨_, middle, limit, hmap, hsecond, rfl⟩
    rcases run_map_eq_ok_iff.mp hmap with ⟨inclusive, hfirst, rfl⟩
    rcases hinclusive.run_eq_ok_iff.mp hfirst with ⟨hinclusive, rfl⟩
    rcases hlimit.run_eq_ok_iff.mp hsecond with ⟨hlimit, rfl⟩
    exact ⟨⟨hinclusive, hlimit⟩, rfl⟩
  · rintro ⟨⟨hfirst, hsecond⟩, rfl⟩
    rcases bound with ⟨inclusive, limit⟩
    exact run_seq_ok (run_map_eq_ok_iff.mpr ⟨_, hfirst left, rfl⟩) (hsecond left)

/-- A condition is read when its identifier is and each of its other parts. -/
theorem run_condition_eq_ok_iff {c : Condition} :
    (condition fields).run ids = .ok (c, left) ↔
      (identifier fields).run ids = .ok (c.id, left) ∧ ReadsParts fields c := by
  have hfield : IgnoresSupply (field ["field"] fields (pure "") text) :=
    .field (.pure "") ignoresSupply_text
  have hoperator : IgnoresSupply (field ["operator"] fields (pure none) operator) :=
    .field (.pure none) ignoresSupply_operator
  have hvalue : IgnoresSupply (field ["value"] fields (pure (.text "")) value) :=
    .field (.pure (Value.text "")) ignoresSupply_value
  constructor
  · intro h
    simp only [condition, run_seq_eq_ok_iff, run_map_eq_ok_iff] at h
    rcases h with ⟨_, ids₆, upper, h, h₆, rfl⟩
    rcases h with ⟨_, ids₅, lower, h, h₅, rfl⟩
    rcases h with ⟨_, ids₄, val, h, h₄, rfl⟩
    rcases h with ⟨_, ids₃, op, h, h₃, rfl⟩
    rcases h with ⟨_, ids₂, name, h, h₂, rfl⟩
    rcases h with ⟨_, ids₁, id, h, hid, rfl⟩
    rcases h with ⟨_, h₀, rfl⟩
    rcases (ignoresSupply_kind _ _).run_eq_ok_iff.mp h₀ with ⟨hkind, rfl⟩
    rcases hfield.run_eq_ok_iff.mp h₂ with ⟨hname, rfl⟩
    rcases hoperator.run_eq_ok_iff.mp h₃ with ⟨hop, rfl⟩
    rcases hvalue.run_eq_ok_iff.mp h₄ with ⟨hval, rfl⟩
    rcases run_bound_eq_ok_iff.mp h₅ with ⟨⟨hlowKind, hlow⟩, rfl⟩
    rcases run_bound_eq_ok_iff.mp h₆ with ⟨⟨hupKind, hup⟩, rfl⟩
    exact ⟨hid, hkind, hname, hop, hval, hlowKind, hlow, hupKind, hup⟩
  · rintro ⟨hid, h⟩
    rcases c with ⟨id, name, op, val, lower, upper⟩
    refine run_seq_ok ?_ (run_bound_eq_ok_iff.mpr ⟨⟨h.upperKind, h.upper⟩, rfl⟩)
    refine run_seq_ok ?_ (run_bound_eq_ok_iff.mpr ⟨⟨h.lowerKind, h.lower⟩, rfl⟩)
    refine run_seq_ok ?_ (h.value left)
    refine run_seq_ok ?_ (h.operator left)
    refine run_seq_ok ?_ (h.field left)
    refine run_seq_ok ?_ hid
    exact run_map_eq_ok_iff.mpr ⟨(), h.kind ids, rfl⟩

/-- A row is read when the condition that it states is and its relation. -/
theorem run_rowFields_eq_ok_iff {r : Row} :
    (rowFields fields).run ids = .ok (r, left) ↔
      (condition fields).run ids = .ok (r.toCondition, left) ∧
        Gives (field ["relation", "logic"] fields (pure none) relation) r.relation := by
  have hrelation : IgnoresSupply (field ["relation", "logic"] fields (pure none) relation) :=
    .field (.pure none) ignoresSupply_relation
  constructor
  · intro h
    rcases run_seq_eq_ok_iff.mp h with ⟨_, middle, given, hmap, hread, rfl⟩
    rcases run_map_eq_ok_iff.mp hmap with ⟨c, hcondition, rfl⟩
    rcases hrelation.run_eq_ok_iff.mp hread with ⟨hgiven, rfl⟩
    exact ⟨hcondition, hgiven⟩
  · rintro ⟨hcondition, hgiven⟩
    rcases r with ⟨c, given⟩
    exact run_seq_ok (run_map_eq_ok_iff.mpr ⟨c, hcondition, rfl⟩) (hgiven left)

/-! ## Fields that are named, and others -/

variable {l : Leaf} {name : String} {given : List (String × Input)} {a : α}
  {absent : Reading α} {read : Input → Reading α}

/-- A field that is shown is given by what it is read as. -/
theorem gives_field_iff {spellings : List String} {input : Input}
    (h : Input.Shows spellings fields input) :
    Gives (field spellings fields absent read) a ↔ Gives (read input) a := by
  rcases h with ⟨key, hfind⟩
  rw [field, hfind]
  exact gives_within_iff

/-- Whether updates may name a field of a leaf, and what the leaf shows of it is read back. -/
structure ReadsBack (l : Leaf) (name : String) (read : Input → Reading α) (kept : α) : Prop where
  updatable : name ∈ l.updatable
  shown : ∃ old, Value.get? name l.fields = some old ∧ Gives (read (.ofValue old)) kept

namespace ReadsBack

variable {kept default : α}

/-- A field that an update does not name is kept. -/
theorem eq_of_gives (hback : ReadsBack l name read kept) (hnamed : Input.names given name = false)
    (h : Gives (Reading.field (spellings name) (l.updated given) absent read) a) : a = kept := by
  rcases hback.shown with ⟨old, hold, hkept⟩
  have hshows := l.shows_updated hback.updatable hold given
  rw [Input.names, Option.isSome_eq_false_iff, Option.isNone_iff_eq_none] at hnamed
  rw [hnamed, Option.getD_none] at hshows
  exact ((gives_field_iff hshows).mp h).unique hkept

/-- A field of an update is read like that of a new condition if it is named, and is kept if it is
not. -/
theorem gives_iff (hback : ReadsBack l name read kept) (hdefault : Gives absent default) :
    Gives (Reading.field (spellings name) (l.updated given) absent read) a ↔
      ∃ source, Gives (Reading.field (spellings name) (Input.settled given) absent read) source ∧
        a = if Input.names given name then source else kept := by
  rcases hback.shown with ⟨old, hold, hkept⟩
  have hshows := l.shows_updated hback.updatable hold given
  have hfind := Input.find?_spellings (Input.namedOnce_settled given)
    (UpdateTarget.mem_updatableFields l.target_ne_group hback.updatable)
  rw [Input.named?_settled] at hfind
  rw [gives_field_iff hshows, Input.names]
  cases hnamed : Input.named? name given with
  | none =>
      rw [hnamed, Option.map_eq_none_iff] at hfind
      rw [Reading.field, hfind, Option.getD_none]
      constructor
      · exact fun ha => ⟨default, hdefault, ha.unique hkept⟩
      · rintro ⟨_, _, rfl⟩
        exact hkept
  | some input =>
      rw [hnamed] at hfind
      rcases Option.map_eq_some_iff.mp hfind with ⟨⟨key, found⟩, hfound, rfl⟩
      rw [Reading.field, hfound, Option.getD_some]
      constructor
      · exact fun ha => ⟨a, gives_within_iff.mpr ha, rfl⟩
      · rintro ⟨_, hsource, rfl⟩
        exact gives_within_iff.mp hsource

variable (l)

theorem field : ReadsBack l "field" text l.condition.field where
  updatable := l.mem_updatable (by decide)
  shown := ⟨.text l.condition.field, l.get?_fields rfl, fun _ => rfl⟩

theorem operator : ReadsBack l "operator" operator l.condition.operator where
  updatable := l.mem_updatable (by decide)
  shown := ⟨_, l.get?_fields rfl, run_operator_recorded l.condition.operator⟩

theorem value : ReadsBack l "value" value l.condition.value where
  updatable := l.mem_updatable (by decide)
  shown := ⟨_, l.get?_fields rfl, run_value l.condition.value⟩

theorem lowerKind :
    ReadsBack l "min_operator" (inclusive .lower) l.condition.lower.inclusive where
  updatable := l.mem_updatable (by decide)
  shown := ⟨.text (Side.lower.keyword l.condition.lower.inclusive), l.get?_fields rfl,
    run_inclusive_keyword .lower l.condition.lower.inclusive⟩

theorem lower : ReadsBack l "min_value" Reading.value l.condition.lower.limit where
  updatable := l.mem_updatable (by decide)
  shown := ⟨_, l.get?_fields rfl, run_value l.condition.lower.limit⟩

theorem upperKind :
    ReadsBack l "max_operator" (inclusive .upper) l.condition.upper.inclusive where
  updatable := l.mem_updatable (by decide)
  shown := ⟨.text (Side.upper.keyword l.condition.upper.inclusive), l.get?_fields rfl,
    run_inclusive_keyword .upper l.condition.upper.inclusive⟩

theorem upper : ReadsBack l "max_value" Reading.value l.condition.upper.limit where
  updatable := l.mem_updatable (by decide)
  shown := ⟨_, l.get?_fields rfl, run_value l.condition.upper.limit⟩

theorem relation (r : Row) : ReadsBack (.row r) "relation" relation r.relation where
  updatable := (by decide : "relation" ∈ UpdateTarget.row.names.map Prod.snd)
  shown := by
    refine ⟨Relation.field r.relation, rfl, fun ids => ?_⟩
    rw [Reading.relation, Relation.resolve_ofValue_field]
    rfl

end ReadsBack

/-! ## Updated leaves -/

/-- An updated leaf shows its kind. -/
theorem gives_kind_updated (l : Leaf) (given : List (String × Input)) :
    Gives (kind "condition" (l.updated given)) () := by
  have hname : ∀ target : UpdateTarget, "kind" ∉ target.names.map Prod.snd := by
    intro target
    cases target <;> decide
  have hshown : Value.get? "kind" l.fields = some (.text "condition") := l.get?_fields rfl
  have hkind : Input.get? "kind" (l.updated given) = some (.text "condition") := by
    rw [Leaf.updated, UpdateTarget.get?_apply_of_not_mem (hname l.target), hshown]
    rfl
  intro ids
  refine run_field_of_get? hkind ?_
  simp only [if_true]
  rfl

/-- The parts of an updated condition are those that are read from the update where it names them,
and those of the old one elsewhere. -/
theorem readsParts_updated_iff (hkind : ∀ entry ∈ given, entry.1 ≠ "kind") {c : Condition}
    (hid : c.id = l.condition.id) :
    ReadsParts (l.updated given) c ↔
      ∃ source, ReadsParts (Input.settled given) source ∧
        c = l.condition.taking (Input.names given) source := by
  have hnone : Input.get? "kind" (Input.settled given) = none := by
    rw [Input.get?_eq_none_iff]
    intro hmem
    rcases List.mem_map.mp hmem with ⟨entry, hentry, hkey⟩
    exact hkind entry (Input.mem_of_mem_settled hentry) hkey
  constructor
  · intro h
    rcases ((ReadsBack.field l).gives_iff fun _ => rfl).mp h.field with ⟨field, hfield, h₁⟩
    rcases ((ReadsBack.operator l).gives_iff fun _ => rfl).mp h.operator with ⟨op, hop, h₂⟩
    rcases ((ReadsBack.value l).gives_iff fun _ => rfl).mp h.value with ⟨value, hvalue, h₃⟩
    rcases ((ReadsBack.lowerKind l).gives_iff fun _ => rfl).mp h.lowerKind with
      ⟨lowerKind, hlowerKind, h₄⟩
    rcases ((ReadsBack.lower l).gives_iff fun _ => rfl).mp h.lower with ⟨lower, hlower, h₅⟩
    rcases ((ReadsBack.upperKind l).gives_iff fun _ => rfl).mp h.upperKind with
      ⟨upperKind, hupperKind, h₆⟩
    rcases ((ReadsBack.upper l).gives_iff fun _ => rfl).mp h.upper with ⟨upper, hupper, h₇⟩
    refine ⟨⟨"", field, op, value, ⟨lowerKind, lower⟩, ⟨upperKind, upper⟩⟩, ?_, ?_⟩
    · refine ⟨fun ids => ?_, hfield, hop, hvalue, hlowerKind, hlower, hupperKind, hupper⟩
      rw [kind, field_of_get?_eq_none (by simpa using hnone)]
      rfl
    · rw [Condition.taking, ← hid, ← h₁, ← h₂, ← h₃, ← h₄, ← h₅, ← h₆, ← h₇]
  · rintro ⟨source, h, hc⟩
    rw [hc]
    exact
      { kind := gives_kind_updated l given
        field := ((ReadsBack.field l).gives_iff fun _ => rfl).mpr ⟨_, h.field, rfl⟩
        operator := ((ReadsBack.operator l).gives_iff fun _ => rfl).mpr ⟨_, h.operator, rfl⟩
        value := ((ReadsBack.value l).gives_iff fun _ => rfl).mpr ⟨_, h.value, rfl⟩
        lowerKind := ((ReadsBack.lowerKind l).gives_iff fun _ => rfl).mpr ⟨_, h.lowerKind, rfl⟩
        lower := ((ReadsBack.lower l).gives_iff fun _ => rfl).mpr ⟨_, h.lower, rfl⟩
        upperKind := ((ReadsBack.upperKind l).gives_iff fun _ => rfl).mpr ⟨_, h.upperKind, rfl⟩
        upper := ((ReadsBack.upper l).gives_iff fun _ => rfl).mpr ⟨_, h.upper, rfl⟩ }

/-- An updated condition has kept all parts but those that are named. -/
theorem keeps_of_readsParts {c : Condition} (hid : c.id = l.condition.id)
    (h : ReadsParts (l.updated given) c) : l.condition.Keeps (Input.names given) c where
  id := hid
  field hnamed := (ReadsBack.field l).eq_of_gives hnamed h.field
  operator hnamed := (ReadsBack.operator l).eq_of_gives hnamed h.operator
  value hnamed := (ReadsBack.value l).eq_of_gives hnamed h.value
  lowerKind hnamed := (ReadsBack.lowerKind l).eq_of_gives hnamed h.lowerKind
  lower hnamed := (ReadsBack.lower l).eq_of_gives hnamed h.lower
  upperKind hnamed := (ReadsBack.upperKind l).eq_of_gives hnamed h.upperKind
  upper hnamed := (ReadsBack.upper l).eq_of_gives hnamed h.upper

/-- The identifier of an updated leaf is read back. -/
theorem run_identifier_updated (l : Leaf) (given : List (String × Input)) (ids : IdSupply) :
    (identifier (l.updated given)).run ids = .ok (l.condition.id, ids) := by
  have hshown : Value.get? "id" l.fields = some (.text l.condition.id) := l.get?_fields rfl
  have hid : Input.get? "id" (l.updated given) = some (.text l.condition.id) := by
    rw [Leaf.updated, UpdateTarget.get?_id_apply, hshown]
    rfl
  exact run_field_of_get? hid rfl

/-- Without an identifier a new one is drawn. -/
theorem run_identifier_of_not_mem (h : ∀ field ∈ fields, field.1 ≠ "id") (ids : IdSupply) :
    (identifier fields).run ids = .ok ids.mint := by
  have hnone : Input.get? "id" fields = none := by
    rw [Input.get?_eq_none_iff]
    intro hmem
    rcases List.mem_map.mp hmem with ⟨field, hfield, hkey⟩
    exact h field hfield hkey
  rw [identifier, field_of_get?_eq_none (by simpa using hnone)]
  rfl

section Updated

variable (others : IdSupply) (hkeys : ∀ entry ∈ given, entry.1 ≠ "id" ∧ entry.1 ≠ "kind")

include hkeys

/-- An updated condition takes the fields that are named from the condition that is read from the
update, and it is read exactly if that one is. -/
theorem run_condition_updated_iff {c : Condition} :
    (condition (l.updated given)).run ids = .ok (c, left) ↔
      left = ids ∧ ∃ source rest,
        (condition (Input.settled given)).run others = .ok (source, rest) ∧
          c = l.condition.taking (Input.names given) source := by
  have hdrawn := run_identifier_of_not_mem
    (fun entry hentry => (hkeys entry (Input.mem_of_mem_settled hentry)).1) others
  rw [run_condition_eq_ok_iff, run_identifier_updated]
  constructor
  · rintro ⟨hrun, hparts⟩
    rcases Prod.mk.inj (Except.ok.inj hrun) with ⟨hid, rfl⟩
    rcases (readsParts_updated_iff (fun entry hentry => (hkeys entry hentry).2) hid.symm).mp hparts
      with ⟨source, hsource, hc⟩
    refine ⟨rfl, { source with id := others.mint.1 }, others.mint.2, ?_, hc⟩
    exact run_condition_eq_ok_iff.mpr ⟨hdrawn, hsource.withId _⟩
  · rintro ⟨rfl, source, rest, hread, rfl⟩
    have hid : (l.condition.taking (Input.names given) source).id = l.condition.id := rfl
    refine ⟨rfl, (readsParts_updated_iff (fun entry hentry => (hkeys entry hentry).2) hid).mpr ?_⟩
    exact ⟨source, (run_condition_eq_ok_iff.mp hread).2, rfl⟩

/-- So does an updated row. -/
theorem run_updatedRow_iff {r new : Row} :
    (updatedRow r given).run ids = .ok (new, left) ↔
      left = ids ∧ ∃ source rest,
        (rowFields (Input.settled given)).run others = .ok (source, rest) ∧
          new = r.taking (Input.names given) source := by
  have hrelation (stated : Option Relation) :
      Gives (field ["relation", "logic"] ((Leaf.row r).updated given) (pure none) relation) stated ↔
        ∃ source, Gives (field ["relation", "logic"] (Input.settled given) (pure none) relation)
            source ∧ stated = if Input.names given "relation" then source else r.relation :=
    (ReadsBack.relation r).gives_iff fun _ => rfl
  change (rowFields ((Leaf.row r).updated given)).run ids = .ok (new, left) ↔ _
  rw [run_rowFields_eq_ok_iff, run_condition_updated_iff others hkeys]
  constructor
  · rintro ⟨⟨rfl, source, rest, hsource, hc⟩, hstated⟩
    rcases (hrelation new.relation).mp hstated with ⟨stated, hread, hnew⟩
    refine ⟨rfl, ⟨source, stated⟩, rest, run_rowFields_eq_ok_iff.mpr ⟨hsource, hread⟩, ?_⟩
    rcases new with ⟨c, given⟩
    exact congrArg₂ Row.mk hc hnew
  · rintro ⟨rfl, source, rest, hsource, rfl⟩
    rcases run_rowFields_eq_ok_iff.mp hsource with ⟨hcondition, hread⟩
    exact ⟨⟨rfl, source.toCondition, rest, hcondition, rfl⟩,
      (hrelation _).mpr ⟨source.relation, hread, rfl⟩⟩

end Updated

/-- A leaf of the same form as another one, read from the fields of an object. -/
def inFormOf (fields : List (String × Input)) : Leaf → Reading Leaf
  | .plain _ => Leaf.plain <$> condition fields
  | .row _ => Leaf.row <$> rowFields fields

/-- An updated leaf takes the fields that are named from the leaf that is read from the update, and
it is read exactly if that one is. -/
theorem run_updatedLeaf_iff (others : IdSupply)
    (hkeys : ∀ entry ∈ given, entry.1 ≠ "id" ∧ entry.1 ≠ "kind") {new : Leaf} :
    (updatedLeaf given l).run ids = .ok (new, left) ↔
      left = ids ∧ ∃ source rest,
        (inFormOf (Input.settled given) l).run others = .ok (source, rest) ∧
          new = l.taking (Input.names given) source := by
  cases l with
  | plain c =>
      have hcondition {c' : Condition} :
          (condition ((Leaf.plain c).updated given)).run ids = .ok (c', left) ↔ _ :=
        run_condition_updated_iff others hkeys
      constructor
      · intro h
        rcases run_map_eq_ok_iff.mp h with ⟨c', hrun, rfl⟩
        rcases hcondition.mp hrun with ⟨rfl, source, rest, hread, rfl⟩
        exact ⟨rfl, .plain source, rest, run_map_eq_ok_iff.mpr ⟨source, hread, rfl⟩, rfl⟩
      · rintro ⟨rfl, source, rest, hread, rfl⟩
        rcases run_map_eq_ok_iff.mp hread with ⟨read, hcond, rfl⟩
        exact run_map_eq_ok_iff.mpr ⟨_, hcondition.mpr ⟨rfl, read, rest, hcond, rfl⟩, rfl⟩
  | row r =>
      constructor
      · intro h
        rcases run_map_eq_ok_iff.mp h with ⟨r', hrun, rfl⟩
        rcases (run_updatedRow_iff others hkeys).mp hrun with
          ⟨rfl, source, rest, hread, rfl⟩
        exact ⟨rfl, .row source, rest, run_map_eq_ok_iff.mpr ⟨source, hread, rfl⟩, rfl⟩
      · rintro ⟨rfl, source, rest, hread, rfl⟩
        rcases run_map_eq_ok_iff.mp hread with ⟨read, hrow, rfl⟩
        exact run_map_eq_ok_iff.mpr
          ⟨_, (run_updatedRow_iff others hkeys).mpr ⟨rfl, read, rest, hrow, rfl⟩, rfl⟩

/-- An update of a leaf keeps every field that it does not name. -/
theorem run_updatedLeaf_keeps {new : Leaf} (h : (updatedLeaf given l).run ids = .ok (new, left)) :
    l.Keeps (Input.names given) new := by
  have hid := (run_updatedLeaf h).1
  cases l with
  | plain c =>
      rcases run_map_eq_ok_iff.mp h with ⟨c', hrun, rfl⟩
      exact keeps_of_readsParts (l := .plain c) hid (run_condition_eq_ok_iff.mp hrun).2
  | row r =>
      rcases run_map_eq_ok_iff.mp h with ⟨r', hrun, rfl⟩
      rcases run_rowFields_eq_ok_iff.mp hrun with ⟨hcondition, hrelation⟩
      refine ⟨keeps_of_readsParts (l := .row r) hid (run_condition_eq_ok_iff.mp hcondition).2, ?_⟩
      exact fun hnamed => (ReadsBack.relation r).eq_of_gives hnamed hrelation

/-! ## The order of an update -/

/-- A condition is read alike from objects that have all fields in common. -/
theorem condition_congr {first second : List (String × Input)}
    (h : ∀ name, Input.get? name first = Input.get? name second) :
    condition first = condition second := by
  simp only [condition, kind, identifier, bound, field_congr fun name _ => h name]

/-- So is a row. -/
theorem rowFields_congr {first second : List (String × Input)}
    (h : ∀ name, Input.get? name first = Input.get? name second) :
    rowFields first = rowFields second := by
  rw [rowFields, rowFields, condition_congr h, field_congr fun name _ => h name]

section Congruence

variable {other : List (String × Input)}
  (h : ∀ name, Input.named? name given = Input.named? name other)

include h

/-- Updates that give the same to every field show the same. -/
theorem get?_updated_congr (l : Leaf) (name : String) :
    Input.get? name (l.updated given) = Input.get? name (l.updated other) := by
  rw [Leaf.updated, Leaf.updated, UpdateTarget.get?_apply, UpdateTarget.get?_apply]
  by_cases hname : name ∈ l.target.names.map Prod.snd
  · rw [UpdateTarget.get?_updates l.target_ne_group hname,
      UpdateTarget.get?_updates l.target_ne_group hname, h]
  · rw [UpdateTarget.get?_updates_of_not_mem hname, UpdateTarget.get?_updates_of_not_mem hname]

/-- So a row is updated alike by them. -/
theorem updatedRow_congr (r : Row) : updatedRow r given = updatedRow r other :=
  rowFields_congr (get?_updated_congr h (.row r))

/-- So is a leaf. -/
theorem updatedLeaf_congr (l : Leaf) : updatedLeaf given l = updatedLeaf other l := by
  cases l with
  | plain c =>
      exact congrArg (Leaf.plain <$> ·) (condition_congr (get?_updated_congr h (.plain c)))
  | row r => exact congrArg (Leaf.row <$> ·) (updatedRow_congr h r)

end Congruence

end Reading

end FilterQuery
