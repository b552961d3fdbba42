import FilterQuery.Proofs.FullRecord
import FilterQuery.Proofs.Rows.Update

/-!
# Fields of updated conditions

An update is a mapping from keys to data, and a key stands for a field under its plain name or under
another one.  A field that is named is shown by what the update says of it, and any other one by
what was there.

Where a mapping names a field several times, an update goes by the last one.  The mapping that is
left when all others are dropped names every field once, and then a reading of conditions finds just
what an update finds.

Main results:

- `mem_spellings_iff`: the keys that a reading looks for are those that stand for the field.
- `Input.find?_spellings`: in a mapping that names every field once, a field is found where it is
  named.
- `UpdateTarget.get?_updates`: an update gives to a field what its mapping names last.
- `Leaf.shows_updated`: an updated leaf shows a field by what is named last, or by what was there.
-/

open scoped List

namespace FilterQuery

/-! ## Keys and the fields that they name -/

/-- The plain name of the field that a key stands for. -/
def plainName (key : String) : String :=
  match key with
  | "minOperator" => "min_operator"
  | "minValue" => "min_value"
  | "maxOperator" => "max_operator"
  | "maxValue" => "max_value"
  | "logic" => "relation"
  | name => name

/-- The keys that stand for a field, in the order in which a reading looks for them. -/
def spellings (name : String) : List String :=
  match name with
  | "min_operator" => ["minOperator", "min_operator"]
  | "min_value" => ["minValue", "min_value"]
  | "max_operator" => ["maxOperator", "max_operator"]
  | "max_value" => ["maxValue", "max_value"]
  | "relation" => ["relation", "logic"]
  | name => [name]

/-- The fields of a row that updates may name. -/
def updatableFields : List String :=
  ["field", "operator", "value", "min_operator", "min_value", "max_operator", "max_value",
    "relation"]

/-- A key is one of the spellings of a field exactly if it stands for the field. -/
theorem mem_spellings_iff {name key : String} (hname : name ∈ updatableFields) :
    key ∈ spellings name ↔ plainName key = name := by
  constructor
  · intro hkey
    have hall : ∀ name ∈ updatableFields, ∀ key ∈ spellings name, plainName key = name := by decide
    exact hall name hname key hkey
  · intro hplain
    unfold plainName at hplain
    split at hplain
    -- The keys that differ from the name of their field come first.
    iterate 5 (subst hplain; decide)
    subst hplain
    simp only [updatableFields, List.mem_cons, List.not_mem_nil, or_false] at hname
    rcases hname with rfl | rfl | rfl | rfl | rfl | rfl | rfl | rfl <;> decide

namespace Input

/-- What a mapping gives to a field, under whatever key: the last one counts. -/
def named? (name : String) : List (String × Input) → Option Input
  | [] => none
  | (key, input) :: rest =>
      (named? name rest).or (if plainName key = name then some input else none)

/-- Whether a mapping names a field. -/
def names (given : List (String × Input)) (name : String) : Bool :=
  (named? name given).isSome

/-- Whether no two keys of a mapping stand for the same field. -/
def NamedOnce (given : List (String × Input)) : Prop :=
  (given.map fun entry => plainName entry.1).Nodup

instance (given : List (String × Input)) : Decidable (NamedOnce given) :=
  inferInstanceAs (Decidable (given.map fun entry => plainName entry.1).Nodup)

/-- A mapping without the entries that a later one names again. -/
def settled : List (String × Input) → List (String × Input)
  | [] => []
  | (key, input) :: rest =>
      if names rest (plainName key) then settled rest else (key, input) :: settled rest

variable {name : String} {given other : List (String × Input)}

/-- A field is not named exactly if no key stands for it. -/
theorem named?_eq_none_iff :
    named? name given = none ↔ ∀ entry ∈ given, plainName entry.1 ≠ name := by
  induction given with
  | nil => simp [named?]
  | cons entry rest ih =>
      rcases entry with ⟨key, input⟩
      by_cases hkey : plainName key = name <;> simp [named?, hkey, ih]

/-- Where every field is named once, what is given to a field stands under a key of it. -/
theorem named?_eq_some_iff {input : Input} (h : NamedOnce given) :
    named? name given = some input ↔ ∃ key, (key, input) ∈ given ∧ plainName key = name := by
  induction given with
  | nil => simp [named?]
  | cons entry rest ih =>
      rcases entry with ⟨key, first⟩
      rw [NamedOnce, List.map_cons, List.nodup_cons] at h
      rw [named?, Option.or_eq_some_iff, ih h.2]
      constructor
      · rintro (⟨found, hfound, hplain⟩ | ⟨_, hfirst⟩)
        · exact ⟨found, List.mem_cons_of_mem _ hfound, hplain⟩
        · rw [Option.ite_none_right_eq_some] at hfirst
          rcases hfirst with ⟨hplain, hinput⟩
          rcases Option.some.inj hinput with rfl
          exact ⟨key, List.mem_cons_self, hplain⟩
      · rintro ⟨found, hfound, hplain⟩
        rcases List.mem_cons.mp hfound with hfirst | hrest
        · rcases Prod.mk.inj hfirst with ⟨rfl, rfl⟩
          refine .inr ⟨named?_eq_none_iff.mpr fun entry hentry hsame => h.1 ?_, if_pos hplain⟩
          rw [hplain, ← hsame]
          exact List.mem_map_of_mem hentry
        · exact .inl ⟨found, hrest, hplain⟩

/-- Where every field is named once, the order does not count. -/
theorem named?_perm (h : NamedOnce given) (horder : given ~ other) (name : String) :
    named? name given = named? name other := by
  have hkeys := horder.map fun entry : String × Input => plainName entry.1
  have hother : NamedOnce other := hkeys.nodup_iff.mp h
  apply Option.ext
  intro input
  rw [named?_eq_some_iff h, named?_eq_some_iff hother]
  simp only [horder.mem_iff]

/-- What a mapping gives to a field is there when all else that it names again is dropped. -/
@[simp]
theorem named?_settled (name : String) (given : List (String × Input)) :
    named? name (settled given) = named? name given := by
  induction given with
  | nil => rfl
  | cons entry rest ih =>
      rcases entry with ⟨key, input⟩
      rw [settled]
      split
      · next hagain =>
          rw [ih, named?]
          by_cases hkey : plainName key = name
          · rw [names, Option.isSome_iff_exists, hkey] at hagain
            rcases hagain with ⟨later, hlater⟩
            rw [hlater, Option.some_or]
          · rw [if_neg hkey, Option.or_none]
      · rw [named?, named?, ih]

/-- After that every field is named once. -/
theorem namedOnce_settled (given : List (String × Input)) : NamedOnce (settled given) := by
  induction given with
  | nil => exact .nil
  | cons entry rest ih =>
      rcases entry with ⟨key, input⟩
      rw [settled]
      split
      · exact ih
      · next hlast =>
          rw [names, Bool.not_eq_true, Option.isSome_eq_false_iff, Option.isNone_iff_eq_none,
            ← named?_settled, named?_eq_none_iff] at hlast
          rw [NamedOnce, List.map_cons, List.nodup_cons]
          refine ⟨fun hmem => ?_, ih⟩
          rcases List.mem_map.mp hmem with ⟨again, hagain, hsame⟩
          exact hlast again hagain hsame

/-- Where every field is named once already, nothing is dropped. -/
theorem settled_eq_self (h : NamedOnce given) : settled given = given := by
  induction given with
  | nil => rfl
  | cons entry rest ih =>
      rcases entry with ⟨key, input⟩
      rw [NamedOnce, List.map_cons, List.nodup_cons] at h
      have hlast : names rest (plainName key) = false := by
        rw [names, Option.isSome_eq_false_iff, Option.isNone_iff_eq_none, named?_eq_none_iff]
        exact fun again hagain hsame => h.1 (hsame ▸ List.mem_map_of_mem hagain)
      rw [settled, hlast, ih h.2]
      rfl

/-- Nothing comes in when entries are dropped. -/
theorem mem_of_mem_settled {entry : String × Input} (h : entry ∈ settled given) :
    entry ∈ given := by
  induction given with
  | nil => exact h
  | cons first rest ih =>
      rw [settled] at h
      split at h
      · exact List.mem_cons_of_mem _ (ih h)
      · rcases List.mem_cons.mp h with rfl | hrest
        · exact List.mem_cons_self
        · exact List.mem_cons_of_mem _ (ih hrest)

/-- A field that is found is there. -/
theorem mem_of_get? {fields : List (String × Input)} {input : Input}
    (h : get? name fields = some input) : (name, input) ∈ fields := by
  induction fields with
  | nil => contradiction
  | cons field rest ih =>
      rcases field with ⟨key, first⟩
      rw [get?] at h
      split at h
      · next hkey =>
          rcases Option.some.inj h with rfl
          exact hkey ▸ List.mem_cons_self
      · exact List.mem_cons_of_mem _ (ih h)

/-- In a mapping that names every field once, a field is found where it is named. -/
theorem find?_spellings (h : NamedOnce given) (hname : name ∈ updatableFields) :
    (find? (spellings name) given).map Prod.snd = named? name given := by
  cases hfind : find? (spellings name) given with
  | none =>
      rw [find?, List.findSome?_eq_none_iff] at hfind
      refine (named?_eq_none_iff.mpr fun entry hentry hplain => ?_).symm
      have hget := hfind entry.1 ((mem_spellings_iff hname).mpr hplain)
      rw [Option.map_eq_none_iff, get?_eq_none_iff] at hget
      exact hget (List.mem_map_of_mem hentry)
  | some found =>
      rcases List.exists_of_findSome?_eq_some hfind with ⟨key, hkey, hget⟩
      rcases Option.map_eq_some_iff.mp hget with ⟨input, hinput, rfl⟩
      refine ((named?_eq_some_iff h).mpr ⟨key, mem_of_get? hinput, ?_⟩).symm
      exact (mem_spellings_iff hname).mp hkey

end Input

/-! ## What an update gives to the fields -/

namespace UpdateTarget

variable {target : UpdateTarget} {name : String}

/-- What may be updated in a condition or in a row may be updated in a row. -/
theorem mem_updatableFields (htarget : target ≠ .group)
    (hname : name ∈ target.names.map Prod.snd) : name ∈ updatableFields := by
  have hsubset : ∀ name ∈ target.names.map Prod.snd, name ∈ updatableFields := by
    cases target <;> first | contradiction | decide
  exact hsubset name hname

/-- The keys of all fields of conditions and rows are those that stand for them. -/
theorem lookup_names_iff (htarget : target ≠ .group) (hname : name ∈ target.names.map Prod.snd)
    {key : String} : target.names.lookup key = some name ↔ plainName key = name := by
  have hplain : ∀ entry ∈ target.names, plainName entry.1 = entry.2 := by
    cases target <;> first | contradiction | decide
  have hall : ∀ name ∈ target.names.map Prod.snd, ∀ key ∈ spellings name,
      target.names.lookup key = some name := by
    cases target <;> first | contradiction | decide
  constructor
  · intro hlookup
    rcases List.lookup_eq_some_iff.mp hlookup with ⟨before, after, hnames, _⟩
    exact hplain (key, name) (by simp [hnames])
  · intro hkey
    exact hall name hname key ((mem_spellings_iff (mem_updatableFields htarget hname)).mpr hkey)

/-- What is taken over for a field is what its mapping names last. -/
theorem get?_foldl_take (htarget : target ≠ .group) (hname : name ∈ target.names.map Prod.snd)
    (given kept : List (String × Input)) :
    Input.get? name (given.foldl target.take kept) =
      (Input.named? name given).or (Input.get? name kept) := by
  induction given generalizing kept with
  | nil => rfl
  | cons update rest ih =>
      rw [List.foldl_cons, ih, Input.named?, Option.or_assoc]
      congr 1
      by_cases hkey : plainName update.1 = name
      · rw [take, (lookup_names_iff htarget hname).mpr hkey, if_pos hkey, Option.some_or]
        exact Input.get?_set_self name update.2 kept
      · rw [if_neg hkey, Option.none_or, take]
        split
        · next other hother =>
            refine Input.get?_set_of_ne ?_ _ _
            rintro rfl
            exact hkey ((lookup_names_iff htarget hname).mp hother)
        · rfl

/-- An update gives to a field what its mapping names last. -/
theorem get?_updates (htarget : target ≠ .group) (hname : name ∈ target.names.map Prod.snd)
    (given : List (String × Input)) :
    Input.get? name (target.updates given) = Input.named? name given := by
  rw [updates, get?_foldl_take htarget hname, Input.get?, Option.or_none]

/-- An update gives nothing to what it cannot name. -/
theorem get?_updates_of_not_mem (hname : name ∉ target.names.map Prod.snd)
    (given : List (String × Input)) : Input.get? name (target.updates given) = none := by
  have hfold : ∀ kept, Input.get? name (given.foldl target.take kept) = Input.get? name kept := by
    induction given with
    | nil => exact fun kept => rfl
    | cons update rest ih =>
        intro kept
        rw [List.foldl_cons, ih, take]
        split
        · next other hother =>
            refine Input.get?_set_of_ne ?_ _ _
            rintro rfl
            rcases List.lookup_eq_some_iff.mp hother with ⟨before, after, hnames, _⟩
            exact hname (by simp [hnames])
        · rfl
  exact hfold []

variable {fields : List (String × Value)} {value : Value}

/-- An updated field is shown under its plain name: what the update names last, or what was
there. -/
theorem get?_apply_of_mem (htarget : target ≠ .group) (hname : name ∈ target.names.map Prod.snd)
    (hvalue : Value.get? name fields = some value) (given : List (String × Input)) :
    Input.get? name (target.apply fields given) =
      some ((Input.named? name given).getD (.ofValue value)) := by
  rw [get?_apply, get?_updates htarget hname, hvalue]
  cases Input.named? name given <;> rfl

/-- What an update cannot name is shown as it was. -/
theorem get?_apply_of_not_mem (hname : name ∉ target.names.map Prod.snd)
    (fields : List (String × Value)) (given : List (String × Input)) :
    Input.get? name (target.apply fields given) = (Value.get? name fields).map Input.ofValue := by
  rw [get?_apply, get?_updates_of_not_mem hname, Option.none_or]

end UpdateTarget

/-! ## Leaves and what they show -/

/-- A field that is found is also found with more fields behind it. -/
theorem Value.get?_append_of_eq_some {name : String} {value : Value}
    {fields : List (String × Value)} (h : get? name fields = some value)
    (others : List (String × Value)) : get? name (fields ++ others) = some value := by
  induction fields with
  | nil => contradiction
  | cons field rest ih =>
      rcases field with ⟨key, first⟩
      by_cases hkey : key = name <;> simp_all [get?]

namespace Leaf

/-- What an update of a leaf is made for. -/
def target : Leaf → UpdateTarget
  | plain _ => .condition
  | row _ => .row

/-- The fields of a leaf by their plain names. -/
def fields : Leaf → List (String × Value)
  | plain c => c.fields
  | row r => r.fields

/-- The fields that an update of a leaf may name. -/
def updatable (l : Leaf) : List String :=
  l.target.names.map Prod.snd

/-- What may be updated in a condition may be updated in every leaf. -/
theorem mem_updatable (l : Leaf) {name : String}
    (h : name ∈ UpdateTarget.condition.names.map Prod.snd) : name ∈ l.updatable := by
  cases l with
  | plain c => exact h
  | row r =>
      rw [updatable, target, UpdateTarget.names, List.map_append]
      exact List.mem_append_left _ h

/-- What a leaf shows as a condition, it shows. -/
theorem get?_fields (l : Leaf) {name : String} {value : Value}
    (h : Value.get? name l.condition.fields = some value) :
    Value.get? name l.fields = some value := by
  cases l with
  | plain c => exact h
  | row r => exact Value.get?_append_of_eq_some h _

theorem target_ne_group (l : Leaf) : l.target ≠ .group := by
  cases l <;> exact UpdateTarget.noConfusion

/-- A leaf with an update applied to its fields. -/
def updated (l : Leaf) (given : List (String × Input)) : List (String × Input) :=
  l.target.apply l.fields given

/-- A key that stands in records is none by which a leaf shows a field. -/
theorem get?_updated_of_recorded (l : Leaf) {key : String}
    (hkey : key ∈ ["minOperator", "minValue", "maxOperator", "maxValue"])
    (given : List (String × Input)) : Input.get? key (l.updated given) = none := by
  have hnames : ∀ target : UpdateTarget,
      ∀ key ∈ ["minOperator", "minValue", "maxOperator", "maxValue"],
        key ∉ target.names.map Prod.snd := by
    intro target
    cases target <;> decide
  have hfields : Value.get? key l.fields = none := by
    simp only [List.mem_cons, List.not_mem_nil, or_false] at hkey
    rcases hkey with rfl | rfl | rfl | rfl <;> cases l <;> rfl
  rw [updated, UpdateTarget.get?_apply_of_not_mem (hnames l.target key hkey), hfields]
  rfl

/-- A field of an updated leaf is shown: by what the update names last, or by what was there. -/
theorem shows_updated (l : Leaf) {name : String} {value : Value} (hname : name ∈ l.updatable)
    (hvalue : Value.get? name l.fields = some value) (given : List (String × Input)) :
    Input.Shows (spellings name) (l.updated given)
      ((Input.named? name given).getD (.ofValue value)) := by
  have hplain := UpdateTarget.get?_apply_of_mem l.target_ne_group hname hvalue given
  have hspellings : (∃ others, spellings name = name :: others) ∨
      ∃ recorded ∈ ["minOperator", "minValue", "maxOperator", "maxValue"],
        spellings name = [recorded, name] := by
    unfold spellings
    split
    iterate 4 exact .inr ⟨_, by decide, rfl⟩
    · exact .inl ⟨_, rfl⟩
    · exact .inl ⟨_, rfl⟩
  rcases hspellings with ⟨others, hfirst⟩ | ⟨recorded, hrecorded, hfirst⟩
  · exact ⟨name, by rw [hfirst, Input.find?, List.findSome?_cons, updated, hplain]; rfl⟩
  · refine ⟨name, ?_⟩
    rw [hfirst, Input.find?, List.findSome?_cons, get?_updated_of_recorded l hrecorded,
      Option.map_none, List.findSome?_cons, updated, hplain]
    rfl

end Leaf

end FilterQuery
