import FilterQuery.Json.Reader
import FilterQuery.Proofs.Number.Binary64
import FilterQuery.Proofs.Number.Digits
import Mathlib.Data.List.Nodup

/-!
# Values that texts denote

Not every value is denoted by a text.  An integer in a text has at most as many digits as may be
read, there is one way only to say that a number is absent, an object has no two fields of one name,
and there are no bytes.  Whatever is read from a text is such a value.

Main results:

- `Value.nodup_names_set`, `isReadable_withoutRepeats`: fields are collected under different names.
- `isReadable_readValue`: what the reader finds at the start of a text is denoted by a text.
- `isReadable_of_read`: so is what it reads from a whole text.
-/

namespace FilterQuery

open Number

namespace Value

/-! ## Values that a text denotes -/

/-- The values that a text can denote. -/
inductive IsReadable : Value → Prop
  | null : IsReadable null
  | bool (b : Bool) : IsReadable (bool b)
  | int {n : Int} (short : n.natAbs < Nat.pow 10 maxDigits) : IsReadable (int n)
  | float {x : Binary64} (absent : x.isNaN = true → x = Binary64.nan) : IsReadable (float x)
  | text (s : String) : IsReadable (text s)
  | list {items : List Value} (inside : ∀ item ∈ items, IsReadable item) :
      IsReadable (list items)
  | object {fields : List (String × Value)} (distinct : (fields.map Prod.fst).Nodup)
      (inside : ∀ field ∈ fields, IsReadable field.2) : IsReadable (object fields)

/-- What is written as a number is read as such a value. -/
theorem isReadable_ofDigits (negative : Bool) (whole decimals : List Char) (power : Int) :
    (float (Binary64.ofDigits negative whole decimals power)).IsReadable :=
  .float fun h => by
    rw [Binary64.isNaN_ofDigits] at h
    contradiction

/-- The items of such a list are such values. -/
theorem IsReadable.items {items : List Value} (h : (Value.list items).IsReadable) :
    ∀ item ∈ items, item.IsReadable := by
  cases h with
  | list inside => exact inside

/-- The values in such an object are such values. -/
theorem IsReadable.fields {fields : List (String × Value)} (h : (Value.object fields).IsReadable) :
    ∀ field ∈ fields, field.2.IsReadable := by
  cases h with
  | object _ inside => exact inside

/-- An object with one field is such a value if the value of the field is. -/
theorem isReadable_single (name : String) {value : Value} (h : value.IsReadable) :
    (object [(name, value)]).IsReadable :=
  .object (List.nodup_singleton name) (by simpa using h)

/-- An object with two fields of different names is such a value if the values of both are. -/
theorem isReadable_pair {first second : String} (hnames : first ≠ second) {value other : Value}
    (h : value.IsReadable) (hother : other.IsReadable) :
    (object [(first, value), (second, other)]).IsReadable :=
  .object (by simpa using hnames) (by simpa using ⟨h, hother⟩)

/-- A list with one item is such a value if the item is. -/
theorem isReadable_singleton {item : Value} (h : item.IsReadable) : (list [item]).IsReadable :=
  .list (by simpa using h)

/-! ## Fields of different names -/

/-- The names of fields of which one was set are the same, or there is a new one among them. -/
theorem mem_names_set_iff {name key : String} {value : Value} {fields : List (String × Value)} :
    key ∈ (set name value fields).map Prod.fst ↔ key = name ∨ key ∈ fields.map Prod.fst := by
  induction fields with
  | nil => simp [set]
  | cons field rest ih =>
      rcases field with ⟨first, old⟩
      by_cases h : first = name
      · simp [set, h]
      · rw [set, if_neg h, List.map_cons, List.mem_cons, ih, List.map_cons, List.mem_cons]
        exact or_left_comm

/-- Fields of different names have different names when one of them is set. -/
theorem nodup_names_set (name : String) (value : Value) {fields : List (String × Value)}
    (h : (fields.map Prod.fst).Nodup) : ((set name value fields).map Prod.fst).Nodup := by
  induction fields with
  | nil => simp [set]
  | cons field rest ih =>
      rcases field with ⟨first, old⟩
      rw [List.map_cons, List.nodup_cons] at h
      by_cases hname : first = name
      · rw [set, if_pos hname, List.map_cons, List.nodup_cons]
        exact h
      · rw [set, if_neg hname, List.map_cons, List.nodup_cons, mem_names_set_iff, not_or]
        exact ⟨⟨hname, h.1⟩, ih h.2⟩

/-- A field is the one that was set, or it was there before. -/
theorem mem_set {name : String} {value : Value} {fields : List (String × Value)}
    {field : String × Value} (h : field ∈ set name value fields) :
    field.2 = value ∨ field ∈ fields := by
  induction fields with
  | nil => exact Or.inl (by rw [List.mem_singleton.mp h])
  | cons first rest ih =>
      rcases first with ⟨key, old⟩
      rw [set] at h
      split at h
      · rcases List.mem_cons.mp h with rfl | hrest
        · exact Or.inl rfl
        · exact Or.inr (List.mem_cons_of_mem _ hrest)
      · rcases List.mem_cons.mp h with rfl | hrest
        · exact Or.inr List.mem_cons_self
        · exact (ih hrest).imp id (List.mem_cons_of_mem _)

end Value

namespace Json

/-- Fields that are collected one after the other make an object that a text can denote, if each of
their values is such a value. -/
theorem isReadable_withoutRepeats {fields : List (String × Value)}
    (h : ∀ field ∈ fields, field.2.IsReadable) :
    (Value.object (withoutRepeats fields)).IsReadable := by
  induction fields using List.reverseRecOn with
  | nil => exact .object List.nodup_nil (List.forall_mem_nil _)
  | append_singleton fields field ih =>
      rcases field with ⟨name, value⟩
      rw [List.forall_mem_append] at h
      rw [withoutRepeats_concat]
      cases ih h.1 with
      | object distinct inside =>
          refine .object (Value.nodup_names_set name value distinct) fun field hfield => ?_
          rcases Value.mem_set hfield with heq | hmem
          · rw [heq]
            exact h.2 (name, value) (List.mem_singleton_self _)
          · exact inside field hmem

/-! ## What readers find -/

variable {α β : Type}

/-- Whether what is read from the start of a text, if anything is, has a property. -/
def Finds (p : α → Prop) (result : Except ReadError (α × List Char)) : Prop :=
  ∀ a rest, result = .ok (a, rest) → p a

namespace Finds

variable {p : α → Prop} {q : β → Prop}

theorem ok {a : α} (h : p a) (rest : List Char) : Finds p (.ok (a, rest)) := by
  rintro _ _ ⟨⟩
  exact h

theorem error (e : ReadError) : Finds p (.error e) := by
  rintro _ _ ⟨⟩

/-- The second of two readings may go by what the first one found. -/
theorem bind {first : Except ReadError (α × List Char)}
    {next : α × List Char → Except ReadError (β × List Char)} (hfirst : Finds p first)
    (hnext : ∀ a rest, p a → Finds q (next (a, rest))) : Finds q (first >>= next) := by
  cases first with
  | error e => exact .error e
  | ok result =>
      rcases result with ⟨a, rest⟩
      exact hnext a rest (hfirst a rest rfl)

end Finds

/-- A number that is read is such a value. -/
theorem isReadable_readNumber (negative : Bool) (s : List Char) :
    Finds Value.IsReadable (readNumber maxDigits negative s) := by
  unfold readNumber
  dsimp only
  generalize (if s.head? == some '0' then ['0'] else s.takeWhile Text.isAsciiDigit) = whole
  split
  · exact .error _
  · split
    · split
      · next hn => exact .ok (.int (natAbs_lt_of_readInteger hn)) _
      · exact .error _
    · exact .ok (Value.isReadable_ofDigits _ _ _ _) _

/-- A word or a number that is read is such a value. -/
theorem isReadable_readScalar (s : List Char) :
    Finds Value.IsReadable (readScalar maxDigits s) := by
  unfold readScalar
  dsimp only
  split
  · next found hfound =>
      rcases List.exists_of_findSome?_eq_some hfound with ⟨⟨word, value⟩, hmem, hword⟩
      rcases Option.map_eq_some_iff.mp hword with ⟨rest, _, rfl⟩
      refine .ok ?_ rest
      simp only [List.mem_cons, List.not_mem_nil, or_false, Prod.mk.injEq] at hmem
      rcases hmem with h | h | h | h | h | h <;> rw [h.2]
      · exact .null
      · exact .bool true
      · exact .bool false
      · exact .float fun _ => rfl
      · exact .float fun h => absurd h (by rw [Binary64.infinity, Binary64.isNaN_ofWord]; simp)
      · exact .float fun h => absurd h (by rw [Binary64.infinity, Binary64.isNaN_ofWord]; simp)
  · split
    · exact isReadable_readNumber true _
    · exact isReadable_readNumber false s

mutual

/-- What is read at the start of a text is a value that a text can denote. -/
theorem isReadable_readValue :
    ∀ (fuel : Nat) (s : List Char), Finds Value.IsReadable (readValue maxDigits fuel s)
  | 0, _ => .error _
  | fuel + 1, s => by
      unfold readValue
      split
      · refine .bind (p := fun _ => True) (fun _ _ _ => trivial) fun content after _ => ?_
        exact .ok (.text content) after
      · split
        · exact .ok (.list (List.forall_mem_nil _)) _
        · exact (isReadable_readItems fuel _).bind fun items after h => .ok (.list h) after
      · split
        · exact .ok (.object List.nodup_nil (List.forall_mem_nil _)) _
        · refine (isReadable_readFields fuel _).bind fun fields after h => ?_
          exact .ok (isReadable_withoutRepeats h) after
      · exact isReadable_readScalar s

/-- So are the items of a list. -/
theorem isReadable_readItems : ∀ (fuel : Nat) (s : List Char),
    Finds (fun items => ∀ item ∈ items, item.IsReadable) (readItems maxDigits fuel s)
  | 0, _ => .error _
  | fuel + 1, s => by
      unfold readItems
      refine (isReadable_readValue fuel s).bind fun item rest hitem => ?_
      dsimp only
      split
      · exact .ok (List.forall_mem_singleton.mpr hitem) _
      · refine (isReadable_readItems fuel _).bind fun items after hitems => ?_
        exact .ok (List.forall_mem_cons.mpr ⟨hitem, hitems⟩) after
      · exact .error _

/-- So are the values in the fields of an object. -/
theorem isReadable_readFields : ∀ (fuel : Nat) (s : List Char),
    Finds (fun fields => ∀ field ∈ fields, field.2.IsReadable) (readFields maxDigits fuel s)
  | 0, _ => .error _
  | fuel + 1, s => by
      unfold readFields
      split
      · refine .bind (p := fun _ => True) (fun _ _ _ => trivial) fun name rest _ => ?_
        dsimp only
        split
        · refine (isReadable_readValue fuel _).bind fun value rest hvalue => ?_
          dsimp only
          split
          · exact .ok (by simpa using hvalue) _
          · refine (isReadable_readFields fuel _).bind fun fields after hfields => ?_
            have hfield : (name, value).2.IsReadable := hvalue
            refine .ok ?_ after
            exact List.forall_mem_cons.mpr ⟨hfield, hfields⟩
          · exact .error _
        · exact .error _
      · exact .error _

end

/-- A value that is read from a whole text is one that a text can denote. -/
theorem isReadable_of_read {text : String} {value : Value} (h : read text = .ok value) :
    value.IsReadable := by
  rw [read, readBounded] at h
  cases hvalue : readValue maxDigits (text.length + 1) (skipBlanks text.toList) with
  | error e =>
      rw [hvalue] at h
      contradiction
  | ok result =>
      rcases result with ⟨found, rest⟩
      have hfound := isReadable_readValue _ _ found rest hvalue
      rw [hvalue] at h
      simp only [bind, Except.bind] at h
      split at h
      · rcases Except.ok.inj h with rfl
        exact hfound
      · contradiction

end Json

end FilterQuery
