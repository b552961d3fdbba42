import FilterQuery.CommandLine
import FilterQuery.Proofs.Canonical
import FilterQuery.Proofs.Json.RoundTrip
import FilterQuery.Proofs.UpdatedLeaf

/-!
# Filters that are read from texts

What is read from a text goes from there into the conditions of a filter, and from the conditions
into the query document.  On the way values are only left out, coerced, or taken apart into items,
and documents give different names to the fields of an object.  So the document of a filter that was
read from a text can be written as a text again, and that text denotes it.

Main results:

- `Coercion.isReadable_coerce`: a value that a text can denote is coerced to one.
- `Filter.isReadable_document`: so is the document of a filter whose conditions hold such values.
- `Reading.ensures_node`: a node that is read from such a value holds such values.
- `CommandLine.isReadable_of_fileFilter`: so does a filter in a file.
-/

namespace FilterQuery

open Number

/-! ## Values of conditions -/

namespace Coercion

/-- What is written as a number becomes a value that a text can denote. -/
theorem isReadable_value {numeral : Numeral} {value : Value} (h : numeral.value = .ok value) :
    value.IsReadable := by
  unfold Numeral.value at h
  split at h
  · rcases Except.ok.inj h with rfl
    exact Value.isReadable_ofDigits _ _ _ _
  · rcases Traversal.map_eq_ok_iff.mp h with ⟨n, hn, rfl⟩
    exact .int (natAbs_lt_of_readInteger hn)

/-- A value that a text can denote is coerced to one. -/
theorem isReadable_coerce {field : String} {value result : Value} (hvalue : value.IsReadable)
    (h : coerce field value = .ok result) : result.IsReadable := by
  unfold coerce at h
  split at h
  · rcases Except.ok.inj h with rfl
    exact hvalue
  · split at h
    · split at h
      · exact isReadable_value h
      · rcases Except.ok.inj h with rfl
        exact hvalue
    · rcases Except.ok.inj h with rfl
      exact hvalue

/-- The values that such a value stands for are such values. -/
theorem isReadable_of_mem_asList {value item : Value} (h : value.IsReadable)
    (hitem : item ∈ asList value) : item.IsReadable := by
  cases h with
  | null => contradiction
  | text s =>
      rcases List.mem_map.mp hitem with ⟨part, _, rfl⟩
      exact .text part
  | list inside => exact inside item (List.mem_of_mem_filter hitem)
  | bool b =>
      rw [List.mem_singleton.mp hitem]
      exact .bool b
  | int short =>
      rw [List.mem_singleton.mp hitem]
      exact .int short
  | float absent =>
      rw [List.mem_singleton.mp hitem]
      exact .float absent
  | object distinct inside =>
      rw [List.mem_singleton.mp hitem]
      exact .object distinct inside

end Coercion

namespace Condition

/-- Whether a text can denote each of the values that a condition holds. -/
structure IsReadable (c : Condition) : Prop where
  value : c.value.IsReadable
  lower : c.lower.limit.IsReadable
  upper : c.upper.limit.IsReadable

/-- The limit of a bound that the query carries is such a value if the one that was given is. -/
theorem isReadable_of_coerceBound {field : String} {bound result : Bound}
    (hlimit : bound.limit.IsReadable) (h : coerceBound field bound = .ok (some result)) :
    result.limit.IsReadable := by
  unfold coerceBound at h
  split at h
  · cases h
  · rcases Traversal.map_eq_ok_iff.mp h with ⟨limit, hcoerced, heq⟩
    rcases Option.some.inj heq with rfl
    exact Coercion.isReadable_coerce hlimit hcoerced

end Condition

/-! ## Documents of clauses -/

/-- The bounds of a range have different names, and limits that a text can denote if those are. -/
theorem isReadable_bounds {lower upper : Option Bound}
    (hlower : ∀ bound, lower = some bound → bound.limit.IsReadable)
    (hupper : ∀ bound, upper = some bound → bound.limit.IsReadable) :
    (Value.object ((lower.map (Bound.document .lower)).toList ++
      (upper.map (Bound.document .upper)).toList)).IsReadable := by
  cases lower with
  | none =>
      cases upper with
      | none => exact .object List.nodup_nil (List.forall_mem_nil _)
      | some most => exact Value.isReadable_single _ (hupper most rfl)
  | some least =>
      cases upper with
      | none => exact Value.isReadable_single _ (hlower least rfl)
      | some most =>
          have hnames : ∀ below above : Bool,
              Side.lower.keyword below ≠ Side.upper.keyword above := by decide
          exact Value.isReadable_pair (hnames least.inclusive most.inclusive) (hlower least rfl)
            (hupper most rfl)

/-- So is the test for a pattern if the pattern is. -/
theorem isReadable_wildcard (field : String) {pattern : Value} (h : pattern.IsReadable) :
    (Primitive.wildcard field pattern).document.IsReadable :=
  Value.isReadable_single _
    (Value.isReadable_single _ (Value.isReadable_pair (by decide) h (.bool true)))

namespace Comparison

variable {comparison : Comparison} {p : Primitive}

/-- What a comparison with such values asks for is such a value. -/
theorem isReadable_primitive (hcondition : comparison.condition.IsReadable)
    (h : comparison.primitive = .ok p) : p.document.IsReadable := by
  obtain ⟨c, op⟩ := comparison
  cases op with
  | equal | notEqual =>
      change c.equality = .ok p at h
      unfold Condition.equality at h
      split at h
      · rcases Traversal.map_eq_ok_iff.mp h with ⟨value, hcoerced, rfl⟩
        exact Value.isReadable_single _
          (Value.isReadable_single _ (Coercion.isReadable_coerce hcondition.value hcoerced))
      · rcases Except.ok.inj h with rfl
        exact Value.isReadable_single _ (Value.isReadable_single _ hcondition.value)
  | oneOf | noneOf =>
      rcases Traversal.map_eq_ok_iff.mp h with ⟨values, hvalues, rfl⟩
      refine Value.isReadable_single _ (Value.isReadable_single _ (.list fun value hmem => ?_))
      rcases Traversal.exists_mem_of_mapM_eq_ok hvalues hmem with ⟨item, hitem, hcoerced⟩
      exact Coercion.isReadable_coerce
        (Coercion.isReadable_of_mem_asList hcondition.value hitem) hcoerced
  | present | absent =>
      rcases Except.ok.inj h with rfl
      exact Value.isReadable_single _ (Value.isReadable_single _ (.text _))
  | range =>
      rcases Traversal.bind_eq_ok_iff.mp h with ⟨lower, hlower, h⟩
      rcases Traversal.bind_eq_ok_iff.mp h with ⟨upper, hupper, h⟩
      rcases Except.ok.inj h with rfl
      refine Value.isReadable_single _ (Value.isReadable_single _ (isReadable_bounds ?_ ?_))
      · rintro bound rfl
        exact Condition.isReadable_of_coerceBound hcondition.lower hlower
      · rintro bound rfl
        exact Condition.isReadable_of_coerceBound hcondition.upper hupper
  | startsWith =>
      change c.beginning = .ok p at h
      unfold Condition.beginning at h
      split at h
      · rcases Except.ok.inj h with rfl
        exact Value.isReadable_single _ (Value.isReadable_single _ hcondition.value)
      · rcases Traversal.map_eq_ok_iff.mp h with ⟨text, _, rfl⟩
        exact isReadable_wildcard c.field (.text _)
  | wildcard =>
      rcases Except.ok.inj h with rfl
      exact isReadable_wildcard c.field hcondition.value
  | queryString =>
      rcases Except.ok.inj h with rfl
      exact Value.isReadable_single _
        (Value.isReadable_pair (by decide) (.text c.field) hcondition.value)

/-- The clause of a comparison with such values is such a value. -/
theorem isReadable_clause {clause : Clause} (hcondition : comparison.condition.IsReadable)
    (h : comparison.clause = .ok clause) : clause.document.IsReadable := by
  rw [clause_eq_map_primitive] at h
  rcases Traversal.map_eq_ok_iff.mp h with ⟨p, hp, rfl⟩
  have hprimitive := isReadable_primitive hcondition hp
  split
  · rw [Clause.document]
    exact Value.isReadable_single _
      (Value.isReadable_single _ (Value.isReadable_singleton hprimitive))
  · rw [Clause.document]
    exact hprimitive

end Comparison

/-- Such values are joined by a relation to such a value. -/
theorem Relation.isReadable_document (relation : Relation) {parts : List Value}
    (h : ∀ part ∈ parts, part.IsReadable) : (relation.document parts).IsReadable := by
  cases relation with
  | and => exact Value.isReadable_single _ (Value.isReadable_single _ (.list h))
  | or =>
      have hone : (1 : Int).natAbs < Nat.pow 10 maxDigits := by
        rw [Int.natAbs_one, Nat.pow_eq]
        exact Nat.one_lt_pow (by decide) (by decide)
      exact Value.isReadable_single _ (Value.isReadable_pair (by decide) (.list h) (.int hone))

/-- A formula of such clauses is read as such a clause. -/
theorem Formula.isReadable_clauseOf {formula : Formula Clause}
    (h : ∀ clause ∈ formula.atoms, clause.document.IsReadable) :
    formula.clauseOf.document.IsReadable := by
  induction formula with
  | atom clause =>
      rw [clauseOf_atom]
      exact h clause (List.mem_singleton_self clause)
  | junction relation parts ih =>
      rw [clauseOf_junction, Clause.document, Clause.documents_eq_map, List.map_map]
      refine Relation.isReadable_document relation fun document hdocument => ?_
      rcases List.mem_map.mp hdocument with ⟨part, hpart, rfl⟩
      refine ih part hpart fun clause hclause => h clause ?_
      rw [atoms_junction]
      exact List.mem_flatMap.mpr ⟨part, hpart, hclause⟩

namespace Filter

/-- Whether a text can denote each of the values that the conditions of a filter hold. -/
def IsReadable (filter : Filter) : Prop :=
  ∀ c ∈ filter.conditions, c.IsReadable

/-- A text can denote the document of a filter if it can denote the values in its conditions. -/
theorem isReadable_document {default : Relation} {filter : Filter} {document : Value}
    (hfilter : filter.IsReadable) (h : filter.document default = .ok document) :
    document.IsReadable := by
  rcases Traversal.map_eq_ok_iff.mp h with ⟨found, hfound, rfl⟩
  cases found with
  | none =>
      exact Value.isReadable_single _
        (Value.isReadable_single _ (.object List.nodup_nil (List.forall_mem_nil _)))
  | some clause =>
      refine Value.isReadable_single _ ?_
      rcases exists_formula_of_clause? hfound with ⟨formula, rfl, _, hatoms⟩
      refine Formula.isReadable_clauseOf fun atom hatom => ?_
      rcases hatoms atom hatom with ⟨c, hc, comparison, hcomparison, hclause⟩
      refine Comparison.isReadable_clause ?_ hclause
      rcases Condition.ready_of_comparison? hcomparison with ⟨rfl, _⟩
      exact hfilter _ hc

end Filter

/-! ## Readings of such values -/

namespace Input

/-- Whether data is a value that a text can denote. -/
def IsReadable (input : Input) : Prop :=
  ∃ value : Value, value.IsReadable ∧ input = .ofValue value

/-- The fields of such an object are such values. -/
theorem isReadable_of_mem_ofFields {fields : List (String × Value)}
    (h : ∀ field ∈ fields, field.2.IsReadable) :
    ∀ field ∈ ofFields fields, field.2.IsReadable := by
  induction fields with
  | nil => exact List.forall_mem_nil _
  | cons field rest ih =>
      rcases field with ⟨name, value⟩
      rw [List.forall_mem_cons] at h
      rw [ofFields, List.forall_mem_cons]
      exact ⟨⟨value, h.1, rfl⟩, ih h.2⟩

/-- A field that is found is one of the fields. -/
theorem mem_of_find? {spellings : List String} {fields : List (String × Input)} {name : String}
    {input : Input} (h : find? spellings fields = some (name, input)) :
    (name, input) ∈ fields := by
  rcases List.exists_of_findSome?_eq_some h with ⟨spelling, _, hfound⟩
  rcases Option.map_eq_some_iff.mp hfound with ⟨found, hget, heq⟩
  rcases Prod.mk.inj heq with ⟨rfl, rfl⟩
  exact mem_of_get? hget

end Input

namespace Reading

variable {α β : Type} {p : α → Prop} {q : β → Prop} {fields : List (String × Input)}

/-- Whether everything that a reading gives has a property. -/
def Ensures (p : α → Prop) (reading : Reading α) : Prop :=
  ∀ ids a left, reading.run ids = .ok (a, left) → p a

namespace Ensures

theorem pure {a : α} (h : p a) : Ensures p (Pure.pure a) := by
  rintro _ _ _ ⟨⟩
  exact h

theorem fail (fault : Fault) : Ensures p (Reading.fail fault) :=
  fun _ _ _ hrun => absurd hrun run_fail_ne_ok

theorem within {step : Step} {reading : Reading α} (h : Ensures p reading) :
    Ensures p (Reading.within step reading) :=
  fun ids a left hrun => h ids a left (run_within_eq_ok_iff.mp hrun)

/-- What is done to a result may use what is known of it. -/
theorem map {f : α → β} {reading : Reading α} (h : Ensures p reading) (hf : ∀ a, p a → q (f a)) :
    Ensures q (f <$> reading) := by
  intro ids b left hrun
  rcases run_map_eq_ok_iff.mp hrun with ⟨a, ha, rfl⟩
  exact hf a (h ids a left ha)

/-- Of two readings side by side the result of the one is known when it meets that of the other. -/
theorem seq {f : Reading (α → β)} {reading : Reading α}
    (hf : Ensures (fun g => ∀ a, p a → q (g a)) f) (h : Ensures p reading) :
    Ensures q (f <*> reading) := by
  intro ids b left hrun
  rcases run_seq_eq_ok_iff.mp hrun with ⟨g, middle, a, hg, ha, rfl⟩
  exact hf ids g middle hg a (h middle a left ha)

/-- Nothing needs to be known of a reading whose result does not matter. -/
theorem trivial (reading : Reading α) : Ensures (fun _ => True) reading :=
  fun _ _ _ _ => True.intro

/-- A field is read as it is when it is there, and left out otherwise. -/
theorem field {spellings : List String} {absent : Reading α} {read : Input → Reading α}
    (hfields : ∀ field ∈ fields, field.2.IsReadable) (habsent : Ensures p absent)
    (hread : ∀ value : Value, value.IsReadable → Ensures p (read (.ofValue value))) :
    Ensures p (Reading.field spellings fields absent read) := by
  unfold Reading.field
  split
  · next name input hfound =>
      rcases hfields _ (Input.mem_of_find? hfound) with ⟨value, hvalue, heq⟩
      obtain rfl : input = .ofValue value := heq
      exact (hread value hvalue).within
  · exact habsent

/-- What a reading gives with any supply has the property. -/
theorem of_gives {reading : Reading α} (h : Ensures p reading) {a : α} (ha : Gives reading a) :
    p a :=
  h ⟨"", 0⟩ a _ (ha _)

end Ensures

/-- The value in a field is one that a text can denote, also where it is left out. -/
theorem ensures_value (hfields : ∀ field ∈ fields, field.2.IsReadable) (spellings : List String) :
    Ensures Value.IsReadable (field spellings fields (pure (.text "")) value) := by
  refine .field hfields (.pure (.text "")) fun given hgiven => .pure ?_
  rwa [Input.toValue_ofValue]

/-- A condition that is read from such values holds such values. -/
theorem ensures_condition (hfields : ∀ field ∈ fields, field.2.IsReadable) :
    Ensures Condition.IsReadable (condition fields) := by
  intro ids c left hrun
  have hparts := (run_condition_eq_ok_iff.mp hrun).2
  exact ⟨(ensures_value hfields _).of_gives hparts.value,
    (ensures_value hfields _).of_gives hparts.lower,
    (ensures_value hfields _).of_gives hparts.upper⟩

/-- A row that is read from such a value holds such values. -/
theorem ensures_row {value : Value} (h : value.IsReadable) :
    Ensures (fun r => r.toCondition.IsReadable) (row (.ofValue value)) := by
  cases h with
  | object _ inside =>
      refine .seq (.map (ensures_condition (Input.isReadable_of_mem_ofFields inside)) ?_)
        (.trivial _)
      exact fun c hc _ _ => hc
  | null | bool | int | float | text | list => exact .fail _

/-- What is known of every item is known of the list. -/
theorem ensures_itemsFrom {read : Input → Reading α} {items : List Value}
    (h : ∀ item ∈ items, Ensures p (read (.ofValue item))) (index : Nat) :
    Ensures (fun found => ∀ a ∈ found, p a) (itemsFrom read index (Input.ofItems items)) := by
  induction items generalizing index with
  | nil => exact .pure (List.forall_mem_nil _)
  | cons item rest ih =>
      rw [List.forall_mem_cons] at h
      refine .seq (.map h.1.within ?_) (ih h.2 (index + 1))
      exact fun a ha others hothers => List.forall_mem_cons.mpr ⟨ha, hothers⟩

/-- Rows that are read from such a value hold such values. -/
theorem ensures_rows {value : Value} (h : value.IsReadable) :
    Ensures (fun rs => ∀ r ∈ rs, r.toCondition.IsReadable) (rows (.ofValue value)) := by
  cases h with
  | list inside => exact ensures_itemsFrom (fun item hitem => ensures_row (inside item hitem)) 0
  | null | bool | int | float | text | object => exact .fail _

/-! ## Trees of such values -/

/-- Whether a text can denote each of the values in the conditions of a node. -/
def HoldsReadable (n : Node) : Prop :=
  ∀ c ∈ n.conditions, c.IsReadable

/-- What is known of the nodes in a list of children is known of the children. -/
theorem ensures_nodesFrom {default : Relation} {items : List Value}
    (h : ∀ item ∈ items, Ensures HoldsReadable (node default (.ofValue item))) (index : Nat) :
    Ensures (fun ns => ∀ n ∈ ns, HoldsReadable n)
      (nodesFrom default index (Input.ofItems items)) := by
  induction items generalizing index with
  | nil =>
      rw [Input.ofItems, nodesFrom]
      exact .pure (List.forall_mem_nil _)
  | cons item rest ih =>
      rw [List.forall_mem_cons] at h
      rw [Input.ofItems, nodesFrom]
      refine .seq (.map h.1.within ?_) (ih h.2 (index + 1))
      exact fun n hn others hothers => List.forall_mem_cons.mpr ⟨hn, hothers⟩

/-- What is known of the children in every field is known of those of a group. -/
theorem ensures_childrenField {default : Relation} {fields : List (String × Value)}
    (h : ∀ field ∈ fields,
      Ensures (fun ns => ∀ n ∈ ns, HoldsReadable n) (children default (.ofValue field.2))) :
    Ensures (fun ns => ∀ n ∈ ns, HoldsReadable n)
      (childrenField default (Input.ofFields fields)) := by
  induction fields with
  | nil =>
      rw [Input.ofFields, childrenField]
      exact .pure (List.forall_mem_nil _)
  | cons field rest ih =>
      rcases field with ⟨key, value⟩
      rw [List.forall_mem_cons] at h
      rw [Input.ofFields, childrenField]
      split
      · exact h.1.within
      · exact ih h.2

/-- What is no object is no node. -/
theorem ensures_node_of_ne {p : Node → Prop} (default : Relation) {value : Value}
    (h : ∀ fields, value ≠ .object fields) : Ensures p (node default (.ofValue value)) := by
  cases value with
  | object fields => exact absurd rfl (h fields)
  | _ =>
      rw [Input.ofValue, node]
      · exact .within (.fail _)
      all_goals simp

/-- What is no list has no children. -/
theorem ensures_children_of_ne {p : List Node → Prop} (default : Relation) {value : Value}
    (h : ∀ items, value ≠ .list items) : Ensures p (children default (.ofValue value)) := by
  cases value with
  | list items => exact absurd rfl (h items)
  | _ =>
      rw [Input.ofValue, children]
      · exact .fail _
      all_goals simp

/-- A node, and the children of a group, that are read from such a value hold such values. -/
theorem ensures_node_and_children (default : Relation) {value : Value} (h : value.IsReadable) :
    Ensures HoldsReadable (node default (.ofValue value)) ∧
      Ensures (fun ns => ∀ n ∈ ns, HoldsReadable n) (children default (.ofValue value)) := by
  induction h with
  | object _ inside ih =>
      have hfields := Input.isReadable_of_mem_ofFields inside
      refine ⟨?_, ensures_children_of_ne default (by simp)⟩
      rw [Input.ofValue, node]
      split
      · refine .within (.map (ensures_condition hfields) fun c hc => ?_)
        intro found hfound
        rw [Node.conditions_leaf, List.mem_singleton] at hfound
        exact hfound ▸ hc
      · refine .within (.seq ?_ (ensures_childrenField fun field hfield => (ih field hfield).2))
        refine .seq (.seq (.map (.trivial _) ?_) (.trivial _)) (.trivial _)
        intro _ _ id _ relation _ ns hns c hc
        rw [Node.conditions_group] at hc
        rcases List.mem_flatMap.mp hc with ⟨n, hn, hc⟩
        exact hns n hn c hc
      · exact .fail _
  | list _ ih =>
      refine ⟨ensures_node_of_ne default (by simp), ?_⟩
      rw [Input.ofValue, children]
      exact ensures_nodesFrom (fun item hitem => (ih item hitem).1) 0
  | null | bool | int | float | text =>
      exact ⟨ensures_node_of_ne default (by simp), ensures_children_of_ne default (by simp)⟩

/-- A node that is read from such a value holds such values. -/
theorem ensures_node (default : Relation) {value : Value} (h : value.IsReadable) :
    Ensures HoldsReadable (node default (.ofValue value)) :=
  (ensures_node_and_children default h).1

/-- So does a tree. -/
theorem ensures_tree (default : Relation) {value : Value} (h : value.IsReadable) :
    Ensures (fun t => ∀ n, t.root = some n → HoldsReadable n) (tree default (.ofValue value)) := by
  cases h with
  | @object fields _ inside =>
      have hfields := Input.isReadable_of_mem_ofFields inside
      have hmade : Ensures (fun made : Option Node → Tree => ∀ root : Option Node,
          (∀ n, root = some n → HoldsReadable n) →
            ∀ n, (made root).root = some n → HoldsReadable n)
          (Tree.mk <$> identifier (Input.ofFields fields)) :=
        .map (.trivial _) fun id _ root hroot => hroot
      refine hmade.seq (.field hfields (.pure (by simp)) fun given hgiven => ?_)
      split
      · exact .pure (by simp)
      · refine .map (ensures_node default hgiven) fun n hn other hother => ?_
        exact Option.some.inj hother ▸ hn
  | null | bool | int | float | text | list => exact .fail _

end Reading

/-! ## Filter files -/

/-- A filter that is read from such a value holds such values. -/
theorem CommandLine.isReadable_of_fileFilter {default : Relation} {flat : Bool} {value : Value}
    {filter : Filter} {ids left : IdSupply} (h : value.IsReadable)
    (hrun : (fileFilter default flat (.ofValue value)).run ids = .ok (filter, left)) :
    filter.IsReadable := by
  have hensures : Reading.Ensures Filter.IsReadable (fileFilter default flat (.ofValue value)) := by
    unfold fileFilter
    split
    · refine .map (Reading.ensures_rows h) fun rs hrows c hc => ?_
      rcases List.mem_map.mp hc with ⟨r, hr, rfl⟩
      exact hrows r hr
    · split
      · refine .map (Reading.ensures_tree default h) fun t htree c hc => ?_
        cases hroot : t.root with
        | none =>
            rw [hroot] at hc
            contradiction
        | some n =>
            rw [hroot] at hc
            exact htree n hroot c hc
      · exact .map (Reading.ensures_node default h) fun n hn => hn
  exact hensures ids filter left hrun

end FilterQuery
