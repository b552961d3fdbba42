import FilterQuery.Proofs.Filled
import FilterQuery.Proofs.Reading
import FilterQuery.Reading.Node
import Mathlib.Logic.Relator

/-!
# Filters without their identifiers

A node that comes without an identifier gets one that was drawn, so the same data may be read as
different filters.  They differ in identifiers alone: whether a reading succeeds, and everything
else that it gives, does not depend on the supply.  A query says nothing of identifiers, so these
filters have the same document.

Main results:

- `Filter.document_withoutIds`: a filter has the same document without its identifiers.
- `Reading.steady_condition`, `Reading.steady_node`, `Reading.steady_tree`: two supplies make no
  difference but in identifiers.
-/

namespace FilterQuery

open Function

/-! ## Taking identifiers away -/

/-- A condition without its identifier. -/
def Condition.withoutId (c : Condition) : Condition :=
  { c with id := "" }

/-- A row without its identifier. -/
def Row.withoutId (row : Row) : Row :=
  { row with toCondition := row.toCondition.withoutId }

/-- A leaf without its identifier. -/
def Leaf.withoutId : Leaf → Leaf
  | plain c => plain c.withoutId
  | row r => row r.withoutId

@[simp]
theorem Leaf.condition_withoutId (l : Leaf) : l.withoutId.condition = l.condition.withoutId := by
  cases l <;> rfl

/-- A condition has the same clause without its identifier. -/
theorem Condition.clause?_withoutId (c : Condition) : c.withoutId.clause? = c.clause? := by
  have hsame : c.withoutId.comparison? =
      c.comparison?.map fun comparison => ⟨c.withoutId, comparison.operator⟩ :=
    c.comparison?_withId ""
  unfold clause?
  rw [hsame]
  cases h : c.comparison? with
  | none => rfl
  | some comparison =>
      rcases comparison with ⟨condition, op⟩
      obtain rfl : condition = c := (comparison?_eq_some h).1
      cases op <;> rfl

namespace Node

mutual

/-- A node without any identifiers. -/
def withoutIds : Node → Node
  | leaf l => leaf l.withoutId
  | group _ relation children => group "" relation (withoutIdsAll children)

/-- Several nodes without any identifiers. -/
def withoutIdsAll : List Node → List Node
  | [] => []
  | child :: rest => child.withoutIds :: withoutIdsAll rest

end

/-- The identifiers in a group are those of its children and its own. -/
theorem withoutIds_group (id : String) (relation : Relation) (children : List Node) :
    (group id relation children).withoutIds = group "" relation (children.map withoutIds) := by
  rw [withoutIds]
  congr 1
  induction children with
  | nil => rfl
  | cons child rest ih => rw [withoutIdsAll, List.map_cons, ih]

end Node

namespace Filter

/-- A filter without any identifiers. -/
def withoutIds : Filter → Filter
  | tree root => tree (root.map Node.withoutIds)
  | rows rs => rows (rs.map Row.withoutId)

/-- A filter has the same document without its identifiers. -/
theorem document_withoutIds (default : Relation) (filter : Filter) :
    filter.withoutIds.document default = filter.document default := by
  unfold document clause?
  cases filter with
  | tree root =>
      cases root with
      | none => rfl
      | some node =>
          have hnode : node.withoutIds.compile.value = node.compile.value := by
            refine node.value_compile_of_shape (fun l => ?_) fun id relation children => ?_
            · refine ⟨l.withoutId, rfl, ?_⟩
              rw [Leaf.condition_withoutId, Condition.clause?_withoutId]
            · exact ⟨"", Node.withoutIds_group id relation children⟩
          exact congrArg (Except.map queryDocument) hnode
  | rows rs =>
      have hrows := Rows.value_compile_map (f := Row.withoutId)
        (fun row => row.toCondition.clause?_withoutId) (fun _ => rfl) default rs
      exact congrArg (Except.map queryDocument) hrows

end Filter

/-! ## Readings from two supplies -/

namespace Reading

variable {α β : Type}

/-- Two outcomes of a reading that are both failures, or results that are the same in some sense. -/
inductive Alike (same : α → α → Prop) :
    Except (List Issue) (α × IdSupply) → Except (List Issue) (α × IdSupply) → Prop
  | ok {a b : α} (h : same a b) (left other : IdSupply) :
      Alike same (.ok (a, left)) (.ok (b, other))
  | error (issues others : List Issue) : Alike same (.error issues) (.error others)

/-- A reading that gives the same, in some sense, with any two supplies of identifiers. -/
def Steady (same : α → α → Prop) (reading : Reading α) : Prop :=
  ∀ ids others, Alike same (reading.run ids) (reading.run others)

namespace Steady

variable {same : α → α → Prop} {also : β → β → Prop}

theorem pure {a : α} (h : same a a) : Steady same (Pure.pure a) :=
  fun ids others => .ok h ids others

theorem fail (fault : Fault) : Steady same (Reading.fail fault) :=
  fun _ _ => .error _ _

/-- A reading that ignores the supply gives just the same. -/
theorem of_ignoresSupply {reading : Reading α} (h : IgnoresSupply reading) :
    Steady Eq reading := by
  rcases h with ⟨result, hresult⟩
  intro ids others
  rw [hresult, hresult]
  cases result with
  | ok a => exact .ok rfl ids others
  | error issues => exact .error issues issues

/-- What is the same in one sense may be the same in a wider one. -/
theorem mono {wider : α → α → Prop} (hwider : ∀ a b, same a b → wider a b) {reading : Reading α}
    (h : Steady same reading) : Steady wider reading := by
  intro ids others
  have hrun := h ids others
  generalize reading.run ids = first, reading.run others = second at hrun ⊢
  cases hrun with
  | ok hsame left other => exact .ok (hwider _ _ hsame) left other
  | error issues others => exact .error issues others

/-- Of two readings side by side, the first one gives functions that keep what is the same. -/
theorem seq {f : Reading (α → β)} {x : Reading α} (hf : Steady (Relator.LiftFun same also) f)
    (hx : Steady same x) : Steady also (f <*> x) := by
  intro ids others
  have hfirst := hf ids others
  simp only [Seq.seq, Reading.seq]
  generalize f.run ids = first, f.run others = second at hfirst ⊢
  cases hfirst with
  | ok h left other =>
      have hsecond := hx left other
      dsimp only
      generalize x.run left = third, x.run other = fourth at hsecond ⊢
      cases hsecond with
      | ok hsame left other => exact .ok (h hsame) left other
      | error issues others => exact .error issues others
  | error issues more =>
      have hsecond := hx ids others
      dsimp only
      generalize x.run ids = third, x.run others = fourth at hsecond ⊢
      cases hsecond with
      | ok hsame left other => exact .error issues more
      | error => exact .error _ _

theorem map {f : α → β} {x : Reading α} (hf : Relator.LiftFun same also f f)
    (hx : Steady same x) : Steady also (f <$> x) :=
  (Steady.pure hf).seq hx

theorem within {step : Step} {reading : Reading α} (h : Steady same reading) :
    Steady same (Reading.within step reading) := by
  intro ids others
  have hrun := h ids others
  simp only [Reading.within]
  generalize reading.run ids = first, reading.run others = second at hrun ⊢
  cases hrun with
  | ok hsame left other => exact .ok hsame left other
  | error issues others => exact .error _ _

theorem field {spellings : List String} {fields : List (String × Input)} {absent : Reading α}
    {read : Input → Reading α} (habsent : Steady same absent)
    (hread : ∀ input, Steady same (read input)) :
    Steady same (Reading.field spellings fields absent read) := by
  unfold Reading.field
  split
  · exact (hread _).within
  · exact habsent

end Steady

/-- Whether a node has an identifier that can be read does not depend on the supply. -/
theorem steady_identifier (fields : List (String × Input)) :
    Steady (fun _ _ => True) (identifier fields) := by
  refine .field (fun ids others => .ok trivial _ _) fun input => ?_
  exact (Steady.of_ignoresSupply (ignoresSupply_text input)).mono fun _ _ _ => trivial

/-! ## Conditions and rows -/

/-- Two supplies make no difference to a condition but in its identifier. -/
theorem steady_condition (fields : List (String × Input)) :
    Steady (Eq on Condition.withoutId) (condition fields) := by
  have hbound (side : Side) (inclusiveSpellings limitSpellings : List String) :=
    Steady.of_ignoresSupply (ignoresSupply_bound side inclusiveSpellings limitSpellings fields)
  refine .seq ?_ (hbound _ _ _)
  refine .seq ?_ (hbound _ _ _)
  refine .seq ?_ (.of_ignoresSupply (.field (.pure _) ignoresSupply_value))
  refine .seq ?_ (.of_ignoresSupply (.field (.pure _) ignoresSupply_operator))
  refine .seq ?_ (.of_ignoresSupply (.field (.pure _) ignoresSupply_text))
  refine .seq ?_ (steady_identifier fields)
  refine .map ?_ (.of_ignoresSupply (ignoresSupply_kind _ fields))
  -- All parts are the same but for the identifier, of which nothing is known.
  rintro _ _ rfl id other _ _ _ rfl _ _ rfl _ _ rfl _ _ rfl _ _ rfl
  rfl

/-- Two supplies make no difference to a row but in its identifier. -/
theorem steady_row (input : Input) : Steady (Eq on Row.withoutId) (row input) := by
  unfold row
  split
  · exact .pure rfl
  · refine .seq (.map ?_ (steady_condition _))
      (.of_ignoresSupply (.field (.pure _) ignoresSupply_relation))
    rintro c other hsame relation _ rfl
    exact congrArg (Row.mk · relation) hsame
  · exact .fail _

/-- What is the same for every item is the same for the list. -/
theorem steady_itemsFrom {view : α → β} {read : Input → Reading α}
    (h : ∀ input, Steady (Eq on view) (read input)) (index : Nat) (items : List Input) :
    Steady (Eq on List.map view) (itemsFrom read index items) := by
  induction items generalizing index with
  | nil => exact .pure rfl
  | cons item rest ih =>
      refine .seq (.map ?_ (h item).within) (ih (index + 1))
      rintro a b hfirst as bs hrest
      exact congrArg₂ List.cons hfirst hrest

/-- Two supplies make no difference to rows but in their identifiers. -/
theorem steady_rows (input : Input) : Steady (Eq on List.map Row.withoutId) (rows input) := by
  unfold rows
  split
  · exact steady_itemsFrom steady_row 0 _
  · exact .fail _

/-! ## Trees -/

mutual

/-- Two supplies make no difference to a node but in identifiers. -/
theorem steady_node (default : Relation) :
    ∀ input, Steady (Eq on Node.withoutIds) (node default input)
  | .node n => by
      rw [node]
      exact .pure rfl
  | .object fields => by
      rw [node]
      split
      · refine .within (.map ?_ (steady_condition fields))
        rintro c other hsame
        exact congrArg (fun c => Node.leaf (.plain c)) hsame
      · refine .within (.seq ?_ (steady_childrenField default fields))
        refine .seq ?_ (.of_ignoresSupply (.field (.pure _) fun input =>
          .map (ignoresSupply_relation input)))
        refine .seq ?_ (steady_identifier fields)
        refine .map ?_ (.of_ignoresSupply (ignoresSupply_kind _ fields))
        rintro _ _ rfl id other _ relation _ rfl children others hsame
        change (Node.group id relation children).withoutIds =
          (Node.group other relation others).withoutIds
        rw [Node.withoutIds_group, Node.withoutIds_group, hsame]
      · exact .fail _
  | .null | .bool _ | .int _ | .float _ | .text _ | .bytes _ | .list _ => by
      rw [node]
      · exact .within (.fail _)
      all_goals simp

/-- Nor do they to the children among the fields of a group. -/
theorem steady_childrenField (default : Relation) :
    ∀ fields, Steady (Eq on List.map Node.withoutIds) (childrenField default fields)
  | [] => .pure rfl
  | (key, input) :: rest => by
      rw [childrenField]
      split
      · exact .within (steady_children default input)
      · exact steady_childrenField default rest

/-- Nor do they to a list of nodes. -/
theorem steady_children (default : Relation) :
    ∀ input, Steady (Eq on List.map Node.withoutIds) (children default input)
  | .list items => by
      rw [children]
      exact steady_nodesFrom default 0 items
  | .null | .bool _ | .int _ | .float _ | .text _ | .bytes _ | .object _ | .node _ => by
      rw [children]
      · exact .fail _
      all_goals simp

/-- Nor do they to nodes one after the other. -/
theorem steady_nodesFrom (default : Relation) :
    ∀ index items, Steady (Eq on List.map Node.withoutIds) (nodesFrom default index items)
  | _, [] => by
      rw [nodesFrom]
      exact .pure rfl
  | index, item :: rest => by
      rw [nodesFrom]
      refine .seq (.map ?_ (steady_node default item).within)
        (steady_nodesFrom default (index + 1) rest)
      rintro a b hfirst as bs hrest
      exact congrArg₂ List.cons hfirst hrest

end

/-- Nor do they to a tree. -/
theorem steady_tree (default : Relation) (input : Input) :
    Steady (Eq on fun tree : Tree => tree.root.map Node.withoutIds) (tree default input) := by
  have hmk : Relator.LiftFun (fun _ _ => True) (Relator.LiftFun (Eq on Option.map Node.withoutIds)
      (Eq on fun tree : Tree => tree.root.map Node.withoutIds)) Tree.mk Tree.mk :=
    fun _ _ _ _ _ hsame => hsame
  unfold tree
  split
  · refine .seq (.map hmk (steady_identifier _)) (.field (.pure rfl) fun input => ?_)
    split
    · exact .pure rfl
    · exact .map (fun _ _ hsame => congrArg some hsame) (steady_node default _)
  · exact .fail _

end Reading

end FilterQuery
