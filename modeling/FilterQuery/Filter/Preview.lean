import FilterQuery.Filter
import FilterQuery.Text.Markup

/-!
# Previews

A preview shows a filter to people, as plain text or as markup.  Conditions that cannot be used are
not shown, and a group in which one child is left is shown as that child.  Parentheses stand around
a group inside a group of the other relation.

Main results:

- `Rendered.within_of_relation_none`: a single condition is never put in parentheses.
-/

namespace FilterQuery

open Number

/-! ## Labels of conditions -/

/-- How people read a bound. -/
def Bound.phrase (side : Side) (bound : Bound) : String :=
  match side, bound.inclusive with
  | .lower, false => "Greater Than"
  | .lower, true => "Greater Than/Equal To"
  | .upper, false => "Less Than"
  | .upper, true => "Less Than/Equal To"

/-- The label of a bound, if it was filled in. -/
def Bound.label? (side : Side) (bound : Bound) : Except DigitLimit (Option String) :=
  if bound.limit.isBlank then .ok none
  else bound.limit.display.map fun text => some (bound.phrase side ++ " " ++ text)

namespace Condition

/-- What a condition compares with, in words. -/
def comparedWith (c : Condition) : Except DigitLimit String :=
  match c.operator with
  | some .present | some .absent => .ok "exists"
  | some .range => do
      let lower ← c.lower.label? .lower
      let upper ← c.upper.label? .upper
      let bounds := lower.toList ++ upper.toList
      return if bounds.isEmpty then "-" else String.intercalate " and " bounds
  | some .startsWith => quoted .startsWith
  | some .wildcard => quoted .wildcard
  | some .queryString => quoted .queryString
  | _ => Coercion.displayGiven c.value
where
  /-- The value in quotes after the name of the operator. -/
  quoted (op : Operator) : Except DigitLimit String :=
    (Coercion.displayGiven c.value).map fun text => op.name ++ " \"" ++ text ++ "\""

/-- The label of a condition; it does not show whether the condition is negated. -/
def label (c : Condition) : Except DigitLimit String :=
  c.comparedWith.map fun text => c.field ++ ": " ++ text

end Condition

/-! ## Styles -/

/-- How the parts of a preview are written. -/
structure Style where
  condition : Condition → Except DigitLimit String
  joiner : Relation → String
  group : String → String

namespace Style

/-- Plain text. -/
def plain : Style where
  condition c := c.label.map fun label => if c.isNegated then "NOT " ++ label else label
  joiner relation := " " ++ relation.keyword ++ " "
  group inner := "(" ++ inner ++ ")"

/-- Text in a tag of a class of its own. -/
def span (kind content : String) : String :=
  "<span class=\"preview-" ++ kind ++ "\">" ++ content ++ "</span>"

/-- Markup, in which every part has a class of its own. -/
def markup : Style where
  condition c := c.label.map fun label =>
    let field := span "field" (Text.escapeMarkup label)
    if c.isNegated then span "not" "NOT" ++ " " ++ field else field
  joiner relation := " " ++ span "operator" relation.keyword ++ " "
  group inner := span "group" ("(" ++ inner ++ ")")

end Style

/-! ## Previews of trees -/

/-- The text of a node, with its relation if it joins two or more parts. -/
structure Rendered where
  text : String
  relation : Option Relation

namespace Rendered

/-- The text of a child in a group; a child that joins parts by the other relation is wrapped. -/
def within (style : Style) (relation : Relation) (child : Rendered) : String :=
  match child.relation with
  | some inner => if inner = relation then child.text else style.group child.text
  | none => child.text

/-- What is left of the children of a group, joined by its relation. -/
def join (style : Style) (relation : Relation) : List Rendered → Option Rendered
  | [] => none
  | [child] => some child
  | children => some
      { text := String.intercalate (style.joiner relation) (children.map (within style relation))
        relation := some relation }

/-- Two children and more are joined. -/
theorem join_cons_cons (style : Style) (relation : Relation) (first second : Rendered)
    (rest : List Rendered) :
    join style relation (first :: second :: rest) =
      some ⟨String.intercalate (style.joiner relation)
        ((first :: second :: rest).map (within style relation)), some relation⟩ :=
  rfl

/-- A single condition is never put in parentheses. -/
@[simp]
theorem within_of_relation_none (style : Style) (relation : Relation) (text : String) :
    within style relation ⟨text, none⟩ = text :=
  rfl

end Rendered

namespace Node

mutual

/-- The text of a node, if anything in it can be used. -/
def render (style : Style) : Node → Except DigitLimit (Option Rendered)
  | leaf l =>
      if l.condition.isUsable then
        (style.condition l.condition).map fun text => some { text, relation := none }
      else .ok none
  | group _ relation children => (renderAll style children).map (Rendered.join style relation)

/-- What is shown of several nodes. -/
def renderAll (style : Style) : List Node → Except DigitLimit (List Rendered)
  | [] => .ok []
  | child :: rest => do
      let first ← child.render style
      let others ← renderAll style rest
      return first.toList ++ others

end

/-- The preview of a node.  Inside a text that is joined by a relation of its own, the whole is
wrapped if it is joined by the other one. -/
def preview (style : Style) (ambient : Option Relation) (node : Node) :
    Except DigitLimit String :=
  (node.render style).map fun
    | none => ""
    | some rendered =>
        match ambient with
        | some outer => rendered.within style outer
        | none => rendered.text

end Node

/-! ## Previews of filters -/

/-- The preview of rows. -/
def Rows.preview (style : Style) (default : Relation) (rows : List Row) :
    Except DigitLimit String := do
  let kept := usable rows
  let texts ← kept.mapM fun row => style.condition row.toCondition
  let joined := joinAll (fun relation => String.intercalate (style.joiner relation))
    (fun relation nested text below =>
      text ++ style.joiner relation ++ if nested then style.group below else below)
    texts (relations default kept)
  return joined.getD ""

/-- The preview of a filter.  Only a tree is shown inside of another text. -/
def Filter.preview (style : Style) (default : Relation) (ambient : Option Relation) :
    Filter → Except DigitLimit String
  | tree none => .ok ""
  | tree (some root) => root.preview style ambient
  | rows rs => Rows.preview style default rs

end FilterQuery
