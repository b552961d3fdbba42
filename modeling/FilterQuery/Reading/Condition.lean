import FilterQuery.Reading.Words

/-!
# Reading conditions and rows

Every field of a condition may be missing.  The fields that go by two words have two spellings, of
which the one in records counts if both are there.  The relation of a row is also read from the
field `logic`.
-/

namespace FilterQuery.Reading

/-- A value of any form. -/
def value (input : Input) : Reading Value :=
  pure input.toValue

/-- One end of a range. -/
def bound (side : Side) (inclusiveSpellings limitSpellings : List String)
    (fields : List (String × Input)) : Reading Bound :=
  Bound.mk <$> field inclusiveSpellings fields (pure false) (inclusive side)
    <*> field limitSpellings fields (pure (.text "")) value

/-- The condition that the fields of an object describe. -/
def condition (fields : List (String × Input)) : Reading Condition :=
  (fun _ id name op val lower upper => Condition.mk id name op val lower upper)
    <$> kind "condition" fields
    <*> identifier fields
    <*> field ["field"] fields (pure "") text
    <*> field ["operator"] fields (pure none) operator
    <*> field ["value"] fields (pure (.text "")) value
    <*> bound .lower ["minOperator", "min_operator"] ["minValue", "min_value"] fields
    <*> bound .upper ["maxOperator", "max_operator"] ["maxValue", "max_value"] fields

/-- The row that the fields of an object describe. -/
def rowFields (fields : List (String × Input)) : Reading Row :=
  Row.mk <$> condition fields
    <*> field ["relation", "logic"] fields (pure none) relation

/-- A condition, where one that was built before is taken as it is. -/
def leaf : Input → Reading Leaf
  | .node (.leaf l) => pure l
  | .object fields => Leaf.plain <$> condition fields
  | _ => fail .notObject

/-- A row, where one that was built before is taken as it is. -/
def row : Input → Reading Row
  | .node (.leaf (.row r)) => pure r
  | .object fields => rowFields fields
  | _ => fail .notObject

/-- Items one after the other, counted from `index`. -/
def itemsFrom {α : Type} (read : Input → Reading α) (index : Nat) : List Input → Reading (List α)
  | [] => pure []
  | input :: rest =>
      List.cons <$> (read input).within (.item index) <*> itemsFrom read (index + 1) rest

/-- A list of rows. -/
def rows : Input → Reading (List Row)
  | .list items => itemsFrom row 0 items
  | _ => fail .notList

/-- The row that an item of a list is, if it was built before. -/
def builtRow? : Input → Option Row
  | .node (.leaf (.row r)) => some r
  | _ => none

/-- What an item of a list is read from: a row or a condition that was built before counts as its
fields by their plain names. -/
def restated : Input → Input
  | .node (.leaf (.plain c)) => .object (Input.ofFields c.fields)
  | .node (.leaf (.row r)) => .object (Input.ofFields r.fields)
  | input => input

/-- The items of a list that mixes rows with plain conditions and data.  Where all of them are rows
that were built before, they are taken as they are.  As soon as one is not, all of them are read,
also those that were built before; a condition states no relation then. -/
def mixedItems (items : List Input) : Reading (List Row) :=
  match items.mapM builtRow? with
  | some built => pure built
  | none => itemsFrom row 0 (items.map restated)

/-- The items of what is given in the place of a list: a text counts as its characters and an
object as its keys, none of which is a row. -/
def itemsOf? : Input → Option (List Input)
  | .list items => some items
  | .text s => some (s.toList.map fun c => .text (String.singleton c))
  | .object fields => some (fields.map fun (key, _) => .text key)
  | _ => none

/-- A list that mixes rows with plain conditions and data. -/
def mixedRows (input : Input) : Reading (List Row) :=
  match itemsOf? input with
  | some items => mixedItems items
  | none => fail .notList

end FilterQuery.Reading
