import FilterQuery.IdSupply
import FilterQuery.Input
import FilterQuery.Issue

/-!
# Reading data from outside

A reading turns data into a domain value or reports every issue that it finds, not only the first
one: two readings side by side report the issues of both, in order.  A reading may mint
identifiers for nodes that come without one.

Main results:

- `run_seq_ok`: a reading that succeeds hands its supply of identifiers to the next one.
-/

namespace FilterQuery

/-- A way to obtain a value, given the identifiers that are left. -/
structure Reading (α : Type) where
  run : IdSupply → Except (List Issue) (α × IdSupply)

namespace Reading

variable {α β : Type}

/-- Needs no data. -/
protected def pure (a : α) : Reading α :=
  ⟨fun ids => .ok (a, ids)⟩

/-- Two readings side by side. -/
protected def seq (f : Reading (α → β)) (x : Unit → Reading α) : Reading β :=
  ⟨fun ids =>
    match f.run ids with
    | .ok (g, rest) => ((x ()).run rest).map fun (a, left) => (g a, left)
    | .error issues =>
        match (x ()).run ids with
        | .ok _ => .error issues
        | .error more => .error (issues ++ more)⟩

instance : Applicative Reading where
  pure := Reading.pure
  seq := Reading.seq

/-- Reports one issue, at the place where the reading stands. -/
def fail (fault : Fault) : Reading α :=
  ⟨fun _ => .error [⟨[], fault⟩]⟩

/-- A reading of what stands at one step from here. -/
def within (step : Step) (reading : Reading α) : Reading α :=
  ⟨fun ids => (reading.run ids).mapError fun issues => issues.map (·.within step)⟩

/-- A new identifier. -/
def mint : Reading String :=
  ⟨fun ids => .ok ids.mint⟩

/-- The result of a reading as the result of a call. -/
def call (reading : Reading α) (ids : IdSupply) : Except Error (α × IdSupply) :=
  (reading.run ids).mapError .invalid

/-- Reads a field by the first of its spellings that the object has. -/
def field (spellings : List String) (fields : List (String × Input)) (absent : Reading α)
    (read : Input → Reading α) : Reading α :=
  match Input.find? spellings fields with
  | some (name, input) => (read input).within (.field name)
  | none => absent

/-- A reading that succeeds hands its supply of identifiers to the next one. -/
theorem run_seq_ok {f : Reading (α → β)} {x : Reading α} {ids middle left : IdSupply} {g : α → β}
    {a : α} (hf : f.run ids = .ok (g, middle)) (hx : x.run middle = .ok (a, left)) :
    (f <*> x).run ids = .ok (g a, left) := by
  simp [Seq.seq, Reading.seq, hf, hx, Except.map]

end Reading

end FilterQuery
