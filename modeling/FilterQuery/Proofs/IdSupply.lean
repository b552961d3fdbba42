import FilterQuery.IdSupply

/-!
# Identifiers that were drawn

A supply of identifiers only moves forward.  What was given out on the way from one supply to a
later one is a list of identifiers, and longer ways are put together of shorter ones.

Main results:

- `mint_eq`: minting gives out one identifier.
- `draws_add`: what is given out on a way of two parts is given out on one part after the other.
- `drawn_advance`: what was given out is recovered from where the supply stands.
-/

namespace FilterQuery.IdSupply

/-- The supply after a number of draws. -/
def advance (supply : IdSupply) (count : Nat) : IdSupply :=
  { supply with next := supply.next + count }

/-- The identifiers of the next draws. -/
def draws (supply : IdSupply) (count : Nat) : List String :=
  (List.range count).map fun draw => supply.identifier (supply.next + draw)

/-- What was given out before a supply became another one. -/
def drawn (supply left : IdSupply) : List String :=
  supply.draws (left.next - supply.next)

@[simp]
theorem draws_zero (supply : IdSupply) : supply.draws 0 = [] :=
  rfl

/-- Minting gives out one identifier. -/
theorem mint_eq (supply : IdSupply) :
    supply.draws 1 = [supply.mint.1] ∧ supply.mint.2 = supply.advance 1 :=
  ⟨rfl, rfl⟩

@[simp]
theorem next_advance (supply : IdSupply) (count : Nat) :
    (supply.advance count).next = supply.next + count :=
  rfl

/-- A draw gives the same identifier wherever the supply stands. -/
@[simp]
theorem identifier_advance (supply : IdSupply) (count : Nat) :
    (supply.advance count).identifier = supply.identifier :=
  rfl

/-- Two ways forward are one. -/
theorem advance_advance (supply : IdSupply) (first second : Nat) :
    (supply.advance first).advance second = supply.advance (first + second) := by
  simp only [advance, Nat.add_assoc]

/-- What is given out on a way of two parts is given out on one part after the other. -/
theorem draws_add (supply : IdSupply) (first second : Nat) :
    supply.draws (first + second) = supply.draws first ++ (supply.advance first).draws second := by
  have hsecond : (supply.advance first).draws second =
      (List.range second).map fun draw => supply.identifier (supply.next + (first + draw)) := by
    simp only [draws, identifier_advance, next_advance, Nat.add_assoc]
  rw [hsecond, draws, draws, List.range_add, List.map_append, List.map_map]
  rfl

/-- What was given out is recovered from where the supply stands. -/
@[simp]
theorem drawn_advance (supply : IdSupply) (count : Nat) :
    supply.drawn (supply.advance count) = supply.draws count := by
  rw [drawn, next_advance, Nat.add_sub_cancel_left]

end FilterQuery.IdSupply
