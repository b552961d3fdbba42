import FilterQuery.Text.Hex

/-!
# Identifiers

Nodes that come without an identifier are given one: a fixed stem, an underscore and twelve
hexadecimal digits of a number that is drawn for it.  Nothing is assumed about the numbers that
are drawn; where identifiers have to be new, that is a condition of its own.  The draws are
counted, and the supply is handed from call to call.
-/

namespace FilterQuery

/-- Where identifiers come from: their stem, and the number of every draw. -/
structure IdSource where
  stem : String
  draw : Nat → Nat := id

/-- With a stem alone the numbers are drawn one after the other. -/
instance : Coe String IdSource := ⟨fun stem => { stem }⟩

/-- The identifiers that have not been given out yet. -/
structure IdSupply where
  source : IdSource
  next : Nat

namespace IdSupply

/-- The identifier of a draw. -/
def identifier (supply : IdSupply) (draw : Nat) : String :=
  supply.source.stem ++ "_" ++ String.ofList (Text.hexDigits 12 (supply.source.draw draw))

/-- A new identifier, and the supply without it. -/
def mint (supply : IdSupply) : String × IdSupply :=
  (supply.identifier supply.next, { supply with next := supply.next + 1 })

end IdSupply

end FilterQuery
